/-
VmSim.Lib.Transition — deterministic machines that answer labels with
replies, and their runs.

A machine is a partial function `step`; `none` means that the label may
not be given in this state. `run` feeds it a list of labels and collects
the replies. `Run` is the same as a relation, one label at a time with
its history (newest first), for runs whose labels all satisfy a condition
on the state they are given in; `Run.invariant` is its induction
principle, and `run_simulation` and, where no label is refused,
`run_total` carry runs from one machine to another.
`runChecked` computes such a run.
-/
namespace VmSim.Lib

universe u v w

variable {σ : Type u} {τ : Type v} {L R : Type w}

def run (step : σ → L → Option (R × σ)) (s : σ) : List L → Option (List R × σ)
  | [] => some ([], s)
  | l :: ls => do
    let (r, s') ← step s l
    let (rs, s'') ← run step s' ls
    return (r :: rs, s'')

theorem run_cons {step : σ → L → Option (R × σ)} {s s' s'' : σ} {l : L} {ls : List L} {r : R}
    {rs : List R} (h : step s l = some (r, s')) (hs : run step s' ls = some (rs, s'')) :
    run step s (l :: ls) = some (r :: rs, s'') := by
  simp [run, h, hs]

theorem run_cons_inv {step : σ → L → Option (R × σ)} {s s'' : σ} {l : L} {ls : List L}
    {rs : List R} (h : run step s (l :: ls) = some (rs, s'')) :
    ∃ r s' rs', step s l = some (r, s') ∧ run step s' ls = some (rs', s'') ∧ rs = r :: rs' := by
  cases hstep : step s l with
  | none => simp [run, hstep] at h
  | some rs' =>
    obtain ⟨r, s'⟩ := rs'
    cases hrest : run step s' ls with
    | none => simp [run, hstep, hrest] at h
    | some rest =>
      obtain ⟨rs', s₂⟩ := rest
      simp [run, hstep, hrest] at h
      exact ⟨r, s', rs', rfl, by rw [hrest, h.2], h.1.symm⟩

/-- A step-by-step simulation carries over to runs. -/
theorem run_simulation {stepA : σ → L → Option (R × σ)} {stepB : τ → L → Option (R × τ)}
    (rel : σ → τ → Prop)
    (hstep : ∀ s t l r s', rel s t → stepA s l = some (r, s') →
      ∃ t', stepB t l = some (r, t') ∧ rel s' t') :
    ∀ (ls : List L) (s : σ) (t : τ) (rs : List R) (s' : σ), rel s t →
      run stepA s ls = some (rs, s') → ∃ t', run stepB t ls = some (rs, t') ∧ rel s' t' := by
  intro ls
  induction ls with
  | nil =>
    intro s t rs s' hrel hrun
    cases hrun
    exact ⟨t, rfl, hrel⟩
  | cons l ls ih =>
    intro s t rs s' hrel hrun
    obtain ⟨r, s₁, rs', hs, hrest, rfl⟩ := run_cons_inv hrun
    obtain ⟨t₁, ht, hrel₁⟩ := hstep s t l r s₁ hrel hs
    obtain ⟨t', hrun', hrel'⟩ := ih s₁ t₁ rs' s' hrel₁ hrest
    exact ⟨t', run_cons ht hrun', hrel'⟩

/-- Two total machines that reply alike as long as `rel` holds. The number
in `rel` is that of the labels still to come; the labels satisfy `ok`. -/
theorem run_total {stepA : σ → L → R × σ} {stepB : τ → L → R × τ} (rel : Nat → σ → τ → Prop)
    (ok : L → Prop) (hstep : ∀ k s t l, ok l → rel (k + 1) s t →
      (stepA s l).1 = (stepB t l).1 ∧ rel k (stepA s l).2 (stepB t l).2) (ls : List L) :
    ∀ (s : σ) (t : τ), (∀ l ∈ ls, ok l) → rel ls.length s t →
      ∃ rs s' t', run (fun s l => some (stepA s l)) s ls = some (rs, s') ∧
        run (fun t l => some (stepB t l)) t ls = some (rs, t') ∧ rel 0 s' t' := by
  induction ls with
  | nil => exact fun s t _ h => ⟨[], s, t, rfl, rfl, h⟩
  | cons l ls ih =>
    intro s t hok h
    obtain ⟨hl, hls⟩ := List.forall_mem_cons.mp hok
    obtain ⟨hreply, hrel⟩ := hstep _ s t l hl h
    obtain ⟨rs, s', t', hs, ht, hend⟩ := ih _ _ hls hrel
    refine ⟨(stepA s l).1 :: rs, s', t', run_cons rfl hs, ?_, hend⟩
    rw [hreply]
    exact run_cons rfl ht

/-- Runs from `start` in which every label satisfies `ok` in the state it
is given in. -/
inductive Run (step : σ → L → Option (R × σ)) (ok : σ → L → Prop) (start : σ) :
    List (L × R) → σ → Prop where
  | start : Run step ok start [] start
  | next {history : List (L × R)} {s s' : σ} {l : L} {r : R} :
      Run step ok start history s → ok s l → step s l = some (r, s') →
      Run step ok start ((l, r) :: history) s'

theorem Run.invariant {step : σ → L → Option (R × σ)} {ok : σ → L → Prop} {start : σ}
    (inv : List (L × R) → σ → Prop) (hstart : inv [] start)
    (hstep : ∀ history s l r s', inv history s → ok s l → step s l = some (r, s') →
      inv ((l, r) :: history) s') :
    ∀ {history : List (L × R)} {s : σ}, Run step ok start history s → inv history s := by
  intro history s hrun
  induction hrun with
  | start => exact hstart
  | next _ hok hs ih => exact hstep _ _ _ _ _ ih hok hs

theorem Run.imp {step : σ → L → Option (R × σ)} {ok ok' : σ → L → Prop} {start : σ}
    (h : ∀ s l, ok s l → ok' s l) {history : List (L × R)} {s : σ}
    (hrun : Run step ok start history s) : Run step ok' start history s := by
  induction hrun with
  | start => exact .start
  | next _ hok hs ih => exact ih.next (h _ _ hok) hs

/-- Feeds the machine labels as long as they satisfy `ok`, and returns the
history, newest first, after `history`. -/
def runChecked (step : σ → L → Option (R × σ)) (ok : σ → L → Prop) [∀ s l, Decidable (ok s l)]
    (history : List (L × R)) (s : σ) : List L → Option (List (L × R) × σ)
  | [] => some (history, s)
  | l :: ls =>
    if ok s l then
      match step s l with
      | some (r, s') => runChecked step ok ((l, r) :: history) s' ls
      | none => none
    else none

theorem Run.of_runChecked {step : σ → L → Option (R × σ)} {ok : σ → L → Prop}
    [∀ s l, Decidable (ok s l)] {start : σ} (ls : List L) :
    ∀ {history history' : List (L × R)} {s s' : σ}, Run step ok start history s →
      runChecked step ok history s ls = some (history', s') → Run step ok start history' s' := by
  induction ls with
  | nil =>
    intro history history' s s' hrun h
    cases h
    exact hrun
  | cons l ls ih =>
    intro history history' s s' hrun h
    unfold runChecked at h
    split at h
    · rename_i hok
      split at h
      · rename_i r s₁ hs
        exact ih (hrun.next hok hs) h
      · cases h
    · cases h

end VmSim.Lib
