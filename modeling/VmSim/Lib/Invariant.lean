/-
VmSim.Lib.Invariant — invariants of computations.

`Keeps inv post c` is partial correctness with one predicate on the state
before and after: from a state that satisfies `inv`, `c` ends in such a
state whether it returns or fails, and a value it returns satisfies `post`.
Nothing is said where it faults; `Safe inv post c` also says that it does
not, and `Sure inv post c` that it returns. There is one rule for each way
to build a computation, so a proof follows the text of the function.
`Leads P c Q` is the triple with two predicates, and says nothing where `c`
fails either.
-/
import VmSim.Lib.Computation

namespace VmSim.Lib.Comp

variable {σ τ α β : Type} {inv : σ → Prop} {post : α → Prop} {c : Comp σ α}

def Keeps (inv : σ → Prop) (post : α → Prop) (c : Comp σ α) : Prop :=
  ∀ s, inv s → match c s with
    | .ok a s' => inv s' ∧ post a
    | .failed s' => inv s'
    | .fault => True

/-- Nothing is known of the value. -/
def anyValue (_ : α) : Prop := True

theorem Keeps.pure {a : α} (h : post a) : Keeps inv post (Pure.pure a) := fun _ hs => ⟨hs, h⟩

theorem Keeps.done {a : α} : Keeps inv anyValue (Pure.pure a : Comp σ α) := Keeps.pure trivial

theorem Keeps.fail : Keeps inv post (Comp.fail : Comp σ α) := fun _ hs => hs

theorem Keeps.fault : Keeps inv post (Comp.fault : Comp σ α) := fun _ _ => trivial

theorem Keeps.mono {post' : α → Prop} (h : Keeps inv post c) (hpost : ∀ a, post a → post' a) :
    Keeps inv post' c := by
  intro s hs
  have hend := h s hs
  revert hend
  cases c s with
  | ok a s' => exact fun hend => ⟨hend.1, hpost a hend.2⟩
  | failed s' => exact id
  | fault => exact id

theorem Keeps.any (h : Keeps inv post c) : Keeps inv anyValue c := h.mono fun _ _ => trivial

theorem Keeps.bind {f : α → Comp σ β} {post' : β → Prop} (h : Keeps inv post c)
    (hf : ∀ a, post a → Keeps inv post' (f a)) : Keeps inv post' (c >>= f) := by
  intro s hs
  have hend := h s hs
  rw [bind_run]
  revert hend
  cases c s with
  | ok a s' => exact fun hend => hf a hend.2 s' hend.1
  | failed s' => exact id
  | fault => exact id

/-- The value is not looked at. -/
theorem Keeps.andThen {f : α → Comp σ β} {post' : β → Prop} (h : Keeps inv post c)
    (hf : ∀ a, Keeps inv post' (f a)) : Keeps inv post' (c >>= f) := h.bind fun a _ => hf a

theorem Keeps.get : Keeps inv inv Comp.get := fun _ hs => ⟨hs, hs⟩

theorem Keeps.check (code : Int) : Keeps inv anyValue (Comp.check code) := by
  unfold Comp.check
  split
  · exact Keeps.done
  · exact Keeps.fail

theorem Keeps.failIf (condition : Bool) :
    Keeps inv (fun _ => condition = false) (Comp.failIf condition) := by
  cases condition with
  | false => exact Keeps.pure rfl
  | true => exact Keeps.fail

theorem Keeps.orFail (value : Option α) :
    Keeps inv (fun a => value = some a) (Comp.orFail value) := by
  cases value with
  | none => exact Keeps.fail
  | some a => exact Keeps.pure rfl

theorem Keeps.orFault (value : Option α) :
    Keeps inv (fun a => value = some a) (Comp.orFault value) := by
  cases value with
  | none => exact Keeps.fault
  | some a => exact Keeps.pure rfl

theorem Keeps.modify {f : σ → σ} (h : ∀ s, inv s → inv (f s)) :
    Keeps inv anyValue (Comp.modify f) := fun s hs => ⟨h s hs, trivial⟩

theorem Keeps.update {part : σ → τ} {put : σ → τ → σ} {f : τ → α × τ}
    (h : ∀ s, inv s → inv (put s (f (part s)).2)) : Keeps inv anyValue (Comp.update part put f) :=
  fun s hs => ⟨h s hs, trivial⟩

theorem Keeps.zoom {part : σ → τ} {put : σ → τ → σ} {c : Comp τ α}
    (h : ∀ s, inv s → match c (part s) with
      | .ok a t => inv (put s t) ∧ post a
      | .failed t => inv (put s t)
      | .fault => True) : Keeps inv post (Comp.zoom part put c) := by
  intro s hs
  have hend := h s hs
  unfold Comp.zoom
  revert hend
  cases c (part s) with
  | ok a t => exact id
  | failed t => exact id
  | fault => exact id

theorem Keeps.attempt (h : Keeps inv post c) : Keeps inv anyValue (Comp.attempt c) := by
  intro s hs
  have hend := h s hs
  unfold Comp.attempt
  revert hend
  cases c s with
  | ok a s' => exact fun hend => ⟨hend.1, trivial⟩
  | failed s' => exact fun hend => ⟨hend, trivial⟩
  | fault => exact id

theorem Keeps.onFailure {cleanup : Comp σ β} {post' : β → Prop} (h : Keeps inv post c)
    (hcleanup : Keeps inv post' cleanup) : Keeps inv post (Comp.onFailure c cleanup) := by
  intro s hs
  have hend := h s hs
  unfold Comp.onFailure
  cases hc : c s with
  | ok a s' =>
    rw [hc] at hend
    exact hend
  | failed s' =>
    rw [hc] at hend
    have hend' := hcleanup s' hend
    dsimp only
    cases hrun : cleanup s' with
    | ok b s'' =>
      rw [hrun] at hend'
      exact hend'.1
    | failed s'' =>
      rw [hrun] at hend'
      exact hend'
    | fault => trivial
  | fault => trivial

theorem Keeps.forEach {f : β → Comp σ Unit} {post' : Unit → Prop} (h : ∀ x, Keeps inv post' (f x)) :
    ∀ xs : List β, Keeps inv anyValue (Comp.forEach f xs)
  | [] => Keeps.done
  | x :: xs => (h x).andThen fun _ => Keeps.forEach h xs

/-- Whoever sees the reply sees a state that satisfies the invariant. -/
theorem Keeps.reply {R : Type} (h : Keeps inv post c) {reply : Option α → R} {s s' : σ} {r : R}
    (hs : inv s) (hrun : (c s).reply reply = some (r, s')) : inv s' := by
  have hend := h s hs
  revert hend hrun
  cases c s with
  | ok a t =>
    intro hrun hend
    cases hrun
    exact hend.1
  | failed t =>
    intro hrun hend
    cases hrun
    exact hend
  | fault =>
    intro hrun
    cases hrun

/-! ## Computations that do not fault -/

def Safe (inv : σ → Prop) (post : α → Prop) (c : Comp σ α) : Prop :=
  ∀ s, inv s → Ends c s fun result s' => inv s' ∧ ∀ a, result = some a → post a

theorem Safe.pure {a : α} (h : post a) : Safe inv post (Pure.pure a) :=
  fun _ hs => Ends.pure ⟨hs, fun _ e => Option.some.inj e ▸ h⟩

theorem Safe.done {a : α} : Safe inv anyValue (Pure.pure a : Comp σ α) := Safe.pure trivial

theorem Safe.fail : Safe inv post (Comp.fail : Comp σ α) :=
  fun _ hs => Ends.fail ⟨hs, fun _ e => by cases e⟩

theorem Safe.mono {post' : α → Prop} (h : Safe inv post c) (hpost : ∀ a, post a → post' a) :
    Safe inv post' c :=
  fun s hs => (h s hs).mono fun _ _ hend => ⟨hend.1, fun a e => hpost a (hend.2 a e)⟩

theorem Safe.any (h : Safe inv post c) : Safe inv anyValue c := h.mono fun _ _ => trivial

theorem Safe.bind {f : α → Comp σ β} {post' : β → Prop} (h : Safe inv post c)
    (hf : ∀ a, post a → Safe inv post' (f a)) : Safe inv post' (c >>= f) :=
  fun s hs => (h s hs).bind (fun a s' hend => hf a (hend.2 a rfl) s' hend.1)
    fun _ hend => ⟨hend.1, fun _ e => by cases e⟩

/-- The value is not looked at. -/
theorem Safe.andThen {f : α → Comp σ β} {post' : β → Prop} (h : Safe inv post c)
    (hf : ∀ a, Safe inv post' (f a)) : Safe inv post' (c >>= f) := h.bind fun a _ => hf a

theorem Safe.get : Safe inv inv Comp.get :=
  fun s hs => ⟨some s, s, rfl, hs, fun _ e => Option.some.inj e ▸ hs⟩

theorem Safe.check (code : Int) : Safe inv anyValue (Comp.check code) :=
  fun _ hs => Ends.check (fun _ => ⟨hs, fun _ _ => trivial⟩) fun _ => ⟨hs, fun _ _ => trivial⟩

theorem Safe.failIf (condition : Bool) :
    Safe inv (fun _ => condition = false) (Comp.failIf condition) :=
  fun _ hs => Ends.failIf (fun e => ⟨hs, fun _ _ => e⟩) fun _ => ⟨hs, fun _ e => by cases e⟩

theorem Safe.orFail (value : Option α) :
    Safe inv (fun a => value = some a) (Comp.orFail value) := by
  cases value with
  | none => exact Safe.fail
  | some a => exact Safe.pure rfl

/-- The value that a fault stands for is there. -/
theorem Safe.orFault {value : Option α} {a : α} (hvalue : value = some a) :
    Safe inv (· = a) (Comp.orFault value) := by
  rw [hvalue]
  exact Safe.pure rfl

theorem Safe.modify {f : σ → σ} (h : ∀ s, inv s → inv (f s)) :
    Safe inv anyValue (Comp.modify f) :=
  fun s hs => Ends.of_ok (modify_run f s) ⟨h s hs, fun _ _ => trivial⟩

theorem Safe.update {part : σ → τ} {put : σ → τ → σ} {f : τ → α × τ}
    (h : ∀ s, inv s → inv (put s (f (part s)).2)) : Safe inv anyValue (Comp.update part put f) :=
  fun s hs => Ends.of_ok (update_run part put f s) ⟨h s hs, fun _ _ => trivial⟩

theorem Safe.zoom {part : σ → τ} {put : σ → τ → σ} {c : Comp τ α}
    (h : ∀ s, inv s → Ends c (part s) fun result t =>
      inv (put s t) ∧ ∀ a, result = some a → post a) : Safe inv post (Comp.zoom part put c) :=
  fun s hs => Ends.zoom (h s hs)

theorem Safe.attempt (h : Safe inv post c) : Safe inv anyValue (Comp.attempt c) := by
  intro s hs
  obtain ⟨result, s', hrun, hend⟩ := h s hs
  exact Ends.of_ok hrun ⟨hend.1, fun _ _ => trivial⟩

theorem Safe.onFailure {cleanup : Comp σ β} {post' : β → Prop} (h : Safe inv post c)
    (hcleanup : Safe inv post' cleanup) : Safe inv post (Comp.onFailure c cleanup) :=
  fun s hs => (h s hs).onFailure (fun _ _ hend => hend) fun s' hend =>
    (hcleanup s' hend.1).mono fun _ _ hdone => ⟨hdone.1, fun _ e => by cases e⟩

theorem Safe.forEach {f : β → Comp σ Unit} {post' : Unit → Prop} (xs : List β) :
    (∀ x ∈ xs, Safe inv post' (f x)) → Safe inv anyValue (Comp.forEach f xs) := by
  induction xs with
  | nil => exact fun _ => Safe.done
  | cons x xs ih =>
    intro h
    obtain ⟨hx, hxs⟩ := List.forall_mem_cons.mp h
    exact hx.andThen fun _ => ih hxs

/-! ## Computations that return -/

def Sure (inv : σ → Prop) (post : α → Prop) (c : Comp σ α) : Prop :=
  ∀ s, inv s → Returns c s fun a s' => inv s' ∧ post a

theorem Safe.sure (h : Safe inv post c) (hok : ∀ s, inv s → ∃ a s', c s = .ok a s') :
    Sure inv post c := by
  intro s hs
  obtain ⟨a, s', hrun⟩ := hok s hs
  obtain ⟨result, t, hend, hinv, hpost⟩ := h s hs
  rw [attempt_ok hrun] at hend
  cases hend
  exact ⟨a, s', hrun, hinv, hpost a rfl⟩

theorem Sure.safe (h : Sure inv post c) : Safe inv post c :=
  fun s hs => (h s hs).ends fun _ _ hend => ⟨hend.1, fun _ e => Option.some.inj e ▸ hend.2⟩

theorem Sure.done {a : α} : Sure inv anyValue (Pure.pure a : Comp σ α) :=
  fun _ hs => Returns.pure ⟨hs, trivial⟩

theorem Sure.get : Sure inv inv Comp.get := fun _ hs => Returns.get ⟨hs, hs⟩

theorem Sure.bind {f : α → Comp σ β} {post' : β → Prop} (h : Sure inv post c)
    (hf : ∀ a, post a → Sure inv post' (f a)) : Sure inv post' (c >>= f) :=
  fun s hs => (h s hs).bind fun a s' hend => hf a hend.2 s' hend.1

theorem Sure.andThen {f : α → Comp σ β} {post' : β → Prop} (h : Sure inv post c)
    (hf : ∀ a, Sure inv post' (f a)) : Sure inv post' (c >>= f) := h.bind fun a _ => hf a

/-- Whoever tests the return code goes on. -/
theorem Sure.attempt (h : Safe inv post c) : Sure inv anyValue (Comp.attempt c) := by
  intro s hs
  obtain ⟨result, s', hrun, hend⟩ := h s hs
  exact ⟨result, s', hrun, hend.1, trivial⟩

theorem Sure.onFailure {cleanup : Comp σ β} (h : Sure inv post c) :
    Sure inv post (Comp.onFailure c cleanup) := fun s hs => (h s hs).onFailure

theorem Sure.forEach {f : β → Comp σ Unit} {post' : Unit → Prop} (h : ∀ x, Sure inv post' (f x))
    (xs : List β) : Sure inv anyValue (Comp.forEach f xs) := by
  induction xs with
  | nil => exact Sure.done
  | cons x xs ih => exact (h x).andThen fun _ => ih

/-! ## Triples -/

/-- Where `c`, run from a state that satisfies `P`, returns, `Q` holds. -/
def Leads (P : σ → Prop) (c : Comp σ α) (Q : α → σ → Prop) : Prop :=
  ∀ s a s', P s → c s = .ok a s' → Q a s'

variable {P : σ → Prop} {Q : α → σ → Prop}

theorem Leads.pure {a : α} (h : ∀ s, P s → Q a s) : Leads P (Pure.pure a : Comp σ α) Q := by
  intro s a' s' hs hrun
  cases hrun
  exact h s hs

theorem Leads.fault : Leads P (Comp.fault : Comp σ α) Q := fun _ _ _ _ hrun => by cases hrun

theorem Leads.bind {f : α → Comp σ β} {R : α → σ → Prop} {Q : β → σ → Prop} (h : Leads P c R)
    (hf : ∀ a, Leads (R a) (f a) Q) : Leads P (c >>= f) Q := by
  intro s b s' hs hrun
  rw [bind_run] at hrun
  cases hc : c s with
  | ok a t =>
    rw [hc] at hrun
    exact hf a t b s' (h s a t hs hc) hrun
  | failed t =>
    rw [hc] at hrun
    cases hrun
  | fault =>
    rw [hc] at hrun
    cases hrun

theorem Leads.mono {Q' : α → σ → Prop} (h : Leads P c Q) (hpost : ∀ a s, Q a s → Q' a s) :
    Leads P c Q' := fun s a s' hs hrun => hpost a s' (h s a s' hs hrun)

theorem Leads.of_pre {P' : σ → Prop} (h : Leads P c Q) (hpre : ∀ s, P' s → P s) :
    Leads P' c Q := fun s a s' hs hrun => h s a s' (hpre s hs) hrun

/-- A part of the precondition that does not depend on the state. -/
theorem Leads.given {fact : Prop} (h : fact → Leads P c Q) : Leads (fun s => fact ∧ P s) c Q :=
  fun s a s' hs hrun => h hs.1 s a s' hs.2 hrun

theorem Leads.choose {ι : Type} {P : ι → σ → Prop} (h : ∀ i, Leads (P i) c Q) :
    Leads (fun s => ∃ i, P i s) c Q := fun s a s' hs hrun =>
  hs.elim fun i hi => h i s a s' hi hrun

theorem Leads.orFail (value : Option α) :
    Leads P (Comp.orFail value) fun a s => value = some a ∧ P s := by
  intro s a s' hs hrun
  cases value with
  | none => cases hrun
  | some b =>
    cases hrun
    exact ⟨rfl, hs⟩

theorem Leads.failIf (condition : Bool) : Leads P (Comp.failIf condition) fun _ => P := by
  intro s a s' hs hrun
  cases condition with
  | true => cases hrun
  | false =>
    cases hrun
    exact hs

theorem Leads.forEach {f : β → Comp σ Unit} (h : ∀ x, Leads P (f x) fun _ => P) (xs : List β) :
    Leads P (Comp.forEach f xs) fun _ => P := by
  induction xs with
  | nil => exact Leads.pure fun _ hs => hs
  | cons x xs ih => exact (h x).bind fun _ => ih

/-- What is done where `c` fails does not matter. -/
theorem Leads.onFailure {cleanup : Comp σ β} (h : Leads P c Q) :
    Leads P (Comp.onFailure c cleanup) Q := by
  intro s a s' hs hrun
  unfold Comp.onFailure at hrun
  cases hc : c s with
  | ok b t =>
    rw [hc] at hrun
    cases hrun
    exact h s a s' hs hc
  | failed t =>
    rw [hc] at hrun
    dsimp only at hrun
    split at hrun
    · cases hrun
    · cases hrun
    · cases hrun
  | fault =>
    rw [hc] at hrun
    cases hrun

/-- Where a computation ends, it has kept what it keeps. -/
theorem Keeps.ends {post : α → Prop} {s : σ} {R : Option α → σ → Prop} (h : Keeps P post c)
    (hs : P s) (hends : Ends c s R) : Ends c s fun result s' => R result s' ∧ P s' := by
  have hend := h s hs
  rcases hends.outcome with ⟨a, s', hrun, hR⟩ | ⟨s', hrun, hR⟩
  · rw [hrun] at hend
    exact Ends.of_ok hrun ⟨hR, hend.1⟩
  · rw [hrun] at hend
    exact Ends.of_failed hrun ⟨hR, hend⟩

theorem Keeps.leads {post : α → Prop} (h : Keeps P post c) :
    Leads P c fun a s => post a ∧ P s := by
  intro s a s' hs hrun
  have hend := h s hs
  rw [hrun] at hend
  exact ⟨hend.2, hend.1⟩

end VmSim.Lib.Comp
