/-
VmSim.Lib.Scattered — requests that come back too late.

When no request is for one of the `n` keys before it, a memory of `n`
frames that replaces the page used least recently, the page loaded first,
or the page without a second chance, holds just these `n` keys: all three
do the same, and every request faults (`Scattered.recency`,
`Scattered.fifo`, `Scattered.clock`). A list that is read from end to end
again and again, and does not fit, is such a sequence
(`scattered_of_period`).
-/
import VmSim.Lib.Conservative
import VmSim.Lib.SecondChance

namespace VmSim.Lib

variable {κ : Type} [DecidableEq κ] {n : Nat} {k : κ} {ks : List κ}

/-- No key was among the `n` before it. -/
def Scattered (n : Nat) : List κ → Prop
  | [] => True
  | k :: ks => k ∉ ks.take n ∧ Scattered n ks

omit [DecidableEq κ] in
theorem take_window (hn : 0 < n) (k : κ) (ks : List κ) :
    (k :: ks.take n).take n = (k :: ks).take n := by
  obtain ⟨m, rfl⟩ := Nat.exists_eq_succ_of_ne_zero (Nat.ne_of_gt hn)
  rw [Nat.succ_eq_add_one, List.take_succ_cons, List.take_succ_cons, List.take_take,
    Nat.min_eq_left (Nat.le_succ m)]

/-! ## What the memories hold -/

/-- Removing a key that is not among the first changes none of them. -/
theorem take_filter_absent {l : List κ} : ∀ {n : Nat}, k ∉ l.take n →
    (l.filter fun k' => decide (k' ≠ k)).take n = l.take n := by
  induction l with
  | nil => intro n _; simp
  | cons a l ih =>
    intro n hk
    cases n with
    | zero => simp
    | succ n =>
      rw [List.take_succ_cons, List.mem_cons, not_or] at hk
      have hkeep : decide (a ≠ k) = true := by simpa using fun e => hk.1 e.symm
      rw [List.filter_cons_of_pos (p := fun k' => decide (k' ≠ k)) hkeep, List.take_succ_cons,
        List.take_succ_cons, ih hk.2]

theorem Scattered.recency (h : Scattered n ks) : (recency ks).take n = ks.take n := by
  induction ks with
  | nil => rfl
  | cons k ks ih =>
    have hrest := ih h.2
    cases n with
    | zero => simp
    | succ n =>
      have hk : k ∉ (Lib.recency ks).take n := fun hin =>
        h.1 (hrest ▸ mem_take_mono (Nat.le_succ n) hin)
      have htake := congrArg (List.take n) hrest
      rw [List.take_take, List.take_take, Nat.min_eq_left (Nat.le_succ n)] at htake
      rw [Lib.recency, List.take_succ_cons, List.take_succ_cons, take_filter_absent hk, htake]

theorem Scattered.fifo (h : Scattered n ks) (hn : 0 < n) : fifo n ks = ks.take n := by
  induction ks with
  | nil => rw [List.take_nil]; rfl
  | cons k ks ih =>
    have hrest := ih h.2
    rw [fifo_miss (hrest ▸ h.1), hrest, take_window hn]

/-- The bits that are not set come first. -/
theorem Scattered.clock (h : Scattered n ks) (hn : 0 < n) :
    (clock n ks).map Prod.fst = (ks.take n).reverse ∧
      ∃ X Y, clock n ks = unmark X ++ Y ∧ ∀ e ∈ Y, e.2 = true := by
  induction ks with
  | nil => exact ⟨by simp [Lib.clock], [], [], rfl, by simp⟩
  | cons k ks ih =>
    obtain ⟨hpages, X, Y, hbits, hset⟩ := ih h.2
    have hk : k ∉ (Lib.clock n ks).map Prod.fst := by
      rw [hpages, List.mem_reverse]
      exact h.1
    have hlast : ∀ e ∈ Y ++ [(k, true)], e.2 = true :=
      List.forall_mem_append.mpr ⟨hset, by simp⟩
    have hlength := congrArg List.length hpages
    rw [List.length_map, List.length_reverse] at hlength
    rcases Nat.lt_or_ge (Lib.clock n ks).length n with hlt | hge
    · rw [clock_load hk hlt]
      refine ⟨?_, X, Y ++ [(k, true)], by rw [hbits, List.append_assoc], hlast⟩
      rw [hlength, List.length_take] at hlt
      rw [List.map_append, hpages, List.take_of_length_le (by omega),
        List.take_of_length_le (by simp only [List.length_cons]; omega)]
      simp
    · -- the hand stops at the first page of the circle
      have hsweep : (sweep (Lib.clock n ks)).map Prod.fst =
            ((Lib.clock n ks).map Prod.fst).tail ∧
          ∃ X Y, sweep (Lib.clock n ks) = unmark X ++ Y ∧ ∀ e ∈ Y, e.2 = true := by
        rw [hbits]
        cases X with
        | nil =>
          rw [unmark, List.map_nil, List.nil_append, sweep_round hset, List.map_tail,
            map_fst_unmark]
          exact ⟨rfl, Y.tail, [], by simp [unmark], by simp⟩
        | cons e X =>
          have hstop : sweep (unmark (e :: X) ++ Y) = unmark X ++ Y ++ unmark [] :=
            sweep_stop (fun _ h => absurd h (List.not_mem_nil))
          rw [hstop]
          exact ⟨by simp [unmark], X, Y, by simp [unmark], hset⟩
      obtain ⟨hgone, X', Y', hbits', hset'⟩ := hsweep
      rw [clock_replace hk hge]
      refine ⟨?_, X', Y' ++ [(k, true)], by rw [hbits', List.append_assoc],
        List.forall_mem_append.mpr ⟨hset', by simp⟩⟩
      have hfull : (ks.take n).length = n := by
        rw [← hlength]
        exact Nat.le_antisymm (clock_length_le hn ks) hge
      rw [List.map_append, hgone, hpages, List.tail_reverse, ← take_window hn]
      obtain ⟨m, rfl⟩ := Nat.exists_eq_succ_of_ne_zero (Nat.ne_of_gt hn)
      rw [List.dropLast_eq_take, hfull, Nat.succ_eq_add_one, Nat.add_sub_cancel,
        List.take_succ_cons]
      simp

/-- Every request faults. -/
theorem Scattered.faultsOf {resident : List κ → Finset κ} (h : Scattered n ks)
    (hresident : ∀ ks, Scattered n ks → resident ks = (ks.take n).toFinset) :
    faultsOf resident ks = ks.length := by
  induction ks with
  | nil => rfl
  | cons k ks ih =>
    have hk : k ∉ resident ks := by
      rw [hresident ks h.2, List.mem_toFinset]
      exact h.1
    rw [Lib.faultsOf, ih h.2, if_neg hk, List.length_cons]

/-! ## Periods -/

omit [DecidableEq κ] in
theorem scattered_of_period {f : Nat → κ} (h : ∀ i j, i < j → j ≤ i + n → f i ≠ f j) (m : Nat) :
    Scattered n ((List.range m).reverse.map f) := by
  induction m with
  | zero => trivial
  | succ m ih =>
    rw [List.range_succ, List.reverse_concat, List.map_cons]
    refine ⟨fun hin => ?_, ih⟩
    obtain ⟨i, hi, hkey⟩ := List.mem_take_iff_getElem.mp hin
    simp only [List.length_map, List.length_reverse, List.length_range, Nat.lt_min] at hi
    simp only [List.getElem_map, List.getElem_reverse, List.getElem_range, List.length_range] at hkey
    exact h (m - 1 - i) m (by omega) (by omega) hkey

omit [DecidableEq κ] in
/-- A list that does not fit is read from end to end again and again. -/
theorem scattered_cyclic {P : Nat} (hP : n < P) {g : Nat → κ} (hg : Set.InjOn g (Set.Iio P))
    (m : Nat) : Scattered n ((List.range m).reverse.map fun i => g (i % P)) := by
  refine scattered_of_period (f := fun i => g (i % P)) (fun i j hlt hle heq => ?_) m
  have hpos : 0 < P := by omega
  have hmod : i % P = j % P := hg (Nat.mod_lt i hpos) (Nat.mod_lt j hpos) heq
  have hdiv : P ∣ j - i := Nat.dvd_of_mod_eq_zero (Nat.sub_mod_eq_zero_of_mod_eq hmod.symm)
  have hle' := Nat.le_of_dvd (by omega) hdiv
  omega

/-- What is read in some steps. -/
theorem card_cyclic {P : Nat} (hP : 0 < P) {g : Nat → κ} (hg : Set.InjOn g (Set.Iio P)) (m : Nat) :
    ((List.range m).map fun i => g (i % P)).toFinset.card = min P m := by
  have hread : ((List.range m).map fun i => g (i % P)).toFinset =
      (Finset.range (min P m)).image g := by
    ext key
    simp only [List.mem_toFinset, List.mem_map, List.mem_range, Finset.mem_image, Finset.mem_range]
    constructor
    · rintro ⟨i, hi, rfl⟩
      exact ⟨i % P, lt_min (Nat.mod_lt i hP) ((Nat.mod_le i P).trans_lt hi), rfl⟩
    · rintro ⟨i, hi, rfl⟩
      obtain ⟨hiP, him⟩ := lt_min_iff.mp hi
      exact ⟨i, him, by rw [Nat.mod_eq_of_lt hiP]⟩
  rw [hread, Finset.card_image_of_injOn, Finset.card_range]
  intro i hi j hj heq
  simp only [Finset.coe_range, Set.mem_Iio, lt_min_iff] at hi hj
  exact hg hi.1 hj.1 heq

end VmSim.Lib
