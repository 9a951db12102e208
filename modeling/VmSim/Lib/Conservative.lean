/-
VmSim.Lib.Conservative — memories that replace the page used least
recently, and the page loaded first.

What such a memory holds is a list, the page that goes last at its front.
Neither gives up a page in the phase in which it loaded it
(`Conservative`): the pages of a phase are the ones used most recently,
and those that were loaded in it stand together at the front of the
queue.
-/
import VmSim.Lib.Paging
import VmSim.Lib.Recency
import Mathlib.Data.Finset.Dedup

namespace VmSim.Lib

variable {κ : Type} [DecidableEq κ] {n j : Nat} {k x : κ} {ks l : List κ}

/-! ## The page used least recently -/

/-- The pages used most recently. -/
def recentPages (n : Nat) (ks : List κ) : Finset κ := ((recency ks).take n).toFinset

theorem misses_eq_faultsOf (n : Nat) (ks : List κ) : misses n ks = faultsOf (recentPages n) ks := by
  induction ks with
  | nil => rfl
  | cons k ks ih => simp [misses, faultsOf, recentPages, ih]

omit [DecidableEq κ] in
/-- Nothing else comes before a key that is kept. -/
theorem mem_take_filter {p : κ → Bool} (hx : p x = true) :
    ∀ {l : List κ} {j : Nat}, x ∈ l.take j → x ∈ (l.filter p).take j := by
  intro l
  induction l with
  | nil =>
    intro j h
    simp at h
  | cons a l ih =>
    intro j h
    cases j with
    | zero => simp at h
    | succ j =>
      rw [List.take_succ_cons] at h
      rcases List.mem_cons.mp h with rfl | h'
      · simp [hx]
      · rw [List.filter_cons]
        split
        · rw [List.take_succ_cons]
          exact List.mem_cons_of_mem _ (ih h')
        · exact mem_take_mono (Nat.le_succ j) (ih h')

/-- A request moves a key back by one place at most. -/
theorem mem_take_recency (k : κ) (hx : x ∈ (recency ks).take j) :
    x ∈ (recency (k :: ks)).take (j + 1) := by
  rw [recency, List.take_succ_cons]
  by_cases e : x = k
  · simp [e]
  · exact List.mem_cons_of_mem _ (mem_take_filter (by simpa using e) hx)

/-- A key requested again moves none of those behind it. -/
theorem mem_take_recency_again (hk : k ∈ (recency ks).take j) (hx : x ∈ (recency ks).take j) :
    x ∈ (recency (k :: ks)).take j := by
  cases j with
  | zero => simp at hk
  | succ j =>
    rw [recency, List.take_succ_cons]
    by_cases e : x = k
    · simp [e]
    · refine List.mem_cons_of_mem _ ?_
      rw [← take_filter_ne (recency_nodup ks), List.take_of_length_le]
      · exact List.mem_filter.mpr ⟨hx, by simpa using e⟩
      · have hlt : (((recency ks).take (j + 1)).filter fun k' => decide (k' ≠ k)).length <
            ((recency ks).take (j + 1)).length :=
          List.length_filter_lt_length_iff_exists.mpr ⟨k, hk, by simp⟩
        have hlen := List.length_take_le (j + 1) (recency ks)
        omega

theorem phase_pages_recent (n : Nat) (ks : List κ) :
    ∀ x ∈ (phase n ks).pages, x ∈ (recency ks).take (phase n ks).pages.card := by
  induction ks with
  | nil => simp [phase]
  | cons k ks ih =>
    intro x hx
    by_cases hold : k ∈ (phase n ks).pages
    · rw [phase_old hold] at hx ⊢
      exact mem_take_recency_again (ih k hold) (ih x hx)
    · rcases Nat.lt_or_ge (phase n ks).pages.card n with hlt | hge
      · rw [phase_grow hold hlt] at hx ⊢
        rw [Finset.card_insert_of_notMem hold]
        rcases Finset.mem_insert.mp hx with rfl | hx'
        · simp [recency]
        · exact mem_take_recency k (ih x hx')
      · rw [phase_next hold hge] at hx ⊢
        have hxk : x = k := by simpa using hx
        simp [recency, hxk]

/-- To replace the page used least recently is conservative. -/
theorem recentPages_conservative (hn : 0 < n) :
    Conservative n (recentPages n : List κ → Finset κ) := by
  intro ks x hx
  have hrecent := phase_pages_recent n ks x (loadedIn_subset n _ ks hx)
  exact List.mem_toFinset.mpr (mem_take_mono (phase_card_le hn ks) hrecent)

/-! ## The page loaded first -/

/-- The pages in memory, the one loaded last first. -/
def fifo (n : Nat) : List κ → List κ
  | [] => []
  | k :: ks => if k ∈ fifo n ks then fifo n ks else (k :: fifo n ks).take n

theorem fifo_hit (hk : k ∈ fifo n ks) : fifo n (k :: ks) = fifo n ks := if_pos hk

theorem fifo_miss (hk : k ∉ fifo n ks) : fifo n (k :: ks) = (k :: fifo n ks).take n := if_neg hk

theorem fifo_nodup (n : Nat) (ks : List κ) : (fifo n ks).Nodup := by
  induction ks with
  | nil => exact List.nodup_nil
  | cons k ks ih =>
    by_cases hk : k ∈ fifo n ks
    · rw [fifo_hit hk]
      exact ih
    · rw [fifo_miss hk]
      exact (List.nodup_cons.mpr ⟨hk, ih⟩).sublist (List.take_sublist _ _)

def fifoPages (n : Nat) (ks : List κ) : Finset κ := (fifo n ks).toFinset

@[simp] theorem mem_fifoPages : x ∈ fifoPages n ks ↔ x ∈ fifo n ks := List.mem_toFinset

/-- What was loaded in the current phase stands at the front. -/
theorem loadedIn_fifo (hn : 0 < n) (ks : List κ) :
    ∃ j, loadedIn n (fifoPages n) ks = ((fifo n ks).take j).toFinset := by
  induction ks with
  | nil => exact ⟨0, rfl⟩
  | cons k ks ih =>
    obtain ⟨j, hj⟩ : ∃ j, (if (phase n (k :: ks)).completed = (phase n ks).completed then
        loadedIn n (fifoPages n) ks else ∅) = ((fifo n ks).take j).toFinset := by
      split
      · exact ih
      · exact ⟨0, rfl⟩
    have hsub := loadedIn_subset n (fifoPages n) (k :: ks)
    rw [loadedIn, hj] at hsub ⊢
    by_cases hk : k ∈ fifo n ks
    · rw [if_pos (mem_fifoPages.mpr hk), fifo_hit hk]
      exact ⟨j, rfl⟩
    · have hnot : k ∉ fifoPages n ks := fun h => hk (mem_fifoPages.mp h)
      rw [if_neg hnot] at hsub ⊢
      -- the phase has room for the new page
      have hroom := (Finset.card_le_card hsub).trans (phase_card_le hn (k :: ks))
      rw [Finset.card_insert_of_notMem fun h =>
          hk (List.mem_of_mem_take (List.mem_toFinset.mp h)),
        List.toFinset_card_of_nodup ((fifo_nodup n ks).sublist (List.take_sublist _ _)),
        List.length_take] at hroom
      refine ⟨min j (fifo n ks).length + 1, ?_⟩
      rw [fifo_miss hk, List.take_take, Nat.min_eq_left hroom, List.take_succ_cons,
        List.toFinset_cons, ← List.take_eq_take_min]

/-- To replace the page loaded first is conservative. -/
theorem fifoPages_conservative (hn : 0 < n) : Conservative n (fifoPages n : List κ → Finset κ) := by
  intro ks x hx
  obtain ⟨j, hj⟩ := loadedIn_fifo hn ks
  rw [hj] at hx
  exact mem_fifoPages.mpr (List.mem_of_mem_take (List.mem_toFinset.mp hx))

end VmSim.Lib
