/-
VmSim.Lib.Recency — the keys of a sequence of accesses by recency.

A sequence is a list of keys, newest first. `recency` keeps each key where
it was accessed last, so its first `n` keys are the `n` that were used
most recently. They are the keys of an LRU cache of capacity `n`
(`LruCache.keys_insert_recency`), whatever the capacity: a larger cache
holds more, and it misses no more often (`misses_mono`).
-/
import VmSim.Lib.LruCache

namespace VmSim.Lib

variable {κ α : Type} [DecidableEq κ] {k : κ} {ks : List κ} {n m capacity : Nat}

/-- The distinct keys, most recent first. -/
def recency : List κ → List κ
  | [] => []
  | k :: ks => k :: (recency ks).filter fun k' => decide (k' ≠ k)

/-- How often a cache of capacity `n` does not hold the key accessed. -/
def misses (n : Nat) : List κ → Nat
  | [] => 0
  | k :: ks => misses n ks + if k ∈ (recency ks).take n then 0 else 1

theorem recency_nodup (ks : List κ) : (recency ks).Nodup := by
  induction ks with
  | nil => exact List.nodup_nil
  | cons k ks ih => exact List.nodup_cons.mpr ⟨by simp, ih.filter _⟩

/-- Taking one key away makes room for one more. -/
theorem take_filter_ne {l : List κ} (hl : l.Nodup) (k : κ) :
    ∀ n, ((l.take (n + 1)).filter fun k' => decide (k' ≠ k)).take n =
      (l.filter fun k' => decide (k' ≠ k)).take n := by
  induction l with
  | nil => simp
  | cons a l ih =>
    intro n
    obtain ⟨hnot, hl'⟩ := List.nodup_cons.mp hl
    by_cases e : a = k
    · have hall : ∀ k' ∈ l, decide (k' ≠ k) = true := by
        intro k' hk'
        have hne : k' ≠ k := fun heq => hnot (by rw [e, ← heq]; exact hk')
        simpa using hne
      rw [List.take_succ_cons, List.filter_cons, List.filter_cons, if_neg (by simp [e]),
        if_neg (by simp [e]), List.filter_eq_self.mpr hall,
        List.filter_eq_self.mpr fun k' hk' => hall k' (List.mem_of_mem_take hk'), List.take_take,
        Nat.min_self]
    · rw [List.take_succ_cons, List.filter_cons, List.filter_cons, if_pos (by simpa using e),
        if_pos (by simpa using e)]
      cases n with
      | zero => rfl
      | succ n => rw [List.take_succ_cons, List.take_succ_cons, ih hl' n]

/-! ## Caches -/

namespace LruCache

def keys (c : LruCache κ α capacity) : List κ := c.entries.map Prod.fst

theorem keys_insert (c : LruCache κ α capacity) (k : κ) (v : α) :
    (c.insert k v).keys = (k :: c.keys.filter fun k' => decide (k' ≠ k)).take capacity := by
  rw [keys, insert_entries, remove_entries, List.map_take, List.map_cons, keys, List.filter_map]
  rfl

/-- **The stack property**: what a cache holds depends on its capacity only
in how far it reaches. -/
theorem keys_insert_recency {c : LruCache κ α capacity} (h : c.keys = (recency ks).take capacity)
    (k : κ) (v : α) : (c.insert k v).keys = (recency (k :: ks)).take capacity := by
  rw [keys_insert, h, recency]
  cases capacity with
  | zero => rfl
  | succ n => rw [List.take_succ_cons, List.take_succ_cons, take_filter_ne (recency_nodup ks)]

end LruCache

/-! ## Larger caches -/

omit [DecidableEq κ] in
theorem mem_take_mono {l : List κ} (h : n ≤ m) (hk : k ∈ l.take n) : k ∈ l.take m :=
  (List.take_sublist_take_left h).subset hk

theorem misses_mono (h : n ≤ m) (ks : List κ) : misses m ks ≤ misses n ks := by
  induction ks with
  | nil => exact Nat.le_refl 0
  | cons k ks ih =>
    refine Nat.add_le_add ih ?_
    by_cases hk : k ∈ (recency ks).take n
    · exact Nat.le_of_eq ((if_pos (mem_take_mono h hk)).trans (if_pos hk).symm)
    · rw [if_neg hk]
      split <;> decide

theorem misses_le_length (n : Nat) (ks : List κ) : misses n ks ≤ ks.length := by
  induction ks with
  | nil => exact Nat.le_refl 0
  | cons k ks ih =>
    refine Nat.add_le_add ih ?_
    split <;> decide

end VmSim.Lib
