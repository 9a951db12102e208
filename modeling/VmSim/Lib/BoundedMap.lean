/-
VmSim.Lib.BoundedMap — finite maps that hold a bounded number of keys.

The set of bound keys is part of the map, so that it can be counted. A
new key is refused when the map is full; a bound key can always be bound
again.
-/
import Mathlib.Data.Finset.Card

namespace VmSim.Lib

structure BoundedMap (κ α : Type) (capacity : Nat) where
  value : κ → Option α
  keys : Finset κ
  mem_keys : ∀ k, k ∈ keys ↔ (value k).isSome = true
  bounded : keys.card ≤ capacity

namespace BoundedMap

variable {κ α : Type} [DecidableEq κ] {capacity : Nat}

def empty : BoundedMap κ α capacity := ⟨fun _ => none, ∅, by simp, by simp⟩

/-- Binds a key, if it is bound already or there is room for it. -/
def put (m : BoundedMap κ α capacity) (k : κ) (v : α) : Option (BoundedMap κ α capacity) :=
  if h : k ∈ m.keys ∨ m.keys.card < capacity then
    some {
      value := Function.update m.value k (some v)
      keys := insert k m.keys
      mem_keys := fun k' => by
        by_cases e : k' = k <;> simp [e, m.mem_keys]
      bounded := by
        rcases h with hin | hroom
        · rw [Finset.insert_eq_of_mem hin]
          exact m.bounded
        · exact (Finset.card_insert_le _ _).trans hroom }
  else none

/-- The keys that pass a test stay bound. -/
def keep (m : BoundedMap κ α capacity) (test : κ → Bool) : BoundedMap κ α capacity where
  value := fun k => if test k then m.value k else none
  keys := m.keys.filter fun k => test k = true
  mem_keys := fun k => by
    by_cases e : test k = true <;> simp [e, m.mem_keys]
  bounded := (Finset.card_filter_le _ _).trans m.bounded

def erase (m : BoundedMap κ α capacity) (k : κ) : BoundedMap κ α capacity :=
  m.keep fun k' => decide (k' ≠ k)

variable {m m' : BoundedMap κ α capacity} {k : κ} {v : α}

omit [DecidableEq κ] in
theorem notMem_keys : k ∉ m.keys ↔ m.value k = none := by
  rw [m.mem_keys, Option.not_isSome_iff_eq_none]

theorem put_eq_none : m.put k v = none ↔ m.value k = none ∧ m.keys.card = capacity := by
  have hle := m.bounded
  unfold put
  split
  · rename_i h
    refine ⟨fun he => (by cases he), fun ⟨hk, hfull⟩ => absurd h ?_⟩
    rw [not_or]
    exact ⟨notMem_keys.mpr hk, by omega⟩
  · rename_i h
    obtain ⟨hk, hfull⟩ := not_or.mp h
    exact ⟨fun _ => ⟨notMem_keys.mp hk, by omega⟩, fun _ => rfl⟩

theorem value_put (h : m.put k v = some m') (k' : κ) :
    m'.value k' = if k' = k then some v else m.value k' := by
  unfold put at h
  split at h
  · cases h
    by_cases e : k' = k <;> simp [e]
  · cases h

theorem value_erase (m : BoundedMap κ α capacity) (k k' : κ) :
    (m.erase k).value k' = if k' = k then none else m.value k' := by
  by_cases e : k' = k <;> simp [erase, keep, e]

end BoundedMap

end VmSim.Lib
