/-
VmSim.Lib.LruCache — caches that drop the least recently used key.

A cache is a list of at most `capacity` entries with distinct keys, most
recent first. A key is put at the front whenever it is inserted or found;
what falls off the end of the list is lost. Keys can also be removed,
alone or by a test.

`Within` compares caches of different capacities: the entries of the
smaller one are in the larger one, in the same order, and the larger one
has no fewer places left. Every operation done to both keeps it, with
removals, and so does an access to a key that only the larger one knows.
-/
import Mathlib.Data.List.Nodup

namespace VmSim.Lib

structure LruCache (κ α : Type) (capacity : Nat) where
  entries : List (κ × α)
  distinct : (entries.map Prod.fst).Nodup
  bounded : entries.length ≤ capacity

namespace LruCache

variable {κ α : Type} {capacity capacity₁ capacity₂ : Nat}

theorem ext_entries {c c' : LruCache κ α capacity} (h : c.entries = c'.entries) : c = c' := by
  cases c
  cases c'
  congr

def empty : LruCache κ α capacity := ⟨[], List.nodup_nil, Nat.zero_le _⟩

/-- The keys that pass a test stay, where they are. -/
def keep (c : LruCache κ α capacity) (test : κ → Bool) : LruCache κ α capacity where
  entries := c.entries.filter fun e => test e.1
  distinct := c.distinct.sublist (List.filter_sublist.map Prod.fst)
  bounded := Nat.le_trans (List.length_filter_le _ _) c.bounded

variable [DecidableEq κ]

def find (c : LruCache κ α capacity) (k : κ) : Option α := c.entries.lookup k

def remove (c : LruCache κ α capacity) (k : κ) : LruCache κ α capacity :=
  c.keep fun k' => decide (k' ≠ k)

theorem notMem_remove (c : LruCache κ α capacity) (k : κ) :
    k ∉ (c.remove k).entries.map Prod.fst := by
  simp [remove, keep]

/-- The key comes to the front; if there is no room for it, the last
entry goes. -/
def insert (c : LruCache κ α capacity) (k : κ) (v : α) : LruCache κ α capacity where
  entries := ((k, v) :: (c.remove k).entries).take capacity
  distinct := by
    refine List.Nodup.sublist ((List.take_sublist _ _).map Prod.fst) ?_
    exact List.nodup_cons.mpr ⟨c.notMem_remove k, (c.remove k).distinct⟩
  bounded := List.length_take_le _ _

/-- A key that is found comes to the front. -/
def refresh (c : LruCache κ α capacity) (k : κ) : LruCache κ α capacity :=
  match c.find k with
  | some v => c.insert k v
  | none => c

/-! ## Lookups -/

variable {c : LruCache κ α capacity} {c₁ : LruCache κ α capacity₁} {c₂ : LruCache κ α capacity₂}
  {k k' : κ} {v v' : α}

theorem lookup_of_mem {l : List (κ × α)} (hl : (l.map Prod.fst).Nodup) (h : (k, v) ∈ l) :
    l.lookup k = some v := by
  induction l with
  | nil => exact absurd h List.not_mem_nil
  | cons e l ih =>
    obtain ⟨k', v'⟩ := e
    obtain ⟨hnot, hl'⟩ := List.nodup_cons.mp hl
    rcases List.mem_cons.mp h with e | hin
    · cases e
      exact List.lookup_cons_self
    · have hne : k ≠ k' := by
        rintro rfl
        exact hnot (List.mem_map.mpr ⟨_, hin, rfl⟩)
      rw [List.lookup_cons, beq_false_of_ne hne]
      exact ih hl' hin

theorem find_eq_some : c.find k = some v ↔ (k, v) ∈ c.entries := by
  constructor
  · intro h
    obtain ⟨l₁, l₂, he, _⟩ := List.lookup_eq_some_iff.mp h
    rw [he]
    exact List.mem_append_right _ List.mem_cons_self
  · exact lookup_of_mem c.distinct

theorem find_eq_none : c.find k = none ↔ k ∉ c.entries.map Prod.fst := by
  rw [find, List.lookup_eq_none_iff]
  simp only [List.mem_map, not_exists, not_and, bne_iff_ne, ne_eq]
  exact ⟨fun h e he heq => h e he heq.symm, fun h e he heq => h e he heq.symm⟩

/-! ## Insertions -/

theorem remove_entries (c : LruCache κ α capacity) (k : κ) :
    (c.remove k).entries = c.entries.filter fun e => decide (e.1 ≠ k) := rfl

theorem remove_absent (h : k ∉ c.entries.map Prod.fst) : (c.remove k).entries = c.entries := by
  rw [remove_entries, List.filter_eq_self]
  intro e he
  have hne : e.1 ≠ k := fun heq => h (heq ▸ List.mem_map_of_mem he)
  simp [hne]

/-- Keys are distinct, so removing a present key removes one entry. -/
theorem length_filter_ne {l : List (κ × α)} (hl : (l.map Prod.fst).Nodup)
    (h : k ∈ l.map Prod.fst) : (l.filter fun e => decide (e.1 ≠ k)).length + 1 = l.length := by
  induction l with
  | nil => exact absurd h List.not_mem_nil
  | cons e l ih =>
    obtain ⟨hnot, hl'⟩ := List.nodup_cons.mp hl
    rw [List.filter_cons]
    by_cases heq : e.1 = k
    · have hsame : (l.filter fun e => decide (e.1 ≠ k)) = l := by
        rw [List.filter_eq_self]
        intro e' he'
        have hne : e'.1 ≠ k := by
          intro heq'
          refine hnot ?_
          rw [heq, ← heq']
          exact List.mem_map_of_mem he'
        simp [hne]
      rw [if_neg (by simp [heq]), hsame, List.length_cons]
    · have hin : k ∈ l.map Prod.fst := (List.mem_cons.mp h).resolve_left (Ne.symm heq)
      rw [if_pos (by simpa using heq), List.length_cons, List.length_cons, ih hl' hin]

theorem length_remove (h : k ∈ c.entries.map Prod.fst) :
    (c.remove k).entries.length + 1 = c.entries.length := length_filter_ne c.distinct h

theorem insert_entries (c : LruCache κ α capacity) (k : κ) (v : α) :
    (c.insert k v).entries = ((k, v) :: (c.remove k).entries).take capacity := rfl

/-- What is inserted is at the front. -/
theorem insert_cons (hpos : 0 < capacity) (c : LruCache κ α capacity) (k : κ) (v : α) :
    (c.insert k v).entries = (k, v) :: (c.remove k).entries.take (capacity - 1) := by
  cases capacity with
  | zero => exact absurd hpos (Nat.lt_irrefl 0)
  | succ n => rw [insert_entries, List.take_succ_cons, Nat.add_sub_cancel]

/-- A present key only moves. -/
theorem insert_present (h : k ∈ c.entries.map Prod.fst) (v : α) :
    (c.insert k v).entries = (k, v) :: (c.remove k).entries := by
  refine List.take_of_length_le ?_
  rw [List.length_cons, length_remove h]
  exact c.bounded

/-- Where there is room, a new key is put before the others. -/
theorem insert_absent (h : k ∉ c.entries.map Prod.fst) (hroom : c.entries.length < capacity)
    (v : α) : (c.insert k v).entries = (k, v) :: c.entries := by
  rw [insert_entries, remove_absent h]
  exact List.take_of_length_le hroom

/-- In a full cache, a new key drives out the last one. -/
theorem insert_full (h : k ∉ c.entries.map Prod.fst) (hfull : c.entries.length = capacity)
    (hpos : 0 < capacity) (v : α) : (c.insert k v).entries = (k, v) :: c.entries.dropLast := by
  rw [insert_cons hpos, remove_absent h, List.dropLast_eq_take, hfull]

theorem remove_last (hne : c.entries ≠ []) :
    (c.remove (c.entries.getLast hne).1).entries = c.entries.dropLast := by
  have hsplit := List.dropLast_append_getLast hne
  generalize c.entries.getLast hne = last at hsplit ⊢
  have hd := c.distinct
  rw [← hsplit, List.map_append] at hd
  have hkept : ∀ e ∈ c.entries.dropLast, decide (e.1 ≠ last.1) = true := by
    intro e he
    have hother := (List.nodup_append.mp hd).2.2 e.1 (List.mem_map_of_mem he) _ List.mem_cons_self
    simpa using hother
  rw [remove_entries]
  conv_lhs => rw [← hsplit]
  rw [List.filter_append, List.filter_eq_self.mpr hkept]
  simp

/-- To a full cache it makes no difference if the last key goes before a
new one is inserted. -/
theorem insert_remove_last (h : k ∉ c.entries.map Prod.fst) (hfull : c.entries.length = capacity)
    (hne : c.entries ≠ []) (v : α) :
    (c.remove (c.entries.getLast hne).1).insert k v = c.insert k v := by
  have hpos := List.length_pos_iff.mpr hne
  refine ext_entries ?_
  rw [insert_full h hfull (hfull ▸ hpos), insert_absent, remove_last hne]
  · rw [remove_last hne]
    exact fun hk => h (List.map_subset _ (List.dropLast_subset _) hk)
  · rw [remove_last hne, List.length_dropLast]
    omega

/-- Inserting the entry at the front again changes nothing. -/
theorem insert_front {l : List (κ × α)} (h : c.entries = (k, v) :: l) : c.insert k v = c := by
  have hk : k ∈ c.entries.map Prod.fst := by
    rw [h]
    exact List.mem_cons_self
  have hnot : k ∉ l.map Prod.fst := by
    have hd := c.distinct
    rw [h] at hd
    exact (List.nodup_cons.mp hd).1
  refine ext_entries ?_
  rw [insert_present hk, remove_entries, h, List.filter_cons, if_neg (by simp)]
  congr 1
  rw [List.filter_eq_self]
  intro e he
  have hne : e.1 ≠ k := fun heq => hnot (heq ▸ List.mem_map_of_mem he)
  simp [hne]

theorem insert_insert (hpos : 0 < capacity) (c : LruCache κ α capacity) (k : κ) (v : α) :
    (c.insert k v).insert k v = c.insert k v := insert_front (insert_cons hpos c k v)

/-! ## Caches of different capacities -/

/-- The first cache is in the second, which has no fewer places left. -/
structure Within (c₁ : LruCache κ α capacity₁) (c₂ : LruCache κ α capacity₂) : Prop where
  entries : c₁.entries.Sublist c₂.entries
  room : c₂.entries.length + capacity₁ ≤ c₁.entries.length + capacity₂

omit [DecidableEq κ] in
theorem within_empty (h : capacity₁ ≤ capacity₂) :
    (empty : LruCache κ α capacity₁).Within (empty : LruCache κ α capacity₂) :=
  ⟨List.Sublist.refl _, by simpa [empty] using h⟩

omit [DecidableEq κ] in
theorem length_filter_sublist {l₁ l₂ : List (κ × α)} (h : l₁.Sublist l₂) (test : κ × α → Bool) :
    (l₂.filter test).length + l₁.length ≤ (l₁.filter test).length + l₂.length := by
  induction h with
  | slnil => exact Nat.le_refl _
  | cons e _ ih =>
    rw [List.filter_cons]
    split <;> simp only [List.length_cons] <;> omega
  | cons_cons e _ ih =>
    rw [List.filter_cons, List.filter_cons]
    split <;> simp only [List.length_cons] <;> omega

omit [DecidableEq κ] in
theorem Within.keep (h : c₁.Within c₂) (test : κ → Bool) : (c₁.keep test).Within (c₂.keep test) := by
  refine ⟨h.entries.filter _, ?_⟩
  have hlen := length_filter_sublist h.entries fun e => test e.1
  have hroom := h.room
  simp only [LruCache.keep]
  omega

theorem Within.remove (h : c₁.Within c₂) (k : κ) : (c₁.remove k).Within (c₂.remove k) := h.keep _

omit [DecidableEq κ] in
theorem sublist_take {l₁ l₂ : List (κ × α)} (h : l₁.Sublist l₂) {n₁ n₂ : Nat}
    (h₁ : l₁.length ≤ n₁ + 1) (hroom : l₂.length + n₁ ≤ l₁.length + n₂) :
    (l₁.take n₁).Sublist (l₂.take n₂) ∧
      (l₂.take n₂).length + n₁ ≤ (l₁.take n₁).length + n₂ := by
  have hlen := h.length_le
  refine ⟨?_, by rw [List.length_take, List.length_take]; omega⟩
  by_cases hfit : l₁.length ≤ n₁
  · rw [List.take_of_length_le hfit, List.take_of_length_le (by omega)]
    exact h
  · by_cases hfit₂ : l₂.length ≤ n₂
    · rw [List.take_of_length_le hfit₂]
      exact (List.take_sublist _ _).trans h
    · rw [show n₁ = l₁.length - 1 by omega, show n₂ = l₂.length - 1 by omega,
        ← List.dropLast_eq_take, ← List.dropLast_eq_take]
      have hd := h.reverse.tail
      rw [List.tail_reverse, List.tail_reverse] at hd
      exact List.reverse_sublist.mp hd

theorem Within.insert (h : c₁.Within c₂) (k : κ) (v : α) :
    (c₁.insert k v).Within (c₂.insert k v) := by
  have hr := h.remove k
  have hroom := hr.room
  have hlen : ((k, v) :: (c₂.remove k).entries).length + capacity₁ ≤
      ((k, v) :: (c₁.remove k).entries).length + capacity₂ := by
    simp only [List.length_cons]
    omega
  obtain ⟨hs, hl⟩ := sublist_take (hr.entries.cons_cons (k, v))
    (Nat.succ_le_succ (c₁.remove k).bounded) hlen
  exact ⟨hs, hl⟩

theorem Within.find (h : c₁.Within c₂) (hfind : c₁.find k = some v) : c₂.find k = some v :=
  find_eq_some.mpr (h.entries.subset (find_eq_some.mp hfind))

/-- An access to a key that only the larger cache may know. -/
theorem Within.refresh_right (h : c₁.Within c₂) (hfind : c₁.find k = none) :
    c₁.Within (c₂.refresh k) := by
  unfold LruCache.refresh
  split
  · rename_i v hv
    have hk : k ∈ c₂.entries.map Prod.fst := List.mem_map_of_mem (f := Prod.fst) (find_eq_some.mp hv)
    have hsub := (h.remove k).entries
    rw [remove_absent (find_eq_none.mp hfind)] at hsub
    refine ⟨?_, ?_⟩
    · rw [insert_present hk]
      exact hsub.cons _
    · rw [insert_present hk, List.length_cons, length_remove hk]
      exact h.room
  · exact h

theorem Within.refresh (h : c₁.Within c₂) (k : κ) : (c₁.refresh k).Within (c₂.refresh k) := by
  cases hfind : c₁.find k with
  | some v =>
    rw [LruCache.refresh, hfind, LruCache.refresh, h.find hfind]
    exact h.insert k v
  | none =>
    have hright := h.refresh_right hfind
    rw [LruCache.refresh, hfind]
    exact hright

end LruCache

end VmSim.Lib
