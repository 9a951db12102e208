/-
VmSim.PageTable.Prefixes — a table is the tree of the prefixes of its keys
(`page_table_node_count`, `page_table_lookup_with_levels`).

Where no node below a root is empty, every node lies on the path of a
mapped page. So the nodes of a table are counted by the prefixes of its
keys, and a lookup goes down as far as the address has a prefix in common
with one of them.
-/
import VmSim.PageTable.Shape
import VmSim.Lib.Descent
import Mathlib.Data.Set.Card
import Mathlib.Order.Lattice.Nat

namespace VmSim

open Lib

/-! ## Counting -/

/-- `page_table_node_count_recursive`. The first argument bounds the
recursion depth; running out of it is a fault. -/
def pageTableNodeCountRecursive : Nat → Nat → Comp Heap Nat
  | 0, _ => Comp.fault
  | depth + 1, pointer => do
    let node ← readNode pointer
    if node.level = pageTableLevels - 1 then return 1
    else
      slotIndices.foldlM (fun count index =>
        match node.entries index with
        | none => pure count
        | some child => do
          let below ← pageTableNodeCountRecursive depth child
          return count + below) 1

def pageTableNodeCount (table : Nat) : Comp Heap Nat := do
  let t ← readTable table
  pageTableNodeCountRecursive pageTableLevels t.root

variable {h : Heap} {p q t : Nat} {o : Object} {n : PageTableNode}
  {word rest path : List (Fin pageTableEntries)}

/-- The count is the size of the tree below the node. -/
theorem pageTableNodeCountRecursive_run (hw : h.Wf noPending) (depth : Nat) : ∀ {p n},
    h.objects p = some (.node n) → pageTableLevels ≤ n.level + depth →
    pageTableNodeCountRecursive depth p h =
      .ok (treeSize h.slots (pageTableLevels - 1 - n.level) p) h := by
  induction depth with
  | zero =>
    intro p n hp hdepth
    exact absurd ((hw.object p _ hp).node n rfl).1 (Nat.not_lt.mpr hdepth)
  | succ depth ih =>
    intro p n hp hdepth
    have hlevel := ((hw.object p _ hp).node n rfl).1
    rw [pageTableNodeCountRecursive, Comp.bind_ok (readNode_run hp)]
    by_cases hlast : n.level = pageTableLevels - 1
    · rw [if_pos hlast, hlast, Nat.sub_self]
      rfl
    · obtain ⟨d, hd⟩ : ∃ d, pageTableLevels - 1 - n.level = d + 1 :=
        ⟨pageTableLevels - 1 - n.level - 1, by omega⟩
      rw [if_neg hlast, Comp.foldlM_run (g := fun i => (h.slots p i).elim 0 (treeSize h.slots d)),
        hd, treeSize, Fin.sum_univ_def]
      · rfl
      · intro i _ count
        rw [Heap.slots_of_some hp]
        cases hi : n.entries i with
        | none => simp [Object.slots, hi]
        | some child =>
          obtain ⟨m, hoc, hml⟩ := hw.childNode hp hi (by omega)
          have hbelow := ih hoc (by omega)
          rw [show pageTableLevels - 1 - m.level = d by omega] at hbelow
          simp only [Object.slots, hi, Option.elim_some]
          rw [Comp.bind_ok hbelow]
          rfl

/-- A lookup visits the nodes that the descent visits. -/
theorem pageTableWalk_visits (a : Nat) (levels : List Nat) : ∀ current visited,
    Comp.Leads (· = h) (pageTableWalk a levels current visited) fun result _ =>
      result.2 = visited + descentDepth h.slots current (levels.map (addressLevelIndex a)) := by
  induction levels with
  | nil =>
    intro current visited
    refine readNode_leads.bind fun node => ?_
    cases node.entries (addressLevelIndex a (pageTableLevels - 1)) with
    | none => exact Comp.Leads.pure fun _ _ => rfl
    | some pointer => exact readEntry_leads.bind fun entry => Comp.Leads.pure fun _ _ => rfl
  | cons level levels ih =>
    intro current visited
    refine readNode_leads.bind fun node => ?_
    refine Comp.Leads.of_pre (P := fun s => h.objects current = some (.node node) ∧ s = h)
      (Comp.Leads.given fun hnode => ?_) fun s hs => ⟨hs.2 ▸ hs.1, hs.2⟩
    have hslots := Heap.slots_of_some hnode
    simp only [List.map_cons, descentDepth, hslots, Object.slots]
    cases node.entries (addressLevelIndex a level) with
    | none => exact Comp.Leads.pure fun _ _ => rfl
    | some child =>
      refine (ih child (visited + 1)).mono fun result _ hvisited => ?_
      rw [hvisited, Option.elim_some, Nat.add_assoc]

/-! ## Descents and frames -/

theorem Heap.frameAt_append (h : Heap) (p : Nat) (word rest : List (Fin pageTableEntries)) :
    h.frameAt p (word ++ rest) = (descend h.slots p word).bind fun q => h.frameAt q rest := by
  induction word generalizing p with
  | nil => rfl
  | cons i word ih =>
    simp only [List.cons_append, Heap.frameAt, descend]
    cases h.slots p i with
    | none => rfl
    | some c => exact ih c

/-- A descent goes down one level for each slot. -/
theorem Heap.Wf.descend_rank (hw : h.Wf noPending) (ho : h.objects p = some o)
    (hd : descend h.slots p word = some q) :
    ∃ oq, h.objects q = some oq ∧ oq.rank = o.rank + word.length := by
  induction word generalizing p o with
  | nil =>
    cases hd
    exact ⟨o, ho, rfl⟩
  | cons i word ih =>
    obtain ⟨c, hs, hd⟩ := Option.bind_eq_some_iff.mp hd
    obtain ⟨oc, hoc⟩ := hw.target hs (Int.le_refl 0)
    have hrank := hw.rank p o i c oc ho (by rwa [Heap.slots_of_some ho] at hs) hoc
    obtain ⟨oq, hoq, hr⟩ := ih hoc hd
    exact ⟨oq, hoq, by rw [hr, hrank, List.length_cons]; omega⟩

/-- Below a root every descent can be continued to an entry. -/
theorem Heap.Full.continued (hfull : h.Full) (hw : h.Wf noPending) (ho : h.objects p = some o)
    (hpos : 0 < o.rank) : ∃ rest, o.rank + rest.length = pageTableLevels ∧
      h.frameAt p rest ≠ none := by
  have hle : o.rank ≤ pageTableLevels := by
    cases o with
    | node n => exact (((hw.object p _ ho).node n rfl).1).le
    | entry e => exact Nat.le_refl _
  induction hk : pageTableLevels - o.rank generalizing p o with
  | zero =>
    cases o with
    | node n =>
      have hlevel : n.level < pageTableLevels := ((hw.object p _ ho).node n rfl).1
      have hrank : (Object.node n).rank = n.level := rfl
      omega
    | entry e =>
      refine ⟨[], rfl, ?_⟩
      have hpresent := (hw.object p _ ho).entry e rfl
      simp [Heap.frameAt, ho, Object.frame, hpresent]
  | succ k ih =>
    cases o with
    | entry e =>
      have hrank : (Object.entry e).rank = pageTableLevels := rfl
      omega
    | node n =>
      have hactive := (hfull.node p n ho hpos).resolve_right id
      rw [((hw.object p _ ho).node n rfl).2, ne_eq, filled_eq_zero, not_forall] at hactive
      obtain ⟨i, hi⟩ := hactive
      obtain ⟨c, hc⟩ := Option.ne_none_iff_exists'.mp hi
      have hs : h.slots p i = some c := by rw [Heap.slots_of_some ho]; exact hc
      obtain ⟨oc, hoc⟩ := hw.target hs (Int.le_refl 0)
      have hrank := hw.rank p _ i c oc ho hc hoc
      have hocle : oc.rank ≤ pageTableLevels := by omega
      obtain ⟨rest, hlen, hframe⟩ := ih hoc (by omega) hocle (by omega)
      refine ⟨i :: rest, ?_, ?_⟩
      · rw [List.length_cons]
        omega
      · simpa only [Heap.frameAt, hs, Option.bind_some] using hframe

/-! ## Keys -/

/-- The keys that a table maps. -/
def mappedKeys (frames : Nat → Option Nat) : Set Nat := {key | key < 2 ^ 36 ∧ frames key ≠ none}

/-- The first `k` indices of a key. -/
def keyPrefix (k key : Nat) : List (Fin pageTableEntries) := (keyPath key).take k

/-- The number of nodes of a table that maps the keys `K`: the root, and
one for each prefix. -/
noncomputable def nodesOf (K : Set Nat) : Nat :=
  1 + (keyPrefix 1 '' K).ncard + (keyPrefix 2 '' K).ncard + (keyPrefix 3 '' K).ncard

/-- The length of the longest prefix that a page has in common with a key
of `K`, 0 if there is none. -/
noncomputable def sharedPrefix (K : Set Nat) (page : Nat) : Nat :=
  sSup {k | k ≤ pageTableLevels ∧ ∃ key ∈ K, keyPrefix k key = keyPrefix k page}

theorem keyPath_length (key : Nat) : (keyPath key).length = pageTableLevels := rfl

/-- Every path of four slots is the path of a key. -/
theorem exists_keyPath (hlen : path.length = pageTableLevels) :
    ∃ key < 2 ^ 36, keyPath key = path := by
  obtain ⟨a, b, c, d, rfl⟩ : ∃ a b c d, path = [a, b, c, d] := by
    match path, hlen with
    | [a, b, c, d], _ => exact ⟨a, b, c, d, rfl⟩
  obtain ⟨a, ha⟩ := a
  obtain ⟨b, hb⟩ := b
  obtain ⟨c, hc⟩ := c
  obtain ⟨d, hd⟩ := d
  simp only [pageTableEntries] at ha hb hc hd
  refine ⟨a * 2 ^ 27 + b * 2 ^ 18 + c * 2 ^ 9 + d, by omega, ?_⟩
  simp only [keyPath, List.cons.injEq, Fin.ext_iff, Fin.ofNat, Nat.shiftRight_eq_div_pow,
    pageTableEntries, and_true]
  refine ⟨?_, ?_, ?_, ?_⟩ <;> omega

/-! ## The tree of the prefixes -/

variable {r : PageTable} {K : Set Nat}

/-- The nodes and entries below the root are those on the paths of the
mapped keys. -/
theorem Heap.Full.descends_iff (hfull : h.Full) (hw : h.Wf noPending) (ht : h.tables t = some r)
    (hpos : 0 < word.length) :
    (descend h.slots r.root word).isSome ↔
      ∃ key < 2 ^ 36, h.frameOf t key ≠ none ∧ keyPrefix word.length key = word := by
  constructor
  · intro hd
    obtain ⟨q, hq⟩ := Option.isSome_iff_exists.mp hd
    obtain ⟨root, hroot, hrank⟩ := hw.rootTarget ht (Int.le_refl 0)
    obtain ⟨oq, hoq, hr⟩ := hw.descend_rank hroot hq
    obtain ⟨rest, hlen, hframe⟩ := hfull.continued hw hoq (by omega)
    obtain ⟨key, hkey, hpath⟩ := exists_keyPath
      (show (word ++ rest).length = pageTableLevels by rw [List.length_append]; omega)
    refine ⟨key, hkey, ?_, ?_⟩
    · rw [Heap.frameOf, ht, Option.bind_some, hpath, Heap.frameAt_append, hq]
      exact hframe
    · rw [keyPrefix, hpath, List.take_left]
  · rintro ⟨key, _, hframe, hprefix⟩
    rw [Heap.frameOf, ht, Option.bind_some, ← List.take_append_drop word.length (keyPath key),
      ← keyPrefix, hprefix, Heap.frameAt_append] at hframe
    cases hd : descend h.slots r.root word with
    | some q => rfl
    | none =>
      rw [hd] at hframe
      exact absurd rfl hframe

/-- The words of a length are the prefixes of that length. -/
theorem Heap.Full.wordsFrom_eq (hfull : h.Full) (hw : h.Wf noPending) (ht : h.tables t = some r)
    (hK : ∀ key, key ∈ K ↔ key < 2 ^ 36 ∧ h.frameOf t key ≠ none) {k : Nat} (hpos : 0 < k)
    (hle : k ≤ pageTableLevels) :
    (wordsFrom h.slots k r.root).card = (keyPrefix k '' K).ncard := by
  rw [← Set.ncard_coe_finset]
  congr 1
  ext word
  rw [Finset.mem_coe, mem_wordsFrom, Set.mem_image]
  constructor
  · rintro ⟨rfl, hd⟩
    obtain ⟨key, hkey, hframe, hprefix⟩ := (hfull.descends_iff hw ht hpos).mp hd
    exact ⟨key, (hK key).mpr ⟨hkey, hframe⟩, hprefix⟩
  · rintro ⟨key, hkey, rfl⟩
    have hlen : (keyPrefix k key).length = k := by
      rw [keyPrefix, List.length_take, keyPath_length]
      omega
    obtain ⟨hlt, hframe⟩ := (hK key).mp hkey
    exact ⟨hlen, (hfull.descends_iff hw ht (by omega)).mpr
      ⟨key, hlt, hframe, by rw [hlen]⟩⟩

theorem Heap.Full.nodeCount (hfull : h.Full) (hw : h.Wf noPending) (ht : h.tables t = some r)
    (hK : ∀ key, key ∈ K ↔ key < 2 ^ 36 ∧ h.frameOf t key ≠ none) :
    pageTableNodeCount t h = .ok (nodesOf K) h := by
  obtain ⟨n, hroot, hlevel⟩ := hw.root_node ht
  rw [pageTableNodeCount, Comp.bind_ok (readTable_run ht),
    pageTableNodeCountRecursive_run hw pageTableLevels hroot (Nat.le_add_left _ _), hlevel,
    treeSize_eq]
  have hsum : ∑ k ∈ Finset.range 4, (wordsFrom h.slots k r.root).card = nodesOf K := by
    simp only [Finset.sum_range_succ, Finset.sum_range_zero]
    rw [hfull.wordsFrom_eq hw ht hK (k := 1) (by decide) (by decide),
      hfull.wordsFrom_eq hw ht hK (k := 2) (by decide) (by decide),
      hfull.wordsFrom_eq hw ht hK (k := 3) (by decide) (by decide)]
    rfl
  exact congrArg (Outcome.ok · h) hsum

/-- Shorter prefixes are shared as well. -/
theorem le_sharedPrefix {K : Set Nat} {page k : Nat} (hpos : 0 < k) (hle : k ≤ pageTableLevels) :
    k ≤ sharedPrefix K page ↔ ∃ key ∈ K, keyPrefix k key = keyPrefix k page := by
  have hbound : BddAbove {k | k ≤ pageTableLevels ∧ ∃ key ∈ K, keyPrefix k key = keyPrefix k page} :=
    ⟨pageTableLevels, fun _ hk => hk.1⟩
  constructor
  · intro hk
    have hne : {k | k ≤ pageTableLevels ∧
        ∃ key ∈ K, keyPrefix k key = keyPrefix k page}.Nonempty := by
      rw [Set.nonempty_iff_ne_empty]
      intro hempty
      rw [sharedPrefix, hempty, csSup_empty] at hk
      exact absurd hk (Nat.not_le.mpr hpos)
    obtain ⟨_, key, hkey, hprefix⟩ := Nat.sSup_mem hne hbound
    refine ⟨key, hkey, ?_⟩
    have htake := congrArg (List.take k) hprefix
    rw [keyPrefix, keyPrefix, List.take_take, List.take_take] at htake
    rwa [Nat.min_eq_left (show k ≤ sSup _ from hk)] at htake
  · rintro ⟨key, hkey, hprefix⟩
    exact le_csSup hbound ⟨hle, key, hkey, hprefix⟩

theorem Heap.Full.lookupLevels (hfull : h.Full) (hw : h.Wf noPending) (ht : h.tables t = some r)
    (hK : ∀ key, key ∈ K ↔ key < 2 ^ 36 ∧ h.frameOf t key ≠ none) (a : Nat) :
    ∃ entry, pageTableLookupWithLevels t a h =
      .ok (entry, 1 + min 3 (sharedPrefix K (addressPageNumber a))) h := by
  obtain ⟨entry, visited, hrun, _, _, hlo, hhi⟩ := pageTableLookupWithLevels_run hw ht a
  have hpath : innerLevels.map (addressLevelIndex a) = keyPrefix 3 (addressPageNumber a) := by
    rw [keyPrefix, ← levelIndices_eq]
    rfl
  have hvisited : visited =
      descentDepth h.slots r.root (keyPrefix 3 (addressPageNumber a)) := by
    have hwalk := hrun
    rw [pageTableLookupWithLevels, Comp.bind_ok (readTable_run ht)] at hwalk
    have hdepth := pageTableWalk_visits a innerLevels r.root 0 h _ h rfl hwalk
    rw [hpath, Nat.zero_add] at hdepth
    exact hdepth
  have hdeep : ∀ k, 0 < k → k ≤ 3 → (k < visited ↔ k ≤ sharedPrefix K (addressPageNumber a)) := by
    intro k hpos hk
    have htake : (keyPrefix 3 (addressPageNumber a)).take k = keyPrefix k (addressPageNumber a) := by
      rw [keyPrefix, List.take_take, Nat.min_eq_left hk, keyPrefix]
    have hlen : (keyPrefix k (addressPageNumber a)).length = k := by
      rw [keyPrefix, List.length_take, keyPath_length]
      simp only [pageTableLevels]
      omega
    have hlen₃ : (keyPrefix 3 (addressPageNumber a)).length = 3 := rfl
    rw [hvisited, lt_descentDepth (by omega), htake, hfull.descends_iff hw ht (by omega),
      hlen, le_sharedPrefix hpos (by simp only [pageTableLevels]; omega)]
    constructor
    · rintro ⟨key, hlt, hframe, hprefix⟩
      exact ⟨key, (hK key).mpr ⟨hlt, hframe⟩, hprefix⟩
    · rintro ⟨key, hkey, hprefix⟩
      exact ⟨key, ((hK key).mp hkey).1, ((hK key).mp hkey).2, hprefix⟩
  refine ⟨entry, ?_⟩
  rw [hrun]
  have h1 := hdeep 1 (by decide) (by decide)
  have h2 := hdeep 2 (by decide) (by decide)
  have h3 := hdeep 3 (by decide) (by decide)
  simp only [pageTableLevels] at hhi
  have heq : visited = 1 + min 3 (sharedPrefix K (addressPageNumber a)) := by omega
  rw [heq]

end VmSim
