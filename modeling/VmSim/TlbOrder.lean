/-
VmSim.TlbOrder — the timestamps of the TLB order its entries as an LRU
cache does.

`Tlb.Ordered` is the invariant: a list of the valid entries in which the
timestamps fall strictly, none of them above the clock. Every operation
of the TLB is one of three changes of that list: an entry is stamped and
comes to the front, an entry goes, or all that fail a test go.
`Tlb.Represents` reads the list as an `LruCache`, and `Tlb.Represents.step`
is the refinement.
-/
import VmSim.Tlb
import VmSim.Lib.LruCache
import Mathlib.Data.List.Perm.Subperm

namespace VmSim

open Lib

variable {tlb : Tlb} {order : List Nat} {index n : Nat} {pid : Int} {virtualPage : Nat}

/-! ## The order of the entries -/

/-- `order` lists the valid entries, most recent first. -/
structure Tlb.Ordered (tlb : Tlb) (order : List Nat) : Prop where
  mem : ∀ i, i ∈ order ↔ i < tlb.capacity ∧ (tlb.entries i).valid = true
  recent : order.Pairwise fun i j => (tlb.entries j).lastAccess < (tlb.entries i).lastAccess
  clock : ∀ i ∈ order, (tlb.entries i).lastAccess ≤ tlb.logicalClock
  size : tlb.size = order.length

theorem Tlb.Ordered.nodup (h : tlb.Ordered order) : order.Nodup :=
  h.recent.imp fun hlt e => absurd hlt (by rw [e]; exact Nat.lt_irrefl _)

/-- An entry that is stored comes to the front. -/
theorem Tlb.Ordered.registerAccess (h : tlb.Ordered order) (hclock : tlb.logicalClock + 1 < wordSize)
    (hindex : index < tlb.capacity) {entry : TlbEntry} (hvalid : entry.valid = true) {size : Nat}
    (hsize : size = (order.filter (· ≠ index)).length + 1) :
    (tlbRegisterAccess { tlb with size := size } index entry).Ordered
      (index :: order.filter (· ≠ index)) := by
  have hmod : (tlb.logicalClock + 1) % wordSize = tlb.logicalClock + 1 := Nat.mod_eq_of_lt hclock
  have hother : ∀ i ∈ order.filter (· ≠ index),
      (tlbRegisterAccess { tlb with size := size } index entry).entries i = tlb.entries i :=
    fun i hi => Function.update_of_ne (by simpa using (List.mem_filter.mp hi).2) _ _
  have hself : (tlbRegisterAccess { tlb with size := size } index entry).entries index =
      { entry with lastAccess := tlb.logicalClock + 1 } := by
    simp [tlbRegisterAccess, hmod]
  refine ⟨fun i => ?_, ?_, fun i hi => ?_, by rw [List.length_cons]; exact hsize⟩
  · by_cases e : i = index
    · rw [e, hself]
      exact ⟨fun _ => ⟨hindex, hvalid⟩, fun _ => List.mem_cons_self⟩
    · have hentry : (tlbRegisterAccess { tlb with size := size } index entry).entries i =
          tlb.entries i := Function.update_of_ne e _ _
      rw [hentry, List.mem_cons, List.mem_filter, h.mem]
      simp [e, tlbRegisterAccess]
  · refine List.pairwise_cons.mpr ⟨fun i hi => ?_, ?_⟩
    · rw [hself, hother i hi]
      exact Nat.lt_succ_of_le (h.clock i (List.mem_filter.mp hi).1)
    · refine (h.recent.filter _).imp_of_mem fun hi hj hlt => ?_
      rw [hother _ hi, hother _ hj]
      exact hlt
  · rw [show (tlbRegisterAccess { tlb with size := size } index entry).logicalClock =
      tlb.logicalClock + 1 from hmod]
    rcases List.mem_cons.mp hi with rfl | hi'
    · rw [hself]
    · rw [hother i hi']
      exact (h.clock i (List.mem_filter.mp hi').1).trans (Nat.le_succ _)

/-- Entries that are cleared leave the list. -/
theorem Tlb.Ordered.clear (h : tlb.Ordered order) (gone : Nat → Bool)
    {entries : Nat → TlbEntry} (hgone : ∀ i, gone i = true → (entries i).valid = false)
    (hkept : ∀ i, gone i = false → entries i = tlb.entries i) {size : Nat}
    (hsize : size = (order.filter fun i => !gone i).length) :
    ({ tlb with entries := entries, size := size } : Tlb).Ordered
      (order.filter fun i => !gone i) := by
  have hsame : ∀ i ∈ order.filter (fun i => !gone i), entries i = tlb.entries i :=
    fun i hi => hkept i (by simpa using (List.mem_filter.mp hi).2)
  refine ⟨fun i => ?_, ?_, fun i hi => ?_, hsize⟩
  · rw [List.mem_filter, h.mem]
    cases hg : gone i with
    | true => simp [hgone i hg]
    | false => simp [hkept i hg]
  · refine (h.recent.filter _).imp_of_mem fun hi hj hlt => ?_
    show (entries _).lastAccess < (entries _).lastAccess
    rw [hsame _ hi, hsame _ hj]
    exact hlt
  · show (entries i).lastAccess ≤ tlb.logicalClock
    rw [hsame i hi]
    exact h.clock i (List.mem_filter.mp hi).1

/-- The list is full exactly when no entry is free. -/
theorem Tlb.Ordered.length_lt (h : tlb.Ordered order) (hindex : index < tlb.capacity)
    (hfree : (tlb.entries index).valid = false) : order.length < tlb.capacity := by
  have hnot : index ∉ order := fun hin => by
    rw [((h.mem index).mp hin).2] at hfree
    cases hfree
  have hsub : index :: order ⊆ List.range tlb.capacity := fun i hi => by
    rcases List.mem_cons.mp hi with rfl | hi'
    · exact List.mem_range.mpr hindex
    · exact List.mem_range.mpr ((h.mem i).mp hi').1
  have hlen := ((List.nodup_cons.mpr ⟨hnot, h.nodup⟩).subperm hsub).length_le
  rwa [List.length_cons, List.length_range] at hlen

theorem Tlb.Ordered.length_full (h : tlb.Ordered order)
    (hfull : ∀ i < tlb.capacity, (tlb.entries i).valid = true) :
    order.length = tlb.capacity := by
  have hperm : order.Perm (List.range tlb.capacity) :=
    (List.perm_ext_iff_of_nodup h.nodup List.nodup_range).mpr fun i => by
      rw [h.mem, List.mem_range]
      exact ⟨fun hi => hi.1, fun hi => ⟨hi, hfull i hi⟩⟩
  rw [hperm.length_eq, List.length_range]

/-! ## The oldest entry -/

/-- What the search carries along: a valid entry and its stamp. -/
def Tlb.Candidate (tlb : Tlb) (best : Option Nat × Nat) : Prop :=
  ∀ i, best.1 = some i → i < tlb.capacity ∧ (tlb.entries i).valid = true ∧
    (tlb.entries i).lastAccess = best.2

theorem tlbLruStep_candidate {best : Option Nat × Nat} (h : tlb.Candidate best)
    (hindex : index < tlb.capacity) :
    tlb.Candidate (tlbLruStep tlb best index) ∧ (tlbLruStep tlb best index).2 ≤ best.2 ∧
      ((tlb.entries index).valid = true →
        (tlbLruStep tlb best index).2 ≤ (tlb.entries index).lastAccess) := by
  unfold tlbLruStep
  split
  · rename_i hc
    refine ⟨fun i hi => ?_, hc.2.le, fun _ => Nat.le_refl _⟩
    cases hi
    exact ⟨hindex, hc.1, rfl⟩
  · rename_i hc
    exact ⟨h, Nat.le_refl _, fun hv => Nat.le_of_not_lt fun hlt => hc ⟨hv, hlt⟩⟩

/-- The search ends at a stamp that no valid entry it saw is below. -/
theorem tlbLruStep_least (indices : List Nat) :
    ∀ best, tlb.Candidate best → (∀ i ∈ indices, i < tlb.capacity) →
      tlb.Candidate (indices.foldl (tlbLruStep tlb) best) ∧
        (indices.foldl (tlbLruStep tlb) best).2 ≤ best.2 ∧
        ∀ i ∈ indices, (tlb.entries i).valid = true →
          (indices.foldl (tlbLruStep tlb) best).2 ≤ (tlb.entries i).lastAccess := by
  induction indices with
  | nil => exact fun best h _ => ⟨h, Nat.le_refl _, fun j hj => absurd hj List.not_mem_nil⟩
  | cons index indices ih =>
    intro best h hlt
    obtain ⟨hindex, hrest⟩ := List.forall_mem_cons.mp hlt
    obtain ⟨hcand, hle, hseen⟩ := tlbLruStep_candidate h hindex
    obtain ⟨hcand', hle', hall⟩ := ih (tlbLruStep tlb best index) hcand hrest
    exact ⟨hcand', hle'.trans hle,
      List.forall_mem_cons.mpr ⟨fun hv => hle'.trans (hseen hv), hall⟩⟩

/-- The victim of a full TLB is the last entry of the list. -/
theorem Tlb.Ordered.findLru (h : tlb.Ordered order) (hclock : tlb.logicalClock + 1 < wordSize)
    (hne : order ≠ []) : tlbFindLruEntry tlb = some (order.getLast hne) := by
  have hlast : order.getLast hne ∈ order := List.getLast_mem hne
  obtain ⟨hrange, hvalid⟩ := (h.mem _).mp hlast
  have hstamp := h.clock _ hlast
  obtain ⟨hcand, _, hall⟩ := tlbLruStep_least (List.range tlb.capacity) (none, wordSize - 1)
    (fun i hi => by cases hi) fun i hi => List.mem_range.mp hi
  have hmin := hall _ (List.mem_range.mpr hrange) hvalid
  rw [tlbFindLruEntry]
  cases hfind : ((List.range tlb.capacity).foldl (tlbLruStep tlb) (none, wordSize - 1)).1 with
  | none =>
    obtain ⟨_, hnone⟩ := tlbLruStep_none tlb _ _ hfind
    have hge : wordSize - 1 ≤ _ := hnone _ (List.mem_range.mpr hrange) hvalid
    omega
  | some i =>
    obtain ⟨hi, hvi, hsi⟩ := hcand i hfind
    have hin : i ∈ order := (h.mem i).mpr ⟨hi, hvi⟩
    congr 1
    by_contra hdiff
    -- an entry before the last one has a later stamp
    have hrecent := h.recent
    rw [← List.dropLast_append_getLast hne] at hin hrecent
    have hbefore : i ∈ order.dropLast :=
      (List.mem_append.mp hin).resolve_right fun hs => hdiff (List.mem_singleton.mp hs)
    have hlt := (List.pairwise_append.mp hrecent).2.2 i hbefore _ (List.mem_singleton.mpr rfl)
    omega

/-! ## The cache -/

/-- What an entry says: a key and a frame. -/
def TlbEntry.translation (entry : TlbEntry) : (Int × Nat) × Nat :=
  ((entry.pid, entry.virtualPage), entry.frameNumber)

/-- Keys are a pid and a page, values are frames. -/
abbrev TlbCache (n : Nat) := LruCache (Int × Nat) Nat n

/-- The TLB as an LRU cache. -/
def TlbCache.step (cache : TlbCache n) : TlbCall → TlbReply × TlbCache n
  | .lookup pid page => (.frame (cache.find (pid, page)), cache.refresh (pid, page))
  | .insert pid page frame => (.code 0, cache.insert (pid, page) frame)
  | .invalidate pid page => (.removed (cache.find (pid, page)).isSome, cache.remove (pid, page))
  | .invalidateProcess pid =>
    (.count (cache.entries.countP fun e => e.1.1 == pid), cache.keep fun key => !(key.1 == pid))
  | .clear => (.done, .empty)

structure Tlb.Represents (tlb : Tlb) (cache : TlbCache n) : Prop where
  capacity : tlb.capacity = n
  order : ∃ order, tlb.Ordered order ∧
    cache.entries = order.map fun i => (tlb.entries i).translation

variable {cache : TlbCache n}

theorem Tlb.Ordered.matches_iff (h : tlb.Ordered order)
    (he : cache.entries = order.map fun i => (tlb.entries i).translation) {i : Nat} (hi : i ∈ order)
    (hindex : index < tlb.capacity) (hm : (tlb.entries index).matches pid virtualPage = true) :
    (tlb.entries i).translation.1 = (pid, virtualPage) ↔ i = index := by
  obtain ⟨hvalid, hpid, hpage⟩ := TlbEntry.matches_iff.mp hm
  have hin : index ∈ order := (h.mem index).mpr ⟨hindex, hvalid⟩
  have hkey : (tlb.entries index).translation.1 = (pid, virtualPage) := by
    simp [TlbEntry.translation, hpid, hpage]
  refine ⟨fun heq => ?_, fun heq => heq ▸ hkey⟩
  have hd := cache.distinct
  rw [he, List.map_map] at hd
  exact List.inj_on_of_nodup_map hd hi hin (heq.trans hkey.symm)

/-- The search for a key finds what the cache has. -/
theorem Tlb.Ordered.find (h : tlb.Ordered order)
    (he : cache.entries = order.map fun i => (tlb.entries i).translation) (pid : Int)
    (virtualPage : Nat) : cache.find (pid, virtualPage) =
      (tlbFindExistingEntry tlb pid virtualPage).map fun i => (tlb.entries i).frameNumber := by
  cases hfind : tlbFindExistingEntry tlb pid virtualPage with
  | some i =>
    obtain ⟨hi, hm⟩ := tlbFindExistingEntry_some hfind
    obtain ⟨hvalid, hpid, hpage⟩ := TlbEntry.matches_iff.mp hm
    refine LruCache.find_eq_some.mpr ?_
    rw [he, List.mem_map]
    exact ⟨i, (h.mem i).mpr ⟨hi, hvalid⟩, by simp [TlbEntry.translation, hpid, hpage]⟩
  | none =>
    refine LruCache.find_eq_none.mpr fun hin => ?_
    rw [he, List.map_map, List.mem_map] at hin
    obtain ⟨i, hi, hkey⟩ := hin
    obtain ⟨hlt, hvalid⟩ := (h.mem i).mp hi
    have hno := tlbFindExistingEntry_none hfind hlt
    simp only [Function.comp_apply, TlbEntry.translation, Prod.mk.injEq] at hkey
    simp [TlbEntry.matches, hvalid, hkey] at hno

/-- The translations of the entries that are not touched. -/
theorem tlbRegisterAccess_others (entry : TlbEntry) (size : Nat) (l : List Nat) :
    ((l.filter (· ≠ index)).map fun i =>
      ((tlbRegisterAccess { tlb with size := size } index entry).entries i).translation) =
      (l.filter (· ≠ index)).map fun i => (tlb.entries i).translation := by
  refine List.map_congr_left fun i hi => ?_
  have hne : i ≠ index := by simpa using (List.mem_filter.mp hi).2
  rw [show (tlbRegisterAccess { tlb with size := size } index entry).entries i = tlb.entries i from
    Function.update_of_ne hne _ _]

/-- What the cache keeps besides a key is what the list keeps besides its
entry. -/
theorem Tlb.Ordered.remove (h : tlb.Ordered order)
    (he : cache.entries = order.map fun i => (tlb.entries i).translation)
    (hindex : index < tlb.capacity) (hm : (tlb.entries index).matches pid virtualPage = true) :
    (cache.remove (pid, virtualPage)).entries =
      (order.filter (· ≠ index)).map fun i => (tlb.entries i).translation := by
  rw [LruCache.remove_entries, he, List.filter_map]
  congr 1
  refine List.filter_congr fun i hi => ?_
  simpa using h.matches_iff he hi hindex hm

/-- An entry is stored: its key comes to the front. -/
theorem Tlb.Ordered.store (h : tlb.Ordered order) (hcap : tlb.capacity = n)
    (hclock : tlb.logicalClock + 1 < wordSize) (hindex : index < tlb.capacity)
    (entry : TlbEntry) (hvalid : entry.valid = true) (size : Nat)
    (hsize : size = (order.filter (· ≠ index)).length + 1) {cache' : TlbCache n}
    (hentries : cache'.entries = entry.translation ::
      (order.filter (· ≠ index)).map fun i => (tlb.entries i).translation) :
    (tlbRegisterAccess { tlb with size := size } index entry).Represents cache' := by
  refine ⟨hcap, _, h.registerAccess hclock hindex hvalid hsize, ?_⟩
  rw [List.map_cons, tlbRegisterAccess_others, hentries]
  congr 1
  simp [tlbRegisterAccess, TlbEntry.translation]

/-- A key that is there is stored again. -/
theorem Tlb.Represents.update (h : tlb.Represents cache)
    (hclock : tlb.logicalClock + 1 < wordSize)
    (hfind : tlbFindExistingEntry tlb pid virtualPage = some index) (frame : Nat) :
    (tlbRegisterAccess tlb index { tlb.entries index with frameNumber := frame }).Represents
      (cache.insert (pid, virtualPage) frame) := by
  obtain ⟨hcap, order, ho, he⟩ := h
  obtain ⟨hindex, hm⟩ := tlbFindExistingEntry_some hfind
  obtain ⟨hvalid, hpid, hpage⟩ := TlbEntry.matches_iff.mp hm
  have hfound := ho.find he pid virtualPage
  rw [hfind] at hfound
  have hkey : (pid, virtualPage) ∈ cache.entries.map Prod.fst :=
    List.mem_map.mpr ⟨_, LruCache.find_eq_some.mp hfound, rfl⟩
  have hremove := ho.remove he hindex hm
  have hlen := LruCache.length_remove hkey
  rw [hremove, he, List.length_map, List.length_map] at hlen
  refine ho.store hcap hclock hindex { tlb.entries index with frameNumber := frame } hvalid
    tlb.size (ho.size.trans hlen.symm) ?_
  rw [LruCache.insert_present hkey, hremove]
  simp [TlbEntry.translation, hpid, hpage]

theorem Tlb.Represents.find (h : tlb.Represents cache) (pid : Int) (virtualPage : Nat) :
    cache.find (pid, virtualPage) =
      (tlbFindExistingEntry tlb pid virtualPage).map fun i => (tlb.entries i).frameNumber := by
  obtain ⟨_, order, ho, he⟩ := h
  exact ho.find he pid virtualPage

/-- A new key is stored in a free entry. -/
theorem Tlb.Represents.fill (h : tlb.Represents cache) (hclock : tlb.logicalClock + 1 < wordSize)
    (hnew : (pid, virtualPage) ∉ cache.entries.map Prod.fst)
    (hfree : tlbFindFreeEntry tlb = some index) (frame : Nat) :
    (tlbRegisterAccess { tlb with size := tlb.size + 1 } index
      ⟨true, pid, virtualPage, frame, 0⟩).Represents (cache.insert (pid, virtualPage) frame) := by
  obtain ⟨hcap, order, ho, he⟩ := h
  have hindex : index < tlb.capacity := List.mem_range.mp (List.mem_of_find?_eq_some hfree)
  have hinvalid : (tlb.entries index).valid = false := by
    simpa using List.find?_some hfree
  have hsame : order.filter (· ≠ index) = order := by
    rw [List.filter_eq_self]
    intro i hi
    have hne : i ≠ index := by
      rintro rfl
      rw [((ho.mem i).mp hi).2] at hinvalid
      cases hinvalid
    simpa using hne
  have hroom : cache.entries.length < n := by
    rw [he, List.length_map, ← hcap]
    exact ho.length_lt hindex hinvalid
  refine ho.store hcap hclock hindex ⟨true, pid, virtualPage, frame, 0⟩ rfl (tlb.size + 1)
    (by rw [hsame, ho.size]) ?_
  rw [LruCache.insert_absent hnew hroom, hsame, he]
  rfl

/-- A new key is stored in place of the oldest one. -/
theorem Tlb.Represents.replace (h : tlb.Represents cache)
    (hclock : tlb.logicalClock + 1 < wordSize) (hpos : 0 < n)
    (hnew : (pid, virtualPage) ∉ cache.entries.map Prod.fst)
    (hfree : tlbFindFreeEntry tlb = none) (frame : Nat) :
    ∃ index, tlbFindLruEntry tlb = some index ∧
      (tlbRegisterAccess tlb index ⟨true, pid, virtualPage, frame, 0⟩).Represents
        (cache.insert (pid, virtualPage) frame) := by
  obtain ⟨hcap, order, ho, he⟩ := h
  have hfull : order.length = tlb.capacity := ho.length_full fun i hi => by
    simpa using List.find?_eq_none.mp hfree i (List.mem_range.mpr hi)
  have hne : order ≠ [] := by
    rintro rfl
    rw [List.length_nil, hcap] at hfull
    omega
  obtain ⟨hindex, _⟩ := (ho.mem _).mp (List.getLast_mem hne)
  have hdrop : order.filter (· ≠ order.getLast hne) = order.dropLast := by
    have hnodup := ho.nodup
    have hsplit := List.dropLast_append_getLast hne
    generalize order.getLast hne = last at hsplit ⊢
    rw [← hsplit, List.nodup_append] at hnodup
    rw [← hsplit, List.filter_append, List.dropLast_concat, List.filter_cons, if_neg (by simp),
      List.filter_nil, List.append_nil, List.filter_eq_self]
    intro i hi
    simpa using hnodup.2.2 i hi last (List.mem_singleton.mpr rfl)
  refine ⟨_, ho.findLru hclock hne, ?_⟩
  refine ho.store hcap hclock hindex ⟨true, pid, virtualPage, frame, 0⟩ rfl tlb.size ?_ ?_
  · rw [hdrop, ho.size, List.length_dropLast]
    have hlen := List.length_pos_iff.mpr hne
    omega
  · rw [LruCache.insert_full hnew (by rw [he, List.length_map, hfull, hcap]) hpos, hdrop, he,
      List.map_dropLast]
    rfl

/-! ## The refinement -/

theorem Tlb.Represents.lookup (h : tlb.Represents cache)
    (hclock : tlb.logicalClock + 1 < wordSize) (hpid : 0 ≤ pid) (virtualPage : Nat) :
    (tlbLookup tlb pid virtualPage).1 = cache.find (pid, virtualPage) ∧
      (tlbLookup tlb pid virtualPage).2.Represents (cache.refresh (pid, virtualPage)) := by
  have hfound := h.find pid virtualPage
  unfold tlbLookup LruCache.refresh
  rw [if_neg (Int.not_lt.mpr hpid), hfound]
  cases hfind : tlbFindExistingEntry tlb pid virtualPage with
  | none => exact ⟨rfl, h⟩
  | some index => exact ⟨rfl, h.update hclock hfind _⟩

theorem Tlb.Represents.insert (h : tlb.Represents cache)
    (hclock : tlb.logicalClock + 1 < wordSize) (hpos : 0 < n) (hpid : 0 ≤ pid)
    (virtualPage frame : Nat) : (tlbInsert tlb pid virtualPage frame).1 = 0 ∧
      (tlbInsert tlb pid virtualPage frame).2.Represents
        (cache.insert (pid, virtualPage) frame) := by
  have hfound := h.find pid virtualPage
  unfold tlbInsert
  rw [if_neg (Int.not_lt.mpr hpid)]
  cases hfind : tlbFindExistingEntry tlb pid virtualPage with
  | some index => exact ⟨rfl, h.update hclock hfind frame⟩
  | none =>
    rw [hfind] at hfound
    have hnew := LruCache.find_eq_none.mp hfound
    cases hfree : tlbFindFreeEntry tlb with
    | some index => exact ⟨rfl, h.fill hclock hnew hfree frame⟩
    | none =>
      obtain ⟨index, hlru, hr⟩ := h.replace hclock hpos hnew hfree frame
      dsimp only
      rw [hlru]
      exact ⟨rfl, hr⟩

/-- The entries that are cleared are those whose keys fail the test. -/
theorem Tlb.Ordered.keep (h : tlb.Ordered order) (hcap : tlb.capacity = n)
    (he : cache.entries = order.map fun i => (tlb.entries i).translation) (gone : Nat → Bool)
    (test : Int × Nat → Bool)
    (htest : ∀ i ∈ order, (!gone i) = test (tlb.entries i).translation.1)
    {entries : Nat → TlbEntry} (hgone : ∀ i, gone i = true → (entries i).valid = false)
    (hkept : ∀ i, gone i = false → entries i = tlb.entries i) {size : Nat}
    (hsize : size = (order.filter fun i => !gone i).length) :
    ({ tlb with entries := entries, size := size } : Tlb).Represents (cache.keep test) := by
  refine ⟨hcap, _, h.clear gone hgone hkept hsize, ?_⟩
  have hfilter : (cache.keep test).entries =
      (order.filter fun i => !gone i).map fun i => (tlb.entries i).translation := by
    show cache.entries.filter _ = _
    rw [he, List.filter_map]
    congr 1
    exact List.filter_congr fun i hi => (htest i hi).symm
  rw [hfilter]
  refine List.map_congr_left fun i hi => ?_
  have hstay : gone i = false := by simpa using (List.mem_filter.mp hi).2
  show (tlb.entries i).translation = (entries i).translation
  rw [hkept i hstay]

theorem Tlb.Represents.invalidate (h : tlb.Represents cache) (hpid : 0 ≤ pid)
    (virtualPage : Nat) :
    (tlbInvalidate tlb pid virtualPage).1 = (cache.find (pid, virtualPage)).isSome ∧
      (tlbInvalidate tlb pid virtualPage).2.Represents (cache.remove (pid, virtualPage)) := by
  have hfound := h.find pid virtualPage
  unfold tlbInvalidate
  rw [if_neg (Int.not_lt.mpr hpid), hfound]
  cases hfind : tlbFindExistingEntry tlb pid virtualPage with
  | none =>
    rw [hfind] at hfound
    refine ⟨rfl, ?_⟩
    rw [LruCache.ext_entries (LruCache.remove_absent (LruCache.find_eq_none.mp hfound))]
    exact h
  | some index =>
    obtain ⟨hcap, order, ho, he⟩ := h
    obtain ⟨hindex, hm⟩ := tlbFindExistingEntry_some hfind
    have hin : index ∈ order :=
      (ho.mem index).mpr ⟨hindex, (TlbEntry.matches_iff.mp hm).1⟩
    refine ⟨rfl, ho.keep hcap he (fun i => i == index) _ (fun i hi => ?_) (fun i hi => ?_)
      (fun i hi => ?_) ?_⟩
    · have hiff := ho.matches_iff he hi hindex hm
      by_cases e : i = index
      · rw [hiff.mpr e]
        simp [e]
      · simp [e, mt hiff.mp e]
    · rw [beq_iff_eq.mp hi, Function.update_self]
      rfl
    · exact Function.update_of_ne (by simpa using hi) _ _
    · have herase : (order.filter fun i => !(i == index)) = order.erase index := by
        rw [ho.nodup.erase_eq_filter]
        rfl
      rw [herase, List.length_erase_of_mem hin, ho.size]

theorem Tlb.Represents.invalidateProcess (h : tlb.Represents cache) (hpid : 0 ≤ pid) :
    (tlbInvalidateProcess tlb pid).1 = cache.entries.countP (fun e => e.1.1 == pid) ∧
      (tlbInvalidateProcess tlb pid).2.Represents (cache.keep fun key => !(key.1 == pid)) := by
  obtain ⟨hcap, order, ho, he⟩ := h
  have hbelongs : ∀ i ∈ order, tlb.belongsTo pid i = ((tlb.entries i).pid == pid) := by
    intro i hi
    obtain ⟨hlt, hvalid⟩ := (ho.mem i).mp hi
    simp [Tlb.belongsTo, hlt, hvalid]
  have hcount : (List.range tlb.capacity).countP (tlb.belongsTo pid) =
      order.countP (tlb.belongsTo pid) := by
    have hperm : ((List.range tlb.capacity).filter (tlb.belongsTo pid)).Perm
        (order.filter (tlb.belongsTo pid)) := by
      refine (List.perm_ext_iff_of_nodup (List.nodup_range.filter _)
        (ho.nodup.filter _)).mpr fun i => ?_
      simp only [List.mem_filter, List.mem_range, ho.mem, Tlb.belongsTo, Bool.and_eq_true,
        decide_eq_true_eq]
      tauto
    rw [List.countP_eq_length_filter, hperm.length_eq, ← List.countP_eq_length_filter]
  unfold tlbInvalidateProcess
  rw [if_neg (Int.not_lt.mpr hpid), hcount]
  refine ⟨?_, ho.keep hcap he (tlb.belongsTo pid) _ (fun i hi => ?_) (fun i hi => ?_)
    (fun i hi => ?_) ?_⟩
  · rw [he, List.countP_map]
    exact List.countP_congr fun i hi => by rw [hbelongs i hi]; rfl
  · rw [hbelongs i hi]
    rfl
  · simp [hi, TlbEntry.cleared]
  · simp [hi]
  · have hlen := List.length_eq_countP_add_countP (tlb.belongsTo pid) (l := order)
    rw [ho.size, ← List.countP_eq_length_filter]
    simp only [Bool.not_eq_true, Bool.decide_eq_false] at hlen
    omega

/-- Every call of the TLB is a call of the cache. -/
theorem Tlb.Represents.step (h : tlb.Represents cache) (hpos : 0 < n) {call : TlbCall}
    (hclock : tlb.logicalClock + call.ticks < wordSize) (hcall : call.Accepted) :
    (tlb.step call).1 = (cache.step call).1 ∧
      (tlb.step call).2.Represents (cache.step call).2 := by
  cases call with
  | lookup pid page =>
    obtain ⟨hr, hs⟩ := h.lookup hclock hcall page
    exact ⟨congrArg TlbReply.frame hr, hs⟩
  | insert pid page frame =>
    obtain ⟨hr, hs⟩ := h.insert hclock hpos hcall page frame
    exact ⟨congrArg TlbReply.code hr, hs⟩
  | invalidate pid page =>
    obtain ⟨hr, hs⟩ := h.invalidate hcall page
    exact ⟨congrArg TlbReply.removed hr, hs⟩
  | invalidateProcess pid =>
    obtain ⟨hr, hs⟩ := h.invalidateProcess hcall
    exact ⟨congrArg TlbReply.count hr, hs⟩
  | clear =>
    refine ⟨rfl, h.capacity, [], ⟨fun i => ?_, List.Pairwise.nil, fun i hi => ?_, rfl⟩, rfl⟩
    · simp [Tlb.step, tlbClear, TlbEntry.cleared]
    · exact absurd hi List.not_mem_nil

theorem Tlb.Represents.size (h : tlb.Represents cache) : tlb.size = cache.entries.length := by
  obtain ⟨_, order, ho, he⟩ := h
  rw [he, List.length_map, ho.size]

theorem Tlb.Represents.holds (h : tlb.Represents cache) (pid : Int) (virtualPage frame : Nat) :
    tlb.Holds pid virtualPage frame ↔ ((pid, virtualPage), frame) ∈ cache.entries := by
  obtain ⟨_, order, ho, he⟩ := h
  rw [he, List.mem_map]
  constructor
  · rintro ⟨i, hi, hm, hf⟩
    obtain ⟨hvalid, hpid, hpage⟩ := TlbEntry.matches_iff.mp hm
    exact ⟨i, (ho.mem i).mpr ⟨hi, hvalid⟩, by simp [TlbEntry.translation, hpid, hpage, hf]⟩
  · rintro ⟨i, hi, ht⟩
    obtain ⟨hlt, hvalid⟩ := (ho.mem i).mp hi
    simp only [TlbEntry.translation, Prod.mk.injEq] at ht
    exact ⟨i, hlt, TlbEntry.matches_iff.mpr ⟨hvalid, ht.1.1, ht.1.2⟩, ht.2⟩

theorem Tlb.Represents.wf (h : tlb.Represents cache) : tlb.Wf := by
  obtain ⟨_, order, ho, he⟩ := h
  intro i hi j hj pid virtualPage hmi hmj
  obtain ⟨hvalid, hpid, hpage⟩ := TlbEntry.matches_iff.mp hmi
  refine (ho.matches_iff he ((ho.mem i).mpr ⟨hi, hvalid⟩) hj hmj).mp ?_
  simp [TlbEntry.translation, hpid, hpage]

/-! ## Sequences of calls -/

/-- The cache after a sequence of calls. -/
def TlbCache.perform (cache : TlbCache n) (calls : List TlbCall) : TlbCache n :=
  calls.foldl (fun cache call => (cache.step call).2) cache

theorem TlbCache.perform_append (cache : TlbCache n) (calls calls' : List TlbCall) :
    cache.perform (calls ++ calls') = (cache.perform calls).perform calls' := List.foldl_append

theorem Tlb.Represents.perform (calls : List TlbCall) :
    ∀ {tlb : Tlb} {cache : TlbCache n} {k : Nat}, tlb.Represents cache → tlb.Fresh k → 0 < n →
      k + TlbCall.totalTicks calls < wordSize → (∀ call ∈ calls, call.Accepted) →
      (tlb.perform calls).Represents (cache.perform calls) := by
  induction calls with
  | nil => exact fun h _ _ _ _ => h
  | cons call calls ih =>
    intro tlb cache k h hfresh hpos hk hcalls
    obtain ⟨hcall, hrest⟩ := List.forall_mem_cons.mp hcalls
    rw [TlbCall.totalTicks, List.map_cons, List.sum_cons] at hk
    have hclock := hfresh.clock
    have hstep := (h.step hpos (by omega) hcall).2
    exact ih hstep (hfresh.step call (by omega)) hpos
      (by rw [TlbCall.totalTicks]; omega) hrest

/-- Two caches of different sizes that are used alike. -/
theorem TlbCache.within_step {n₁ n₂ : Nat} {cache₁ : TlbCache n₁} {cache₂ : TlbCache n₂}
    (h : cache₁.Within cache₂) (call : TlbCall) : (cache₁.step call).2.Within (cache₂.step call).2 := by
  cases call with
  | lookup pid page => exact h.refresh (pid, page)
  | insert pid page frame => exact h.insert (pid, page) frame
  | invalidate pid page => exact h.remove (pid, page)
  | invalidateProcess pid => exact h.keep fun key => !(key.1 == pid)
  | clear =>
    refine LruCache.within_empty ?_
    have hroom := h.room
    have hlen := h.entries.length_le
    omega

theorem TlbCache.within_perform {n₁ n₂ : Nat} (calls : List TlbCall) :
    ∀ {cache₁ : TlbCache n₁} {cache₂ : TlbCache n₂}, cache₁.Within cache₂ →
      (cache₁.perform calls).Within (cache₂.perform calls) := by
  induction calls with
  | nil => exact fun h => h
  | cons call calls ih => exact fun h => ih (within_step h call)

/-- Inserting what the last call inserted changes nothing. -/
theorem TlbCache.insert_last (hpos : 0 < n) (cache : TlbCache n) (calls : List TlbCall) (pid : Int)
    (page frame : Nat) :
    cache.perform (calls ++ [.insert pid page frame, .insert pid page frame]) =
      cache.perform (calls ++ [.insert pid page frame]) := by
  rw [perform_append, perform_append]
  exact LruCache.insert_insert hpos _ _ _

theorem tlbCreate_represents (h : tlbCreate n = some tlb) :
    tlb.Represents (.empty : TlbCache n) ∧ 0 < n := by
  unfold tlbCreate at h
  split at h
  · cases h
  · rename_i hpos
    cases h
    refine ⟨⟨rfl, [], ⟨fun i => ?_, List.Pairwise.nil, fun i hi => ?_, rfl⟩, rfl⟩,
      Nat.pos_of_ne_zero hpos⟩
    · simp
    · exact absurd hi List.not_mem_nil

end VmSim
