/-
VmSim.Tlb — the translation lookaside buffer (`src/tlb.c`): a fully
associative table keyed by (pid, virtual page), with LRU replacement by
logical timestamps.

The logical clock is a `uint64_t` and wraps. `tlb_find_lru_entry` looks
for a timestamp strictly below `UINT64_MAX`, so an insertion can be
refused once a timestamp has reached that value.
-/
import VmSim.Address
import Mathlib.Data.List.Range

namespace VmSim

structure TlbEntry where
  valid : Bool
  pid : Int
  virtualPage : Nat
  frameNumber : Nat
  lastAccess : Nat

structure Tlb where
  entries : Nat → TlbEntry
  capacity : Nat
  size : Nat
  logicalClock : Nat

def tlbCreate (capacity : Nat) : Option Tlb :=
  if capacity = 0 then none else some ⟨fun _ => ⟨false, 0, 0, 0, 0⟩, capacity, 0, 0⟩

/-- A cleared entry, as the invalidations leave it. -/
def TlbEntry.cleared : TlbEntry := ⟨false, -1, 0, 0, 0⟩

/-- The entry is valid and has this key. -/
def TlbEntry.matches (entry : TlbEntry) (pid : Int) (virtualPage : Nat) : Bool :=
  entry.valid && entry.pid == pid && entry.virtualPage == virtualPage

/-- Store an entry stamped with the advanced clock
(`tlb_register_access`). -/
def tlbRegisterAccess (tlb : Tlb) (index : Nat) (entry : TlbEntry) : Tlb :=
  let clock := (tlb.logicalClock + 1) % wordSize
  { tlb with
    entries := Function.update tlb.entries index { entry with lastAccess := clock }
    logicalClock := clock }

def tlbFindExistingEntry (tlb : Tlb) (pid : Int) (virtualPage : Nat) : Option Nat :=
  (List.range tlb.capacity).find? fun index => (tlb.entries index).matches pid virtualPage

def tlbFindFreeEntry (tlb : Tlb) : Option Nat :=
  (List.range tlb.capacity).find? fun index => !(tlb.entries index).valid

/-- The loop body of `tlb_find_lru_entry`: the victim so far and the
oldest timestamp seen. -/
def tlbLruStep (tlb : Tlb) (best : Option Nat × Nat) (index : Nat) : Option Nat × Nat :=
  if (tlb.entries index).valid ∧ (tlb.entries index).lastAccess < best.2 then
    (some index, (tlb.entries index).lastAccess)
  else best

def tlbFindLruEntry (tlb : Tlb) : Option Nat :=
  ((List.range tlb.capacity).foldl (tlbLruStep tlb) (none, wordSize - 1)).1

def tlbLookup (tlb : Tlb) (pid : Int) (virtualPage : Nat) : Option Nat × Tlb :=
  if pid < 0 then (none, tlb)
  else match tlbFindExistingEntry tlb pid virtualPage with
    | some index =>
      (some (tlb.entries index).frameNumber, tlbRegisterAccess tlb index (tlb.entries index))
    | none => (none, tlb)

def tlbInsert (tlb : Tlb) (pid : Int) (virtualPage frameNumber : Nat) : Int × Tlb :=
  if pid < 0 then (-1, tlb)
  else match tlbFindExistingEntry tlb pid virtualPage with
    | some index =>
      (0, tlbRegisterAccess tlb index { tlb.entries index with frameNumber := frameNumber })
    | none =>
      match tlbFindFreeEntry tlb with
      | some index =>
        (0, tlbRegisterAccess { tlb with size := tlb.size + 1 } index
          ⟨true, pid, virtualPage, frameNumber, 0⟩)
      | none =>
        match tlbFindLruEntry tlb with
        | some index => (0, tlbRegisterAccess tlb index ⟨true, pid, virtualPage, frameNumber, 0⟩)
        | none => (-1, tlb)

def tlbInvalidate (tlb : Tlb) (pid : Int) (virtualPage : Nat) : Bool × Tlb :=
  if pid < 0 then (false, tlb)
  else match tlbFindExistingEntry tlb pid virtualPage with
    | none => (false, tlb)
    | some index =>
      (true, { tlb with
        entries := Function.update tlb.entries index .cleared
        size := tlb.size - 1 })

/-- The entries `tlb_invalidate_process` clears. -/
def Tlb.belongsTo (tlb : Tlb) (pid : Int) (index : Nat) : Bool :=
  decide (index < tlb.capacity) && (tlb.entries index).valid && (tlb.entries index).pid == pid

def tlbInvalidateProcess (tlb : Tlb) (pid : Int) : Nat × Tlb :=
  if pid < 0 then (0, tlb)
  else
    let invalidated := (List.range tlb.capacity).countP (tlb.belongsTo pid)
    (invalidated, { tlb with
      entries := fun index => if tlb.belongsTo pid index then .cleared else tlb.entries index
      size := tlb.size - invalidated })

def tlbClear (tlb : Tlb) : Tlb :=
  { tlb with entries := fun _ => .cleared, size := 0, logicalClock := 0 }

/-! ## Calls -/

/-- One call of the interface of the TLB. -/
inductive TlbCall where
  | lookup (pid : Int) (virtualPage : Nat)
  | insert (pid : Int) (virtualPage frameNumber : Nat)
  | invalidate (pid : Int) (virtualPage : Nat)
  | invalidateProcess (pid : Int)
  | clear

/-- A pid is not negative. -/
def TlbCall.Accepted : TlbCall → Prop
  | .lookup pid _ | .insert pid _ _ | .invalidate pid _ | .invalidateProcess pid => 0 ≤ pid
  | .clear => True

/-- What a call returns: a frame (`none` for a miss), a return code,
whether the key was present, or how many keys were. -/
inductive TlbReply where
  | frame (frameNumber : Option Nat)
  | code (code : Int)
  | removed (present : Bool)
  | count (removed : Nat)
  | done
  deriving DecidableEq

def Tlb.step (tlb : Tlb) : TlbCall → TlbReply × Tlb
  | .lookup pid page => (.frame (tlbLookup tlb pid page).1, (tlbLookup tlb pid page).2)
  | .insert pid page frame =>
    (.code (tlbInsert tlb pid page frame).1, (tlbInsert tlb pid page frame).2)
  | .invalidate pid page => (.removed (tlbInvalidate tlb pid page).1, (tlbInvalidate tlb pid page).2)
  | .invalidateProcess pid =>
    (.count (tlbInvalidateProcess tlb pid).1, (tlbInvalidateProcess tlb pid).2)
  | .clear => (.done, tlbClear tlb)

/-- The TLB after a sequence of calls. -/
def Tlb.perform (tlb : Tlb) (calls : List TlbCall) : Tlb :=
  calls.foldl (fun tlb call => (tlb.step call).2) tlb

theorem Tlb.perform_append (tlb : Tlb) (calls calls' : List TlbCall) :
    tlb.perform (calls ++ calls') = (tlb.perform calls).perform calls' := List.foldl_append

/-! ## What the TLB holds

`Holds tlb pid page frame` says that some valid entry translates the key
to the frame. The operations are specified by what they do to `Holds`;
that a key sits in one entry only is what makes an invalidation remove
it. -/

def Tlb.Holds (tlb : Tlb) (pid : Int) (virtualPage frameNumber : Nat) : Prop :=
  ∃ index < tlb.capacity, (tlb.entries index).matches pid virtualPage = true ∧
    (tlb.entries index).frameNumber = frameNumber

theorem TlbEntry.matches_iff {entry : TlbEntry} {pid : Int} {virtualPage : Nat} :
    entry.matches pid virtualPage = true ↔
      entry.valid = true ∧ entry.pid = pid ∧ entry.virtualPage = virtualPage := by
  simp [TlbEntry.matches, and_assoc]

/-- No key occupies two entries. -/
def Tlb.Wf (tlb : Tlb) : Prop :=
  ∀ i < tlb.capacity, ∀ j < tlb.capacity, ∀ pid virtualPage,
    (tlb.entries i).matches pid virtualPage = true →
      (tlb.entries j).matches pid virtualPage = true → i = j

theorem tlbFindExistingEntry_some {tlb : Tlb} {pid : Int} {virtualPage index : Nat}
    (h : tlbFindExistingEntry tlb pid virtualPage = some index) :
    index < tlb.capacity ∧ (tlb.entries index).matches pid virtualPage = true := by
  have hm := List.find?_some h
  exact ⟨List.mem_range.mp (List.mem_of_find?_eq_some h), hm⟩

theorem tlbFindExistingEntry_none {tlb : Tlb} {pid : Int} {virtualPage : Nat}
    (h : tlbFindExistingEntry tlb pid virtualPage = none) {index : Nat}
    (hi : index < tlb.capacity) : (tlb.entries index).matches pid virtualPage = false := by
  simpa using List.find?_eq_none.mp h index (List.mem_range.mpr hi)

/-- Two keys of one valid entry agree. -/
theorem TlbEntry.matches_unique {entry : TlbEntry} {pid pid' : Int} {page page' : Nat}
    (h : entry.matches pid page = true) (h' : entry.matches pid' page' = true) :
    pid' = pid ∧ page' = page := by
  obtain ⟨_, hp, hv⟩ := TlbEntry.matches_iff.mp h
  obtain ⟨_, hp', hv'⟩ := TlbEntry.matches_iff.mp h'
  exact ⟨hp'.symm.trans hp, hv'.symm.trans hv⟩

/-! ### Lookup -/

theorem tlbLookup_none {tlb : Tlb} {pid : Int} (hpid : 0 ≤ pid) {virtualPage : Nat}
    (h : (tlbLookup tlb pid virtualPage).1 = none) (frameNumber : Nat) :
    ¬ tlb.Holds pid virtualPage frameNumber := by
  unfold tlbLookup at h
  rw [if_neg (Int.not_lt.mpr hpid)] at h
  split at h
  · cases h
  · rename_i hfind
    rintro ⟨i, hi, hm, _⟩
    rw [tlbFindExistingEntry_none hfind hi] at hm
    cases hm

theorem tlbLookup_holds {tlb : Tlb} (pid : Int) (virtualPage : Nat) (pid' : Int)
    (page' frame' : Nat) :
    (tlbLookup tlb pid virtualPage).2.Holds pid' page' frame' ↔ tlb.Holds pid' page' frame' := by
  unfold tlbLookup
  split
  · rfl
  · split
    · rename_i index _
      refine exists_congr fun i => and_congr_right fun _ => ?_
      by_cases e : i = index <;> simp [tlbRegisterAccess, e, TlbEntry.matches]
    · rfl

theorem tlbLookup_wf {tlb : Tlb} (h : tlb.Wf) (pid : Int) (virtualPage : Nat) :
    (tlbLookup tlb pid virtualPage).2.Wf := by
  unfold tlbLookup
  split
  · exact h
  · split
    · rename_i index _
      have hmatch : ∀ i p v, ((tlbRegisterAccess tlb index (tlb.entries index)).entries i).matches p v =
          (tlb.entries i).matches p v := by
        intro i p v
        by_cases e : i = index <;> simp [tlbRegisterAccess, e, TlbEntry.matches]
      intro i hi j hj p v hip hjp
      rw [hmatch] at hip hjp
      exact h i hi j hj p v hip hjp
    · exact h

theorem tlbLookup_capacity (tlb : Tlb) (pid : Int) (virtualPage : Nat) :
    (tlbLookup tlb pid virtualPage).2.capacity = tlb.capacity := by
  unfold tlbLookup
  split
  · rfl
  · split <;> rfl

theorem tlbLookup_some {tlb : Tlb} {pid : Int} {virtualPage frameNumber : Nat}
    (h : (tlbLookup tlb pid virtualPage).1 = some frameNumber) :
    tlb.Holds pid virtualPage frameNumber := by
  unfold tlbLookup at h
  split at h
  · cases h
  · split at h
    · rename_i index hfind
      obtain ⟨hi, hm⟩ := tlbFindExistingEntry_some hfind
      exact ⟨index, hi, hm, Option.some.inj h⟩
    · cases h

/-! ### Storing an entry -/

/-- Storing a valid entry for a key that no other entry has. -/
theorem tlbRegisterAccess_holds {tlb : Tlb} {index : Nat} {entry : TlbEntry} {pid' : Int}
    {page' frame' : Nat} (h : (tlbRegisterAccess tlb index entry).Holds pid' page' frame') :
    (pid' = entry.pid ∧ page' = entry.virtualPage ∧ frame' = entry.frameNumber) ∨
      ∃ i < tlb.capacity, i ≠ index ∧ (tlb.entries i).matches pid' page' = true ∧
        (tlb.entries i).frameNumber = frame' := by
  obtain ⟨i, hi, hm, hf⟩ := h
  by_cases e : i = index
  · left
    simp only [tlbRegisterAccess, e, Function.update_self] at hm hf
    obtain ⟨_, hp, hv⟩ := TlbEntry.matches_iff.mp hm
    exact ⟨hp.symm, hv.symm, hf.symm⟩
  · right
    simp only [tlbRegisterAccess, Function.update_of_ne e] at hm hf
    exact ⟨i, hi, e, hm, hf⟩

theorem tlbRegisterAccess_wf {tlb : Tlb} (h : tlb.Wf) {index : Nat} {entry : TlbEntry}
    (hother : ∀ i < tlb.capacity, i ≠ index →
      (tlb.entries i).matches entry.pid entry.virtualPage = false) :
    (tlbRegisterAccess tlb index entry).Wf := by
  intro i hi j hj p v hip hjp
  by_cases ei : i = index <;> by_cases ej : j = index
  · rw [ei, ej]
  · simp only [tlbRegisterAccess, ei, Function.update_self] at hip
    simp only [tlbRegisterAccess, Function.update_of_ne ej] at hjp
    obtain ⟨_, hp, hv⟩ := TlbEntry.matches_iff.mp hip
    have hno := hother j hj ej
    rw [show entry.pid = p from hp, show entry.virtualPage = v from hv, hjp] at hno
    cases hno
  · simp only [tlbRegisterAccess, ej, Function.update_self] at hjp
    simp only [tlbRegisterAccess, Function.update_of_ne ei] at hip
    obtain ⟨_, hp, hv⟩ := TlbEntry.matches_iff.mp hjp
    have hno := hother i hi ei
    rw [show entry.pid = p from hp, show entry.virtualPage = v from hv, hip] at hno
    cases hno
  · simp only [tlbRegisterAccess, Function.update_of_ne ei] at hip
    simp only [tlbRegisterAccess, Function.update_of_ne ej] at hjp
    exact h i hi j hj p v hip hjp

/-! ### Insertion -/

/-- An insertion either stores the translation, dropping nothing but the
old one of the key and possibly one other entry, or is refused and
changes nothing. -/
theorem tlbInsert_spec {tlb : Tlb} (h : tlb.Wf) {pid : Int} (hpid : 0 ≤ pid)
    (virtualPage frameNumber : Nat) :
    ((tlbInsert tlb pid virtualPage frameNumber).1 = 0 ∧
      (tlbInsert tlb pid virtualPage frameNumber).2.Wf ∧
      ∀ pid' page' frame', (tlbInsert tlb pid virtualPage frameNumber).2.Holds pid' page' frame' →
        (pid' = pid ∧ page' = virtualPage ∧ frame' = frameNumber) ∨
          (¬ (pid' = pid ∧ page' = virtualPage) ∧ tlb.Holds pid' page' frame')) ∨
    ((tlbInsert tlb pid virtualPage frameNumber).1 = -1 ∧
      (tlbInsert tlb pid virtualPage frameNumber).2 = tlb) := by
  -- the three slots an insertion can use differ only in why the key is nowhere else
  have hstore : ∀ (size : Nat) (index : Nat) (entry : TlbEntry),
      entry.pid = pid → entry.virtualPage = virtualPage → entry.frameNumber = frameNumber →
      (∀ i < tlb.capacity, i ≠ index → (tlb.entries i).matches pid virtualPage = false) →
      (tlbRegisterAccess { tlb with size := size } index entry).Wf ∧
        ∀ pid' page' frame',
          (tlbRegisterAccess { tlb with size := size } index entry).Holds pid' page' frame' →
          (pid' = pid ∧ page' = virtualPage ∧ frame' = frameNumber) ∨
            (¬ (pid' = pid ∧ page' = virtualPage) ∧ tlb.Holds pid' page' frame') := by
    intro size index entry hp hv hf hother
    have hwf : ({ tlb with size := size } : Tlb).Wf := h
    refine ⟨tlbRegisterAccess_wf hwf (by rw [hp, hv]; exact hother), fun pid' page' frame' hh => ?_⟩
    rcases tlbRegisterAccess_holds hh with
      ⟨e1, e2, e3⟩ | ⟨i, hi, hne, hm, hfr⟩
    · exact Or.inl ⟨e1.trans hp, e2.trans hv, e3.trans hf⟩
    · refine Or.inr ⟨fun ⟨e1, e2⟩ => ?_, i, hi, hm, hfr⟩
      have hno := hother i hi hne
      rw [← e1, ← e2] at hno
      exact absurd hm (by simp [hno])
  unfold tlbInsert
  rw [if_neg (Int.not_lt.mpr hpid)]
  split
  · rename_i index hfind
    obtain ⟨hi, hm⟩ := tlbFindExistingEntry_some hfind
    obtain ⟨_, hp, hv⟩ := TlbEntry.matches_iff.mp hm
    refine Or.inl ⟨rfl, hstore tlb.size index _ hp hv rfl fun i hi' hne => ?_⟩
    by_contra hc
    exact hne (h i hi' index hi pid virtualPage (by simpa using hc) hm)
  · rename_i hfind
    have hother : ∀ index, ∀ i < tlb.capacity, i ≠ index →
        (tlb.entries i).matches pid virtualPage = false :=
      fun _ i hi _ => tlbFindExistingEntry_none hfind hi
    split
    · rename_i index _
      exact Or.inl ⟨rfl, hstore _ index _ rfl rfl rfl (hother index)⟩
    · split
      · rename_i index _
        exact Or.inl ⟨rfl, hstore tlb.size index _ rfl rfl rfl (hother index)⟩
      · exact Or.inr ⟨rfl, rfl⟩

/-! ### Invalidation -/

theorem tlbInvalidate_holds {tlb : Tlb} (h : tlb.Wf) {pid : Int} (hpid : 0 ≤ pid)
    (virtualPage : Nat) (pid' : Int) (page' frame' : Nat) :
    (tlbInvalidate tlb pid virtualPage).2.Holds pid' page' frame' ↔
      ¬ (pid' = pid ∧ page' = virtualPage) ∧ tlb.Holds pid' page' frame' := by
  unfold tlbInvalidate
  rw [if_neg (Int.not_lt.mpr hpid)]
  split
  · rename_i hfind
    refine ⟨fun hh => ⟨fun ⟨e1, e2⟩ => ?_, hh⟩, fun hh => hh.2⟩
    obtain ⟨i, hi, hm, _⟩ := hh
    rw [e1, e2, tlbFindExistingEntry_none hfind hi] at hm
    cases hm
  · rename_i index hfind
    obtain ⟨hi, hm⟩ := tlbFindExistingEntry_some hfind
    constructor
    · rintro ⟨i, hi', hm', hf'⟩
      by_cases e : i = index
      · simp [e, TlbEntry.matches, TlbEntry.cleared] at hm'
      · simp only [Function.update_of_ne e] at hm' hf'
        refine ⟨fun ⟨e1, e2⟩ => e ?_, i, hi', hm', hf'⟩
        rw [e1, e2] at hm'
        exact h i hi' index hi pid virtualPage hm' hm
    · rintro ⟨hne, i, hi', hm', hf'⟩
      have e : i ≠ index := by
        rintro rfl
        exact hne (TlbEntry.matches_unique hm hm')
      exact ⟨i, hi', by simpa [Function.update_of_ne e] using hm',
        by simpa [Function.update_of_ne e] using hf'⟩

theorem tlbInvalidate_wf {tlb : Tlb} (h : tlb.Wf) (pid : Int) (virtualPage : Nat) :
    (tlbInvalidate tlb pid virtualPage).2.Wf := by
  unfold tlbInvalidate
  split
  · exact h
  · split
    · exact h
    · rename_i index _
      have hback : ∀ i p v, (Function.update tlb.entries index .cleared i).matches p v = true →
          (tlb.entries i).matches p v = true := by
        intro i p v hm
        by_cases e : i = index
        · simp [e, TlbEntry.matches, TlbEntry.cleared] at hm
        · simpa [Function.update_of_ne e] using hm
      exact fun i hi j hj p v hip hjp => h i hi j hj p v (hback i p v hip) (hback j p v hjp)

theorem tlbInvalidateProcess_holds {tlb : Tlb} {pid : Int} (hpid : 0 ≤ pid) (pid' : Int)
    (page' frame' : Nat) :
    (tlbInvalidateProcess tlb pid).2.Holds pid' page' frame' ↔
      pid' ≠ pid ∧ tlb.Holds pid' page' frame' := by
  unfold tlbInvalidateProcess
  rw [if_neg (Int.not_lt.mpr hpid)]
  constructor
  · rintro ⟨i, hi, hm, hf⟩
    by_cases hb : tlb.belongsTo pid i = true
    · simp [hb, TlbEntry.matches, TlbEntry.cleared] at hm
    · simp only [hb, Bool.false_eq_true, if_false] at hm hf
      refine ⟨fun e => hb ?_, i, hi, hm, hf⟩
      obtain ⟨hvalid, hp, _⟩ := TlbEntry.matches_iff.mp hm
      have hi' : i < tlb.capacity := hi
      simp [Tlb.belongsTo, hi', hvalid, hp, e]
  · rintro ⟨hne, i, hi, hm, hf⟩
    obtain ⟨_, hp, _⟩ := TlbEntry.matches_iff.mp hm
    have hb : tlb.belongsTo pid i = false := by
      simp [Tlb.belongsTo, hp, hne]
    exact ⟨i, hi, by simpa [hb] using hm, by simpa [hb] using hf⟩

theorem tlbInvalidateProcess_wf {tlb : Tlb} (h : tlb.Wf) (pid : Int) :
    (tlbInvalidateProcess tlb pid).2.Wf := by
  unfold tlbInvalidateProcess
  split
  · exact h
  · have hback : ∀ i p v,
        (if tlb.belongsTo pid i then TlbEntry.cleared else tlb.entries i).matches p v = true →
          (tlb.entries i).matches p v = true := by
      intro i p v hm
      split at hm
      · simp [TlbEntry.matches, TlbEntry.cleared] at hm
      · exact hm
    exact fun i hi j hj p v hip hjp => h i hi j hj p v (hback i p v hip) (hback j p v hjp)

/-! ### Entries that stay

`Spares tlb pid tlb'`: on the way from `tlb` to `tlb'` only entries of
`pid` were cleared, and nothing else happened. -/

def Tlb.Spares (tlb : Tlb) (pid : Int) (tlb' : Tlb) : Prop :=
  ∀ i, tlb'.entries i = tlb.entries i ∨
    ((tlb.entries i).pid = pid ∧ (tlb'.entries i).valid = false)

theorem Tlb.spares_refl (tlb : Tlb) (pid : Int) : tlb.Spares pid tlb := fun _ => Or.inl rfl

theorem Tlb.Spares.trans {tlb tlb' tlb'' : Tlb} {pid : Int} (h : tlb.Spares pid tlb')
    (h' : tlb'.Spares pid tlb'') : tlb.Spares pid tlb'' := by
  intro i
  rcases h i with e | ⟨hpid, hvalid⟩
  · rw [← e]
    exact h' i
  · rcases h' i with e' | ⟨_, hvalid'⟩
    · exact Or.inr ⟨hpid, by rw [e', hvalid]⟩
    · exact Or.inr ⟨hpid, hvalid'⟩

theorem Tlb.spares_invalidate (tlb : Tlb) (pid : Int) (virtualPage : Nat) :
    tlb.Spares pid (tlbInvalidate tlb pid virtualPage).2 := by
  unfold tlbInvalidate
  split
  · exact tlb.spares_refl pid
  · split
    · exact tlb.spares_refl pid
    · rename_i index hfind
      intro i
      by_cases e : i = index
      · obtain ⟨_, hm⟩ := tlbFindExistingEntry_some hfind
        exact Or.inr ⟨e ▸ (TlbEntry.matches_iff.mp hm).2.1, by simp [e, TlbEntry.cleared]⟩
      · exact Or.inl (Function.update_of_ne e _ _)

theorem Tlb.spares_invalidateProcess (tlb : Tlb) (pid : Int) :
    tlb.Spares pid (tlbInvalidateProcess tlb pid).2 := by
  unfold tlbInvalidateProcess
  split
  · exact tlb.spares_refl pid
  · intro i
    dsimp only
    split
    · rename_i hb
      simp only [Tlb.belongsTo, Bool.and_eq_true, beq_iff_eq] at hb
      exact Or.inr ⟨hb.2, rfl⟩
    · exact Or.inl rfl

/-! ## Timestamps

As long as the clock has not come near its end, an insertion always finds
a place. -/

/-- The clock and all timestamps in use are at most `n`. -/
structure Tlb.Fresh (tlb : Tlb) (n : Nat) : Prop where
  clock : tlb.logicalClock ≤ n
  stamps : ∀ i < tlb.capacity, (tlb.entries i).valid = true → (tlb.entries i).lastAccess ≤ n

theorem Tlb.Fresh.mono {tlb : Tlb} {m n : Nat} (h : tlb.Fresh m) (hle : m ≤ n) : tlb.Fresh n :=
  ⟨h.clock.trans hle, fun i hi hv => (h.stamps i hi hv).trans hle⟩

theorem Tlb.Fresh.registerAccess {tlb : Tlb} {n : Nat} (h : tlb.Fresh n) (hn : n + 1 < wordSize)
    (index : Nat) (entry : TlbEntry) : (tlbRegisterAccess tlb index entry).Fresh (n + 1) := by
  have hclock := h.clock
  have hmod : (tlb.logicalClock + 1) % wordSize = tlb.logicalClock + 1 :=
    Nat.mod_eq_of_lt (Nat.lt_of_le_of_lt (Nat.succ_le_succ hclock) hn)
  refine ⟨?_, fun i hi hv => ?_⟩
  · simp only [tlbRegisterAccess, hmod]
    omega
  · by_cases e : i = index
    · simp only [tlbRegisterAccess, e, Function.update_self, hmod]
      omega
    · simp only [tlbRegisterAccess, Function.update_of_ne e] at hv ⊢
      exact (h.stamps i hi hv).trans (Nat.le_succ n)

theorem Tlb.Fresh.lookup {tlb : Tlb} {n : Nat} (h : tlb.Fresh n) (hn : n + 1 < wordSize)
    (pid : Int) (virtualPage : Nat) : (tlbLookup tlb pid virtualPage).2.Fresh (n + 1) := by
  unfold tlbLookup
  split
  · exact h.mono (Nat.le_succ n)
  · split
    · exact h.registerAccess hn _ _
    · exact h.mono (Nat.le_succ n)

theorem Tlb.Fresh.insert {tlb : Tlb} {n : Nat} (h : tlb.Fresh n) (hn : n + 1 < wordSize)
    (pid : Int) (virtualPage frameNumber : Nat) :
    (tlbInsert tlb pid virtualPage frameNumber).2.Fresh (n + 1) := by
  unfold tlbInsert
  split
  · exact h.mono (Nat.le_succ n)
  · split
    · exact h.registerAccess hn _ _
    · split
      · have hsize : ({ tlb with size := tlb.size + 1 } : Tlb).Fresh n := ⟨h.clock, h.stamps⟩
        exact hsize.registerAccess hn _ _
      · split
        · exact h.registerAccess hn _ _
        · exact h.mono (Nat.le_succ n)

theorem Tlb.Fresh.invalidate {tlb : Tlb} {n : Nat} (h : tlb.Fresh n) (pid : Int)
    (virtualPage : Nat) : (tlbInvalidate tlb pid virtualPage).2.Fresh n := by
  unfold tlbInvalidate
  split
  · exact h
  · split
    · exact h
    · rename_i index _
      refine ⟨h.clock, fun i hi hv => ?_⟩
      by_cases e : i = index
      · simp [e, TlbEntry.cleared] at hv
      · simp only [Function.update_of_ne e] at hv ⊢
        exact h.stamps i hi hv

theorem Tlb.Fresh.invalidateProcess {tlb : Tlb} {n : Nat} (h : tlb.Fresh n) (pid : Int) :
    (tlbInvalidateProcess tlb pid).2.Fresh n := by
  unfold tlbInvalidateProcess
  split
  · exact h
  · refine ⟨h.clock, fun i hi hv => ?_⟩
    dsimp only at hv ⊢
    split at hv
    · simp [TlbEntry.cleared] at hv
    · rename_i hb
      rw [if_neg hb]
      exact h.stamps i hi hv

/-- The search for the oldest entry comes up empty only if no stamp is
below the bound. -/
theorem tlbLruStep_none (tlb : Tlb) (indices : List Nat) (best : Option Nat × Nat)
    (h : (indices.foldl (tlbLruStep tlb) best).1 = none) :
    best.1 = none ∧ ∀ i ∈ indices, (tlb.entries i).valid = true →
      best.2 ≤ (tlb.entries i).lastAccess := by
  induction indices generalizing best with
  | nil => exact ⟨h, fun i hi => absurd hi (List.not_mem_nil)⟩
  | cons index indices ih =>
    obtain ⟨hbest, hrest⟩ := ih (tlbLruStep tlb best index) h
    have hcond : ¬ ((tlb.entries index).valid ∧ (tlb.entries index).lastAccess < best.2) := by
      intro hc
      simp [tlbLruStep, hc] at hbest
    have hstep : tlbLruStep tlb best index = best := by
      rw [tlbLruStep, if_neg hcond]
    rw [hstep] at hbest hrest
    refine ⟨hbest, List.forall_mem_cons.mpr ⟨fun hv => ?_, hrest⟩⟩
    exact Nat.le_of_not_lt fun hlt => hcond ⟨hv, hlt⟩

theorem Tlb.Fresh.insert_accepted {tlb : Tlb} {n : Nat} (h : tlb.Fresh n) (hn : n + 1 < wordSize)
    (hcap : 0 < tlb.capacity) {pid : Int} (hpid : 0 ≤ pid) (virtualPage frameNumber : Nat) :
    (tlbInsert tlb pid virtualPage frameNumber).1 = 0 := by
  unfold tlbInsert
  rw [if_neg (Int.not_lt.mpr hpid)]
  split
  · rfl
  · split
    · rfl
    · rename_i hfree
      split
      · rfl
      · rename_i hlru
        have hvalid : (tlb.entries 0).valid = true := by
          simpa using List.find?_eq_none.mp hfree 0 (List.mem_range.mpr hcap)
        obtain ⟨_, hall⟩ := tlbLruStep_none tlb _ _ hlru
        have hle := hall 0 (List.mem_range.mpr hcap) hvalid
        have hstamp := h.stamps 0 hcap hvalid
        simp only [wordSize] at hn hle
        omega

theorem tlbInsert_capacity (tlb : Tlb) (pid : Int) (virtualPage frameNumber : Nat) :
    (tlbInsert tlb pid virtualPage frameNumber).2.capacity = tlb.capacity := by
  unfold tlbInsert
  split
  · rfl
  · split
    · rfl
    · split
      · rfl
      · split <;> rfl

theorem tlbInvalidate_capacity (tlb : Tlb) (pid : Int) (virtualPage : Nat) :
    (tlbInvalidate tlb pid virtualPage).2.capacity = tlb.capacity := by
  unfold tlbInvalidate
  split
  · rfl
  · split <;> rfl

theorem tlbInvalidateProcess_capacity (tlb : Tlb) (pid : Int) :
    (tlbInvalidateProcess tlb pid).2.capacity = tlb.capacity := by
  unfold tlbInvalidateProcess
  split <;> rfl

/-! ## Sequences of calls -/

/-- How far a call can advance the clock. -/
def TlbCall.ticks : TlbCall → Nat
  | .lookup _ _ | .insert _ _ _ => 1
  | _ => 0

theorem Tlb.Fresh.step {tlb : Tlb} {k : Nat} (h : tlb.Fresh k) (call : TlbCall)
    (hk : k + call.ticks < wordSize) : (tlb.step call).2.Fresh (k + call.ticks) := by
  cases call with
  | lookup pid page => exact h.lookup hk pid page
  | insert pid page frame => exact h.insert hk pid page frame
  | invalidate pid page => exact h.invalidate pid page
  | invalidateProcess pid => exact h.invalidateProcess pid
  | clear =>
    refine ⟨Nat.zero_le _, fun i _ hv => ?_⟩
    simp [Tlb.step, tlbClear, TlbEntry.cleared] at hv

theorem Tlb.step_capacity (tlb : Tlb) (call : TlbCall) :
    (tlb.step call).2.capacity = tlb.capacity := by
  cases call with
  | lookup pid page => exact tlbLookup_capacity tlb pid page
  | insert pid page frame => exact tlbInsert_capacity tlb pid page frame
  | invalidate pid page => exact tlbInvalidate_capacity tlb pid page
  | invalidateProcess pid => exact tlbInvalidateProcess_capacity tlb pid
  | clear => rfl

theorem Tlb.perform_capacity (calls : List TlbCall) :
    ∀ tlb : Tlb, (tlb.perform calls).capacity = tlb.capacity := by
  induction calls with
  | nil => exact fun tlb => rfl
  | cons call calls ih => exact fun tlb => (ih _).trans (tlb.step_capacity call)

/-- How far a sequence of calls can advance the clock. -/
def TlbCall.totalTicks (calls : List TlbCall) : Nat := (calls.map TlbCall.ticks).sum

@[simp] theorem TlbCall.totalTicks_nil : TlbCall.totalTicks [] = 0 := rfl

@[simp] theorem TlbCall.totalTicks_cons (call : TlbCall) (calls : List TlbCall) :
    TlbCall.totalTicks (call :: calls) = call.ticks + TlbCall.totalTicks calls := rfl

@[simp] theorem TlbCall.totalTicks_append (calls calls' : List TlbCall) :
    TlbCall.totalTicks (calls ++ calls') =
      TlbCall.totalTicks calls + TlbCall.totalTicks calls' := by
  simp [TlbCall.totalTicks]

theorem TlbCall.tail_ticks (calls : List TlbCall) :
    TlbCall.totalTicks calls.tail ≤ TlbCall.totalTicks calls := by
  cases calls with
  | nil => exact Nat.le_refl 0
  | cons call calls => exact Nat.le_add_left _ _

/-- The clock and the stamps advance with the calls. -/
theorem Tlb.Fresh.perform (calls : List TlbCall) :
    ∀ {tlb : Tlb} {k : Nat}, tlb.Fresh k → k + TlbCall.totalTicks calls < wordSize →
      (tlb.perform calls).Fresh (k + TlbCall.totalTicks calls) := by
  induction calls with
  | nil => exact fun h _ => h
  | cons call calls ih =>
    intro tlb k h hk
    rw [TlbCall.totalTicks_cons, ← Nat.add_assoc] at hk ⊢
    exact ih (h.step call (by omega)) hk

/-! ## Sequences of operations -/

/-- `tlb'` came out of `tlb` by operations that advanced the clock by at
most `k` and left only translations that satisfy `kept`. -/
structure Tlb.Became (tlb : Tlb) (k : Nat) (kept : Int → Nat → Nat → Prop) (tlb' : Tlb) : Prop where
  wf : tlb'.Wf
  capacity : tlb'.capacity = tlb.capacity
  holds : ∀ pid page frame, tlb'.Holds pid page frame → kept pid page frame
  fresh : ∀ n, tlb.Fresh n → n + k < wordSize → tlb'.Fresh (n + k)

variable {tlb tlb' : Tlb} {k : Nat} {kept : Int → Nat → Nat → Prop}

theorem Tlb.Wf.became (h : tlb.Wf) : tlb.Became 0 tlb.Holds tlb :=
  ⟨h, rfl, fun _ _ _ hh => hh, fun _ hf _ => hf⟩

theorem Tlb.Became.mono (h : tlb.Became k kept tlb') {k' : Nat} (hk : k ≤ k')
    {kept' : Int → Nat → Nat → Prop}
    (himp : ∀ pid page frame, kept pid page frame → kept' pid page frame) :
    tlb.Became k' kept' tlb' :=
  ⟨h.wf, h.capacity, fun pid page frame hh => himp _ _ _ (h.holds pid page frame hh),
    fun n hf hn => (h.fresh n hf (by omega)).mono (by omega)⟩

theorem Tlb.Became.lookup (h : tlb.Became k kept tlb') (pid : Int) (virtualPage : Nat) :
    tlb.Became (k + 1) kept (tlbLookup tlb' pid virtualPage).2 :=
  ⟨tlbLookup_wf h.wf pid virtualPage, (tlbLookup_capacity _ _ _).trans h.capacity,
    fun pid' page' frame' hh => h.holds _ _ _ ((tlbLookup_holds pid virtualPage _ _ _).mp hh),
    fun n hf hn => (h.fresh n hf (by omega)).lookup (by omega) pid virtualPage⟩

theorem Tlb.Became.insert (h : tlb.Became k kept tlb') {pid : Int} (hpid : 0 ≤ pid)
    (virtualPage frameNumber : Nat) :
    tlb.Became (k + 1) (fun pid' page' frame' =>
      (pid' = pid ∧ page' = virtualPage ∧ frame' = frameNumber) ∨ kept pid' page' frame')
      (tlbInsert tlb' pid virtualPage frameNumber).2 := by
  refine ⟨?_, (tlbInsert_capacity _ _ _ _).trans h.capacity, fun pid' page' frame' hh => ?_,
    fun n hf hn => (h.fresh n hf (by omega)).insert (by omega) pid virtualPage frameNumber⟩
  · rcases tlbInsert_spec h.wf hpid virtualPage frameNumber with ⟨_, hwf, _⟩ | ⟨_, he⟩
    · exact hwf
    · rw [he]
      exact h.wf
  · rcases tlbInsert_spec h.wf hpid virtualPage frameNumber with ⟨_, _, hholds⟩ | ⟨_, he⟩
    · exact (hholds _ _ _ hh).imp id fun hold => h.holds _ _ _ hold.2
    · rw [he] at hh
      exact Or.inr (h.holds _ _ _ hh)

theorem Tlb.Became.invalidate (h : tlb.Became k kept tlb') {pid : Int} (hpid : 0 ≤ pid)
    (virtualPage : Nat) :
    tlb.Became k (fun pid' page' frame' =>
      ¬ (pid' = pid ∧ page' = virtualPage) ∧ kept pid' page' frame')
      (tlbInvalidate tlb' pid virtualPage).2 :=
  ⟨tlbInvalidate_wf h.wf pid virtualPage, (tlbInvalidate_capacity _ _ _).trans h.capacity,
    fun _ _ _ hh =>
      ((tlbInvalidate_holds h.wf hpid virtualPage _ _ _).mp hh).imp id (h.holds _ _ _),
    fun n hf hn => (h.fresh n hf hn).invalidate pid virtualPage⟩

theorem Tlb.Became.invalidateProcess (h : tlb.Became k kept tlb') {pid : Int} (hpid : 0 ≤ pid) :
    tlb.Became k (fun pid' page' frame' => pid' ≠ pid ∧ kept pid' page' frame')
      (tlbInvalidateProcess tlb' pid).2 :=
  ⟨tlbInvalidateProcess_wf h.wf pid, (tlbInvalidateProcess_capacity _ _).trans h.capacity,
    fun _ _ _ hh =>
      ((tlbInvalidateProcess_holds hpid _ _ _).mp hh).imp id (h.holds _ _ _),
    fun n hf hn => (h.fresh n hf hn).invalidateProcess pid⟩

theorem tlbCreate_spec {capacity : Nat} {tlb : Tlb} (h : tlbCreate capacity = some tlb) :
    tlb.Wf ∧ (∀ pid page frame, ¬ tlb.Holds pid page frame) ∧ tlb.capacity = capacity ∧
      0 < capacity ∧ tlb.Fresh 0 := by
  unfold tlbCreate at h
  split at h
  · cases h
  · rename_i hpos
    cases h
    exact ⟨fun i _ j _ p v hi _ => by simp [TlbEntry.matches] at hi,
      fun p v f ⟨i, _, hm, _⟩ => by simp [TlbEntry.matches] at hm, rfl, Nat.pos_of_ne_zero hpos,
      Nat.le_refl 0, fun i _ hv => by simp at hv⟩

end VmSim
