/-
VmSim.FrameCalls — runs of calls on a physical memory of any size that
`physical_memory_create` accepts.

The interface names frames by `uint32_t`, and so do the calls here. A
memory may have more frames than that: those from 2^32 on are never
occupied (`PhysicalMemory.Low`), and once all others are, the next
allocation finds the frame 2^32 and hands out its truncation
(`physicalMemoryAllocateFrame_crowded`). Up to there the free frames are
counted right and handed out one at a time.
-/
import VmSim.PhysicalMemory

namespace VmSim

/-! ## Calls -/

inductive FrameCall where
  | allocate (owner : Nat) (ownerPid : Int) (virtualPage : Nat)
  | replace (frameNumber : UInt32) (newOwner : Nat) (newOwnerPid : Int) (newVirtualPage : Nat)
  | release (frameNumber : UInt32)
  | markAccess (frameNumber : UInt32) (isWrite : Bool)
  | writePage (frameNumber : UInt32) (page : PageData)
  | writeByte (frameNumber : UInt32) (offset : UInt16) (value : UInt8)

/-- The memory after a call. -/
def PhysicalMemory.next (memory : PhysicalMemory) : FrameCall → PhysicalMemory
  | .allocate owner ownerPid virtualPage =>
    (physicalMemoryAllocateFrame memory owner ownerPid virtualPage).2
  | .replace frameNumber newOwner newOwnerPid newVirtualPage =>
    (physicalMemoryReplaceFrame memory frameNumber.toNat newOwner newOwnerPid newVirtualPage).2
  | .release frameNumber => (physicalMemoryReleaseFrame memory frameNumber.toNat).2
  | .markAccess frameNumber isWrite =>
    (physicalMemoryMarkAccess memory frameNumber.toNat isWrite).2
  | .writePage frameNumber page => (physicalMemoryWritePage memory frameNumber.toNat page).2
  | .writeByte frameNumber offset value =>
    (physicalMemoryWriteByte memory frameNumber.toNat offset.toNat value).2

def PhysicalMemory.after (memory : PhysicalMemory) (calls : List FrameCall) : PhysicalMemory :=
  calls.foldl PhysicalMemory.next memory

@[simp] theorem PhysicalMemory.after_nil (memory : PhysicalMemory) : memory.after [] = memory := rfl

@[simp] theorem PhysicalMemory.after_concat (memory : PhysicalMemory) (calls : List FrameCall)
    (call : FrameCall) : memory.after (calls ++ [call]) = (memory.after calls).next call := by
  rw [PhysicalMemory.after, List.foldl_append]
  rfl

/-! ## What an allocation is to do -/

/-- The free frames are counted right. -/
def PhysicalMemory.Counted (memory : PhysicalMemory) : Prop :=
  memory.freeFrameCount = (freeFrames memory.frames memory.frameCount).card

/-- An allocation hands out a frame that was free and touches no other,
and reports that there is none exactly when that is so. -/
structure PhysicalMemory.AllocatesFresh (memory : PhysicalMemory) (owner : Nat) (ownerPid : Int)
    (virtualPage : Nat) : Prop where
  fresh : ∀ frame memory',
    physicalMemoryAllocateFrame memory owner ownerPid virtualPage = (.ok frame, memory') →
    frame < memory.frameCount ∧ (memory.frames frame).occupied = false ∧
      (memory'.frames frame).occupied = true ∧
      ∀ other, other ≠ frame →
        memory'.frames other = memory.frames other ∧ memory'.data other = memory.data other
  refused : ∀ code memory',
    physicalMemoryAllocateFrame memory owner ownerPid virtualPage = (.error code, memory') →
    memory' = memory
  full : (physicalMemoryAllocateFrame memory owner ownerPid virtualPage).1 = .error (-2) ↔
    0 ≤ ownerPid ∧ ∀ frame, frame < memory.frameCount → (memory.frames frame).occupied = true

def FrameCall.Safe (memory : PhysicalMemory) : FrameCall → Prop
  | .allocate owner ownerPid virtualPage => memory.AllocatesFresh owner ownerPid virtualPage
  | _ => True

/-- Every call of the run is safe where it is made, and the free frames
are counted right throughout. -/
structure PhysicalMemory.RunsSafely (memory : PhysicalMemory) (calls : List FrameCall) : Prop where
  counted : ∀ done rest, calls = done ++ rest → (memory.after done).Counted
  safe : ∀ done call rest, calls = done ++ call :: rest → call.Safe (memory.after done)

/-- Every frame that a `uint32_t` can name is in use, and there are more. -/
def PhysicalMemory.Crowded (memory : PhysicalMemory) : Prop :=
  2 ^ 32 < memory.frameCount ∧ ∀ frame < 2 ^ 32, (memory.frames frame).occupied = true

/-- An allocation on a crowded memory. -/
def FrameCall.Overflows (memory : PhysicalMemory) : FrameCall → Prop
  | .allocate _ ownerPid _ => 0 ≤ ownerPid ∧ memory.Crowded
  | _ => False

/-- Frames that no `uint32_t` names are not in use. -/
def PhysicalMemory.Low (memory : PhysicalMemory) : Prop :=
  ∀ frame, 2 ^ 32 ≤ frame → (memory.frames frame).occupied = false

variable {memory memory' : PhysicalMemory} {owner virtualPage : Nat} {ownerPid : Int}
  {call : FrameCall}

theorem toUint32_lt (index : Nat) : toUint32 index < 2 ^ 32 := Nat.mod_lt _ (by decide)

/-! ## Allocations -/

theorem PhysicalMemory.firstFree_least {index : Nat} (h : memory.firstFree = some index)
    {frame : Nat} (hlt : frame < index) : (memory.frames frame).occupied = true := by
  have hall := (List.find?_range_eq_some.mp h).2.2 frame hlt
  simpa using hall

/-- The first free frame has a number that a `uint32_t` holds. -/
theorem PhysicalMemory.firstFree_lt {index : Nat} (h : memory.firstFree = some index)
    (hroom : ¬memory.Crowded) : index < 2 ^ 32 := by
  obtain ⟨hcount, _⟩ := memory.firstFree_some h
  by_contra hlarge
  refine hroom ⟨by omega, fun frame hframe => ?_⟩
  exact memory.firstFree_least h (by omega)

/-- With the free frames counted right, an allocation that does not
overflow is decided by the search. -/
theorem physicalMemoryAllocateFrame_found (owner virtualPage : Nat) (hcount : memory.Counted)
    (hpid : 0 ≤ ownerPid) {index : Nat} (h : memory.firstFree = some index) :
    physicalMemoryAllocateFrame memory owner ownerPid virtualPage =
      (.ok (toUint32 index),
        { physicalFrameAssign memory (toUint32 index) owner ownerPid virtualPage with
          freeFrameCount := memory.freeFrameCount - 1 }) := by
  obtain ⟨hlt, hfree⟩ := memory.firstFree_some h
  have hpos : memory.freeFrameCount ≠ 0 := by
    rw [hcount]
    exact Finset.card_ne_zero_of_mem (mem_freeFrames.mpr ⟨hlt, hfree⟩)
  simp only [physicalMemoryAllocateFrame, if_neg (Int.not_lt.mpr hpid), if_neg hpos, h]

theorem physicalMemoryAllocateFrame_full (owner virtualPage : Nat) (hpid : 0 ≤ ownerPid)
    (h : memory.firstFree = none) :
    physicalMemoryAllocateFrame memory owner ownerPid virtualPage = (.error (-2), memory) := by
  simp only [physicalMemoryAllocateFrame, if_neg (Int.not_lt.mpr hpid), h, ite_self]

theorem physicalMemoryAllocateFrame_refused (memory : PhysicalMemory) (owner virtualPage : Nat)
    (hpid : ownerPid < 0) :
    physicalMemoryAllocateFrame memory owner ownerPid virtualPage = (.error (-1), memory) :=
  if_pos hpid

theorem PhysicalMemory.Counted.allocatesFresh (hcount : memory.Counted)
    (hroom : ¬(0 ≤ ownerPid ∧ memory.Crowded)) :
    memory.AllocatesFresh owner ownerPid virtualPage := by
  by_cases hpid : 0 ≤ ownerPid
  · have hcrowd : ¬memory.Crowded := fun h => hroom ⟨hpid, h⟩
    cases hfirst : memory.firstFree with
    | none =>
      have hrun := physicalMemoryAllocateFrame_full owner virtualPage hpid hfirst
      constructor
      · intro frame memory' h
        rw [hrun] at h
        cases congrArg Prod.fst h
      · intro code memory' h
        rw [hrun] at h
        exact (congrArg Prod.snd h).symm
      · rw [hrun]
        exact iff_of_true rfl ⟨hpid, fun frame hframe => memory.firstFree_none hfirst hframe⟩
    | some index =>
      obtain ⟨hlt, hfree⟩ := memory.firstFree_some hfirst
      have hrun := physicalMemoryAllocateFrame_found owner virtualPage hcount hpid hfirst
      rw [toUint32_of_lt (memory.firstFree_lt hfirst hcrowd)] at hrun
      constructor
      · intro frame memory' h
        rw [hrun] at h
        cases h
        refine ⟨hlt, hfree, ?_, fun other hne => ⟨?_, ?_⟩⟩
        · simp [physicalFrameAssign, PhysicalMemory.setFrame, PhysicalFrame.assigned]
        · exact Function.update_of_ne hne _ _
        · exact Function.update_of_ne hne _ _
      · intro code memory' h
        rw [hrun] at h
        cases congrArg Prod.fst h
      · rw [hrun]
        refine iff_of_false (fun h => by cases h) fun h => ?_
        rw [h.2 index hlt] at hfree
        cases hfree
  · have hrun := physicalMemoryAllocateFrame_refused memory owner virtualPage (Int.not_le.mp hpid)
    constructor
    · intro frame memory' h
      rw [hrun] at h
      cases congrArg Prod.fst h
    · intro code memory' h
      rw [hrun] at h
      exact (congrArg Prod.snd h).symm
    · rw [hrun]
      exact iff_of_false (fun h => by cases h) fun h => hpid h.1

/-- On a crowded memory the frame 2^32 is found, and frame 0 is handed out
although it is in use. -/
theorem physicalMemoryAllocateFrame_crowded (owner virtualPage : Nat) (hcount : memory.Counted)
    (hlow : memory.Low) (hcrowd : memory.Crowded) (hpid : 0 ≤ ownerPid) :
    (physicalMemoryAllocateFrame memory owner ownerPid virtualPage).1 = .ok 0 ∧
      (memory.frames 0).occupied = true := by
  have hbusy : (memory.frames 0).occupied = true := hcrowd.2 0 (by decide)
  cases hfirst : memory.firstFree with
  | none =>
    have hused := memory.firstFree_none hfirst hcrowd.1
    rw [hlow _ (Nat.le_refl _)] at hused
    cases hused
  | some index =>
    obtain ⟨_, hfree⟩ := memory.firstFree_some hfirst
    have hge : 2 ^ 32 ≤ index := by
      by_contra hlt
      rw [hcrowd.2 index (Nat.not_le.mp hlt)] at hfree
      cases hfree
    have hle : index ≤ 2 ^ 32 := by
      by_contra hgt
      have hused := memory.firstFree_least hfirst (Nat.not_le.mp hgt)
      rw [hlow _ (Nat.le_refl _)] at hused
      cases hused
    have hindex : toUint32 index = 0 := by
      rw [Nat.le_antisymm hle hge]
      exact Nat.mod_self _
    rw [physicalMemoryAllocateFrame_found owner virtualPage hcount hpid hfirst, hindex]
    exact ⟨rfl, hbusy⟩

/-! ## Steps -/

@[simp] theorem physicalFrameAssign_frames (memory : PhysicalMemory) (frame owner : Nat)
    (ownerPid : Int) (virtualPage : Nat) :
    (physicalFrameAssign memory frame owner ownerPid virtualPage).frames =
      Function.update memory.frames frame (.assigned owner ownerPid virtualPage) := rfl

@[simp] theorem physicalFrameReset_frames (memory : PhysicalMemory) (frame : Nat) :
    (physicalFrameReset memory frame).frames = Function.update memory.frames frame .free := rfl

/-- A call changes the metadata of one frame at most, and a `uint32_t`
holds its number. -/
theorem PhysicalMemory.next_frames (memory : PhysicalMemory) (call : FrameCall) :
    (memory.next call).frames = memory.frames ∨
      ∃ frame < 2 ^ 32, ∃ value,
        (memory.next call).frames = Function.update memory.frames frame value := by
  cases call with
  | allocate owner ownerPid virtualPage =>
    simp only [PhysicalMemory.next, physicalMemoryAllocateFrame]
    split
    · exact .inl rfl
    · split
      · exact .inl rfl
      · split
        · exact .inl rfl
        · exact .inr ⟨_, toUint32_lt _, _, rfl⟩
  | replace frame owner ownerPid virtualPage =>
    simp only [PhysicalMemory.next, physicalMemoryReplaceFrame]
    split
    · exact .inl rfl
    · split
      · exact .inl rfl
      · exact .inr ⟨_, frame.toNat_lt, _, rfl⟩
  | release frame =>
    simp only [PhysicalMemory.next, physicalMemoryReleaseFrame]
    split
    · exact .inl rfl
    · split
      · exact .inl rfl
      · exact .inr ⟨_, frame.toNat_lt, _, rfl⟩
  | markAccess frame isWrite =>
    simp only [PhysicalMemory.next, physicalMemoryMarkAccess]
    split
    · exact .inl rfl
    · exact .inr ⟨_, frame.toNat_lt, _, rfl⟩
  | writePage frame page =>
    simp only [PhysicalMemory.next, physicalMemoryWritePage]
    split <;> exact .inl rfl
  | writeByte frame offset value =>
    simp only [PhysicalMemory.next, physicalMemoryWriteByte]
    split
    · exact .inl rfl
    · split
      · split <;> exact .inl rfl
      · exact .inl rfl

theorem PhysicalMemory.Low.next (hlow : memory.Low) (call : FrameCall) :
    (memory.next call).Low := by
  intro frame hframe
  rcases memory.next_frames call with h | ⟨changed, hchanged, value, h⟩
  · rw [h]
    exact hlow frame hframe
  · rw [h, Function.update_of_ne (by omega)]
    exact hlow frame hframe

@[simp] theorem PhysicalMemory.next_frameCount (memory : PhysicalMemory) (call : FrameCall) :
    (memory.next call).frameCount = memory.frameCount := by
  cases call with
  | allocate owner ownerPid virtualPage =>
    simp only [PhysicalMemory.next, physicalMemoryAllocateFrame]
    split
    · rfl
    · split
      · rfl
      · split <;> rfl
  | replace frame owner ownerPid virtualPage =>
    simp only [PhysicalMemory.next, physicalMemoryReplaceFrame]
    split
    · rfl
    · split <;> rfl
  | release frame =>
    simp only [PhysicalMemory.next, physicalMemoryReleaseFrame]
    split
    · rfl
    · split <;> rfl
  | markAccess frame isWrite =>
    simp only [PhysicalMemory.next, physicalMemoryMarkAccess]
    split <;> rfl
  | writePage frame page =>
    simp only [PhysicalMemory.next, physicalMemoryWritePage]
    split <;> rfl
  | writeByte frame offset value =>
    simp only [PhysicalMemory.next, physicalMemoryWriteByte]
    split
    · rfl
    · split
      · split <;> rfl
      · rfl

/-- A frame keeps being free or in use. -/
theorem PhysicalMemory.Counted.update (hcount : memory.Counted) {frame : Nat}
    (value : PhysicalFrame) (hsame : value.occupied = (memory.frames frame).occupied)
    (hframes : memory'.frames = Function.update memory.frames frame value)
    (hframeCount : memory'.frameCount = memory.frameCount)
    (hfree : memory'.freeFrameCount = memory.freeFrameCount) : memory'.Counted := by
  rw [PhysicalMemory.Counted, hfree, hframes, hframeCount, freeFrames_update hsame]
  exact hcount

/-- Any call but an allocation that overflows keeps the count right. -/
theorem PhysicalMemory.Counted.next (hcount : memory.Counted) (hroom : ¬call.Overflows memory) :
    (memory.next call).Counted := by
  cases call with
  | allocate owner ownerPid virtualPage =>
    by_cases hpid : 0 ≤ ownerPid
    · cases hfirst : memory.firstFree with
      | none =>
        rw [PhysicalMemory.next, physicalMemoryAllocateFrame_full owner virtualPage hpid hfirst]
        exact hcount
      | some index =>
        obtain ⟨hlt, hfree⟩ := memory.firstFree_some hfirst
        have hindex := memory.firstFree_lt hfirst fun h => hroom ⟨hpid, h⟩
        rw [PhysicalMemory.next, physicalMemoryAllocateFrame_found owner virtualPage hcount hpid
          hfirst, toUint32_of_lt hindex]
        show memory.freeFrameCount - 1 = _
        rw [hcount]
        exact (card_freeFrames_occupy hlt hfree rfl).symm
    · rw [PhysicalMemory.next,
        physicalMemoryAllocateFrame_refused memory owner virtualPage (Int.not_le.mp hpid)]
      exact hcount
  | replace frame owner ownerPid virtualPage =>
    simp only [PhysicalMemory.next, physicalMemoryReplaceFrame]
    split
    · exact hcount
    · split
      · exact hcount
      · rename_i hused
        have hoccupied : (memory.frames frame.toNat).occupied = true := by simpa using hused
        exact hcount.update _ hoccupied.symm rfl rfl rfl
  | release frame =>
    simp only [PhysicalMemory.next, physicalMemoryReleaseFrame]
    split
    · exact hcount
    · rename_i hlt
      split
      · exact hcount
      · rename_i hused
        have hoccupied : (memory.frames frame.toNat).occupied = true := by simpa using hused
        show memory.freeFrameCount + 1 = _
        rw [hcount]
        exact (card_freeFrames_release (Nat.not_le.mp hlt) hoccupied rfl).symm
  | markAccess frame isWrite =>
    simp only [PhysicalMemory.next, physicalMemoryMarkAccess]
    split
    · exact hcount
    · exact hcount.update ((memory.frames frame.toNat).touch isWrite) rfl rfl rfl rfl
  | writePage frame page =>
    simp only [PhysicalMemory.next, physicalMemoryWritePage]
    split <;> exact hcount
  | writeByte frame offset value =>
    simp only [PhysicalMemory.next, physicalMemoryWriteByte]
    split
    · exact hcount
    · split
      · split <;> exact hcount
      · exact hcount

/-! ## Runs -/

theorem PhysicalMemory.Low.after (hlow : memory.Low) (calls : List FrameCall) :
    (memory.after calls).Low := by
  induction calls using List.reverseRecOn with
  | nil => exact hlow
  | append_singleton calls call ih =>
    rw [PhysicalMemory.after_concat]
    exact ih.next call

theorem PhysicalMemory.after_frameCount (memory : PhysicalMemory) (calls : List FrameCall) :
    (memory.after calls).frameCount = memory.frameCount := by
  induction calls using List.reverseRecOn with
  | nil => rfl
  | append_singleton calls call ih => rw [PhysicalMemory.after_concat, next_frameCount, ih]

/-- Where no allocation overflows, the free frames are counted right. -/
theorem PhysicalMemory.Counted.after (hcount : memory.Counted) (calls : List FrameCall)
    (hroom : ∀ done call rest, calls = done ++ call :: rest →
      ¬call.Overflows (memory.after done)) : (memory.after calls).Counted := by
  induction calls using List.reverseRecOn with
  | nil => exact hcount
  | append_singleton calls call ih =>
    rw [PhysicalMemory.after_concat]
    refine (ih fun done earlier rest heq => ?_).next (hroom calls call [] rfl)
    exact hroom done earlier (rest ++ [call]) (by rw [heq, List.append_assoc]; rfl)

/-- A run is safe exactly when no allocation overflows. -/
theorem PhysicalMemory.Counted.runsSafely_iff (hcount : memory.Counted) (hlow : memory.Low)
    (calls : List FrameCall) :
    memory.RunsSafely calls ↔
      ∀ done call rest, calls = done ++ call :: rest → ¬call.Overflows (memory.after done) := by
  constructor
  · intro h done call rest hcalls hover
    cases call with
    | allocate owner ownerPid virtualPage =>
      obtain ⟨hpid, hcrowd⟩ := hover
      have hsafe : (memory.after done).AllocatesFresh owner ownerPid virtualPage :=
        h.safe done _ rest hcalls
      obtain ⟨hzero, hbusy⟩ := physicalMemoryAllocateFrame_crowded owner virtualPage
        (h.counted done _ hcalls) (hlow.after done) hcrowd hpid
      obtain ⟨_, hfree, _⟩ := hsafe.fresh 0 _ (Prod.ext hzero rfl)
      rw [hbusy] at hfree
      cases hfree
    | _ => exact hover
  · intro hroom
    have hcounted : ∀ done rest, calls = done ++ rest → (memory.after done).Counted := by
      intro done rest hcalls
      refine hcount.after done fun earlier call later hdone => ?_
      exact hroom earlier call (later ++ rest) (by rw [hcalls, hdone, List.append_assoc]; rfl)
    refine ⟨hcounted, fun done call rest hcalls => ?_⟩
    cases call with
    | allocate owner ownerPid virtualPage =>
      exact (hcounted done _ hcalls).allocatesFresh (hroom done _ rest hcalls)
    | _ => exact trivial

/-! ## Memories as they are created -/

theorem physicalMemoryResetAll_unoccupied (memory : PhysicalMemory)
    (hfree : ∀ f, (memory.frames f).occupied = false) (n : Nat) :
    (∀ f, ((physicalMemoryResetAll memory n).frames f).occupied = false) ∧
      (physicalMemoryResetAll memory n).frameCount = memory.frameCount ∧
      (physicalMemoryResetAll memory n).freeFrameCount = memory.freeFrameCount := by
  induction n with
  | zero => exact ⟨hfree, rfl, rfl⟩
  | succ n ih =>
    obtain ⟨hunoccupied, hcount, hfreeCount⟩ := ih
    refine ⟨fun f => ?_, hcount, hfreeCount⟩
    rw [physicalMemoryResetAll, physicalFrameReset_frames]
    by_cases e : f = toUint32 n
    · rw [e, Function.update_self]
      rfl
    · rw [Function.update_of_ne e]
      exact hunoccupied f

/-- A fresh memory of any size: every frame is free, and counted. -/
theorem physicalMemoryCreate_unoccupied {n : Nat} (h : physicalMemoryCreate n = some memory) :
    (∀ f, (memory.frames f).occupied = false) ∧ memory.frameCount = n ∧ memory.Counted := by
  unfold physicalMemoryCreate at h
  split at h
  · cases h
  · cases h
    obtain ⟨hfree, hcount, hfreeCount⟩ := physicalMemoryResetAll_unoccupied
      ⟨fun _ => ⟨false, false, false, 0, none, 0⟩, fun _ => zeroPage, n, n⟩
      (fun _ => rfl) n
    refine ⟨hfree, hcount, ?_⟩
    rw [PhysicalMemory.Counted, hfreeCount, hcount, freeFrames,
      Finset.filter_true_of_mem fun f _ => hfree f, Finset.card_range]

/-- Allocations on a fresh memory take the frames in order. -/
theorem PhysicalMemory.Counted.filled (hcount : memory.Counted)
    (hfree : ∀ f, (memory.frames f).occupied = false) (owner virtualPage : Nat)
    (hpid : 0 ≤ ownerPid) (k : Nat) :
    k ≤ 2 ^ 32 → k ≤ memory.frameCount →
      (memory.after (List.replicate k (.allocate owner ownerPid virtualPage))).Counted ∧
        ∀ f, ((memory.after (List.replicate k
          (.allocate owner ownerPid virtualPage))).frames f).occupied = decide (f < k) := by
  induction k with
  | zero =>
    intro _ _
    exact ⟨hcount, fun f => by simpa using hfree f⟩
  | succ k ih =>
    intro hk hle
    obtain ⟨hcounted, hused⟩ := ih (by omega) (by omega)
    have hframes := memory.after_frameCount
      (List.replicate k (.allocate owner ownerPid virtualPage))
    generalize hm : memory.after (List.replicate k (.allocate owner ownerPid virtualPage)) = m
      at hcounted hused hframes
    rw [List.replicate_succ', PhysicalMemory.after_concat, hm]
    have hfirst : m.firstFree = some k := by
      refine List.find?_range_eq_some.mpr ⟨by simp [hused k], List.mem_range.mpr (by omega), ?_⟩
      intro f hf
      simp [hused f, hf]
    have hroom : ¬m.Crowded := by
      intro h
      have hbusy := h.2 k (by omega)
      rw [hused k] at hbusy
      simp at hbusy
    have hnext : (m.next (.allocate owner ownerPid virtualPage)).Counted :=
      hcounted.next fun h => hroom h.2
    refine ⟨hnext, fun f => ?_⟩
    rw [PhysicalMemory.next, physicalMemoryAllocateFrame_found owner virtualPage hcounted hpid
      hfirst, toUint32_of_lt (by omega), physicalFrameAssign_frames]
    by_cases e : f = k
    · simp [e, PhysicalFrame.assigned]
    · rw [Function.update_of_ne e, hused f]
      exact decide_eq_decide.mpr (by omega)

/-- Once the frames that a `uint32_t` names are in use, one more
allocation overflows. -/
theorem physicalMemoryCreate_overflows {n : Nat} (h : physicalMemoryCreate n = some memory)
    (hn : 2 ^ 32 < n) (owner virtualPage : Nat) (hpid : 0 ≤ ownerPid) {k : Nat}
    (hk : k = 2 ^ 32) :
    ¬memory.RunsSafely (List.replicate (k + 1) (.allocate owner ownerPid virtualPage)) := by
  obtain ⟨hfree, hframes, hcount⟩ := physicalMemoryCreate_unoccupied h
  have hlow : memory.Low := fun f _ => hfree f
  obtain ⟨_, hused⟩ := hcount.filled hfree owner virtualPage hpid k (by omega) (by omega)
  rw [hcount.runsSafely_iff hlow, List.replicate_succ']
  intro hroom
  refine hroom _ _ [] rfl ⟨hpid, ?_, fun f hf => ?_⟩
  · rw [PhysicalMemory.after_frameCount, hframes]
    exact hn
  · rw [hused f]
    exact decide_eq_true (by omega)

end VmSim
