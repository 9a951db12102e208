/-
VmSim.VirtualMemory.Validate — `virtual_memory_validate`
(`src/virtual_memory.c`).

The function walks the frame table. A free frame must be as it was made,
with no process that uses it; an occupied one must be mapped by the
process that owns it. At the end the free frames it has met are counted
against those of the allocator. `World.Validated` says what this comes to,
in any state and with the index of a frame cut to 32 bits, as the function
has it. Whatever it returns, it only reads.
-/
import VmSim.PageTable.Shape
import VmSim.VirtualMemory.Observation

namespace VmSim

open Lib

/-- The checks of an occupied frame. -/
def virtualMemoryValidateOwner (index : Nat) (frame : PhysicalFrame) : Comp World Bool :=
  match frame.ownerProcess with
  | none => return false
  | some owner =>
    if frame.ownerPid < 0 then return false
    else do
      let pid ← processGetPid owner
      let w ← Comp.get
      if pid ≠ frame.ownerPid ∨ cowManagerMappingCount w.memory.cowManager index = 0 then
        return false
      else do
        let table ← processGetPageTable owner
        if frame.virtualPage > (wordSize - 1) >>> pageOffsetBits then return false
        else do
          let entry ← onHeap (pageTableLookup table (pageAddress frame.virtualPage))
          return entry.any fun e => e.present && decide (e.frameNumber = index)

/-- The loop over the frames that are still to come. -/
def virtualMemoryValidateFrames : List Nat → Nat → Comp World Bool
  | [], countedFreeFrames => do
    let w ← Comp.get
    return decide (countedFreeFrames = w.memory.physicalMemory.freeFrameCount)
  | index :: indices, countedFreeFrames => do
    let w ← Comp.get
    match physicalMemoryGetFrame w.memory.physicalMemory (toUint32 index) with
    | none => return false
    | some frame =>
      if frame.occupied then do
        let valid ← virtualMemoryValidateOwner (toUint32 index) frame
        if valid then virtualMemoryValidateFrames indices countedFreeFrames else return false
      else if frame.ownerPid ≠ -1 ∨ frame.ownerProcess.isSome ∨ frame.dirty ∨ frame.referenced ∨
          cowManagerMappingCount w.memory.cowManager (toUint32 index) ≠ 0 then return false
      else virtualMemoryValidateFrames indices (countedFreeFrames + 1)

def virtualMemoryValidate : Comp World Bool := do
  let w ← Comp.get
  virtualMemoryValidateFrames (List.range w.memory.physicalMemory.frameCount) 0

/-! ## What the checks come to -/

/-- The process `p` owns a frame, and maps its page to it. -/
structure World.Owned (w : World) (f : Nat) (frame : PhysicalFrame) (p : Nat) : Prop where
  owner : frame.ownerProcess = some p
  pid_nonneg : 0 ≤ frame.ownerPid
  pid : w.heap.pid p = frame.ownerPid
  shared : cowManagerMappingCount w.memory.cowManager f ≠ 0
  page : frame.virtualPage < 2 ^ 52
  mapped : ∃ entry, w.lookup p (pageAddress frame.virtualPage) = some entry ∧
    entry.present = true ∧ entry.frameNumber = f

/-- Nothing is left of the page that was in a frame. -/
structure World.Vacant (w : World) (f : Nat) (frame : PhysicalFrame) : Prop where
  ownerPid : frame.ownerPid = -1
  owner : frame.ownerProcess = none
  clean : frame.dirty = false
  unreferenced : frame.referenced = false
  unshared : cowManagerMappingCount w.memory.cowManager f = 0

def World.FrameValid (w : World) (f : Nat) : Prop :=
  if (w.memory.physicalMemory.frames f).occupied then
    ∃ owner, w.Owned f (w.memory.physicalMemory.frames f) owner
  else w.Vacant f (w.memory.physicalMemory.frames f)

/-- The frames, which are looked at by the lower 32 bits of their index. -/
structure World.Validated (w : World) : Prop where
  frames : ∀ index < w.memory.physicalMemory.frameCount, w.FrameValid (toUint32 index)
  freeCount : (List.range w.memory.physicalMemory.frameCount).countP
      (fun index => !(w.memory.physicalMemory.frames (toUint32 index)).occupied) =
    w.memory.physicalMemory.freeFrameCount

variable {w : World} {f p : Nat} {frame : PhysicalFrame}

/-! ## Only reading -/

theorem readTable_readOnly (t : Nat) : Comp.ReadOnly (readTable t) := by
  intro h
  unfold readTable
  cases h.tables t with
  | none => exact Or.inr rfl
  | some table => exact Or.inl ⟨table, rfl⟩

theorem readNode_readOnly (p : Nat) : Comp.ReadOnly (readNode p) := by
  intro h
  unfold readNode
  split
  · exact Or.inl ⟨_, rfl⟩
  · exact Or.inr rfl

theorem readEntry_readOnly (p : Nat) : Comp.ReadOnly (readEntry p) := by
  intro h
  unfold readEntry
  split
  · exact Or.inl ⟨_, rfl⟩
  · exact Or.inr rfl

theorem readProcess_readOnly (p : Nat) : Comp.ReadOnly (readProcess p) := by
  intro h
  unfold readProcess
  cases h.processes p with
  | none => exact Or.inr rfl
  | some x => exact Or.inl ⟨x, rfl⟩

theorem pageTableWalk_readOnly (a : Nat) (levels : List Nat) :
    ∀ current visited, Comp.ReadOnly (pageTableWalk a levels current visited) := by
  induction levels with
  | nil =>
    intro current visited
    unfold pageTableWalk
    refine (readNode_readOnly current).bind fun node => ?_
    split
    · exact Comp.ReadOnly.pure _
    · exact (readEntry_readOnly _).bind fun _ => Comp.ReadOnly.pure _
  | cons level levels ih =>
    intro current visited
    unfold pageTableWalk
    refine (readNode_readOnly current).bind fun node => ?_
    split
    · exact Comp.ReadOnly.pure _
    · exact ih _ _

theorem onHeap_readOnly {α : Type} {c : Comp Heap α} (h : Comp.ReadOnly c) :
    Comp.ReadOnly (onHeap c) := h.zoom fun _ => rfl

theorem onHeap_pageTableLookup_readOnly (t a : Nat) :
    Comp.ReadOnly (onHeap (pageTableLookup t a)) := by
  refine onHeap_readOnly ?_
  have hlevels : Comp.ReadOnly (pageTableLookupWithLevels t a) :=
    (readTable_readOnly t).bind fun root => pageTableWalk_readOnly a _ _ _
  exact hlevels.bind fun _ => Comp.ReadOnly.pure _

theorem virtualMemoryValidateOwner_readOnly (f : Nat) (frame : PhysicalFrame) :
    Comp.ReadOnly (virtualMemoryValidateOwner f frame) := by
  have hprocess := fun p => onHeap_readOnly (readProcess_readOnly p)
  unfold virtualMemoryValidateOwner processGetPid processGetPageTable
  split
  · exact Comp.ReadOnly.pure _
  · split
    · exact Comp.ReadOnly.pure _
    · refine ((hprocess _).bind fun _ => Comp.ReadOnly.pure _).bind fun pid =>
        Comp.ReadOnly.get.bind fun w => ?_
      split
      · exact Comp.ReadOnly.pure _
      · refine ((hprocess _).bind fun _ => Comp.ReadOnly.pure _).bind fun table => ?_
        split
        · exact Comp.ReadOnly.pure _
        · exact (onHeap_pageTableLookup_readOnly _ _).bind fun _ => Comp.ReadOnly.pure _

theorem virtualMemoryValidateFrames_readOnly (indices : List Nat) :
    ∀ counted, Comp.ReadOnly (virtualMemoryValidateFrames indices counted) := by
  induction indices with
  | nil => exact fun _ => Comp.ReadOnly.get.bind fun _ => Comp.ReadOnly.pure _
  | cons index indices ih =>
    intro counted
    unfold virtualMemoryValidateFrames
    refine Comp.ReadOnly.get.bind fun w => ?_
    split
    · exact Comp.ReadOnly.pure _
    · split
      · refine (virtualMemoryValidateOwner_readOnly _ _).bind fun valid => ?_
        split
        · exact ih _
        · exact Comp.ReadOnly.pure _
      · split
        · exact Comp.ReadOnly.pure _
        · exact ih _

theorem virtualMemoryValidate_readOnly : Comp.ReadOnly virtualMemoryValidate :=
  Comp.ReadOnly.get.bind fun _ => virtualMemoryValidateFrames_readOnly _ _

/-! ## Processes and lookups -/

theorem processGetPid_ok {pid : Int} {w' : World} :
    processGetPid p w = .ok pid w' ↔
      w' = w ∧ ∃ x, w.heap.processes p = some x ∧ x.pid = pid := by
  cases hx : w.heap.processes p with
  | none => simp [processGetPid, onHeap, Comp.zoom, Comp.bind_run, readProcess, hx]
  | some x =>
    have hrun : processGetPid p w = .ok x.pid w := by
      simp [processGetPid, onHeap, Comp.zoom, Comp.bind_run, readProcess, hx]
    simp [hrun, and_comm, eq_comm]

theorem processGetPageTable_ok {table : Nat} {w' : World} :
    processGetPageTable p w = .ok table w' ↔
      w' = w ∧ ∃ x, w.heap.processes p = some x ∧ x.pageTable = table := by
  cases hx : w.heap.processes p with
  | none => simp [processGetPageTable, onHeap, Comp.zoom, Comp.bind_run, readProcess, hx]
  | some x =>
    have hrun : processGetPageTable p w = .ok x.pageTable w := by
      simp [processGetPageTable, onHeap, Comp.zoom, Comp.bind_run, readProcess, hx]
    simp [hrun, and_comm, eq_comm]

theorem World.lookup_run {x : Process} (hx : w.heap.processes p = some x) {a : Nat}
    {entry : Option PageTableEntry} (hrun : onHeap (pageTableLookup x.pageTable a) w = .ok entry w) :
    w.lookup p a = entry := by
  have htable : processGetPageTable p w = .ok x.pageTable w :=
    processGetPageTable_ok.mpr ⟨rfl, x, hx, rfl⟩
  simp [World.lookup, Comp.bind_ok htable, hrun]

theorem World.lookup_some {x : Process} (hx : w.heap.processes p = some x) {a : Nat}
    {entry : PageTableEntry} (hlookup : w.lookup p a = some entry) :
    onHeap (pageTableLookup x.pageTable a) w = .ok (some entry) w := by
  have htable : processGetPageTable p w = .ok x.pageTable w :=
    processGetPageTable_ok.mpr ⟨rfl, x, hx, rfl⟩
  cases hrun : onHeap (pageTableLookup x.pageTable a) w with
  | ok entry' w' =>
    obtain rfl := (onHeap_pageTableLookup_readOnly _ _).state_eq hrun
    rw [World.lookup_run hx hrun] at hlookup
    rw [hlookup]
  | failed w' => simp [World.lookup, Comp.bind_ok htable, hrun] at hlookup
  | fault => simp [World.lookup, Comp.bind_ok htable, hrun] at hlookup

/-! ## The checks, one by one -/

theorem virtualMemoryValidateOwner_sound {w' : World}
    (hrun : virtualMemoryValidateOwner f frame w = .ok true w') :
    w' = w ∧ ∃ p, w.Owned f frame p := by
  unfold virtualMemoryValidateOwner at hrun
  cases howner : frame.ownerProcess with
  | none =>
    rw [howner] at hrun
    cases hrun
  | some p =>
    simp only [howner] at hrun
    split at hrun
    · cases hrun
    · rename_i hpid
      obtain ⟨pid, w₁, hgot, hchecks⟩ := Comp.bind_eq_ok.mp hrun
      obtain ⟨rfl, x, hx, rfl⟩ := processGetPid_ok.mp hgot
      rw [Comp.bind_ok (Comp.get_run w₁)] at hchecks
      split at hchecks
      · cases hchecks
      · rename_i hshared
        obtain ⟨hnumber, hmappings⟩ := not_or.mp hshared
        obtain ⟨table, w₂, htable, hwalk⟩ := Comp.bind_eq_ok.mp hchecks
        obtain ⟨rfl, x', hx', rfl⟩ := processGetPageTable_ok.mp htable
        rw [hx] at hx'
        cases hx'
        split at hwalk
        · cases hwalk
        · rename_i hpage
          obtain ⟨entry, w₃, hlookup, hend⟩ := Comp.bind_eq_ok.mp hwalk
          obtain rfl := (onHeap_pageTableLookup_readOnly _ _).state_eq hlookup
          obtain ⟨hvalid, rfl⟩ := Outcome.ok.inj hend
          obtain ⟨found, rfl, hfound⟩ := (Option.any_eq_true _ _).mp hvalid
          obtain ⟨hpresent, hframe⟩ := Bool.and_eq_true_iff.mp hfound
          have hpage' : frame.virtualPage < 2 ^ 52 := Nat.lt_succ_of_le (Nat.not_lt.mp hpage)
          refine ⟨rfl, p, howner, Int.not_lt.mp hpid, ?_, hmappings, hpage', found,
            World.lookup_run hx hlookup, hpresent, of_decide_eq_true hframe⟩
          rw [← not_not.mp hnumber, Heap.pid, hx]
          rfl

theorem World.Owned.process (h : w.Owned f frame p) :
    ∃ x, w.heap.processes p = some x ∧ x.pid = frame.ownerPid := by
  have hpid := h.pid
  have hlive := h.pid_nonneg
  rw [← hpid] at hlive
  cases hx : w.heap.processes p with
  | none =>
    rw [Heap.pid, hx] at hlive
    exact absurd hlive (by decide)
  | some x =>
    rw [Heap.pid, hx] at hpid
    exact ⟨x, rfl, hpid⟩

theorem virtualMemoryValidateOwner_complete (h : w.Owned f frame p) :
    virtualMemoryValidateOwner f frame w = .ok true w := by
  obtain ⟨x, hx, hpid⟩ := h.process
  obtain ⟨entry, hlookup, hpresent, hframe⟩ := h.mapped
  have hgot : processGetPid p w = .ok x.pid w := processGetPid_ok.mpr ⟨rfl, x, hx, rfl⟩
  have htable : processGetPageTable p w = .ok x.pageTable w :=
    processGetPageTable_ok.mpr ⟨rfl, x, hx, rfl⟩
  have hpage : ¬ frame.virtualPage > (wordSize - 1) >>> pageOffsetBits :=
    Nat.not_lt.mpr (Nat.le_of_lt_succ h.page)
  simp [virtualMemoryValidateOwner, h.owner, Int.not_lt.mpr h.pid_nonneg, Comp.bind_ok hgot,
    Comp.bind_ok (Comp.get_run w), Comp.bind_ok htable, hpid, h.shared, hpage,
    Comp.bind_ok (World.lookup_some hx hlookup), hpresent, hframe]

theorem World.vacant_iff : w.Vacant f frame ↔
    ¬(frame.ownerPid ≠ -1 ∨ frame.ownerProcess.isSome ∨ frame.dirty ∨ frame.referenced ∨
      cowManagerMappingCount w.memory.cowManager f ≠ 0) := by
  constructor
  · rintro ⟨hpid, howner, hclean, hunreferenced, hcount⟩
    simp [hpid, howner, hclean, hunreferenced, hcount]
  · intro h
    simp only [not_or, not_not, Bool.not_eq_true, Option.isSome_eq_false_iff,
      Option.isNone_iff_eq_none] at h
    exact ⟨h.1, h.2.1, h.2.2.1, h.2.2.2.1, h.2.2.2.2⟩

theorem toUint32_le (index : Nat) : toUint32 index ≤ index := Nat.mod_le _ _

/-- One round of the loop: the frame passes, and a free one is counted. -/
theorem virtualMemoryValidateFrames_cons {index : Nat}
    (hindex : index < w.memory.physicalMemory.frameCount) {indices : List Nat} {counted : Nat}
    {w' : World} : virtualMemoryValidateFrames (index :: indices) counted w = .ok true w' ↔
      w.FrameValid (toUint32 index) ∧ virtualMemoryValidateFrames indices
        (counted + if (w.memory.physicalMemory.frames (toUint32 index)).occupied then 0 else 1) w =
          .ok true w' := by
  have hf : toUint32 index < w.memory.physicalMemory.frameCount :=
    Nat.lt_of_le_of_lt (toUint32_le index) hindex
  rw [virtualMemoryValidateFrames, Comp.bind_ok (Comp.get_run w)]
  generalize toUint32 index = f at hf ⊢
  have hframe : physicalMemoryGetFrame w.memory.physicalMemory f =
      some (w.memory.physicalMemory.frames f) := if_neg (Nat.not_le.mpr hf)
  rw [hframe]
  cases hocc : (w.memory.physicalMemory.frames f).occupied with
  | true =>
    rw [World.FrameValid, if_pos hocc, if_pos rfl]
    dsimp only
    rw [if_pos hocc]
    constructor
    · intro hrun
      obtain ⟨valid, w₁, hvalid, hend⟩ := Comp.bind_eq_ok.mp hrun
      cases valid with
      | true =>
        obtain ⟨rfl, howned⟩ := virtualMemoryValidateOwner_sound hvalid
        exact ⟨howned, hend⟩
      | false => cases hend
    · rintro ⟨⟨p, howned⟩, hrun⟩
      rw [Comp.bind_ok (virtualMemoryValidateOwner_complete howned), if_pos rfl]
      exact hrun
  | false =>
    have hfree : ¬(w.memory.physicalMemory.frames f).occupied = true := by simp [hocc]
    rw [World.FrameValid, if_neg hfree, World.vacant_iff, if_neg Bool.false_ne_true]
    dsimp only
    rw [if_neg hfree]
    split
    · rename_i hleft
      exact iff_of_false (fun hrun => by cases hrun) fun h => h.1 hleft
    · rename_i hleft
      exact ⟨fun hrun => ⟨hleft, hrun⟩, fun h => h.2⟩

/-- What the loop has still to find. -/
theorem virtualMemoryValidateFrames_true {indices : List Nat} : ∀ {counted : Nat},
    (∀ index ∈ indices, index < w.memory.physicalMemory.frameCount) →
    (virtualMemoryValidateFrames indices counted w = .ok true w ↔
      (∀ index ∈ indices, w.FrameValid (toUint32 index)) ∧
        counted + indices.countP
            (fun index => !(w.memory.physicalMemory.frames (toUint32 index)).occupied) =
          w.memory.physicalMemory.freeFrameCount) := by
  induction indices with
  | nil =>
    intro counted _
    constructor
    · intro hrun
      exact ⟨by simp, of_decide_eq_true (Outcome.ok.inj hrun).1⟩
    · rintro ⟨_, hcount⟩
      exact congrArg (Outcome.ok · w) (decide_eq_true hcount)
  | cons index indices ih =>
    intro counted hindices
    obtain ⟨hindex, hrest⟩ := List.forall_mem_cons.mp hindices
    have hcount : indices.countP
          (fun index => !(w.memory.physicalMemory.frames (toUint32 index)).occupied) +
        (if (w.memory.physicalMemory.frames (toUint32 index)).occupied then 0 else 1) =
          (index :: indices).countP
            fun index => !(w.memory.physicalMemory.frames (toUint32 index)).occupied := by
      rw [List.countP_cons]
      cases (w.memory.physicalMemory.frames (toUint32 index)).occupied <;> rfl
    rw [virtualMemoryValidateFrames_cons hindex, ih hrest, List.forall_mem_cons, ← hcount,
      Nat.add_assoc, Nat.add_comm (indices.countP _), and_assoc]

/-- The function accepts just the states that pass its checks. -/
theorem virtualMemoryValidate_true : virtualMemoryValidate w = .ok true w ↔ w.Validated := by
  rw [virtualMemoryValidate, Comp.bind_ok (Comp.get_run w),
    virtualMemoryValidateFrames_true fun f hf => List.mem_range.mp hf, Nat.zero_add]
  exact ⟨fun h => ⟨fun f hf => h.1 f (List.mem_range.mpr hf), h.2⟩,
    fun h => ⟨fun f hf => h.frames f (List.mem_range.mp hf), h.freeCount⟩⟩

/-- What an answer says, whichever it is. -/
theorem virtualMemoryValidate_ok {valid : Bool} {w' : World}
    (hrun : virtualMemoryValidate w = .ok valid w') : w' = w ∧ (valid = true ↔ w.Validated) := by
  obtain rfl := virtualMemoryValidate_readOnly.state_eq hrun
  refine ⟨rfl, ?_⟩
  rw [← virtualMemoryValidate_true, hrun]
  constructor
  · rintro rfl
    rfl
  · intro h
    exact (Outcome.ok.inj h).1

/-! ## The invariant passes -/

theorem World.Wf.lookup_present (h : w.Wf) {a : Nat} {entry : PageTableEntry}
    (hlookup : w.lookup p a = some entry) : entry.present = true := by
  cases hx : w.heap.processes p with
  | none =>
    simp [World.lookup, processGetPageTable, onHeap, Comp.zoom, Comp.bind_run, readProcess,
      hx] at hlookup
  | some x =>
    obtain ⟨entry', w', hrun, _, hpresent, _⟩ := h.shows.lookup hx a
    rw [World.lookup_some hx hlookup] at hrun
    cases hrun
    exact hpresent entry rfl

/-- With fewer than `2 ^ 32` frames, each of them is looked at once. -/
theorem countP_free (frames : Nat → PhysicalFrame) {frameCount : Nat} (hcount : frameCount < 2 ^ 32) :
    (List.range frameCount).countP (fun index => !(frames (toUint32 index)).occupied) =
      (freeFrames frames frameCount).card := by
  have hfree : freeFrames frames frameCount = ((List.range frameCount).filter
      fun index => !(frames (toUint32 index)).occupied).toFinset := by
    ext f
    simp only [mem_freeFrames, List.mem_toFinset, List.mem_filter, List.mem_range]
    refine and_congr_right fun hf => ?_
    rw [toUint32_of_lt (hf.trans hcount)]
    simp
  rw [hfree, List.toFinset_card_of_nodup (List.nodup_range.filter _), List.countP_eq_length_filter]

theorem World.Wf.validated (h : w.Wf) : w.Validated := by
  have hc := h.consistent
  have hcount : w.memory.physicalMemory.frameCount < 2 ^ 32 := hc.count_lt
  refine ⟨fun f hf => ?_, (countP_free _ hcount).trans hc.freeCount.symm⟩
  rw [toUint32_of_lt (hf.trans hcount)]
  have hlinked : FrameLinked w.memory.processes w.heap.pid (w.memory.physicalMemory.frames f)
      (w.memory.physicalMemory.data f) (w.memory.cowManager.frames f) := hc.frame f hf
  have hcow : cowManagerMappingCount w.memory.cowManager f =
      (w.memory.cowManager.frames f).length :=
    if_neg (Nat.not_le.mpr (Nat.lt_of_lt_of_eq hf hc.cow_count.symm))
  cases hocc : (w.memory.physicalMemory.frames f).occupied with
  | true =>
    rw [World.FrameValid, if_pos hocc]
    obtain ⟨p, howner, hpid, huser⟩ := hlinked.owner hocc
    have hmapped : w.pager.mapped p (w.memory.physicalMemory.frames f).virtualPage = some f :=
      (hc.mapped p _ f).mpr ⟨_, huser, rfl⟩
    have hlive : 0 ≤ w.heap.pid p := hc.live p (hlinked.registered _ huser)
    have htranslate : w.translate p (pageAddress (w.memory.physicalMemory.frames f).virtualPage) =
        some f := by
      rw [h.translate_eq, addressPageNumber_pageAddress hlinked.page_lt, hmapped]
    obtain ⟨entry, hlookup, hframe⟩ := Option.map_eq_some_iff.mp htranslate
    refine ⟨p, howner, hpid ▸ hlive, hpid.symm, ?_, hlinked.page_lt, entry, hlookup,
      h.lookup_present hlookup, hframe⟩
    rw [hcow]
    exact Nat.ne_of_gt (List.length_pos_of_mem huser)
  | false =>
    rw [World.FrameValid, if_neg (by simp [hocc])]
    have husers : w.memory.cowManager.frames f = [] := by
      by_contra hne
      rw [hlinked.occupied.mpr hne] at hocc
      cases hocc
    rw [(hlinked.free hocc).1]
    exact ⟨rfl, rfl, rfl, rfl, by rw [hcow, husers]; rfl⟩

end VmSim
