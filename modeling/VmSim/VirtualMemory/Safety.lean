/-
VmSim.VirtualMemory.Safety — no call reaches storage that is not there.

`World.Guarded` holds in any run of calls with valid pointers, whatever
the pids and the 64-bit addresses are: every process that the registry, a
mapping list or a frame names is there, and the search for a victim ends.
From such a state an access returns a result code, and it is counted once.

`World.Orderly` is the part of it that does not need storage: there an
access ends whatever the allocator refuses. `World.Steady start` is the
invariant of the functions an access calls: they keep the processes of
`start`, and count no access.
-/
import VmSim.Replacement.Calls
import VmSim.VirtualMemory.ForkFailure

namespace VmSim

open Lib Lib.Comp

variable {w w' start : World} {p q t : Nat} {x : Process} {accessType : VirtualMemoryAccessType}

/-! ## The invariant -/

/-- Every owner of a frame is one of the given processes. -/
def PhysicalMemory.OwnedBy (memory : PhysicalMemory) (live : Nat → Prop) : Prop :=
  ∀ f q, (memory.frames f).ownerProcess = some q → live q

/-- The process is there. -/
def World.Alive (w : World) (q : Nat) : Prop := 0 ≤ w.heap.pid q

structure World.Steady (start w : World) : Prop where
  tame : w.heap.Tame
  plan : w.heap.allocator.plan = start.heap.allocator.plan
  processes : w.heap.processes = start.heap.processes
  nextProcess : w.heap.nextProcess = start.heap.nextProcess
  sharers : ∀ f, ∀ m ∈ w.memory.cowManager.frames f, start.Alive m.process
  registry : ∀ q ∈ w.memory.processes, start.Alive q
  owners : w.memory.physicalMemory.OwnedBy start.Alive
  policy : w.memory.replacementPolicy.Searches
  swap : w.memory.swap.isSome = start.memory.swap.isSome
  total : w.memory.stats.totalAccesses = start.memory.stats.totalAccesses

structure World.Orderly (w : World) : Prop extends World.Steady w w where
  counted : w.memory.stats.totalAccesses < wordSize

structure World.Guarded (w : World) : Prop extends World.Orderly w where
  plenty : w.heap.Plenty

theorem World.Steady.alive (h : World.Steady start w) : w.Alive = start.Alive := by
  funext q
  rw [World.Alive, World.Alive, Heap.pid, Heap.pid, h.processes]

theorem World.Steady.plenty (h : World.Steady start w) (hplenty : start.heap.Plenty) :
    w.heap.Plenty := by
  intro k
  rw [h.plan]
  exact hplenty k

theorem World.Steady.sound (h : World.Steady start w) (hplenty : start.heap.Plenty) :
    w.heap.Sound := ⟨h.tame, h.plenty hplenty⟩

theorem World.Guarded.sound (h : w.Guarded) : w.heap.Sound := ⟨h.tame, h.plenty⟩

/-- What was steady can be the start. -/
theorem World.Steady.self (h : World.Steady start w) : World.Steady w w := by
  refine ⟨h.tame, rfl, rfl, rfl, ?_, ?_, ?_, h.policy, rfl, rfl⟩
  all_goals rw [h.alive]
  · exact h.sharers
  · exact h.registry
  · exact h.owners

/-! ## Physical memory -/

theorem PhysicalMemory.OwnedBy.update {memory memory' : PhysicalMemory} {live : Nat → Prop}
    (h : memory.OwnedBy live) {f : Nat} {frame : PhysicalFrame}
    (hframe : ∀ q, frame.ownerProcess = some q → live q)
    (hframes : memory'.frames = Function.update memory.frames f frame) :
    memory'.OwnedBy live := by
  intro g q hq
  rw [hframes] at hq
  by_cases e : g = f
  · subst e
    rw [Function.update_self] at hq
    exact hframe q hq
  · rw [Function.update_of_ne e] at hq
    exact h g q hq

theorem PhysicalMemory.OwnedBy.assign {memory memory' : PhysicalMemory} {live : Nat → Prop}
    (h : memory.OwnedBy live) (hq : live q) {f : Nat} {pid : Int} {v : Nat}
    (hframes : memory'.frames = Function.update memory.frames f (.assigned q pid v)) :
    memory'.OwnedBy live := by
  refine h.update (fun r e => ?_) hframes
  obtain rfl : q = r := Option.some.inj e
  exact hq

theorem PhysicalMemory.OwnedBy.allocate {memory : PhysicalMemory} {live : Nat → Prop}
    (h : memory.OwnedBy live) (hq : live q) (pid : Int) (v : Nat) :
    (physicalMemoryAllocateFrame memory q pid v).2.OwnedBy live := by
  unfold physicalMemoryAllocateFrame
  split
  · exact h
  · split
    · exact h
    · split
      · exact h
      · exact h.assign hq rfl

theorem PhysicalMemory.OwnedBy.replace {memory : PhysicalMemory} {live : Nat → Prop}
    (h : memory.OwnedBy live) (hq : live q) (f : Nat) (pid : Int) (v : Nat) :
    (physicalMemoryReplaceFrame memory f q pid v).2.OwnedBy live := by
  unfold physicalMemoryReplaceFrame
  split
  · exact h
  · split
    · exact h
    · exact h.assign hq rfl

theorem PhysicalMemory.OwnedBy.release {memory : PhysicalMemory} {live : Nat → Prop}
    (h : memory.OwnedBy live) (f : Nat) :
    (physicalMemoryReleaseFrame memory f).2.OwnedBy live := by
  unfold physicalMemoryReleaseFrame
  split
  · exact h
  · split
    · exact h
    · have hfree : ∀ r, PhysicalFrame.free.ownerProcess = some r → live r := fun _ e => by cases e
      exact h.update hfree rfl

theorem PhysicalMemory.OwnedBy.mark {memory : PhysicalMemory} {live : Nat → Prop}
    (h : memory.OwnedBy live) (f : Nat) (isWrite : Bool) :
    (physicalMemoryMarkAccess memory f isWrite).2.OwnedBy live := by
  unfold physicalMemoryMarkAccess
  split
  · exact h
  · have htouched : ∀ r, ((memory.frames f).touch isWrite).ownerProcess = some r → live r := h f
    exact h.update htouched rfl

theorem PhysicalMemory.OwnedBy.writePage {memory : PhysicalMemory} {live : Nat → Prop}
    (h : memory.OwnedBy live) (f : Nat) (page : PageData) :
    (physicalMemoryWritePage memory f page).2.OwnedBy live := by
  unfold physicalMemoryWritePage
  split
  · exact h
  · exact h

theorem PhysicalMemory.OwnedBy.writeByte {memory : PhysicalMemory} {live : Nat → Prop}
    (h : memory.OwnedBy live) (f offset : Nat) (value : UInt8) :
    (physicalMemoryWriteByte memory f offset value).2.OwnedBy live := by
  unfold physicalMemoryWriteByte
  split
  · exact h
  · split
    · split
      · exact h
      · exact h
    · exact h

/-! ## Parts of the state -/

theorem onPhysical_safe {α : Type} {f : PhysicalMemory → α × PhysicalMemory}
    (hf : ∀ memory : PhysicalMemory, memory.OwnedBy start.Alive →
      (f memory).2.OwnedBy start.Alive) : Safe (World.Steady start) anyValue (onPhysical f) :=
  Safe.update fun w h => ⟨h.tame, h.plan, h.processes, h.nextProcess, h.sharers, h.registry,
    hf w.memory.physicalMemory h.owners, h.policy, h.swap, h.total⟩

theorem onPolicy_safe {α : Type} {f : ReplacementPolicy → α × ReplacementPolicy}
    (hf : ∀ policy : ReplacementPolicy, policy.Searches → (f policy).2.Searches) :
    Safe (World.Steady start) anyValue (onPolicy f) :=
  Safe.update fun w h => ⟨h.tame, h.plan, h.processes, h.nextProcess, h.sharers, h.registry,
    h.owners, hf w.memory.replacementPolicy h.policy, h.swap, h.total⟩

theorem onTlb_safe {α : Type} (f : Tlb → α × Tlb) :
    Safe (World.Steady start) anyValue (onTlb f) :=
  Safe.update fun _ h => ⟨h.tame, h.plan, h.processes, h.nextProcess, h.sharers, h.registry,
    h.owners, h.policy, h.swap, h.total⟩

theorem onStats_safe {f : VirtualMemoryStats → VirtualMemoryStats}
    (hf : ∀ stats, (f stats).totalAccesses = stats.totalAccesses) :
    Safe (World.Steady start) anyValue (onStats f) :=
  Safe.modify fun w h => ⟨h.tame, h.plan, h.processes, h.nextProcess, h.sharers, h.registry,
    h.owners, h.policy, h.swap, (hf w.memory.stats).trans h.total⟩

/-- There is a swap, and it stays. -/
theorem onSwap_safe (hswap : start.memory.swap.isSome = true) {α : Type} (f : Swap → α × Swap) :
    Safe (World.Steady start) anyValue (onSwap f) := by
  intro w h
  obtain ⟨swap, hsome⟩ := Option.isSome_iff_exists.mp (h.swap.trans hswap)
  have hrun : onSwap f w = .ok (f swap).1
      { w with memory := { w.memory with swap := some (f swap).2 } } := by
    simp only [onSwap, hsome]
  exact Ends.of_ok hrun ⟨⟨h.tame, h.plan, h.processes, h.nextProcess, h.sharers, h.registry,
    h.owners, h.policy, hswap.symm, h.total⟩, fun _ _ => trivial⟩

theorem cowRemoveMapping_safe (f q v : Nat) :
    Safe (World.Steady start) anyValue (onCow (cowManagerRemoveMapping · f q v)) :=
  Safe.update fun _ h => ⟨h.tame, h.plan, h.processes, h.nextProcess,
    fun g m hm => h.sharers g m (cowManagerRemoveMapping_subset hm), h.registry, h.owners,
    h.policy, h.swap, h.total⟩

/-! ## The heap -/

theorem World.Steady.framed (h : World.Steady start w) {heap : Heap} (hf : w.heap.Framed heap)
    (ht : heap.Tame) : World.Steady start { w with heap := heap } :=
  ⟨ht, hf.plan.trans h.plan, hf.processes.trans h.processes, hf.nextProcess.trans h.nextProcess,
    h.sharers, h.registry, h.owners, h.policy, h.swap, h.total⟩

theorem onHeap_safe {α : Type} {c : Comp Heap α}
    (hc : ∀ w, World.Steady start w → Ends c w.heap fun _ heap => w.heap.Framed heap ∧ heap.Tame) :
    Safe (World.Steady start) anyValue (onHeap c) :=
  Safe.zoom fun w h => (hc w h).mono fun _ _ ⟨hf, ht⟩ => ⟨h.framed hf ht, fun _ _ => trivial⟩

theorem allocate_safe : Safe (World.Steady start) anyValue (onHeap allocate) :=
  onHeap_safe fun w h => (allocate_ends w.heap).mono fun _ _ hend => by
    rw [hend]
    exact ⟨w.heap.framed_drawn, h.tame.drawn⟩

theorem readProcess_safe (hq : start.Alive q) :
    Safe (World.Steady start) (fun x => start.heap.processes q = some x)
      (onHeap (readProcess q)) := by
  obtain ⟨x, hx⟩ := Heap.process_of_pid hq
  refine Safe.zoom fun w h => ?_
  have hrun : readProcess q w.heap = .ok x w.heap := by simp only [readProcess, h.processes, hx]
  refine Ends.of_ok hrun ⟨h, fun y e => ?_⟩
  obtain rfl : x = y := Option.some.inj e
  exact hx

theorem processGetPid_safe (hq : start.Alive q) :
    Safe (World.Steady start) anyValue (processGetPid q) :=
  (readProcess_safe hq).andThen fun _ => Safe.done

theorem processGetPageTable_safe (hq : start.Alive q) :
    Safe (World.Steady start) start.heap.Owns (processGetPageTable q) :=
  (readProcess_safe hq).bind fun x hx => Safe.pure ⟨q, x, hx, rfl⟩

theorem pageTableMap_safe (ho : start.heap.Owns t) (a f : Nat) :
    Safe (World.Steady start) anyValue (onHeap (pageTableMap t a f)) := by
  obtain ⟨q, x, hx, rfl⟩ := ho
  exact onHeap_safe fun w h => h.tame.map_ends (by rw [h.processes]; exact hx) a f

theorem pageTableLookup_safe (ho : start.heap.Owns t) (a : Nat) :
    Safe (World.Steady start) anyValue (onHeap (pageTableLookup t a)) := by
  obtain ⟨q, x, hx, rfl⟩ := ho
  refine Safe.zoom fun w h => ?_
  obtain ⟨entry, hrun, _⟩ := h.tame.lookup_run (by rw [h.processes]; exact hx) a
  exact Ends.of_ok hrun ⟨h, fun _ _ => trivial⟩

theorem pageTableLookupWithLevels_safe (ho : start.heap.Owns t) (a : Nat) :
    Safe (World.Steady start) anyValue (onHeap (pageTableLookupWithLevels t a)) := by
  obtain ⟨q, x, hx, rfl⟩ := ho
  refine Safe.zoom fun w h => ?_
  obtain ⟨entry, visited, hrun, _⟩ := h.tame.walk_run (by rw [h.processes]; exact hx) a
  exact Ends.of_ok hrun ⟨h, fun _ _ => trivial⟩

theorem pageTableUnmap_safe (ho : start.heap.Owns t) (a : Nat) :
    Safe (World.Steady start) anyValue (onHeap (pageTableUnmap t a)) := by
  obtain ⟨q, x, hx, rfl⟩ := ho
  exact onHeap_safe fun w h => h.tame.unmap_ends (by rw [h.processes]; exact hx) a

/-! ## The registry and the mapping lists -/

theorem cowAddMapping_safe (hp : start.Alive p) (f v : Nat) :
    Safe (World.Steady start) anyValue (cowAddMapping f p v) := by
  refine Safe.get.andThen fun w => (Safe.failIf _).andThen fun _ => ?_
  split
  · exact Safe.done
  · refine allocate_safe.andThen fun _ => Safe.update fun w₁ h => ⟨h.tame, h.plan, h.processes,
      h.nextProcess, fun g m hm => ?_, h.registry, h.owners, h.policy, h.swap, h.total⟩
    rcases mem_cowManagerInsert.mp hm with ⟨_, rfl⟩ | hold
    · exact hp
    · exact h.sharers g m hold

/-- There is storage for a mapping of a frame that exists. -/
theorem cowAddMapping_ok (hplenty : w.heap.Plenty) {f : Nat}
    (hf : f < w.memory.cowManager.frameCount) (q v : Nat) :
    ∃ w', cowAddMapping f q v w = .ok () w' := by
  have hin : failIf (decide (f ≥ w.memory.cowManager.frameCount)) w = .ok () w := by
    rw [decide_eq_false (Nat.not_le.mpr hf), failIf_false]
  rw [cowAddMapping, bind_ok (get_run w), bind_ok hin]
  split
  · exact ⟨w, rfl⟩
  · exact ⟨_, bind_ok (zoom_ok (allocate_run hplenty))⟩

theorem virtualMemoryRegisterProcess_safe (hp : start.Alive p) :
    Safe (World.Steady start) anyValue (virtualMemoryRegisterProcess p) := by
  refine Safe.get.bind fun w hw => ?_
  split
  · exact Safe.done
  · refine allocate_safe.andThen fun _ => Safe.modify fun w₁ h => ⟨h.tame, h.plan, h.processes,
      h.nextProcess, h.sharers, fun q hq => ?_, h.owners, h.policy, h.swap, h.total⟩
    rcases List.mem_cons.mp hq with rfl | hold
    · exact hp
    · exact hw.registry q hold

theorem virtualMemoryUnregisterProcess_safe (q : Nat) :
    Safe (World.Steady start) anyValue (virtualMemoryUnregisterProcess q) :=
  Safe.get.bind fun _ hw => Safe.modify fun _ h => ⟨h.tame, h.plan, h.processes, h.nextProcess,
    h.sharers, fun r hr => hw.registry r (List.mem_of_mem_erase hr), h.owners, h.policy, h.swap,
    h.total⟩

/-- The user that is found is one of the candidates. -/
theorem virtualMemoryFindFrameUserIn_safe (f v excluded : Nat) (candidates : List Nat) :
    (∀ q ∈ candidates, start.Alive q) →
      Safe (World.Steady start) (fun found => ∀ q, found = some q → start.Alive q)
        (virtualMemoryFindFrameUserIn f v excluded candidates) := by
  induction candidates with
  | nil => exact fun _ => Safe.pure fun _ e => by cases e
  | cons candidate rest ih =>
    intro h
    obtain ⟨hcandidate, hrest⟩ := List.forall_mem_cons.mp h
    refine Safe.get.andThen fun w => ?_
    split
    · exact ih hrest
    · refine (processGetPageTable_safe hcandidate).bind fun table ho =>
        (pageTableLookup_safe ho _).andThen fun entry => ?_
      split
      · refine Safe.pure fun q e => ?_
        obtain rfl : candidate = q := Option.some.inj e
        exact hcandidate
      · exact ih hrest

theorem virtualMemoryFindFrameUser_safe (f v excluded : Nat) :
    Safe (World.Steady start) (fun found => ∀ q, found = some q → start.Alive q)
      (virtualMemoryFindFrameUser f v excluded) :=
  Safe.get.bind fun _ hw => virtualMemoryFindFrameUserIn_safe f v excluded _ hw.registry

theorem virtualMemoryReassignFrameOwner_safe {owner : Nat} (ho : start.Alive owner) (f v : Nat) :
    Safe (World.Steady start) anyValue (virtualMemoryReassignFrameOwner f owner v) := by
  refine Safe.get.andThen fun w => (Safe.orFail _).andThen fun frame =>
    (Safe.failIf _).andThen fun _ => (Safe.orFail _).andThen fun page =>
    (processGetPid_safe ho).andThen fun pid =>
    (onPhysical_safe fun _ h => h.replace ho f pid v).andThen fun _ =>
    (Safe.check _).andThen fun _ => (onPhysical_safe fun _ h => h.writePage f page).andThen fun _ =>
    (Safe.check _).andThen fun _ => ?_
  split
  · exact (onPhysical_safe fun _ h => h.mark f _).andThen fun _ => Safe.check _
  · exact Safe.done

/-! ## Page faults -/

theorem virtualMemoryRestorePage_safe (hq : start.Alive q) (v f : Nat) :
    Safe (World.Steady start) anyValue (virtualMemoryRestorePage q v f) := by
  refine Safe.get.bind fun w hw => ?_
  split
  · exact Safe.done
  · rename_i swap hsome
    have hswap : start.memory.swap.isSome = true := by
      rw [← hw.swap, hsome]
      rfl
    refine (processGetPid_safe hq).andThen fun pid => ?_
    split
    · exact Safe.done
    · exact (onSwap_safe hswap _).andThen fun _ => (Safe.orFail _).andThen fun page =>
        (onPhysical_safe fun _ h => h.writePage f page).andThen fun _ =>
        (Safe.check _).andThen fun _ => (onSwap_safe hswap _).andThen fun _ =>
        (Safe.check _).andThen fun _ => onStats_safe fun _ => rfl

theorem virtualMemorySaveVictim_safe (victim : PhysicalFrame) (f : Nat) :
    Safe (World.Steady start) anyValue (virtualMemorySaveVictim victim f) := by
  refine Safe.get.bind fun w hw => ?_
  split
  · exact Safe.done
  · rename_i hsave
    have hswap : start.memory.swap.isSome = true := by
      rw [← hw.swap, ← Option.ne_none_iff_isSome]
      simpa using (not_or.mp hsave).2
    exact (Safe.orFail _).andThen fun _ => (onSwap_safe hswap _).andThen fun _ =>
      (Safe.check _).andThen fun _ => onStats_safe fun _ => rfl

theorem virtualMemoryNotifyAccess_safe (f : Nat) (isWrite : Bool) :
    Safe (World.Steady start) anyValue (virtualMemoryNotifyAccess f isWrite) :=
  (onPhysical_safe fun _ h => h.mark f isWrite).andThen fun _ => (Safe.check _).andThen fun _ =>
    (onPolicy_safe fun _ h => h.onAccess f).andThen fun _ => (Safe.check _).andThen fun _ =>
    onPolicy_safe fun _ h => h.tick

theorem virtualMemoryLoadFreeFrame_safe (hp : start.Alive p) (a v f : Nat) (isWrite : Bool) :
    Safe (World.Steady start) anyValue (virtualMemoryLoadFreeFrame p a v f isWrite) := by
  refine (processGetPageTable_safe hp).bind fun table ho => ?_
  have hunmap : Safe (World.Steady start) anyValue
      (Comp.attempt (onHeap (pageTableUnmap table a))) := (pageTableUnmap_safe ho a).attempt
  have hrelease : Safe (World.Steady start) anyValue
      (onPhysical (physicalMemoryReleaseFrame · f)) := onPhysical_safe fun _ h => h.release f
  exact ((pageTableMap_safe ho a f).onFailure hrelease).andThen fun _ =>
    ((cowAddMapping_safe hp f v).onFailure (hunmap.andThen fun _ => hrelease)).andThen fun _ =>
    (onPolicy_safe fun _ h => h.onLoad f).andThen fun code =>
    ((Safe.check code).onFailure ((cowRemoveMapping_safe f p v).andThen fun _ =>
      hunmap.andThen fun _ => hrelease)).andThen fun _ =>
    ((virtualMemoryRestorePage_safe hp v f).onFailure
      ((onPolicy_safe fun _ h => h.onEvict f).andThen fun _ =>
        (cowRemoveMapping_safe f p v).andThen fun _ => hunmap.andThen fun _ =>
          hrelease)).andThen fun _ =>
    (onPhysical_safe fun _ h => h.mark f isWrite).andThen fun _ => (Safe.check _).andThen fun _ =>
    (processGetPid_safe hp).andThen fun _ => (onTlb_safe _).andThen fun _ =>
    (Safe.check _).andThen fun _ => onPolicy_safe fun _ h => h.tick

theorem virtualMemoryReplacePage_safe (hp : start.Alive p) (a v : Nat) (isWrite : Bool) :
    Safe (World.Steady start) anyValue (virtualMemoryReplacePage p a v isWrite) := by
  refine Safe.get.bind fun w hw => ?_
  obtain ⟨f, policy, hchoose, hsearches⟩ := hw.policy.chooseVictim
  refine (Safe.orFault hchoose).bind fun answer hanswer => ?_
  rw [hanswer]
  refine (onPolicy_safe fun _ _ => hsearches).andThen fun _ => (Safe.failIf _).andThen fun _ =>
    (Safe.failIf _).andThen fun _ => (Safe.orFail _).bind fun victim hvictim =>
    (Safe.failIf _).andThen fun _ => (Safe.orFail _).bind fun oldProcess howner => ?_
  have hold : start.Alive oldProcess := by
    unfold physicalMemoryGetFrame at hvictim
    split at hvictim
    · cases hvictim
    · cases hvictim
      exact hw.owners f oldProcess howner
  refine (virtualMemorySaveVictim_safe victim f).andThen fun _ =>
    (processGetPageTable_safe hold).bind fun oldTable hold =>
    (processGetPageTable_safe hp).bind fun newTable hnew => ?_
  exact (pageTableMap_safe hnew a f).andThen fun _ => (onTlb_safe _).andThen fun _ =>
    ((pageTableUnmap_safe hold _).onFailure (pageTableUnmap_safe hnew a)).andThen fun _ =>
    (cowRemoveMapping_safe f oldProcess _).andThen fun _ => (Safe.check _).andThen fun _ =>
    (onPolicy_safe fun _ h => h.onEvict f).andThen fun _ => (Safe.check _).andThen fun _ =>
    (processGetPid_safe hp).andThen fun pid =>
    (onPhysical_safe fun _ h => h.replace hp f pid v).andThen fun _ =>
    (Safe.check _).andThen fun _ => (cowAddMapping_safe hp f v).andThen fun _ =>
    (onPolicy_safe fun _ h => h.onLoad f).andThen fun _ => (Safe.check _).andThen fun _ =>
    (virtualMemoryRestorePage_safe hp v f).andThen fun _ =>
    (onPhysical_safe fun _ h => h.mark f isWrite).andThen fun _ => (Safe.check _).andThen fun _ =>
    (onTlb_safe _).andThen fun _ => (Safe.check _).andThen fun _ =>
    (onStats_safe fun _ => by rfl).andThen fun _ => onPolicy_safe fun _ h => h.tick

/-! ## Copy-on-write -/

theorem virtualMemorySaveReader_safe (hswap : start.memory.swap.isSome = true)
    (writer : CowMapping) (page : PageData) {reader : CowMapping}
    (hreader : start.Alive reader.process) :
    Safe (World.Steady start) anyValue (virtualMemorySaveReader writer page reader) := by
  unfold virtualMemorySaveReader
  split
  · exact Safe.done
  · exact (processGetPid_safe hreader).andThen fun _ => (onSwap_safe hswap _).andThen fun _ =>
      (Safe.check _).andThen fun _ => onStats_safe fun _ => rfl

theorem virtualMemoryDetachReader_safe (writer : CowMapping) (f : Nat) {reader : CowMapping}
    (hreader : start.Alive reader.process) :
    Safe (World.Steady start) anyValue (virtualMemoryDetachReader writer f reader) := by
  unfold virtualMemoryDetachReader
  split
  · exact Safe.done
  · exact (Safe.failIf _).andThen fun _ => (processGetPageTable_safe hreader).bind fun table ho =>
      (pageTableUnmap_safe ho _).andThen fun _ => (cowRemoveMapping_safe f _ _).andThen fun _ =>
      (Safe.check _).andThen fun _ => (processGetPid_safe hreader).andThen fun _ =>
      (onTlb_safe _).andThen fun _ => Safe.done

theorem virtualMemoryEvictCowReadersForWrite_safe {writer : Nat} (hwriter : start.Alive writer)
    (v f : Nat) (page : PageData) :
    Safe (World.Steady start) anyValue
      (virtualMemoryEvictCowReadersForWrite writer v f page) := by
  refine Safe.get.bind fun w hw => (Safe.failIf _).bind fun _ hsome => ?_
  have hswap : start.memory.swap.isSome = true := by
    rw [← hw.swap, ← Option.not_isNone, hsome]
    rfl
  dsimp only
  split
  · exact Safe.done
  · have hreaders : ∀ m ∈ cowManagerCollectFrameMappings w.memory.cowManager f,
        start.Alive m.process := by
      intro m hm
      unfold cowManagerCollectFrameMappings at hm
      split at hm
      · cases hm
      · exact hw.sharers f m hm
    refine allocate_safe.andThen fun _ => (Safe.failIf _).andThen fun _ =>
      (Safe.forEach _ fun m hm =>
        virtualMemorySaveReader_safe hswap _ page (hreaders m hm)).andThen fun _ =>
      (Safe.forEach _ fun m hm =>
        virtualMemoryDetachReader_safe _ f (hreaders m hm)).andThen fun _ =>
      Safe.get.andThen fun w' => ?_
    have hlast : Safe (World.Steady start) anyValue (do
        let w ← Comp.get
        Comp.failIf (cowManagerMappingCount w.memory.cowManager f ≠ 1)) :=
      Safe.get.andThen fun _ => (Safe.failIf _).any
    split
    · exact (virtualMemoryReassignFrameOwner_safe hwriter f v).andThen fun _ => hlast
    · exact hlast

theorem virtualMemoryHandleCowWrite_safe (hp : start.Alive p) (a v f : Nat) :
    Safe (World.Steady start) anyValue (virtualMemoryHandleCowWrite p a v f) := by
  refine Safe.get.andThen fun w => ?_
  split
  · exact Safe.done
  · refine (Safe.orFail _).andThen fun page => (processGetPid_safe hp).andThen fun pid =>
      (onPhysical_safe fun _ h => h.allocate hp pid v).andThen fun allocation => ?_
    cases allocation with
    | error code =>
      exact (Safe.failIf _).andThen fun _ =>
        (virtualMemoryEvictCowReadersForWrite_safe hp v f page).andThen fun _ =>
        (onTlb_safe _).andThen fun _ => (onTlb_safe _).andThen fun _ =>
        (Safe.check _).andThen fun _ => Safe.done
    | ok g =>
      have hrelease : Safe (World.Steady start) anyValue
          (onPhysical (physicalMemoryReleaseFrame · g)) := onPhysical_safe fun _ h => h.release g
      refine (onPhysical_safe fun _ h => h.writePage g page).andThen fun code =>
        ((Safe.check code).onFailure hrelease).andThen fun _ =>
        (processGetPageTable_safe hp).bind fun table ho =>
        ((pageTableMap_safe ho a g).onFailure hrelease).andThen fun _ =>
        (cowRemoveMapping_safe f p v).andThen fun _ => (Safe.check _).andThen fun _ =>
        (cowAddMapping_safe hp g v).andThen fun _ =>
        (onPolicy_safe fun _ h => h.onLoad g).andThen fun _ =>
        (Safe.check _).andThen fun _ => Safe.get.andThen fun w' => ?_
      have hlast : Safe (World.Steady start) anyValue (do
          let _ ← onTlb (tlbInvalidate · pid v)
          let code ← onTlb (tlbInsert · pid v g)
          Comp.check code
          return g) :=
        (onTlb_safe _).andThen fun _ => (onTlb_safe _).andThen fun _ =>
          (Safe.check _).andThen fun _ => Safe.done
      split
      · refine (virtualMemoryFindFrameUser_safe f v p).bind fun found hfound =>
          (Safe.orFail _).bind fun remaining hremaining => ?_
        exact (virtualMemoryReassignFrameOwner_safe (hfound remaining hremaining) f v).andThen
          fun _ => hlast
      · exact hlast

/-! ## Accesses -/

theorem virtualMemoryWritableFrame_safe (hp : start.Alive p) (a v f : Nat) (isWrite : Bool) :
    Safe (World.Steady start) anyValue (virtualMemoryWritableFrame p a v f isWrite) := by
  unfold virtualMemoryWritableFrame
  split
  · exact virtualMemoryHandleCowWrite_safe hp a v f
  · exact Safe.done

theorem virtualMemoryAccessHit_safe (hp : start.Alive p) (a v f : Nat) (isWrite : Bool) :
    Safe (World.Steady start) anyValue (virtualMemoryAccessHit p a v f isWrite) :=
  (onStats_safe fun _ => by rfl).andThen fun _ =>
    (virtualMemoryWritableFrame_safe hp a v f isWrite).andThen fun g =>
    virtualMemoryNotifyAccess_safe g isWrite

theorem virtualMemoryAccessWalked_safe (hp : start.Alive p) (pid : Int) (a v f : Nat)
    (isWrite : Bool) :
    Safe (World.Steady start) anyValue (virtualMemoryAccessWalked p pid a v f isWrite) :=
  (virtualMemoryWritableFrame_safe hp a v f isWrite).andThen fun g =>
    (onTlb_safe _).andThen fun _ => (Safe.check _).andThen fun _ =>
    virtualMemoryNotifyAccess_safe g isWrite

/-- Both ends of a fault are tested, so it gives a result code. -/
theorem virtualMemoryAccessFault_sure (hp : start.Alive p) (pid : Int) (a v : Nat)
    (isWrite : Bool) :
    Sure (World.Steady start) anyValue (virtualMemoryAccessFault p pid a v isWrite) := by
  refine ((onStats_safe fun _ => by rfl).sure fun _ _ => ⟨_, _, rfl⟩).andThen fun _ =>
    ((onPhysical_safe fun _ h => h.allocate hp pid v).sure fun _ _ => ⟨_, _, rfl⟩).andThen
      fun allocation => ?_
  cases allocation with
  | ok f =>
    exact (Sure.attempt (virtualMemoryLoadFreeFrame_safe hp a v f isWrite)).andThen fun _ =>
      Sure.get.andThen fun _ => Sure.done
  | error code =>
    dsimp only
    split
    · exact (Sure.attempt (virtualMemoryReplacePage_safe hp a v isWrite)).andThen fun _ =>
        Sure.get.andThen fun _ => Sure.done
    · exact Sure.done

theorem World.Steady.process (h : World.Steady start w) (hp : start.Alive p) :
    ∃ x, start.heap.processes p = some x ∧ readProcess p w.heap = .ok x w.heap := by
  obtain ⟨x, hx⟩ := Heap.process_of_pid hp
  exact ⟨x, hx, by simp only [readProcess, h.processes, hx]⟩

theorem processGetPid_sure (hp : start.Alive p) :
    Sure (World.Steady start) anyValue (processGetPid p) :=
  (processGetPid_safe hp).sure fun _ h =>
    let ⟨_, _, hrun⟩ := h.process hp
    ⟨_, _, bind_ok (zoom_ok hrun)⟩

theorem processGetPageTable_sure (hp : start.Alive p) :
    Sure (World.Steady start) start.heap.Owns (processGetPageTable p) :=
  (processGetPageTable_safe hp).sure fun _ h =>
    let ⟨_, _, hrun⟩ := h.process hp
    ⟨_, _, bind_ok (zoom_ok hrun)⟩

theorem pageTableLookupWithLevels_sure (ho : start.heap.Owns t) (a : Nat) :
    Sure (World.Steady start) anyValue (onHeap (pageTableLookupWithLevels t a)) := by
  refine (pageTableLookupWithLevels_safe ho a).sure fun w h => ?_
  obtain ⟨q, x, hx, rfl⟩ := ho
  obtain ⟨entry, visited, hrun, _⟩ := h.tame.walk_run (by rw [h.processes]; exact hx) a
  exact ⟨_, _, zoom_ok hrun⟩

theorem virtualMemoryRegisterProcess_sure (hplenty : start.heap.Plenty) (hp : start.Alive p) :
    Sure (World.Steady start) anyValue (virtualMemoryRegisterProcess p) := by
  refine (virtualMemoryRegisterProcess_safe hp).sure fun w h => ?_
  rw [virtualMemoryRegisterProcess, bind_ok (get_run w)]
  split
  · exact ⟨_, _, rfl⟩
  · exact ⟨_, _, bind_ok (zoom_ok (allocate_run (h.plenty hplenty)))⟩

/-- The state with one more access counted. -/
def World.counted (w : World) : World :=
  { w with memory := { w.memory with stats := { w.memory.stats with
    totalAccesses := increment w.memory.stats.totalAccesses } } }

/-- Nothing but the counter is asked of the start. -/
theorem World.Steady.count (h : World.Steady start w) (accessType : VirtualMemoryAccessType) :
    Returns (virtualMemoryRegisterAccess accessType) w fun _ w' =>
      World.Steady start.counted w' := by
  unfold virtualMemoryRegisterAccess onStats
  refine Returns.of_eq (modify_run _ w) ⟨h.tame, h.plan, h.processes, h.nextProcess, h.sharers,
    h.registry, h.owners, h.policy, h.swap, ?_⟩
  cases accessType with
  | read => exact congrArg increment h.total
  | write => exact congrArg increment h.total

/-- After an access: it was counted, or there was no storage to register
the process. -/
def World.Concluded (w w' : World) : Prop :=
  World.Steady w.counted w' ∨ ¬ w.heap.Plenty ∧ World.Steady w w'

theorem World.Orderly.kept (h : w.Orderly) (hsteady : World.Steady w w') : w'.Orderly where
  toSteady := hsteady.self
  counted := by
    rw [hsteady.total]
    exact h.counted

theorem World.Steady.orderly (h : World.Steady w.counted w') : w'.Orderly where
  toSteady := h.self
  counted := by
    rw [h.total]
    exact Nat.mod_lt _ (by decide)

theorem World.Guarded.kept (h : w.Guarded) (hsteady : World.Steady w w') : w'.Guarded :=
  ⟨h.toOrderly.kept hsteady, hsteady.plenty h.plenty⟩

theorem World.Guarded.counts (h : w.Guarded) (hsteady : World.Steady w.counted w') : w'.Guarded :=
  ⟨hsteady.orderly, hsteady.plenty h.plenty⟩

theorem World.Concluded.orderly (ha : w.Concluded w') (h : w.Orderly) : w'.Orderly := by
  rcases ha with hcounted | ⟨_, hsteady⟩
  · exact hcounted.orderly
  · exact h.kept hsteady

theorem World.Concluded.processes (ha : w.Concluded w') : w'.heap.processes = w.heap.processes := by
  rcases ha with hcounted | ⟨_, hsteady⟩
  · exact hcounted.processes
  · exact hsteady.processes

theorem World.Concluded.alive (ha : w.Concluded w') : w'.Alive = w.Alive := by
  rcases ha with hcounted | ⟨_, hsteady⟩
  · exact hcounted.alive
  · exact hsteady.alive

/-- An access gives a result code. -/
theorem virtualMemoryAccess_concluded (h : w.Orderly) (hp : w.Alive p) (a : Nat)
    (accessType : VirtualMemoryAccessType) :
    Returns (virtualMemoryAccess p a accessType) w fun _ w' => w.Concluded w' := by
  have hp' : w.counted.Alive p := hp
  have hdone : ∀ {c : Comp World Unit}, Safe (World.Steady w.counted) anyValue c →
      Sure (World.Steady w.counted) anyValue (do
        let done ← Comp.attempt c
        return if done.isSome then VirtualMemoryAccessResult.ok else .internalError) :=
    fun hc => (Sure.attempt hc).andThen fun _ => Sure.done
  obtain ⟨registered, w₁, hregister, h₁, _⟩ := virtualMemoryRegisterProcess_safe hp w h.toSteady
  rw [virtualMemoryAccess, Returns, bind_ok hregister]
  cases registered with
  | none =>
    refine Returns.pure (Or.inr ⟨fun hplenty => ?_, h₁⟩)
    obtain ⟨_, _, hrun, _⟩ := virtualMemoryRegisterProcess_sure hplenty hp w h.toSteady
    rw [attempt_ok hrun] at hregister
    cases hregister
  | some _ =>
    rw [if_neg (by simp)]
    refine (processGetPageTable_sure hp w₁ h₁).bind fun table w₂ h₂ =>
      (h₂.1.count accessType).bind fun _ w₃ h₃ => ?_
    have ho : w.counted.heap.Owns table := h₂.2
    -- the rest of the function keeps the count
    refine Returns.mono ((?_ : Sure (World.Steady w.counted) anyValue _) w₃ h₃)
      fun _ _ hend => Or.inl hend.1
    refine (processGetPid_sure hp').andThen fun pid =>
      ((onTlb_safe _).sure fun _ _ => ⟨_, _, rfl⟩).andThen fun hit => ?_
    cases hit with
    | some f => exact hdone (virtualMemoryAccessHit_safe hp' a _ f _)
    | none =>
      refine (pageTableLookupWithLevels_sure ho a).andThen fun walked => ?_
      obtain ⟨entry, levels⟩ := walked
      refine ((onStats_safe fun _ => by rfl).sure fun _ _ => ⟨_, _, rfl⟩).andThen fun _ => ?_
      cases entry with
      | some entry => exact hdone (virtualMemoryAccessWalked_safe hp' pid a _ entry.frameNumber _)
      | none => exact virtualMemoryAccessFault_sure hp' pid a _ _

/-- Where there is storage, an access is counted once. -/
theorem virtualMemoryAccess_returns (h : w.Guarded) (hp : w.Alive p) (a : Nat)
    (accessType : VirtualMemoryAccessType) :
    Returns (virtualMemoryAccess p a accessType) w fun _ w' => World.Steady w.counted w' :=
  (virtualMemoryAccess_concluded h.toOrderly hp a accessType).mono fun _ _ hend =>
    hend.resolve_right fun hscarce => hscarce.1 h.plenty

theorem virtualMemoryReadByte_ends (h : w.Guarded) (hp : w.Alive p) (a : Nat) :
    Ends (virtualMemoryReadByte p a) w fun _ w' => World.Steady w.counted w' := by
  have hp' : w.counted.Alive p := hp
  refine (virtualMemoryAccess_returns h hp a .read).bindEnds fun result w₁ h₁ => ?_
  refine Ends.mono ((?_ : Safe (World.Steady w.counted) anyValue _) w₁ h₁) fun _ _ hend => hend.1
  exact (Safe.failIf _).andThen fun _ => (processGetPageTable_safe hp').bind fun table ho =>
    (pageTableLookup_safe ho a).andThen fun _ => (Safe.orFail _).andThen fun _ =>
    Safe.get.andThen fun _ => (Safe.orFail _).any

theorem virtualMemoryWriteByte_ends (h : w.Guarded) (hp : w.Alive p) (a : Nat) (value : UInt8) :
    Ends (virtualMemoryWriteByte p a value) w fun _ w' => World.Steady w.counted w' := by
  have hp' : w.counted.Alive p := hp
  refine (virtualMemoryAccess_returns h hp a .write).bindEnds fun result w₁ h₁ => ?_
  refine Ends.mono ((?_ : Safe (World.Steady w.counted) anyValue _) w₁ h₁) fun _ _ hend => hend.1
  exact (Safe.failIf _).andThen fun _ => (processGetPageTable_safe hp').bind fun table ho =>
    (pageTableLookup_safe ho a).andThen fun _ => (Safe.orFail _).andThen fun entry =>
    (onPhysical_safe fun _ hx => hx.writeByte _ _ value).andThen fun _ => Safe.check _

/-! ## Releases, creations and forks -/

theorem virtualMemoryReleaseFrame_safe (q : Nat) (pid : Int) (ho : start.heap.Owns t)
    (index : Nat) :
    Safe (World.Steady start) anyValue (virtualMemoryReleaseFrame q pid t index) := by
  refine Safe.get.andThen fun w => ?_
  split
  · exact Safe.done
  · rename_i frame _
    split
    · exact Safe.done
    · refine (onTlb_safe _).andThen fun _ => (pageTableLookup_safe ho _).andThen fun entry => ?_
      have hlast : ∀ _ : PUnit, Safe (World.Steady start) anyValue (do
          let code ← onCow (cowManagerRemoveMapping · (toUint32 index) q frame.virtualPage)
          Comp.check code
          let w ← Comp.get
          if cowManagerMappingCount w.memory.cowManager (toUint32 index) = 0 then do
            let code ← onPolicy (replacementPolicyOnEvict · (toUint32 index))
            Comp.check code
            let code ← onPhysical (physicalMemoryReleaseFrame · (toUint32 index))
            Comp.check code
          else if frame.ownerProcess = some q then do
            let remaining ← virtualMemoryFindFrameUser (toUint32 index) frame.virtualPage q
            let remaining ← Comp.orFail remaining
            virtualMemoryReassignFrameOwner (toUint32 index) remaining frame.virtualPage
          else pure ()) := by
        refine fun _ => (cowRemoveMapping_safe _ q _).andThen fun _ =>
          (Safe.check _).andThen fun _ => Safe.get.andThen fun w' => ?_
        split
        · exact (onPolicy_safe fun _ h => h.onEvict _).andThen fun _ =>
            (Safe.check _).andThen fun _ =>
            (onPhysical_safe fun _ h => h.release _).andThen fun _ => Safe.check _
        · split
          · refine (virtualMemoryFindFrameUser_safe _ _ q).bind fun found hfound =>
              (Safe.orFail _).bind fun remaining hremaining => ?_
            exact virtualMemoryReassignFrameOwner_safe (hfound remaining hremaining) _ _
          · exact Safe.done
      dsimp only
      split
      · exact (pageTableUnmap_safe ho _).andThen hlast
      · exact hlast ()

theorem virtualMemoryReleaseProcess_safe (hq : start.Alive q) :
    Safe (World.Steady start) anyValue (virtualMemoryReleaseProcess q) := by
  refine (processGetPid_safe hq).andThen fun pid => (Safe.failIf _).andThen fun _ =>
    (processGetPageTable_safe hq).bind fun table ho => Safe.get.andThen fun w =>
    (Safe.forEach _ fun index _ => virtualMemoryReleaseFrame_safe q pid ho index).andThen
      fun _ => (onTlb_safe _).andThen fun _ => Safe.get.bind fun w' hw' => ?_
  split
  · rename_i hsome
    exact (onSwap_safe (hw'.swap.symm.trans hsome) _).andThen fun _ =>
      virtualMemoryUnregisterProcess_safe q
  · exact virtualMemoryUnregisterProcess_safe q

/-- A new process leaves the others alone. -/
theorem World.Steady.spawned (h : World.Steady w w) {pid : Int} {frames : Nat → Option Nat}
    {heap : Heap} (hspawned : w.heap.Spawned pid frames heap) :
    World.Steady { w with heap := heap } { w with heap := heap } ∧
      ∀ q, w.Alive q → World.Alive { w with heap := heap } q := by
  have hlive : ∀ q, w.Alive q → World.Alive { w with heap := heap } q := by
    intro q hq
    obtain ⟨x, hx⟩ := Heap.process_of_pid hq
    exact hspawned.tame.pid_nonneg (hspawned.live q x hx)
  exact ⟨⟨hspawned.tame, rfl, rfl, rfl, fun f m hm => hlive _ (h.sharers f m hm),
    fun q hq => hlive q (h.registry q hq), fun f q hq => hlive q (h.owners f q hq), h.policy, rfl,
    rfl⟩, hlive⟩

/-- The heap grants what the process takes. -/
theorem World.Guarded.spawned (h : w.Guarded) {pid : Int} {frames : Nat → Option Nat} {heap : Heap}
    (hspawned : w.heap.Spawned pid frames heap) : World.Guarded { w with heap := heap } :=
  ⟨⟨(h.toSteady.spawned hspawned).1, h.counted⟩, (hspawned.sound h.sound).plenty⟩

theorem processCreate_ends (h : w.Guarded) (pid : Int) :
    Ends (onHeap (processCreate pid)) w fun _ w' => w'.Guarded := by
  by_cases hneg : pid < 0
  · refine Ends.of_failed (zoom_failed (bind_failed ?_)) h
    rw [decide_eq_true hneg]
    rfl
  · obtain ⟨q, heap, hrun, _, hspawned⟩ := processCreate_spec h.sound (Int.not_lt.mp hneg)
    exact Ends.of_ok (zoom_ok hrun) (h.spawned hspawned)

/-- A frame that is shared is in the table of the mapping lists. -/
theorem virtualMemoryShareFrame_sure {child : Nat} (hplenty : start.heap.Plenty)
    (hchild : start.Alive child) (parent index : Nat) :
    Sure (World.Steady start) anyValue (virtualMemoryShareFrame parent child index) := by
  intro w h
  rw [virtualMemoryShareFrame]
  refine Returns.bind (Returns.get (Q := fun s s' => s = w ∧ s' = w) ⟨rfl, rfl⟩) fun s s' hs => ?_
  obtain ⟨rfl, rfl⟩ := hs
  split
  · exact Returns.pure ⟨h, trivial⟩
  · rename_i frame _
    split
    · exact Returns.pure ⟨h, trivial⟩
    · rename_i hshared
      have hmapped : cowManagerHasMapping s'.memory.cowManager (toUint32 index) parent
          frame.virtualPage = true := by simpa using (not_or.mp hshared).2
      have hlt : toUint32 index < s'.memory.cowManager.frameCount := by
        unfold cowManagerHasMapping at hmapped
        exact of_decide_eq_true ((Bool.and_eq_true _ _).mp hmapped).1
      obtain ⟨s₁, hadd⟩ := cowAddMapping_ok (h.plenty hplenty) hlt child frame.virtualPage
      have hkept := cowAddMapping_safe hchild (toUint32 index) frame.virtualPage s' h
      obtain ⟨_, _, hrun, hinv, _⟩ := hkept
      rw [attempt_ok hadd] at hrun
      cases hrun
      exact Returns.of_eq (onFailure_ok hadd) ⟨hinv, trivial⟩

theorem virtualMemoryForkProcess_ends (h : w.Guarded) (hp : w.Alive p) (childPid : Int) :
    Ends (virtualMemoryForkProcess p childPid) w fun _ w' => w'.Guarded := by
  by_cases hneg : childPid < 0
  · exact Ends.stop (decide_eq_true hneg) h
  have hpid := Int.not_lt.mp hneg
  refine Ends.pass (decide_eq_false hneg) ?_
  refine (virtualMemoryRegisterProcess_sure h.plenty hp w h.toSteady).bindEnds
    fun _ w₁ ⟨h₁, _⟩ => ?_
  have hregistered := h.kept h₁
  obtain ⟨x, hx⟩ := Heap.process_of_pid hp
  rw [← h₁.processes] at hx
  obtain ⟨child, heap, hrun, rfl, hspawned⟩ := processFork_spec hregistered.sound hx hpid
  refine Ends.next (zoom_ok hrun) ?_
  obtain ⟨h₂, hlive⟩ := h₁.self.spawned hspawned
  have hguarded := hregistered.spawned hspawned
  have hparent : World.Alive { w₁ with heap := heap } p := hlive p (by rw [h₁.alive]; exact hp)
  have hchild : World.Alive { w₁ with heap := heap } w₁.heap.nextProcess := by
    show 0 ≤ heap.pid w₁.heap.nextProcess
    rw [hspawned.pid_eq, Function.update_self]
    exact hpid
  refine Ends.mono ((?_ : Safe (World.Steady { w₁ with heap := heap }) anyValue _) _ h₂)
    fun _ _ hend => hguarded.kept hend.1
  refine Sure.safe ?_
  exact (virtualMemoryRegisterProcess_sure hguarded.plenty hchild).onFailure.andThen fun _ =>
    Sure.get.andThen fun w₃ =>
    (Sure.forEach (virtualMemoryShareFrame_sure hguarded.plenty hchild p) _).andThen fun _ =>
    (processGetPid_sure hparent).andThen fun pid =>
    ((onTlb_safe _).sure fun _ _ => ⟨_, _, rfl⟩).andThen fun _ => Sure.done

/-! ## Runs -/

variable {call : Call} {reply : Reply}

/-- A call with valid pointers and addresses has an answer. -/
theorem World.Guarded.step (h : w.Guarded) (hv : w.pager.Valid call) :
    ∃ reply w', w.step call = some (reply, w') ∧ w'.Guarded := by
  have hreply : ∀ {α : Type} {c : Comp World α} (f : Option α → Reply),
      Ends c w (fun _ w' => w'.Guarded) →
        ∃ reply w', (c w).reply f = some (reply, w') ∧ w'.Guarded := by
    intro α c f hends
    obtain ⟨result, w', hrun, hend⟩ := hends.reply f
    exact ⟨f result, w', hrun, hend⟩
  cases call with
  | createProcess pid => exact hreply .process (processCreate_ends h pid)
  | access p a t =>
    exact hreply (fun r => .result (r.getD .internalError))
      ((virtualMemoryAccess_returns h hv.1 a t).ends fun _ _ hend => h.counts hend)
  | readByte p a =>
    exact hreply .byte ((virtualMemoryReadByte_ends h hv.1 a).mono fun _ _ hend => h.counts hend)
  | writeByte p a value =>
    exact hreply (fun r => .status r.isSome)
      ((virtualMemoryWriteByte_ends h hv.1 a value).mono fun _ _ hend => h.counts hend)
  | fork p childPid => exact hreply .process (virtualMemoryForkProcess_ends h hv childPid)
  | release p =>
    exact hreply (fun r => .status r.isSome)
      (Ends.mono (virtualMemoryReleaseProcess_safe hv w h.toSteady) fun _ _ hend => h.kept hend.1)

/-- The states reached by calls with valid pointers, whatever the pids and
the addresses. -/
def World.Served (n : Nat) (type : ReplacementPolicyType) (tlbEntries : Nat)
    (slots : Option Nat) (history : List (Call × Reply)) (w : World) : Prop :=
  ∃ memory, virtualMemoryCreateInternal n type tlbEntries slots = some memory ∧
    Run World.step (fun w call => w.pager.Valid call) (World.boot memory) history w

theorem physicalMemoryCreate_owned {n : Nat} {memory : PhysicalMemory}
    (h : physicalMemoryCreate n = some memory) (live : Nat → Prop) : memory.OwnedBy live := by
  have hreset : ∀ (memory : PhysicalMemory), memory.OwnedBy live →
      ∀ count, (physicalMemoryResetAll memory count).OwnedBy live := by
    intro memory howned count
    induction count with
    | zero => exact howned
    | succ count ih =>
      have hfree : ∀ q, PhysicalFrame.free.ownerProcess = some q → live q := fun _ e => by cases e
      exact ih.update hfree rfl
  unfold physicalMemoryCreate at h
  split at h
  · cases h
  · cases h
    exact hreset _ (fun _ _ e => by cases e) n

/-- A new memory, whatever the heap grants. -/
theorem World.new_orderly {n tlbEntries : Nat} {type : ReplacementPolicyType}
    {slots : Option Nat} {memory : VirtualMemory}
    (h : virtualMemoryCreateInternal n type tlbEntries slots = some memory) (plan : Nat → Bool) :
    World.Orderly ⟨memory, Heap.empty plan⟩ := by
  obtain ⟨hphysical, hpolicy, _, _, _, hprocesses, hstats⟩ := virtualMemoryCreateInternal_some h
  refine ⟨⟨Heap.tame_empty plan, rfl, rfl, rfl, fun f m hm => ?_, fun q hq => ?_,
    physicalMemoryCreate_owned hphysical _, replacementPolicyCreate_searches hpolicy, rfl, rfl⟩, ?_⟩
  · have hnil : (World.boot memory).memory.cowManager.frames f = [] := World.boot_users h f
    exact absurd (hnil ▸ hm) List.not_mem_nil
  · exact absurd (hprocesses ▸ hq) List.not_mem_nil
  · show memory.stats.totalAccesses < wordSize
    rw [hstats]
    decide

theorem World.boot_guarded {n tlbEntries : Nat} {type : ReplacementPolicyType}
    {slots : Option Nat} {memory : VirtualMemory}
    (h : virtualMemoryCreateInternal n type tlbEntries slots = some memory) :
    (World.boot memory).Guarded := ⟨World.new_orderly h _, fun _ => rfl⟩

theorem World.Served.guarded {n tlbEntries : Nat} {type : ReplacementPolicyType}
    {slots : Option Nat} {history : List (Call × Reply)}
    (h : World.Served n type tlbEntries slots history w) : w.Guarded := by
  obtain ⟨memory, hcreate, hrun⟩ := h
  refine Run.invariant (fun _ w => w.Guarded) (World.boot_guarded hcreate)
    (fun _ w call reply w' hw hv hs => ?_) hrun
  obtain ⟨reply₁, w₁, hstep, hw₁⟩ := hw.step hv
  rw [hs] at hstep
  cases hstep
  exact hw₁

end VmSim
