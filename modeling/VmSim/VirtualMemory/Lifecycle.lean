/-
VmSim.VirtualMemory.Lifecycle — creation, fork and release of a process
are those of the pager.

The two loops of the source run over all frames; each is specified by its
invariant: after some frames, the COW lists are those of the pager's
closed form on these frames (`joinedOn`), or the pager has released
exactly these frames (`releaseFrames`).
-/
import VmSim.VirtualMemory.Accesses

namespace VmSim

open Lib

variable {w w' : World} {backdrop : Backdrop} {s s' : Pager} {tlb tlb' : Tlb}
  {p page f : Nat} {x : Process}

/-! ## Creation -/

theorem World.Shows.spawned (hs : w.Shows backdrop s tlb) {pid : Int} {heap : Heap}
    {frames : Nat → Option Nat} (hspawn : w.heap.Spawned pid frames heap) :
    World.Shows { w with heap := heap } { backdrop with processes := heap.processes } { s with
      pid := Function.update s.pid s.nextProcess pid
      nextProcess := s.nextProcess + 1
      mapped := Function.update s.mapped s.nextProcess frames } tlb := by
  obtain ⟨hsound, hbackdrop, rfl, rfl⟩ := hs
  refine ⟨hspawn.sound hsound, by rw [← hbackdrop]; rfl, ?_, rfl⟩
  simp only [World.pager, hspawn.pid_eq, hspawn.nextProcess, hspawn.mapped_eq]

theorem onHeap_stop {α : Type} {condition : Bool} {k : Unit → Comp Heap α}
    {Q : Option α → World → Prop} (hc : condition = true) (hq : Q none w) :
    Comp.Ends (onHeap (Comp.failIf condition >>= k)) w Q := by
  subst hc
  exact ⟨none, w, rfl, hq⟩

theorem World.Shows.create (hs : w.Shows backdrop s tlb) (pid : Int) :
    Comp.Ends (onHeap (processCreate pid)) w fun r w' => r = (s.create pid).1 ∧
      ∃ processes', w'.Shows { backdrop with processes := processes' } (s.create pid).2 tlb := by
  unfold Pager.create
  by_cases hpid : pid < 0
  · rw [if_pos hpid]
    exact onHeap_stop (decide_eq_true hpid) ⟨rfl, backdrop.processes, hs⟩
  · rw [if_neg hpid]
    have hrun := (processCreate_spec hs.sound (Int.not_lt.mp hpid)).mono fun child heap hc =>
      And.intro (hc.1.trans (congrArg Pager.nextProcess hs.pager)) (hs.spawned hc.2)
    exact (onHeap_returns (Q := fun child w' => child = s.nextProcess ∧ w'.Shows
      { backdrop with processes := w'.heap.processes } _ tlb) hrun).ends fun child w' hc =>
        ⟨congrArg some hc.1, _, hc.2⟩

/-! ## Fork -/

/-- The COW lists after a child joined its parent on some frames. -/
def Pager.joinedOn (s : Pager) (p child : Nat) (frames : List Nat) : Pager :=
  { s with cow := { s.cow with
      frames := fun f => if f ∈ frames then s.joined p child f else s.cow.frames f } }

/-- One more frame. -/
theorem Pager.joinedOn_cons (s : Pager) (p child f : Nat) (joined : List Nat) :
    (s.joinedOn p child (f :: joined)).cow = { s.cow with
      frames := Function.update (s.joinedOn p child joined).cow.frames f (s.joined p child f) } := by
  simp only [Pager.joinedOn, List.mem_cons]
  congr 1
  funext g
  by_cases e : g = f
  · simp [e]
  · simp [e]

theorem World.Shows.shareFrame (h : s.Consistent) {s₁ : Pager} {child : Nat} {joined : List Nat}
    (hs : w.Shows backdrop s₁ tlb) (hphysical : s₁.physical = s.physical)
    (hcow : s₁.cow = (s.joinedOn p child joined).cow) (hf : f < s.physical.frameCount)
    (hnew : f ∉ joined) (hchild : ∀ m ∈ s.cow.frames f, m.process ≠ child) :
    Comp.Returns (virtualMemoryShareFrame p child f) w fun _ w' =>
      w'.Shows backdrop { s₁ with cow := (s.joinedOn p child (f :: joined)).cow } tlb := by
  have hindex : toUint32 f = f := toUint32_of_lt (hf.trans h.count_lt)
  have hframes : s₁.cow.frames f = s.cow.frames f := by
    rw [hcow]
    exact if_neg hnew
  have hcount : s₁.cow.frameCount = s.physical.frameCount := by
    rw [hcow]
    exact h.cow_count
  have hhas : cowManagerHasMapping s₁.cow f p (s.physical.frames f).virtualPage =
      decide (⟨p, (s.physical.frames f).virtualPage⟩ ∈ s.cow.frames f) := by
    rw [cowManagerHasMapping, hframes, hcount]
    simp [hf]
  have hgot : physicalMemoryGetFrame s₁.physical f = some (s.physical.frames f) := by
    rw [hphysical, physicalMemoryGetFrame, if_neg (Nat.not_le.mpr hf)]
  unfold virtualMemoryShareFrame
  refine hs.get.bind fun r w₁ hget => ?_
  obtain ⟨hs₁, rfl⟩ := hget
  rw [hs₁.physical, hs₁.cow, hindex, hgot]
  dsimp only
  rw [hhas]
  split
  · rename_i hskip
    have hnot : ⟨p, (s.physical.frames f).virtualPage⟩ ∉ s.cow.frames f := by
      intro hm
      simp [h.occupied_of_user hm, hm] at hskip
    have hsame : { s₁ with cow := (s.joinedOn p child (f :: joined)).cow } = s₁ := by
      rw [Pager.joinedOn_cons, Pager.joined, if_neg hnot, ← hframes, ← hcow,
        Function.update_eq_self]
      obtain ⟨physical, policy, swap, cow, processes, stats, pid, nextProcess, mapped⟩ := s₁
      cases hcow
      rfl
    rw [hsame]
    exact Comp.Returns.pure hs₁
  · rename_i htake
    simp only [not_or, Bool.not_eq_true', Bool.not_eq_false, decide_eq_false_iff_not,
      Decidable.not_not] at htake
    have hfresh : ⟨child, (s.physical.frames f).virtualPage⟩ ∉ s₁.cow.frames f := by
      rw [hframes]
      exact fun hm => hchild _ hm rfl
    have hadd := hs₁.cowAdd (by rw [hcount]; exact hf) hfresh
    have hinsert : cowManagerInsert s₁.cow f child (s.physical.frames f).virtualPage =
        (s.joinedOn p child (f :: joined)).cow := by
      rw [Pager.joinedOn_cons, Pager.joined, if_pos htake.2, cowManagerInsert,
        hframes, hcow]
      rfl
    rw [hinsert] at hadd
    exact hadd.onFailure

theorem World.Shows.shareFrames (h : s.Consistent) {child : Nat}
    (hchild : ∀ f, ∀ m ∈ s.cow.frames f, m.process ≠ child) (rest : List Nat) :
    ∀ (w : World) (s₁ : Pager) (joined : List Nat), w.Shows backdrop s₁ tlb →
      s₁.physical = s.physical → s₁.cow = (s.joinedOn p child joined).cow →
      (∀ f ∈ rest, f < s.physical.frameCount ∧ f ∉ joined) → rest.Nodup →
      Comp.Returns (Comp.forEach (virtualMemoryShareFrame p child) rest) w fun _ w' =>
        w'.Shows backdrop { s₁ with cow := (s.joinedOn p child (rest.reverse ++ joined)).cow }
          tlb := by
  induction rest with
  | nil =>
    intro w s₁ joined hs _ hcow _ _
    refine Comp.Returns.pure ?_
    rw [List.reverse_nil, List.nil_append, ← hcow]
    exact hs
  | cons f rest ih =>
    intro w s₁ joined hs hphysical hcow hrest hnodup
    obtain ⟨⟨hf, hnew⟩, hrest'⟩ := List.forall_mem_cons.mp hrest
    obtain ⟨hnot, hnodup'⟩ := List.nodup_cons.mp hnodup
    refine (World.Shows.shareFrame h hs hphysical hcow hf hnew (hchild f)).bind
      fun _ w₁ hs₁ => ?_
    rw [List.reverse_cons, List.append_assoc]
    refine ih w₁ { s₁ with cow := (s.joinedOn p child (f :: joined)).cow } (f :: joined) hs₁
      hphysical rfl (fun g hg => ⟨(hrest' g hg).1, ?_⟩) hnodup'
    rw [List.mem_cons]
    rintro (rfl | hin)
    · exact hnot hg
    · exact (hrest' g hg).2 hin

/-- After all frames, the COW lists are those of the pager's fork. -/
theorem Pager.Consistent.joinedOn_range (h : s.Consistent) (p child : Nat) :
    (s.joinedOn p child ((List.range s.physical.frameCount).reverse ++ [])).cow =
      { s.cow with frames := s.joined p child } := by
  simp only [Pager.joinedOn, List.append_nil, List.mem_reverse, List.mem_range]
  congr 1
  funext f
  split
  · rfl
  · rename_i hf
    rw [Pager.joined, h.beyond f (Nat.le_of_not_lt hf), if_neg List.not_mem_nil]

theorem World.Shows.fork (h : s.Consistent) (hs : w.Shows backdrop s tlb) (hp : 0 ≤ s.pid p)
    (childPid : Int) :
    Comp.Ends (virtualMemoryForkProcess p childPid) w fun r w' => r = (s.fork p childPid).1 ∧
      ∃ processes', w'.Shows { backdrop with processes := processes' } (s.fork p childPid).2
        (if childPid < 0 then tlb else (tlbInvalidateProcess tlb (s.pid p)).2) := by
  obtain ⟨x, hx⟩ := hs.process_of_pid hp
  unfold virtualMemoryForkProcess Pager.fork
  by_cases hpid : childPid < 0
  · rw [if_pos hpid, if_pos hpid]
    exact Comp.Ends.stop (decide_eq_true hpid) ⟨rfl, backdrop.processes, hs⟩
  rw [if_neg hpid, if_neg hpid]
  refine Comp.Ends.pass (decide_eq_false hpid) ?_
  refine (hs.register p).bindEnds fun _ w₁ hs₁ => ?_
  have hc : (s.register p).Consistent := h.register hp
  have hmem := s.mem_register p
  have hsame : (s.register p).pid p = s.pid p ∧ (s.register p).nextProcess = s.nextProcess := by
    rw [Pager.register_eq]
    exact ⟨rfl, rfl⟩
  generalize s.register p = s₁ at hs₁ hc hmem hsame ⊢
  have hfork := (processFork_spec hs₁.sound (hs₁.process hx) (Int.not_lt.mp hpid)).mono
    fun child heap hr => And.intro (hr.1.trans (congrArg Pager.nextProcess hs₁.pager))
      (And.intro (hs₁.spawned hr.2) (hr.2.live p x (hs₁.process hx)))
  refine (onHeap_returns (Q := fun child w' => child = s₁.nextProcess ∧
    w'.Shows { backdrop with processes := w'.heap.processes } _ tlb ∧
      w'.heap.processes p = some x) hfork).bindEnds
    fun child w₂ h₂ => ?_
  obtain ⟨rfl, hs₂, hx₂⟩ := h₂
  rw [hs₁.heap_mapped] at hs₂
  generalize w₂.heap.processes = processes₂ at hs₂ hx₂
  refine (hs₂.register s₁.nextProcess).onFailure.bindEnds fun _ w₃ hs₃ => ?_
  rw [Pager.register, if_neg (by simpa using hc.next_notMem)] at hs₃
  refine hs₃.get.bindEnds fun r w₄ hget => ?_
  obtain ⟨hs₄, rfl⟩ := hget
  rw [hs₄.physical]
  refine (World.Shows.shareFrames hc (fun f m hm => hc.user_ne_next hm)
    (List.range s₁.physical.frameCount) w₄ _ [] hs₄ rfl (by simp [Pager.joinedOn])
    (fun f hf => ⟨List.mem_range.mp hf, List.not_mem_nil⟩) List.nodup_range).bindEnds
    fun _ w₅ hs₅ => ?_
  rw [hc.joinedOn_range] at hs₅
  replace hs₅ : w₅.Shows { backdrop with processes := processes₂ } (s₁.spawn p childPid) tlb := hs₅
  refine (hs₅.getPid hx₂).bindEnds fun pid w₆ h₆ => ?_
  obtain ⟨rfl, hs₆⟩ := h₆
  refine (hs₆.tlbStep _).bindEnds fun _ w₇ h₇ =>
    Comp.Ends.pure ⟨congrArg some hsame.2, processes₂, ?_⟩
  have hs₇ := h₇.2
  rw [show (s₁.spawn p childPid).pid p = s.pid p from
    (hc.pid_next hmem).trans hsame.1] at hs₇
  exact hs₇

/-! ## Release -/

/-- The first other user of a frame that its owner gave up becomes the
owner. -/
theorem World.Shows.handOverDropped (h : s.Consistent) {v : Nat}
    (hs : w.Shows backdrop (s.drop p v f) tlb) (hm : ⟨p, v⟩ ∈ s.cow.frames f)
    (hlen : 1 < (s.cow.frames f).length) (howner : (s.physical.frames f).ownerProcess = some p) :
    Comp.Returns (do
      let remaining ← virtualMemoryFindFrameUser f v p
      let remaining ← Comp.orFail remaining
      virtualMemoryReassignFrameOwner f remaining v) w fun _ w' =>
        w'.Shows backdrop (s.detach p v f) tlb := by
  obtain ⟨o, _, ho, huser, hdetach⟩ := h.detach_eq hm hlen
  have hgiven := h.givenUp_drop hm
  refine (hgiven.findUser h hs hm).bind fun r w₁ h₁ => ?_
  obtain ⟨rfl, hs₁⟩ := h₁
  rw [huser howner, hdetach]
  exact hgiven.reassign h hs₁ ho

theorem World.Shows.releaseFrame (h : s.Consistent) (hs : w.Shows backdrop s tlb)
    (hx : backdrop p = some x) (hf : f < s.physical.frameCount) :
    Comp.Returns (virtualMemoryReleaseFrame p (s.pid p) x.pageTable f) w fun _ w' =>
      w'.Shows backdrop (s.releaseFrame p f)
        (if ⟨p, (s.physical.frames f).virtualPage⟩ ∈ s.cow.frames f then
          (tlbInvalidate tlb (s.pid p) (s.physical.frames f).virtualPage).2 else tlb) := by
  have hindex : toUint32 f = f := toUint32_of_lt (hf.trans h.count_lt)
  unfold virtualMemoryReleaseFrame
  refine hs.get.bind fun r w₁ hget => ?_
  obtain ⟨hs₁, rfl⟩ := hget
  rw [hs₁.physical, hs₁.cow, hindex, physicalMemoryGetFrame, if_neg (Nat.not_le.mpr hf)]
  dsimp only
  rw [h.hasMapping]
  by_cases hm : ⟨p, (s.physical.frames f).virtualPage⟩ ∈ s.cow.frames f
  · rw [if_neg (by simp [hm, h.occupied_of_user hm]), Pager.releaseFrame, if_pos hm, if_pos hm]
    have hv := (h.frame f hf).page_lt
    have hmap := h.mapped_frame hm
    refine (hs₁.tlbStep (tlbInvalidate · (s.pid p) (s.physical.frames f).virtualPage)).bind
      fun _ w₂ h₂ => ?_
    obtain ⟨_, hs₂⟩ := h₂
    generalize (tlbInvalidate tlb (s.pid p) (s.physical.frames f).virtualPage).2 = tlb₁ at hs₂ ⊢
    refine (hs₂.lookup hx (pageAddress (s.physical.frames f).virtualPage)).bind
      fun entry w₃ h₃ => ?_
    obtain ⟨hentry, _, hs₃⟩ := h₃
    rw [addressPageNumber_pageAddress hv, hmap] at hentry
    obtain ⟨e, rfl, he⟩ := Option.map_eq_some_iff.mp hentry
    rw [if_pos (by simp [he])]
    refine (hs₃.unmap hx (by
      rw [addressPageNumber_pageAddress hv, hmap]
      exact Option.some_ne_none f)).bind fun _ w₄ hs₄ => ?_
    rw [addressPageNumber_pageAddress hv] at hs₄
    refine (hs₄.cowStep (cowManagerRemoveMapping · f p
      (s.physical.frames f).virtualPage)).bindCheck
      (fun _ _ hc => hc.1.trans (congrArg Prod.fst (h.removeMapping hm))) fun _ w₅ h₅ => ?_
    have hs₅ : w₅.Shows backdrop (s.drop p (s.physical.frames f).virtualPage f) tlb₁ := h₅.2
    refine hs₅.get.bind fun r w₆ hget => ?_
    obtain ⟨hs₆, rfl⟩ := hget
    have hcount : cowManagerMappingCount w₆.memory.cowManager f = (s.cow.frames f).length - 1 := by
      rw [hs₆.cow, Pager.drop, h.removeMapping hm, cowManagerMappingCount,
        if_neg (by simpa [h.cow_count] using hf)]
      simp only [Function.update_self]
      rw [List.length_erase_of_mem hm]
    rw [hcount]
    have hpos := List.length_pos_of_mem hm
    by_cases hlen : (s.cow.frames f).length = 1
    · rw [if_pos (by omega), if_pos hlen]
      have hevict := replacementPolicyOnEvict_spec h.policy
        ((h.loaded f).trans (h.occupied_of_user hm))
      have hrelease : physicalMemoryReleaseFrame s.physical f =
          (0, { physicalFrameReset s.physical f with
            freeFrameCount := s.physical.freeFrameCount + 1 }) := by
        rw [physicalMemoryReleaseFrame, if_neg (Nat.not_le.mpr hf),
          if_neg (by simp [h.occupied_of_user hm])]
      refine (hs₆.policyStep (replacementPolicyOnEvict · f)).bindCheck
        (fun _ _ hc => hc.1.trans hevict.code) fun _ w₇ h₇ => ?_
      refine (h₇.2.physicalStep (physicalMemoryReleaseFrame · f)).bind fun code w₈ h₈ => ?_
      obtain ⟨hcode, hs₈⟩ := h₈
      refine Comp.Returns.check (hcode.trans (congrArg Prod.fst hrelease)) ?_
      rw [show (physicalMemoryReleaseFrame (s.drop p (s.physical.frames f).virtualPage f).physical
        f).2 = _ from congrArg Prod.snd hrelease] at hs₈
      exact hs₈
    · rw [if_neg (by omega), if_neg hlen]
      by_cases howner : (s.physical.frames f).ownerProcess = some p
      · rw [if_pos howner]
        exact World.Shows.handOverDropped h hs₆ hm (by omega) howner
      · rw [if_neg howner, Pager.detach, if_neg howner]
        exact Comp.Returns.pure hs₆
  · rw [if_pos (by simp [hm]), Pager.releaseFrame, if_neg hm, if_neg hm]
    exact Comp.Returns.pure hs₁

/-- The TLB after a process gave up its mappings of some frames. -/
def Pager.releasedTlb (s : Pager) (p : Nat) (tlb : Tlb) : List Nat → Tlb
  | [] => tlb
  | f :: frames => Pager.releasedTlb (s.releaseFrame p f) p
      (if ⟨p, (s.physical.frames f).virtualPage⟩ ∈ s.cow.frames f then
        (tlbInvalidate tlb (s.pid p) (s.physical.frames f).virtualPage).2 else tlb) frames

theorem World.Shows.releaseFrames (hx : backdrop p = some x) (frames : List Nat) :
    ∀ (w : World) (s : Pager) (tlb : Tlb), s.Consistent → w.Shows backdrop s tlb →
      (∀ f ∈ frames, f < s.physical.frameCount) →
      Comp.Returns (Comp.forEach (virtualMemoryReleaseFrame p (s.pid p) x.pageTable) frames) w
        fun _ w' => w'.Shows backdrop (s.releaseFrames p frames) (s.releasedTlb p tlb frames) := by
  induction frames with
  | nil => exact fun w s tlb _ hs _ => Comp.Returns.pure hs
  | cons f frames ih =>
    intro w s tlb h hs hlt
    obtain ⟨hf, hlt'⟩ := List.forall_mem_cons.mp hlt
    have hfirst := h.releaseFrame p f
    refine (World.Shows.releaseFrame h hs hx hf).bind fun _ w₁ hs₁ => ?_
    have hrest := ih w₁ _ _ hfirst.consistent hs₁ (by rw [hfirst.frameCount]; exact hlt')
    rw [hfirst.pid] at hrest
    exact hrest

/-- A release leaves the entries of all other pids where they are. -/
theorem Pager.releasedTlb_spec (hp : 0 ≤ s.pid p) (frames : List Nat) :
    ∀ (s₁ : Pager) (tlb : Tlb), s₁.Consistent → s₁.pid = s.pid → tlb.Wf →
      tlb.Became 0 tlb.Holds (s₁.releasedTlb p tlb frames) ∧
        tlb.Spares (s.pid p) (s₁.releasedTlb p tlb frames) := by
  induction frames with
  | nil => exact fun s₁ tlb _ _ htlb => ⟨htlb.became, Tlb.spares_refl tlb _⟩
  | cons f frames ih =>
    intro s₁ tlb h hpids htlb
    have hfirst := h.releaseFrame p f
    have hpids' : (s₁.releaseFrame p f).pid = s.pid := hfirst.pid.trans hpids
    unfold Pager.releasedTlb
    rw [hpids]
    split
    · have hinv := htlb.became.invalidate hp (s₁.physical.frames f).virtualPage
      obtain ⟨hbecame, hspares⟩ := ih _ _ hfirst.consistent hpids' hinv.wf
      refine ⟨?_, (Tlb.spares_invalidate tlb (s.pid p) _).trans hspares⟩
      exact ⟨hbecame.wf, hbecame.capacity.trans hinv.capacity,
        fun pid v g hh => (hinv.holds _ _ _ (hbecame.holds pid v g hh)).2,
        fun n hn hlt => hbecame.fresh n (hinv.fresh n hn hlt) hlt⟩
    · exact ih _ _ hfirst.consistent hpids' htlb

/-- The TLB after a release. -/
def Pager.releaseTlb (s : Pager) (p : Nat) (tlb : Tlb) : Tlb :=
  (tlbInvalidateProcess (s.releasedTlb p tlb (List.range s.physical.frameCount)) (s.pid p)).2

theorem Pager.releasedTlb_perform (p : Nat) (frames : List Nat) :
    ∀ (s : Pager) (tlb : Tlb),
      s.releasedTlb p tlb frames = tlb.perform (s.releaseCalls p frames) := by
  induction frames with
  | nil => exact fun _ _ => rfl
  | cons f frames ih =>
    intro s tlb
    rw [Pager.releasedTlb, ih, Pager.releaseCalls, Tlb.perform_append]
    split <;> rfl

theorem Pager.releaseTlb_perform (s : Pager) (p : Nat) (tlb : Tlb) :
    s.releaseTlb p tlb = tlb.perform
      (s.releaseCalls p (List.range s.physical.frameCount) ++ [.invalidateProcess (s.pid p)]) := by
  rw [Pager.releaseTlb, Pager.releasedTlb_perform, Tlb.perform_append]
  rfl

theorem Pager.Consistent.releaseTlb (h : s.Consistent) (hp : 0 ≤ s.pid p) (htlb : tlb.Wf) :
    tlb.Became 0 (fun pid v f => pid ≠ s.pid p ∧ tlb.Holds pid v f) (s.releaseTlb p tlb) ∧
      tlb.Spares (s.pid p) (s.releaseTlb p tlb) := by
  obtain ⟨hbecame, hspares⟩ := Pager.releasedTlb_spec hp (List.range s.physical.frameCount) s tlb h
    rfl htlb
  exact ⟨hbecame.invalidateProcess hp, hspares.trans (Tlb.spares_invalidateProcess _ _)⟩

theorem World.Shows.release (h : s.Consistent) (hs : w.Shows backdrop s tlb)
    (hp : 0 ≤ s.pid p) :
    Comp.Returns (virtualMemoryReleaseProcess p) w fun _ w' =>
      w'.Shows backdrop (s.release p) (s.releaseTlb p tlb) := by
  obtain ⟨x, hx⟩ := hs.process_of_pid hp
  unfold virtualMemoryReleaseProcess
  refine (hs.getPid hx).bind fun pid w₁ h₁ => ?_
  obtain ⟨rfl, hs₁⟩ := h₁
  refine Comp.Returns.bind (P := fun _ w' => w'.Shows backdrop s tlb) (Comp.Returns.failIf
    (decide_eq_false (Int.not_lt.mpr hp)) hs₁) fun _ w₂ hs₂ => ?_
  refine (hs₂.getTable hx).bind fun table w₃ h₃ => ?_
  obtain ⟨rfl, hs₃⟩ := h₃
  refine hs₃.get.bind fun r w₄ hget => ?_
  obtain ⟨hs₄, rfl⟩ := hget
  rw [hs₄.physical]
  refine (World.Shows.releaseFrames hx (List.range s.physical.frameCount) w₄ s tlb h hs₄
    fun f hf => List.mem_range.mp hf).bind fun _ w₅ hs₅ => ?_
  have hr := Pager.Consistent.releaseFrames p (List.range s.physical.frameCount) s h
  refine (hs₅.tlbStep (tlbInvalidateProcess · (s.pid p))).bind fun _ w₆ h₆ => ?_
  obtain ⟨_, hs₆⟩ := h₆
  refine hs₆.get.bind fun r w₇ hget => ?_
  obtain ⟨hs₇, rfl⟩ := hget
  rw [hs₇.swap]
  unfold Pager.release Pager.releaseTlb
  generalize s.releaseFrames p (List.range s.physical.frameCount) = s₁ at hs₇ hr ⊢
  have hforget : s₁.forget p = { s₁ with
      swap := s₁.swap.map fun swap => (swapRemoveProcess swap (s.pid p)).2
      processes := s₁.processes.erase p } := by
    rw [Pager.forget, hr.pid]
  rw [hforget]
  cases hswap : s₁.swap with
  | none =>
    rw [if_neg (by simp)]
    have hsame : { s₁ with swap := none } = s₁ := by rw [← hswap]
    refine (hs₇.unregister p).mono fun _ w₈ hs₈ => ?_
    rw [Option.map_none]
    rw [← hsame] at hs₈
    exact hs₈
  | some swap =>
    rw [if_pos (by simp)]
    refine (hs₇.swapStep hswap (swapRemoveProcess · (s.pid p))).bind fun _ w₈ h₈ => ?_
    exact h₈.2.unregister p

end VmSim
