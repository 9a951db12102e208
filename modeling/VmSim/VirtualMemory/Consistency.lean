/-
VmSim.VirtualMemory.Consistency — the invariant that ties the structures
of a virtual memory together.

`FrameLinked` is what holds at one frame: it is occupied exactly if it
has users, all users map the page the frame records, all are registered,
and the recorded owner is one of them. `Pager.Consistent` adds what
relates the frames to the page maps, the replacement policy, the registry
and the swap. `Consistent.setFrame` is the rule for an operation that
changes one frame; each operation of the pager is an instance of it.
-/
import VmSim.VirtualMemory.Pager

namespace VmSim

open Lib

/-! ## The invariant -/

structure FrameLinked (processes : List Nat) (pid : Nat → Int) (frame : PhysicalFrame)
    (data : PageData) (users : List CowMapping) : Prop where
  occupied : frame.occupied = true ↔ users ≠ []
  nodup : users.Nodup
  page : ∀ m ∈ users, m.virtualPage = frame.virtualPage
  page_lt : frame.virtualPage < 2 ^ 52
  registered : ∀ m ∈ users, m.process ∈ processes
  owner : frame.occupied = true → ∃ o, frame.ownerProcess = some o ∧ frame.ownerPid = pid o ∧
    ⟨o, frame.virtualPage⟩ ∈ users
  free : frame.occupied = false → frame = .free ∧ data = zeroPage
  dirty : frame.dirty = true → frame.referenced = true

structure Pager.Consistent (s : Pager) : Prop where
  pos : 0 < s.physical.frameCount
  count_lt : s.physical.frameCount < 2 ^ 32
  policy : s.policy.Wf
  policy_count : s.policy.frameCount = s.physical.frameCount
  cow_count : s.cow.frameCount = s.physical.frameCount
  loaded : ∀ f, s.policy.loaded f = (s.physical.frames f).occupied
  frame : ∀ f, f < s.physical.frameCount →
    FrameLinked s.processes s.pid (s.physical.frames f) (s.physical.data f) (s.cow.frames f)
  beyond : ∀ f, s.physical.frameCount ≤ f → s.cow.frames f = []
  mapped : ∀ p v f, s.mapped p v = some f ↔
    ∃ u, ⟨p, u⟩ ∈ s.cow.frames f ∧ pageKey u = pageKey v
  registry : s.processes.Nodup
  live : ∀ p ∈ s.processes, 0 ≤ s.pid p
  pid_lt : ∀ p, 0 ≤ s.pid p → p < s.nextProcess
  freeCount : s.physical.freeFrameCount =
    (freeFrames s.physical.frames s.physical.frameCount).card
  swap : ∀ swap, s.swap = some swap → swap.Wf ∧ swap.Works
  stored : ∀ swap, s.swap = some swap → ∀ pid page, swap.content pid page ≠ none →
    ∃ p ∈ s.processes, s.pid p = pid

variable {s s' : Pager} {p q page f g : Nat}

/-! ## Reading the invariant -/

theorem Pager.Consistent.frame_lt (h : s.Consistent)
    (hf : (s.physical.frames f).occupied = true) : f < s.physical.frameCount := by
  rw [← h.policy_count]
  exact h.policy.lt (by rw [h.loaded, hf])

theorem Pager.Consistent.lt_of_user (h : s.Consistent) {m : CowMapping}
    (hm : m ∈ s.cow.frames f) : f < s.physical.frameCount := by
  by_contra hge
  rw [h.beyond f (Nat.le_of_not_lt hge)] at hm
  cases hm

theorem Pager.Consistent.user_page (h : s.Consistent) {m : CowMapping}
    (hm : m ∈ s.cow.frames f) : m.virtualPage = (s.physical.frames f).virtualPage :=
  (h.frame f (h.lt_of_user hm)).page m hm

theorem Pager.Consistent.occupied_of_user (h : s.Consistent) {m : CowMapping}
    (hm : m ∈ s.cow.frames f) : (s.physical.frames f).occupied = true :=
  (h.frame f (h.lt_of_user hm)).occupied.mpr (List.ne_nil_of_mem hm)

/-- The processes that map a frame are registered. -/
theorem Pager.Consistent.registered (h : s.Consistent) {m : CowMapping}
    (hm : m ∈ s.cow.frames f) : m.process ∈ s.processes :=
  (h.frame f (h.lt_of_user hm)).registered m hm

/-- An occupied frame records one of its users as its owner. -/
theorem Pager.Consistent.owner (h : s.Consistent) (hf : (s.physical.frames f).occupied = true) :
    ∃ o, (s.physical.frames f).ownerProcess = some o ∧ (s.physical.frames f).ownerPid = s.pid o ∧
      ⟨o, (s.physical.frames f).virtualPage⟩ ∈ s.cow.frames f :=
  (h.frame f (h.frame_lt hf)).owner hf

theorem Pager.Consistent.owner_live (h : s.Consistent)
    (hf : (s.physical.frames f).occupied = true) : 0 ≤ (s.physical.frames f).ownerPid := by
  obtain ⟨o, _, hpid, ho⟩ := h.owner hf
  rw [hpid]
  exact h.live o (h.registered ho)

theorem Pager.Consistent.occupied_of_mapped (h : s.Consistent)
    (hm : s.mapped p page = some f) : (s.physical.frames f).occupied = true := by
  obtain ⟨u, hu, _⟩ := (h.mapped p page f).mp hm
  exact h.occupied_of_user hu

/-- A frame is mapped at the page it records. -/
theorem Pager.Consistent.mapped_frame (h : s.Consistent)
    (hm : ⟨p, page⟩ ∈ s.cow.frames f) : s.mapped p page = some f :=
  (h.mapped p page f).mpr ⟨page, hm, rfl⟩

theorem Pager.Consistent.user_of_mapped (h : s.Consistent) (hm : s.mapped p page = some f) :
    ⟨p, (s.physical.frames f).virtualPage⟩ ∈ s.cow.frames f ∧
      pageKey (s.physical.frames f).virtualPage = pageKey page := by
  obtain ⟨u, hu, hk⟩ := (h.mapped p page f).mp hm
  have hpage : u = (s.physical.frames f).virtualPage := h.user_page hu
  rw [← hpage]
  exact ⟨hu, hk⟩

/-- Only one frame is mapped at a key. -/
theorem Pager.Consistent.frame_unique (h : s.Consistent) {u v : Nat}
    (hf : ⟨p, u⟩ ∈ s.cow.frames f) (hg : ⟨p, v⟩ ∈ s.cow.frames g) (hk : pageKey u = pageKey v) :
    f = g := by
  have hu := (h.mapped p v f).mpr ⟨u, hf, hk⟩
  rw [h.mapped_frame hg] at hu
  exact (Option.some.inj hu).symm

theorem Pager.Consistent.mapped_key (h : s.Consistent) {v w : Nat} (hk : pageKey v = pageKey w) :
    s.mapped p v = s.mapped p w := by
  apply Option.ext
  intro f
  rw [h.mapped, h.mapped, hk]

theorem Pager.Consistent.process_of_mapped (h : s.Consistent) (hm : s.mapped p page = some f) :
    p ∈ s.processes := by
  obtain ⟨hu, _⟩ := h.user_of_mapped hm
  exact h.registered hu

/-- A process that does not exist is not registered. -/
theorem Pager.Consistent.next_notMem (h : s.Consistent) : s.nextProcess ∉ s.processes :=
  fun hm => absurd (h.pid_lt _ (h.live _ hm)) (Nat.lt_irrefl _)

theorem Pager.Consistent.hasMapping (h : s.Consistent) (f p page : Nat) :
    cowManagerHasMapping s.cow f p page = decide (⟨p, page⟩ ∈ s.cow.frames f) := by
  rw [cowManagerHasMapping, h.cow_count]
  by_cases hf : f < s.physical.frameCount
  · simp [hf]
  · simp [hf, h.beyond f (Nat.le_of_not_lt hf)]

theorem Pager.Consistent.mappingCount (h : s.Consistent) (f : Nat) :
    cowManagerMappingCount s.cow f = (s.cow.frames f).length := by
  rw [cowManagerMappingCount, h.cow_count]
  by_cases hf : f < s.physical.frameCount
  · rw [if_neg (Nat.not_le.mpr hf)]
  · rw [if_pos (Nat.le_of_not_lt hf), h.beyond f (Nat.le_of_not_lt hf)]
    rfl

theorem Pager.Consistent.no_user (h : s.Consistent) (hf : f < s.physical.frameCount)
    (hfree : (s.physical.frames f).occupied = false) : s.cow.frames f = [] := by
  by_contra hne
  rw [(h.frame f hf).occupied.mpr hne] at hfree
  cases hfree

theorem Pager.Consistent.firstFree (h : s.Consistent) (hf : s.physical.firstFree = some f) :
    f < s.physical.frameCount ∧ (s.physical.frames f).occupied = false ∧ s.cow.frames f = [] := by
  obtain ⟨hlt, hocc⟩ := PhysicalMemory.firstFree_some hf
  exact ⟨hlt, hocc, h.no_user hlt hocc⟩

/-! ## One frame changes -/

/-- What an operation on one frame has to show. -/
theorem Pager.Consistent.setFrame (h : s.Consistent) (hf : f < s.physical.frameCount)
    (hcount : s'.physical.frameCount = s.physical.frameCount)
    (hcowCount : s'.cow.frameCount = s.cow.frameCount)
    (hprocesses : s'.processes = s.processes) (hpid : s'.pid = s.pid)
    (hnext : s'.nextProcess = s.nextProcess) (hswap : s'.swap = s.swap)
    (hother : ∀ g, g ≠ f → s'.physical.frames g = s.physical.frames g ∧
      s'.physical.data g = s.physical.data g ∧ s'.cow.frames g = s.cow.frames g)
    (hframe : FrameLinked s.processes s.pid (s'.physical.frames f) (s'.physical.data f)
      (s'.cow.frames f))
    (hpolicy : s.policy.Did (Function.update s.policy.loaded f (s'.physical.frames f).occupied)
      (0, s'.policy))
    (hfree : s'.physical.freeFrameCount =
      (freeFrames s'.physical.frames s.physical.frameCount).card)
    (hmapped : ∀ p v g, s'.mapped p v = some g ↔
      if g = f then ∃ u, ⟨p, u⟩ ∈ s'.cow.frames f ∧ pageKey u = pageKey v
      else s.mapped p v = some g) :
    s'.Consistent := by
  refine ⟨by rw [hcount]; exact h.pos, by rw [hcount]; exact h.count_lt, hpolicy.wf,
    by rw [hcount, ← h.policy_count]; exact hpolicy.frameCount,
    by rw [hcount, hcowCount, h.cow_count], fun g => ?_, fun g hg => ?_, fun g hg => ?_,
    fun p v g => ?_, by rw [hprocesses]; exact h.registry, by rw [hprocesses, hpid]; exact h.live,
    by rw [hpid, hnext]; exact h.pid_lt, by rw [hcount]; exact hfree, by rw [hswap]; exact h.swap,
    by rw [hswap, hprocesses, hpid]; exact h.stored⟩
  · rw [hpolicy.loaded_eq]
    by_cases e : g = f
    · rw [e, Function.update_self]
    · rw [Function.update_of_ne e, (hother g e).1, h.loaded]
  · rw [hprocesses, hpid]
    by_cases e : g = f
    · rw [e]
      exact hframe
    · obtain ⟨h₁, h₂, h₃⟩ := hother g e
      rw [h₁, h₂, h₃]
      exact h.frame g (hcount ▸ hg)
  · rw [hcount] at hg
    rw [(hother g (Nat.ne_of_gt (Nat.lt_of_lt_of_le hf hg))).2.2]
    exact h.beyond g hg
  · rw [hmapped]
    by_cases e : g = f
    · rw [if_pos e, e]
    · rw [if_neg e, h.mapped, (hother g e).2.2]

/-- The operations that leave the policy, the users and the occupation of
the frame alone. -/
theorem Pager.Consistent.setMeta (h : s.Consistent) (frame : PhysicalFrame) (data : PageData)
    (hocc : frame.occupied = (s.physical.frames f).occupied)
    (hframe : FrameLinked s.processes s.pid frame data (s.cow.frames f))
    (hf : f < s.physical.frameCount) :
    Pager.Consistent { s with physical := s.physical.setFrame f frame data } := by
  refine h.setFrame hf rfl rfl rfl rfl rfl rfl (fun g hg => ?_) ?_ ⟨rfl, h.policy, rfl, ?_⟩ ?_
    fun p v g => ?_
  · simp [PhysicalMemory.setFrame, hg]
  · simpa [PhysicalMemory.setFrame] using hframe
  · show s.policy.loaded = _
    simp only [PhysicalMemory.setFrame, Function.update_self, hocc, ← h.loaded,
      Function.update_eq_self]
  · rw [PhysicalMemory.setFrame, freeFrames_update hocc]
    exact h.freeCount
  · by_cases e : g = f
    · rw [if_pos e, e]
      exact h.mapped p v f
    · rw [if_neg e]

theorem Pager.Consistent.touch (h : s.Consistent) (hf : (s.physical.frames f).occupied = true)
    (isWrite : Bool) : (s.touch f isWrite).Consistent := by
  have hlt := h.frame_lt hf
  obtain ⟨hocc, hnodup, hpage, hpage_lt, hreg, howner, hfree, _⟩ := h.frame f hlt
  have hset := h.setMeta ((s.physical.frames f).touch isWrite) (s.physical.data f) rfl
    ⟨hocc, hnodup, hpage, hpage_lt, hreg, howner, fun hn => absurd hf (by
      rw [show (s.physical.frames f).occupied = false from hn]; decide), fun _ => rfl⟩ hlt
  rwa [PhysicalMemory.setFrame, Function.update_eq_self] at hset

theorem Pager.Consistent.fill (h : s.Consistent) (hf : (s.physical.frames f).occupied = true)
    (data : PageData) : (s.fill f data).Consistent := by
  have hlt := h.frame_lt hf
  obtain ⟨hocc, hnodup, hpage, hpage_lt, hreg, howner, hfree, hdirty⟩ := h.frame f hlt
  have hset := h.setMeta (s.physical.frames f) data rfl
    ⟨hocc, hnodup, hpage, hpage_lt, hreg, howner, fun hn => absurd hf (by rw [hn]; decide), hdirty⟩ hlt
  rwa [PhysicalMemory.setFrame, Function.update_eq_self] at hset

/-! ## Placing and vacating -/

theorem Pager.Consistent.place (h : s.Consistent) (hp : p ∈ s.processes)
    (hpage : page < 2 ^ 52) (hf : f < s.physical.frameCount)
    (hfree : (s.physical.frames f).occupied = false) (hm : s.mapped p page = none) :
    (s.place p page f).Consistent := by
  have husers := h.no_user hf hfree
  have hpolicy := replacementPolicyOnLoad_spec h.policy (h.policy_count ▸ hf)
    ((h.loaded f).trans hfree)
  refine h.setFrame hf rfl rfl rfl rfl rfl rfl (fun g hg => ?_) ?_ ⟨rfl, hpolicy.wf,
    hpolicy.frameCount, ?_⟩ ?_ fun q v g => ?_
  · simp [Pager.place, physicalFrameAssign, PhysicalMemory.setFrame, cowManagerInsert, hg]
  · simp only [Pager.place, physicalFrameAssign, PhysicalMemory.setFrame, cowManagerInsert,
      Function.update_self, husers]
    refine ⟨by simp [PhysicalFrame.assigned], by simp, fun m hm => ?_, hpage, fun m hm => ?_,
      fun _ => ⟨p, rfl, rfl, by simp [PhysicalFrame.assigned]⟩,
      fun hn => by simp [PhysicalFrame.assigned] at hn,
      fun hn => by simp [PhysicalFrame.assigned] at hn⟩
    · rw [List.mem_singleton.mp hm]
      rfl
    · rw [List.mem_singleton.mp hm]
      exact hp
  · rw [show (s.place p page f).policy = (replacementPolicyOnLoad s.policy f).2 from rfl,
      hpolicy.loaded_eq]
    simp [Pager.place, physicalFrameAssign, PhysicalMemory.setFrame, PhysicalFrame.assigned]
  · simp only [Pager.place, physicalFrameAssign, PhysicalMemory.setFrame]
    rw [card_freeFrames_occupy hf hfree rfl, h.freeCount]
  · simp only [Pager.place, rebind, cowManagerInsert, Function.update_self, husers]
    by_cases e : g = f
    · rw [if_pos e, e]
      have hold : ∀ u v, s.mapped u v ≠ some f := by
        intro u v hmap
        rw [h.occupied_of_mapped hmap] at hfree
        cases hfree
      by_cases hk : q = p ∧ pageKey v = pageKey page
      · rw [if_pos hk]
        simp [hk.1, hk.2]
      · rw [if_neg hk]
        constructor
        · exact fun hmap => absurd hmap (hold q v)
        · rintro ⟨u, hu, hku⟩
          simp only [List.mem_singleton, CowMapping.mk.injEq] at hu
          exact absurd ⟨hu.1, by rw [← hku, hu.2]⟩ hk
    · rw [if_neg e]
      by_cases hk : q = p ∧ pageKey v = pageKey page
      · have hnone : s.mapped q v = none := by
          rw [hk.1, h.mapped_key hk.2, hm]
        rw [if_pos hk, hnone]
        simp [Ne.symm e]
      · rw [if_neg hk]

theorem Pager.Consistent.removeMapping (h : s.Consistent) (hm : ⟨p, page⟩ ∈ s.cow.frames f) :
    cowManagerRemoveMapping s.cow f p page = (0, { s.cow with
      frames := Function.update s.cow.frames f ((s.cow.frames f).erase ⟨p, page⟩) }) := by
  rw [cowManagerRemoveMapping, h.hasMapping, if_pos (by simpa using hm)]

theorem Pager.Consistent.erase_users (h : s.Consistent) {m n : CowMapping} :
    m ∈ (s.cow.frames f).erase n ↔ m ≠ n ∧ m ∈ s.cow.frames f := by
  by_cases hf : f < s.physical.frameCount
  · exact (h.frame f hf).nodup.mem_erase_iff
  · simp [h.beyond f (Nat.le_of_not_lt hf)]

/-- Rebinding one user's page to nothing, as the page maps see it. -/
theorem Pager.Consistent.mapped_unbound (h : s.Consistent) (hm : ⟨p, page⟩ ∈ s.cow.frames f)
    (q v g : Nat) : rebind s.mapped p page none q v = some g ↔
      if g = f then ∃ u, ⟨q, u⟩ ∈ (s.cow.frames f).erase ⟨p, page⟩ ∧ pageKey u = pageKey v
      else s.mapped q v = some g := by
  have hmap := h.mapped_frame hm
  by_cases hk : q = p ∧ pageKey v = pageKey page
  · rw [rebind, if_pos hk]
    refine ⟨fun hn => (by cases hn), fun hg => ?_⟩
    by_cases e : g = f
    · rw [if_pos e] at hg
      obtain ⟨u, hu, _⟩ := hg
      rw [h.erase_users] at hu
      have hpage : u = page := (h.user_page hu.2).trans (h.user_page hm).symm
      exact absurd (by rw [hk.1, hpage]) hu.1
    · rw [if_neg e, hk.1, h.mapped_key hk.2, hmap] at hg
      exact absurd (Option.some.inj hg).symm e
  · rw [rebind, if_neg hk]
    by_cases e : g = f
    · rw [if_pos e, e, h.mapped]
      refine exists_congr fun u => and_congr_left fun hku => ?_
      rw [h.erase_users]
      refine ⟨fun hu => ⟨fun he => hk ?_, hu⟩, fun hu => hu.2⟩
      cases he
      exact ⟨rfl, hku.symm⟩
    · rw [if_neg e]

theorem Pager.Consistent.vacate (h : s.Consistent) (hm : s.cow.frames f = [⟨p, page⟩]) :
    (s.vacate p page f).Consistent := by
  have hmem : ⟨p, page⟩ ∈ s.cow.frames f := by simp [hm]
  have hf := h.lt_of_user hmem
  have hocc := h.occupied_of_user hmem
  have hpolicy := replacementPolicyOnEvict_spec h.policy ((h.loaded f).trans hocc)
  refine h.setFrame hf rfl ?_ rfl rfl rfl rfl (fun g hg => ?_) ?_ ⟨rfl, hpolicy.wf,
    hpolicy.frameCount, ?_⟩ ?_ fun q v g => ?_
  · rw [Pager.vacate, h.removeMapping hmem]
  · rw [Pager.vacate, h.removeMapping hmem]
    simp [physicalFrameReset, PhysicalMemory.setFrame, hg]
  · rw [Pager.vacate, h.removeMapping hmem]
    simp only [physicalFrameReset, PhysicalMemory.setFrame, Function.update_self, hm]
    exact ⟨by simp [PhysicalFrame.free], by simp, by simp, by decide, by simp,
      fun hn => by simp [PhysicalFrame.free] at hn, fun _ => ⟨rfl, rfl⟩,
      fun hn => by simp [PhysicalFrame.free] at hn⟩
  · rw [show (s.vacate p page f).policy = (replacementPolicyOnEvict s.policy f).2 from rfl,
      hpolicy.loaded_eq]
    simp [Pager.vacate, physicalFrameReset, PhysicalMemory.setFrame, PhysicalFrame.free]
  · simp only [Pager.vacate, physicalFrameReset, PhysicalMemory.setFrame]
    rw [card_freeFrames_release hf hocc rfl, h.freeCount]
  · rw [Pager.vacate, h.removeMapping hmem]
    simp only [Function.update_self]
    exact h.mapped_unbound hmem q v g

/-! ## Shared frames -/

/-- Another user of a shared frame. -/
theorem Pager.Consistent.other_user (h : s.Consistent) (hm : ⟨p, page⟩ ∈ s.cow.frames f)
    (hlen : 1 < (s.cow.frames f).length) : ∃ o, o ≠ p ∧ ⟨o, page⟩ ∈ s.cow.frames f := by
  obtain ⟨m, hmem⟩ : ∃ m, m ∈ (s.cow.frames f).erase ⟨p, page⟩ := by
    apply List.exists_mem_of_length_pos
    rw [List.length_erase_of_mem hm]
    omega
  rw [h.erase_users] at hmem
  obtain ⟨o, u⟩ := m
  have hpage : u = page := (h.user_page hmem.2).trans (h.user_page hm).symm
  subst hpage
  exact ⟨o, fun e => hmem.1 (by rw [e]), hmem.2⟩

/-- A process that leaves a shared frame leaves it to one of the other
users, the old owner if that is another. -/
theorem Pager.Consistent.detach_eq (h : s.Consistent) (hm : ⟨p, page⟩ ∈ s.cow.frames f)
    (hlen : 1 < (s.cow.frames f).length) : ∃ o, o ≠ p ∧ ⟨o, page⟩ ∈ s.cow.frames f ∧
      ((s.physical.frames f).ownerProcess = some p → s.user p page f = some o) ∧
      s.detach p page f = (s.drop p page f).handOver f o := by
  obtain ⟨o, howner, hpid, hmem⟩ := h.owner (h.occupied_of_user hm)
  rw [← h.user_page hm] at hmem
  by_cases e : o = p
  · subst e
    obtain ⟨o', hne, hmem'⟩ := h.other_user hm hlen
    cases huser : s.user o page f with
    | none =>
      have hnot := List.find?_eq_none.mp huser o' (h.registered hmem')
      simp [hne, hmem'] at hnot
    | some q =>
      have hq := List.find?_some huser
      simp only [ne_eq, Bool.and_eq_true, decide_eq_true_eq, List.contains_iff_mem] at hq
      exact ⟨q, hq.1, hq.2, fun _ => rfl, by rw [Pager.detach, if_pos howner, huser]⟩
  · refine ⟨o, e, hmem, fun hp => ?_, ?_⟩
    · rw [howner] at hp
      exact absurd (Option.some.inj hp) e
    · have hself : Function.update s.physical.frames f
          { s.physical.frames f with ownerProcess := some o, ownerPid := s.pid o } =
            s.physical.frames := by
        rw [← howner, ← hpid]
        exact Function.update_eq_self f s.physical.frames
      rw [Pager.detach, if_neg (by simp [howner, e])]
      simp only [Pager.handOver, Pager.drop, hself]

theorem Pager.Consistent.drop_handOver (h : s.Consistent) (hm : ⟨p, page⟩ ∈ s.cow.frames f)
    (hq : ⟨q, page⟩ ∈ s.cow.frames f) (hne : q ≠ p) :
    ((s.drop p page f).handOver f q).Consistent := by
  have hf := h.lt_of_user hm
  have hocc := h.occupied_of_user hm
  have hpage := h.user_page hm
  obtain ⟨hiff, hnodup, hpages, hpage_lt, hreg, _, _, hdirty⟩ := h.frame f hf
  have hq' : ⟨q, page⟩ ∈ (s.cow.frames f).erase ⟨p, page⟩ :=
    h.erase_users.mpr ⟨by simp [hne], hq⟩
  refine h.setFrame hf rfl ?_ rfl rfl rfl rfl (fun g hg => ?_) ?_ ⟨rfl, h.policy, rfl, ?_⟩ ?_
    fun r v g => ?_
  · simp only [Pager.handOver, Pager.drop, h.removeMapping hm]
  · simp [Pager.handOver, Pager.drop, h.removeMapping hm, hg]
  · simp only [Pager.handOver, Pager.drop, h.removeMapping hm, Function.update_self]
    exact ⟨⟨fun _ => List.ne_nil_of_mem hq', fun _ => hocc⟩, hnodup.erase _,
      fun m hmem => hpages m (h.erase_users.mp hmem).2, hpage_lt,
      fun m hmem => hreg m (h.erase_users.mp hmem).2,
      fun _ => ⟨q, rfl, rfl, by rw [← hpage]; exact hq'⟩,
      fun hn => absurd hocc (by rw [show (s.physical.frames f).occupied = false from hn]; decide),
      hdirty⟩
  · simp [Pager.handOver, Pager.drop, ← h.loaded]
  · simp only [Pager.handOver, Pager.drop]
    rw [freeFrames_update (by rfl)]
    exact h.freeCount
  · simp only [Pager.handOver, Pager.drop, h.removeMapping hm, Function.update_self]
    exact h.mapped_unbound hm r v g

theorem Pager.Consistent.detach (h : s.Consistent) (hm : ⟨p, page⟩ ∈ s.cow.frames f)
    (hlen : 1 < (s.cow.frames f).length) : (s.detach p page f).Consistent := by
  obtain ⟨o, hne, ho, _, heq⟩ := h.detach_eq hm hlen
  rw [heq]
  exact h.drop_handOver hm ho hne

theorem Pager.Consistent.exclude (h : s.Consistent) (hm : ⟨p, page⟩ ∈ s.cow.frames f) :
    (s.exclude p page f).Consistent := by
  have hf := h.lt_of_user hm
  have hocc := h.occupied_of_user hm
  have hpage := h.user_page hm
  obtain ⟨_, _, _, hpage_lt, hreg, _, _, hdirty⟩ := h.frame f hf
  refine h.setFrame hf rfl rfl rfl rfl rfl rfl (fun g hg => ?_) ?_ ⟨rfl, h.policy, rfl, ?_⟩ ?_
    fun r v g => ?_
  · simp [Pager.exclude, Pager.handOver, hg]
  · simp only [Pager.exclude, Pager.handOver, Function.update_self]
    refine ⟨by simp [hocc], by simp, fun m hmem => ?_, hpage_lt, fun m hmem => ?_,
      fun _ => ⟨p, rfl, rfl, by simp [← hpage]⟩,
      fun hn => absurd hocc (by rw [show (s.physical.frames f).occupied = false from hn]; decide),
      hdirty⟩
    · rw [List.mem_singleton.mp hmem]
      exact hpage
    · rw [List.mem_singleton.mp hmem]
      exact hreg _ hm
  · simp [Pager.exclude, Pager.handOver, ← h.loaded]
  · simp only [Pager.exclude, Pager.handOver]
    rw [freeFrames_update (by rfl)]
    exact h.freeCount
  · simp only [Pager.exclude, Pager.handOver, Function.update_self, List.mem_singleton,
      CowMapping.mk.injEq]
    by_cases e : g = f
    · rw [if_pos e, e]
      by_cases hr : r = p
      · rw [if_neg (fun hk => hk.1 hr), h.mapped, hr]
        constructor
        · rintro ⟨u, hu, hk⟩
          exact ⟨u, ⟨rfl, (h.user_page hu).trans hpage.symm⟩, hk⟩
        · rintro ⟨u, ⟨_, rfl⟩, hk⟩
          exact ⟨u, hm, hk⟩
      · simp [hr]
    · rw [if_neg e]
      by_cases hk : r ≠ p ∧ s.mapped r v = some f
      · rw [if_pos hk, hk.2]
        simp [Ne.symm e]
      · rw [if_neg hk]

/-! ## Policy, counters, registry -/

theorem Pager.Consistent.setPolicy (h : s.Consistent) {policy : ReplacementPolicy}
    (hp : s.policy.Did s.policy.loaded (0, policy)) :
    Pager.Consistent { s with policy := policy } :=
  ⟨h.pos, h.count_lt, hp.wf, hp.frameCount.trans h.policy_count, h.cow_count,
    fun f => by rw [hp.loaded_eq]; exact h.loaded f, h.frame, h.beyond, h.mapped, h.registry, h.live,
    h.pid_lt, h.freeCount, h.swap, h.stored⟩

theorem Pager.Consistent.setStats (h : s.Consistent) (stats : VirtualMemoryStats) :
    Pager.Consistent { s with stats := stats } :=
  ⟨h.pos, h.count_lt, h.policy, h.policy_count, h.cow_count, h.loaded, h.frame, h.beyond, h.mapped,
    h.registry, h.live, h.pid_lt, h.freeCount, h.swap, h.stored⟩

theorem Pager.Consistent.tick (h : s.Consistent) : s.tick.Consistent :=
  h.setPolicy (replacementPolicyTick_spec h.policy)

theorem Pager.Consistent.notify (h : s.Consistent) (hf : (s.physical.frames f).occupied = true)
    (isWrite : Bool) : (s.notify f isWrite).Consistent := by
  have haccess := replacementPolicyOnAccess_spec h.policy ((h.loaded f).trans hf)
  have hset : Pager.Consistent { s.touch f isWrite with
      policy := (replacementPolicyOnAccess s.policy f).2 } :=
    (h.touch hf isWrite).setPolicy ⟨rfl, haccess.wf, haccess.frameCount, haccess.loaded_eq⟩
  exact hset.tick

theorem Pager.Consistent.chooseVictim (h : s.Consistent) :
    ∃ f policy, replacementPolicyChooseVictim s.policy = some (f, policy) ∧
      (f = replacementInvalidFrame ∨ (s.physical.frames f).occupied = true) ∧
      Pager.Consistent { s with policy := policy } := by
  obtain ⟨f, policy, hchoose, hloaded, hdid⟩ := replacementPolicyChooseVictim_spec h.policy
  rw [h.loaded] at hloaded
  exact ⟨f, policy, hchoose, hloaded, h.setPolicy hdid⟩

theorem Pager.Consistent.register (h : s.Consistent) (hp : 0 ≤ s.pid p) :
    (s.register p).Consistent := by
  unfold Pager.register
  split
  · exact h
  · rename_i hnot
    have hnot' : p ∉ s.processes := by simpa using hnot
    refine ⟨h.pos, h.count_lt, h.policy, h.policy_count, h.cow_count, h.loaded, fun f hf => ?_,
      h.beyond, h.mapped, List.nodup_cons.mpr ⟨hnot', h.registry⟩, ?_, h.pid_lt, h.freeCount,
      h.swap, fun swap hswap pid page hc => ?_⟩
    · have hframe := h.frame f hf
      exact ⟨hframe.occupied, hframe.nodup, hframe.page, hframe.page_lt,
        fun m hm => List.mem_cons_of_mem p (hframe.registered m hm), hframe.owner, hframe.free,
        hframe.dirty⟩
    · exact List.forall_mem_cons.mpr ⟨hp, h.live⟩
    · obtain ⟨q, hq, hpid⟩ := h.stored swap hswap pid page hc
      exact ⟨q, List.mem_cons_of_mem p hq, hpid⟩

theorem Pager.mem_register (s : Pager) (p : Nat) : p ∈ (s.register p).processes := by
  unfold Pager.register
  split
  · rename_i hmem
    simpa using hmem
  · exact List.mem_cons_self

theorem Pager.register_of_mem (hp : p ∈ s.processes) : s.register p = s := by
  rw [Pager.register, if_pos (by simpa using hp)]

/-! ## Swap -/

theorem Pager.Consistent.setSwap (h : s.Consistent) {swap' : Option Swap}
    (hwf : ∀ swap, swap' = some swap → swap.Wf ∧ swap.Works)
    (hstored : ∀ swap, swap' = some swap → ∀ pid page, swap.content pid page ≠ none →
      ∃ p ∈ s.processes, s.pid p = pid) :
    Pager.Consistent { s with swap := swap' } :=
  ⟨h.pos, h.count_lt, h.policy, h.policy_count, h.cow_count, h.loaded, h.frame, h.beyond, h.mapped,
    h.registry, h.live, h.pid_lt, h.freeCount, hwf, hstored⟩

/-- What storing a page changes. -/
theorem Pager.store_eq {pid : Int} {data : PageData} (hs : s.store pid page data = some s') :
    ∃ swap, s.swap = some swap ∧ (swapWritePage swap pid page data).1 = 0 ∧
      s' = { s with
        swap := some (swapWritePage swap pid page data).2
        stats := { s.stats with swapWrites := increment s.stats.swapWrites } } := by
  unfold Pager.store at hs
  split at hs
  · cases hs
  · rename_i swap hswap
    split at hs
    · rename_i hcode
      exact ⟨swap, hswap, hcode, (Option.some.inj hs).symm⟩
    · cases hs

theorem Pager.Consistent.store (h : s.Consistent) (hp : p ∈ s.processes) {data : PageData}
    (hs : s.store (s.pid p) page data = some s') : s'.Consistent := by
  obtain ⟨swap, hswap, hcode, rfl⟩ := Pager.store_eq hs
  obtain ⟨hwf, hworks⟩ := h.swap swap hswap
  rcases swapWritePage_spec hwf hworks (h.live p hp) page data with
    ⟨_, hwf', hworks', hcontent⟩ | ⟨hrefused, _⟩
  · have hset : Pager.Consistent { s with
        swap := some (swapWritePage swap (s.pid p) page data).2 } := by
      refine h.setSwap (fun sw hsw => ?_) fun sw hsw pid v hc => ?_
      · cases hsw
        exact ⟨hwf', hworks'⟩
      · cases hsw
        rw [hcontent] at hc
        split at hc
        · rename_i e
          exact ⟨p, hp, e.1.symm⟩
        · exact h.stored swap hswap pid v hc
    exact hset.setStats _
  · rw [hrefused] at hcode
    cases hcode

theorem Pager.Consistent.saveVictim (h : s.Consistent)
    (hf : (s.physical.frames f).occupied = true) (hs : s.saveVictim f = some s') :
    s'.Consistent := by
  unfold Pager.saveVictim at hs
  split at hs
  · cases hs
    exact h
  · obtain ⟨o, _, hpid, ho⟩ := h.owner hf
    rw [hpid] at hs
    exact h.store (h.registered ho) hs

/-- Saving a victim changes the swap and a counter only. -/
theorem Pager.saveVictim_eq (hs : s.saveVictim f = some s') :
    ∃ swap stats, s' = { s with swap := swap, stats := stats } := by
  unfold Pager.saveVictim at hs
  split at hs
  · cases hs
    exact ⟨s.swap, s.stats, rfl⟩
  · obtain ⟨_, _, _, rfl⟩ := Pager.store_eq hs
    exact ⟨_, _, rfl⟩

theorem Pager.saveReaders_eq (writer : CowMapping) (data : PageData) (readers : List CowMapping) :
    ∀ s : Pager, ∃ swap stats,
      (Pager.saveReaders writer data readers s).2 = { s with swap := swap, stats := stats } := by
  induction readers with
  | nil => exact fun s => ⟨s.swap, s.stats, rfl⟩
  | cons reader readers ih =>
    intro s
    unfold Pager.saveReaders
    split
    · exact ih s
    · split
      · exact ⟨s.swap, s.stats, rfl⟩
      · rename_i s₁ hs
        obtain ⟨_, _, _, rfl⟩ := Pager.store_eq hs
        obtain ⟨swap, stats, heq⟩ := ih _
        exact ⟨swap, stats, by rw [heq]⟩

theorem Pager.Consistent.saveReaders (writer : CowMapping) (data : PageData)
    (readers : List CowMapping) : ∀ s : Pager, s.Consistent →
      (∀ reader ∈ readers, reader.process ∈ s.processes) →
      (Pager.saveReaders writer data readers s).2.Consistent := by
  induction readers with
  | nil => exact fun s h _ => h
  | cons reader readers ih =>
    intro s h hreg
    obtain ⟨hreader, hreg'⟩ := List.forall_mem_cons.mp hreg
    unfold Pager.saveReaders
    split
    · exact ih s h hreg'
    · split
      · exact h
      · rename_i s₁ hs
        have h₁ := h.store hreader hs
        obtain ⟨_, _, _, rfl⟩ := Pager.store_eq hs
        exact ih _ h₁ hreg'

theorem Pager.Consistent.restore (h : s.Consistent) (hf : (s.physical.frames f).occupied = true)
    (p page : Nat) : (s.restore p page f).Consistent := by
  unfold Pager.restore
  split
  · exact h
  · rename_i swap hswap
    split
    · exact h
    · rename_i data hc
      obtain ⟨hwf, hworks⟩ := h.swap swap hswap
      obtain ⟨_, hwf', hfile, hcontent⟩ := swapTakePage_spec hwf
        (by rw [hc]; exact Option.some_ne_none data) ((swap.reads + 1) % wordSize)
      have hset : Pager.Consistent { s.fill f data with
          swap := some (swapRemovePage { swap with reads := (swap.reads + 1) % wordSize }
            (s.pid p) page).2 } := by
        refine (h.fill hf data).setSwap (fun sw hsw => ?_) fun sw hsw pid v hc' => ?_
        · cases hsw
          exact ⟨hwf', by rw [Swap.Works, hfile]; exact hworks⟩
        · cases hsw
          rw [hcontent] at hc'
          split at hc'
          · exact absurd rfl hc'
          · exact h.stored swap hswap pid v hc'
      exact hset.setStats _

/-- Restoring a page changes the bytes of its frame, the swap and a
counter only. -/
theorem Pager.restore_eq (s : Pager) (p page f : Nat) : ∃ data swap stats,
    s.restore p page f = { s.fill f data with swap := swap, stats := stats } := by
  have hself : s = { s.fill f (s.physical.data f) with swap := s.swap, stats := s.stats } := by
    simp only [Pager.fill, Function.update_eq_self]
  unfold Pager.restore
  split
  · exact ⟨_, _, _, hself⟩
  · split
    · exact ⟨_, _, _, hself⟩
    · exact ⟨_, _, _, rfl⟩

end VmSim
