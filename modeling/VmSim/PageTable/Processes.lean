/-
VmSim.PageTable.Processes — processes and the page tables they own
(`src/process.c`).

`Heap.Tame` is the invariant of the C heap between two calls of the
virtual memory: the trie objects are well formed, and every process owns a
live page table of its own. `Heap.Sound` says also that allocations
succeed. Then a process is a pid with a map from page keys to frames
(`Heap.pid`, `Heap.mapped`), and the page-table operations are updates of
that map: `Heap.Moved` says that nothing else about the processes changed.
-/
import VmSim.PageTable.Tables

namespace VmSim

open Lib

variable {h h' h'' : Heap} {p : Nat} {x : Process}

/-! ## The processes of a heap -/

/-- The pid of a process; -1 where there is none. -/
def Heap.pid (h : Heap) (p : Nat) : Int := (h.processes p).elim (-1) (·.pid)

/-- The frame the page table of a process maps a page to. -/
def Heap.mapped (h : Heap) (p page : Nat) : Option Nat :=
  (h.processes p).bind fun x => h.frameOf x.pageTable page

structure Heap.Tame (h : Heap) : Prop where
  wf : h.Wf noPending
  process_lt : ∀ p x, h.processes p = some x → p < h.nextProcess
  pid : ∀ p x, h.processes p = some x → 0 ≤ x.pid
  table : ∀ p x, h.processes p = some x → ∃ r, h.tables x.pageTable = some r
  owned : ∀ p q x y, h.processes p = some x → h.processes q = some y →
    x.pageTable = y.pageTable → p = q

structure Heap.Sound (h : Heap) : Prop extends Heap.Tame h where
  plenty : h.Plenty

/-- The heap after an operation on page tables of processes. -/
structure Heap.Moved (h : Heap) (mapped : Nat → Nat → Option Nat) (h' : Heap) : Prop where
  sound : h'.Sound
  processes : h'.processes = h.processes
  nextProcess : h'.nextProcess = h.nextProcess
  mapped_eq : h'.mapped = mapped

/-- The maps of all processes with one page of one process rebound. -/
def rebind (mapped : Nat → Nat → Option Nat) (p page : Nat) (frame : Option Nat) :
    Nat → Nat → Option Nat :=
  fun q v => if q = p ∧ pageKey v = pageKey page then frame else mapped q v

theorem rebind_comm {mapped : Nat → Nat → Option Nat} {p q u v : Nat}
    (h : ¬ (p = q ∧ pageKey u = pageKey v)) (a b : Option Nat) :
    rebind (rebind mapped p u a) q v b = rebind (rebind mapped q v b) p u a := by
  funext r t
  simp only [rebind]
  by_cases hq : r = q ∧ pageKey t = pageKey v
  · have hp : ¬ (r = p ∧ pageKey t = pageKey u) := fun hp =>
      h ⟨hp.1.symm.trans hq.1, hp.2.symm.trans hq.2⟩
    rw [if_pos hq, if_neg hp, if_pos hq]
  · rw [if_neg hq, if_neg hq]

theorem rebind_idem (mapped : Nat → Nat → Option Nat) (p page : Nat) (a b : Option Nat) :
    rebind (rebind mapped p page a) p page b = rebind mapped p page b := by
  funext r t
  simp only [rebind]
  split <;> rfl

theorem Heap.pid_of_some (hx : h.processes p = some x) : h.pid p = x.pid := by
  simp [Heap.pid, hx]

theorem Heap.mapped_of_some (hx : h.processes p = some x) (page : Nat) :
    h.mapped p page = h.frameOf x.pageTable page := by
  simp [Heap.mapped, hx]

/-- A pid that is not negative belongs to a process. -/
theorem Heap.process_of_pid (hp : 0 ≤ h.pid p) : ∃ x, h.processes p = some x := by
  cases hx : h.processes p with
  | none => simp [Heap.pid, hx] at hp
  | some x => exact ⟨x, rfl⟩

theorem Heap.Tame.pid_nonneg (hs : h.Tame) (hx : h.processes p = some x) : 0 ≤ h.pid p := by
  rw [Heap.pid_of_some hx]
  exact hs.pid p x hx

theorem Heap.Tame.pid_lt (hs : h.Tame) (hp : 0 ≤ h.pid p) : p < h.nextProcess := by
  obtain ⟨x, hx⟩ := Heap.process_of_pid hp
  exact hs.process_lt p x hx

theorem Heap.Moved.pid (hm : h.Moved f h') (p : Nat) : h'.pid p = h.pid p := by
  rw [Heap.pid, Heap.pid, hm.processes]

/-- The processes keep their tables. -/
theorem Heap.Tame.framed (hs : h.Tame) (hf : h.Framed h') (hw : h'.Wf noPending) : h'.Tame := by
  refine ⟨hw, ?_, ?_, fun q y hy => ?_, ?_⟩
  · rw [hf.processes, hf.nextProcess]
    exact hs.process_lt
  · rw [hf.processes]
    exact hs.pid
  · rw [hf.processes] at hy
    rw [← Option.isSome_iff_exists, hf.live, Option.isSome_iff_exists]
    exact hs.table q y hy
  · rw [hf.processes]
    exact hs.owned

theorem Heap.Sound.framed (hs : h.Sound) (hf : h.Framed h') (hw : h'.Wf noPending) : h'.Sound :=
  ⟨hs.toTame.framed hf hw, hf.plenty hs.plenty⟩

theorem Heap.Tame.drawn (hs : h.Tame) : h.drawn.Tame := hs.framed h.framed_drawn hs.wf.drawn

theorem Heap.tame_empty (plan : Nat → Bool) : (Heap.empty plan).Tame :=
  ⟨Heap.empty_wf plan, fun _ _ h => (by cases h), fun _ _ h => (by cases h),
    fun _ _ h => (by cases h), fun _ _ _ _ h => (by cases h)⟩

theorem Heap.mapped_drawn (h : Heap) : h.drawn.mapped = h.mapped := by
  funext q v
  cases hx : h.processes q with
  | none =>
    have hx' : h.drawn.processes q = none := hx
    simp [Heap.mapped, hx, hx']
  | some y =>
    have hx' : h.drawn.processes q = some y := hx
    rw [Heap.mapped_of_some hx, Heap.mapped_of_some hx', Heap.frameOf, Heap.frameOf]
    cases ht : h.tables y.pageTable with
    | none => simp [Heap.drawn, ht]
    | some r =>
      have ht' : h.drawn.tables y.pageTable = some r := ht
      rw [ht', Option.bind_some, Option.bind_some]
      exact Heap.frameAt_of_objects (by rfl) _ _

theorem Heap.Sound.drawn (hs : h.Sound) : h.Moved h.mapped h.drawn :=
  ⟨hs.framed h.framed_drawn hs.wf.drawn, rfl, rfl, h.mapped_drawn⟩

/-! ## Page-table operations on a process -/

theorem Heap.Sound.rebound (hs : h.Sound) (hx : h.processes p = some x) {page : Nat}
    {frame : Option Nat} (hr : h.Rebound x.pageTable page frame h') :
    h.Moved (rebind h.mapped p page frame) h' := by
  refine ⟨hs.framed hr.framed hr.wf, hr.processes, hr.nextProcess, ?_⟩
  funext q v
  cases hy : h.processes q with
  | none =>
    have hne : q ≠ p := by
      rintro rfl
      rw [hx] at hy
      cases hy
    simp [Heap.mapped, rebind, hr.processes, hy, hne]
  | some y =>
    rw [rebind, Heap.mapped_of_some (h := h') (by rw [hr.processes, hy]), hr.frameOf,
      Heap.mapped_of_some hy]
    -- distinct processes have distinct tables
    have hiff : y.pageTable = x.pageTable ↔ q = p := by
      constructor
      · exact hs.owned q p y x hy hx
      · rintro rfl
        rw [hx] at hy
        cases hy
        rfl
    simp only [hiff]

theorem Heap.Sound.map_run (hs : h.Sound) (hx : h.processes p = some x) (a frame : Nat) :
    ∃ h', pageTableMap x.pageTable a frame h = .ok () h' ∧
      h.Moved (rebind h.mapped p (addressPageNumber a) (some frame)) h' := by
  obtain ⟨r, hr⟩ := hs.table p x hx
  obtain ⟨_, h', hrun, hrebound⟩ := pageTableMap_spec hs.wf hs.plenty hr a frame
  exact ⟨h', hrun, hs.rebound hx hrebound⟩

theorem Heap.Sound.unmap_run (hs : h.Sound) (hx : h.processes p = some x) {a : Nat}
    (hm : h.mapped p (addressPageNumber a) ≠ none) :
    ∃ h', pageTableUnmap x.pageTable a h = .ok () h' ∧
      h.Moved (rebind h.mapped p (addressPageNumber a) none) h' := by
  obtain ⟨r, hr⟩ := hs.table p x hx
  rw [Heap.mapped_of_some hx] at hm
  obtain ⟨_, h', hrun, hrebound⟩ := pageTableUnmap_spec hs.wf hs.plenty hr hm
  exact ⟨h', hrun, hs.rebound hx hrebound⟩

theorem Heap.Tame.lookup_run (hs : h.Tame) (hx : h.processes p = some x) (a : Nat) :
    ∃ entry, pageTableLookup x.pageTable a h = .ok entry h ∧
      entry.map (·.frameNumber) = h.mapped p (addressPageNumber a) ∧
      ∀ e, entry = some e → e.present = true := by
  obtain ⟨r, hr⟩ := hs.table p x hx
  rw [Heap.mapped_of_some hx]
  exact pageTableLookup_run hs.wf hr a

theorem Heap.Tame.walk_run (hs : h.Tame) (hx : h.processes p = some x) (a : Nat) :
    ∃ entry visited, pageTableLookupWithLevels x.pageTable a h = .ok (entry, visited) h ∧
      entry.map (·.frameNumber) = h.mapped p (addressPageNumber a) ∧
      1 ≤ visited ∧ visited ≤ pageTableLevels := by
  obtain ⟨r, hr⟩ := hs.table p x hx
  rw [Heap.mapped_of_some hx]
  obtain ⟨entry, visited, hrun, hframe, _, hvisited⟩ := pageTableLookupWithLevels_run hs.wf hr a
  exact ⟨entry, visited, hrun, hframe, hvisited⟩

theorem Heap.Manages.tame {α : Type} {c : Comp Heap α} {P : α → Heap → Prop} (hm : h.Manages c P)
    (hs : h.Tame) (hp : ∀ a h', P a h' → h.Framed h' ∧ h'.Wf noPending) :
    Comp.Ends c h fun _ h' => h.Framed h' ∧ h'.Tame := by
  refine Comp.Ends.mono hm fun result h' hend => ?_
  cases result with
  | some a =>
    obtain ⟨hframed, hw⟩ := hp a h' hend
    exact ⟨hframed, hs.framed hframed hw⟩
  | none => exact ⟨hend.toFramed, hs.framed hend.toFramed hend.wf⟩

/-- Mapping a page may fail, and keeps the processes all the same. -/
theorem Heap.Tame.map_ends (hs : h.Tame) (hx : h.processes p = some x) (a frame : Nat) :
    Comp.Ends (pageTableMap x.pageTable a frame) h fun _ h' => h.Framed h' ∧ h'.Tame := by
  obtain ⟨r, hr⟩ := hs.table p x hx
  exact (pageTableMap_manages hs.wf hr a frame).tame hs fun _ _ hr' => ⟨hr'.framed, hr'.wf⟩

theorem Heap.Tame.unmap_ends (hs : h.Tame) (hx : h.processes p = some x) (a : Nat) :
    Comp.Ends (pageTableUnmap x.pageTable a) h fun _ h' => h.Framed h' ∧ h'.Tame := by
  obtain ⟨r, hr⟩ := hs.table p x hx
  by_cases hf : h.frameOf x.pageTable (addressPageNumber a) = none
  · exact Comp.Ends.of_failed (pageTableUnmap_unbound hs.wf hr hf) ⟨Heap.Framed.refl h, hs⟩
  · exact (pageTableUnmap_manages hs.wf hr hf).tame hs fun _ _ hr' => ⟨hr'.framed, hr'.wf⟩

/-! ## Creation and fork -/

/-- A new process with a table that answers `frames`. -/
structure Heap.Spawned (h : Heap) (pid : Int) (frames : Nat → Option Nat) (h' : Heap) : Prop where
  tame : h'.Tame
  plan : h'.allocator.plan = h.allocator.plan
  live : ∀ p x, h.processes p = some x → h'.processes p = some x
  nextProcess : h'.nextProcess = h.nextProcess + 1
  pid_eq : h'.pid = Function.update h.pid h.nextProcess pid
  mapped_eq : h'.mapped = Function.update h.mapped h.nextProcess frames

theorem Heap.Spawned.sound {pid : Int} {frames : Nat → Option Nat}
    (hspawned : h.Spawned pid frames h') (hs : h.Sound) : h'.Sound :=
  ⟨hspawned.tame, fun k => by rw [hspawned.plan]; exact hs.plenty k⟩

theorem Heap.Tame.tabled (hs : h.Tame) {pid : Int} (hpid : 0 ≤ pid) {frames : Nat → Option Nat}
    (ht : h.Tabled frames h') :
    ∃ h'', newProcess ⟨pid, h.nextTable⟩ h' = .ok h.nextProcess h'' ∧
      h.Spawned pid frames h'' := by
  have hfresh : h.processes h.nextProcess = none := by
    cases hx : h.processes h.nextProcess with
    | none => rfl
    | some x => exact absurd (hs.process_lt _ x hx) (Nat.lt_irrefl _)
  have hlt : ∀ q y, h.processes q = some y → y.pageTable < h.nextTable := by
    intro q y hy
    obtain ⟨r, hr⟩ := hs.table q y hy
    exact hs.wf.tables_lt _ r hr
  let child : Process := ⟨pid, h.nextTable⟩
  let h₂ : Heap := { h' with
    processes := Function.update h'.processes h'.nextProcess (some child)
    nextProcess := h'.nextProcess + 1 }
  have hprocesses : h₂.processes = Function.update h.processes h.nextProcess (some child) := by
    simp only [h₂, ht.processes, ht.nextProcess]
  have hcases : ∀ q y, h₂.processes q = some y →
      (q = h.nextProcess ∧ y = child) ∨ (q ≠ h.nextProcess ∧ h.processes q = some y) := by
    intro q y hy
    rw [hprocesses] at hy
    by_cases e : q = h.nextProcess
    · simp only [e, Function.update_self, Option.some.injEq] at hy
      exact Or.inl ⟨e, hy.symm⟩
    · exact Or.inr ⟨e, by simpa [Function.update_of_ne e] using hy⟩
  have hframe : ∀ t page, h₂.frameOf t page =
      if t = h.nextTable then frames page else h.frameOf t page := by
    intro t page
    rw [← ht.frameOf]
    cases htab : h'.tables t with
    | none =>
      have htab' : h₂.tables t = none := htab
      simp [Heap.frameOf, htab, htab']
    | some r =>
      have htab' : h₂.tables t = some r := htab
      rw [Heap.frameOf, Heap.frameOf, htab', Option.bind_some, Option.bind_some]
      exact Heap.frameAt_of_objects (by rfl) _ _
  have hwf : h₂.Wf noPending := ⟨ht.wf.objects_lt, ht.wf.tables_lt, ht.wf.object, ht.wf.counted,
    ht.wf.slots_lt, ht.wf.rank, ht.wf.same_rank, ht.wf.root_lt, ht.wf.root_rank⟩
  refine ⟨h₂, by simp only [newProcess, h₂, child, ht.nextProcess],
    ⟨hwf, ?_, ?_, ?_, ?_⟩, ht.plan, ?_, ?_, ?_, ?_⟩
  · intro q y hy
    show q < h'.nextProcess + 1
    rw [ht.nextProcess]
    rcases hcases q y hy with ⟨rfl, _⟩ | ⟨_, hy'⟩
    · exact Nat.lt_succ_self _
    · exact Nat.lt_succ_of_lt (hs.process_lt q y hy')
  · intro q y hy
    rcases hcases q y hy with ⟨_, rfl⟩ | ⟨_, hy'⟩
    · exact hpid
    · exact hs.pid q y hy'
  · intro q y hy
    show ∃ r, h'.tables y.pageTable = some r
    rw [← Option.isSome_iff_exists, ht.live]
    rcases hcases q y hy with ⟨_, rfl⟩ | ⟨_, hy'⟩
    · simp [child]
    · simp [Option.isSome_iff_exists.mpr (hs.table q y hy')]
  · intro q q' y y' hy hy' he
    rcases hcases q y hy with ⟨rfl, rfl⟩ | ⟨_, hy₁⟩ <;>
      rcases hcases q' y' hy' with ⟨rfl, rfl⟩ | ⟨_, hy₂⟩
    · rfl
    · exact absurd he (Nat.ne_of_gt (hlt q' y' hy₂))
    · exact absurd he (Nat.ne_of_lt (hlt q y hy₁))
    · exact hs.owned q q' y y' hy₁ hy₂ he
  · intro q y hy
    have hne : q ≠ h.nextProcess := Nat.ne_of_lt (hs.process_lt q y hy)
    rw [hprocesses, Function.update_of_ne hne, hy]
  · show h'.nextProcess + 1 = _
    rw [ht.nextProcess]
  · funext q
    by_cases e : q = h.nextProcess <;> simp [Heap.pid, hprocesses, e, child]
  · funext q page
    by_cases e : q = h.nextProcess
    · simp [Heap.mapped, hprocesses, hframe, e, child]
    · cases hy : h.processes q with
      | none => simp [Heap.mapped, hprocesses, e, hy]
      | some y =>
        have hne := Nat.ne_of_lt (hlt q y hy)
        simp [Heap.mapped, hprocesses, hframe, e, hy, hne]

theorem failIf_pid {pid : Int} (hpid : 0 ≤ pid) (h : Heap) :
    Comp.failIf (decide (pid < 0)) h = .ok () h := by
  rw [decide_eq_false (Int.not_lt.mpr hpid)]
  rfl

theorem processCreate_refused {pid : Int} (hpid : 0 ≤ pid) (hg : ¬ h.Grants 4) :
    h.Refuses (processCreate pid) := by
  rw [processCreate]
  refine .read (failIf_pid hpid h) ?_
  by_cases hfirst : h.Grants 1
  · have hrest : ¬ h.drawn.Grants 3 := fun hs =>
      hg (Heap.grants_succ.mpr ⟨(Heap.grants_succ.mp hfirst).1, hs⟩)
    obtain ⟨calls, htable⟩ := pageTableCreate_refused hrest
    exact ⟨calls, (Comp.bind_ok (allocate_granted hfirst)).trans (Comp.bind_failed htable)⟩
  · exact ⟨_, Comp.bind_failed (allocate_refused hfirst)⟩

theorem processCreate_granted (hs : h.Tame) {pid : Int} (hpid : 0 ≤ pid) (hg : h.Grants 4) :
    Comp.Returns (processCreate pid) h fun p h' =>
      p = h.nextProcess ∧ h.Spawned pid (fun _ => none) h' := by
  obtain ⟨t, h₁, hrun, rfl, ht⟩ := pageTableCreate_spec hs.drawn.wf (Heap.grants_succ.mp hg).2
  obtain ⟨h₂, hnew, hspawn⟩ := hs.drawn.tabled hpid ht
  refine ⟨h.nextProcess, h₂, ?_, rfl, hspawn.tame, hspawn.plan, hspawn.live, hspawn.nextProcess,
    hspawn.pid_eq, by rw [hspawn.mapped_eq, h.mapped_drawn]; rfl⟩
  rw [processCreate, Comp.bind_ok (failIf_pid hpid h),
    Comp.bind_ok (allocate_granted hg), Comp.bind_ok hrun]
  exact hnew

theorem processCreate_spec (hs : h.Sound) {pid : Int} (hpid : 0 ≤ pid) :
    Comp.Returns (processCreate pid) h fun p h' =>
      p = h.nextProcess ∧ h.Spawned pid (fun _ => none) h' :=
  processCreate_granted hs.toTame hpid (hs.plenty.grants 4)

theorem processFork_spec (hs : h.Sound) (hx : h.processes p = some x) {pid : Int} (hpid : 0 ≤ pid) :
    Comp.Returns (processFork p pid) h fun child h' =>
      child = h.nextProcess ∧ h.Spawned pid (h.mapped p) h' := by
  obtain ⟨r, hr⟩ := hs.table p x hx
  obtain ⟨t, h₁, hrun, rfl, ht⟩ := pageTableCloneShared_spec hs.drawn.sound.wf
    hs.drawn.sound.plenty (show h.drawn.tables x.pageTable = some r from hr)
  obtain ⟨h₂, hnew, hspawn⟩ := hs.toTame.drawn.tabled hpid ht
  have hframes : h.drawn.frameOf x.pageTable = h.mapped p := by
    have hx' : h.drawn.processes p = some x := hx
    rw [← hs.drawn.mapped_eq]
    funext page
    rw [Heap.mapped_of_some hx']
  refine ⟨h.nextProcess, h₂, ?_, rfl, hspawn.tame, hspawn.plan, hspawn.live, hspawn.nextProcess,
    hspawn.pid_eq, by rw [hspawn.mapped_eq, hs.drawn.mapped_eq, hframes]; rfl⟩
  have hread : readProcess p h.drawn = .ok x h.drawn := by
    have hx' : h.drawn.processes p = some x := hx
    simp only [readProcess, hx']
  rw [processFork, Comp.bind_ok (failIf_pid hpid h),
    Comp.bind_ok (allocate_run hs.plenty), Comp.bind_ok hread, Comp.bind_ok hrun]
  exact hnew

end VmSim
