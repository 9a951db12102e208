/-
VmSim.VirtualMemory.Accesses — the memory accesses of the code are those
of the pager.

`World.Accessed` is the specification every part of
`virtual_memory_access` is given: the pager made the step, the TLB
contributed some answers on the way, and what is in the TLB afterwards
was put there by this access or was there before.
-/
import VmSim.VirtualMemory.CopyOnWrite

namespace VmSim

open Lib

variable {w w' : World} {backdrop : Backdrop} {s s' : Pager} {tlb tlb' : Tlb}
  {p page f a k : Nat} {x : Process} {isWrite : Bool}

/-! ## Traces -/

/-- A lookup before the trace adds one tick to it. -/
theorem Pager.Traced.after_lookup {pid : Int} {v : Nat} (htlb : tlb.Wf)
    (h : s.Traced (tlbLookup tlb pid v).2 k p page s' tlb') :
    s.Traced tlb (k + 1) p page s' tlb' := by
  have hlooked := htlb.became.lookup pid v
  refine ⟨h.wf, h.capacity.trans hlooked.capacity, fun pid' page' frame' hh => ?_,
    fun n hn hlt => ?_⟩
  · refine (h.holds pid' page' frame' hh).imp id fun hold => ⟨?_, hold.2⟩
    exact (tlbLookup_holds pid v pid' page' frame').mp hold.1
  · have hfresh := h.fresh (n + 1) (hlooked.fresh n hn (by omega)) (by omega)
    exact hfresh.mono (by omega)

/-- Recording the translation the page maps give adds one tick, too. -/
theorem Pager.Traced.insert (hp : 0 ≤ s.pid p) (h : s.Traced tlb k p page s' tlb')
    (hm : s'.mapped p page = some f) :
    s.Traced tlb (k + 1) p page s' (tlbInsert tlb' (s.pid p) page f).2 := by
  refine (Tlb.Became.insert h hp page f).mono (Nat.le_refl _) fun pid v g hkept => ?_
  rcases hkept with ⟨hpid, hv, hg⟩ | hold
  · exact Or.inl ⟨hpid, hv, by rw [hm, hg]⟩
  · exact hold

/-! ## Resident pages -/

/-- What an access to the page `page` of `p` leaves behind. -/
def World.Accessed (w' : World) (backdrop : Backdrop) (s : Pager) (tlb : Tlb)
    (calls : Bool → List TlbCall) (k p page : Nat)
    (end_ : Bool → Bool → VirtualMemoryAccessResult × Pager)
    (result : VirtualMemoryAccessResult) : Prop :=
  ∃ moved recorded tlb', w'.Shows backdrop (end_ moved recorded).2 tlb' ∧
    (end_ moved recorded).1 = result ∧ s.Traced tlb k p page (end_ moved recorded).2 tlb' ∧
    tlb.Accepts (calls moved) moved ∧ tlb.Accepts (calls moved) recorded ∧
    tlb' = tlb.perform (calls moved)

/-- The frame a write goes to is the one the page is mapped to then. -/
theorem Pager.Consistent.cowWrite_mapped (h : s.Consistent) (hm : s.mapped p page = some f)
    (hw : s.Writable p page f) (moved : Bool) {g : Nat}
    (hg : (s.cowWrite p page f moved).1 = some g) :
    (s.cowWrite p page f moved).2.mapped p page = some g := by
  rcases Pager.cowWrite_some hg with ⟨_, rfl, hend⟩ | ⟨hlen, hfree, hend⟩ |
    ⟨_, _, rfl, swap, stats, hend⟩
  · rw [hend]
    exact hm
  · have huser := hw.resolve_left (Nat.not_le.mpr hlen)
    rw [hend, (h.copy_spec huser hlen (h.firstFree hfree).2.2 _).mapped]
    simp [rebind]
  · rw [hend]
    simpa [Pager.exclude] using hm

theorem World.Shows.writableFrame (h : s.Consistent) (hs : w.Shows backdrop s tlb)
    (hx : backdrop p = some x) (hp : p ∈ s.processes)
    (hw : isWrite = true → s.Writable p (addressPageNumber a) f) (htlb : tlb.Wf) :
    Comp.Ends (virtualMemoryWritableFrame p a (addressPageNumber a) f isWrite) w fun r w' =>
      ∃ moved tlb', w'.Shows backdrop (s.writable p (addressPageNumber a) f isWrite moved).2 tlb' ∧
        (s.writable p (addressPageNumber a) f isWrite moved).1 = r ∧
        s.Traced tlb 1 p (addressPageNumber a)
          (s.writable p (addressPageNumber a) f isWrite moved).2 tlb' ∧
        tlb.Accepts (s.writableCalls p (addressPageNumber a) f isWrite) moved ∧
        tlb' = tlb.perform (s.writableCalls p (addressPageNumber a) f isWrite) := by
  cases isWrite with
  | true => exact World.Shows.cowWrite h hs hx hp (hw rfl) htlb
  | false =>
    exact Comp.Ends.pure ⟨true, tlb, hs, rfl,
      (Pager.traced_same htlb rfl p _).mono (Nat.zero_le 1) fun _ _ _ hk => hk,
      tlb.accepts_true _, rfl⟩

theorem Pager.resident_eq (s : Pager) (p page f : Nat) (isWrite moved recorded : Bool) :
    s.resident p page f isWrite moved recorded =
      match s.writable p page f isWrite moved with
      | (none, s') => (.internalError, s')
      | (some g, s') => if recorded then (.ok, s'.notify g isWrite) else (.internalError, s') := rfl

theorem Pager.resident_none {moved : Bool} (h : (s.writable p page f isWrite moved).1 = none)
    (recorded : Bool) : s.resident p page f isWrite moved recorded =
      (.internalError, (s.writable p page f isWrite moved).2) := by
  rw [Pager.resident_eq]
  generalize s.writable p page f isWrite moved = r at h
  obtain ⟨g, s'⟩ := r
  cases h
  rfl

theorem Pager.resident_some {moved : Bool} {g : Nat}
    (h : (s.writable p page f isWrite moved).1 = some g) (recorded : Bool) :
    s.resident p page f isWrite moved recorded =
      if recorded then (.ok, (s.writable p page f isWrite moved).2.notify g isWrite)
      else (.internalError, (s.writable p page f isWrite moved).2) := by
  rw [Pager.resident_eq]
  generalize s.writable p page f isWrite moved = r at h
  obtain ⟨g, s'⟩ := r
  cases h
  rfl

/-- The frame that comes out of a resident access is in use. -/
theorem Pager.Consistent.writable (h : s.Consistent) (hpage : page < 2 ^ 52)
    (hocc : (s.physical.frames f).occupied = true)
    (hw : isWrite = true → s.Writable p page f) (moved : Bool) :
    (s.writable p page f isWrite moved).2.Consistent ∧
      ∀ g, (s.writable p page f isWrite moved).1 = some g →
        ((s.writable p page f isWrite moved).2.physical.frames g).occupied = true := by
  cases isWrite with
  | true => exact h.cowWrite hpage hocc (hw rfl) moved
  | false => exact ⟨h, fun g hg => by cases hg; exact hocc⟩

theorem World.Shows.notifyUsed (h : s.Consistent) (hs : w.Shows backdrop s tlb)
    (hocc : (s.physical.frames f).occupied = true) (isWrite : Bool) :
    Comp.Returns (virtualMemoryNotifyAccess f isWrite) w fun _ w' =>
      w'.Shows backdrop (s.notify f isWrite) tlb :=
  hs.notify (h.frame_lt hocc) hocc
    (replacementPolicyOnAccess_spec h.policy ((h.loaded f).trans hocc)).code isWrite

/-- An access after a TLB hit. -/
theorem World.Shows.accessHit (h : s.Consistent) (hs : w.Shows backdrop s tlb)
    (hx : backdrop p = some x) (hp : p ∈ s.processes) (ha : a < wordSize)
    (hocc : (s.physical.frames f).occupied = true)
    (hw : isWrite = true → s.Writable p (addressPageNumber a) f) (htlb : tlb.Wf) :
    Comp.Ends (virtualMemoryAccessHit p a (addressPageNumber a) f isWrite) w fun r w' =>
      w'.Accessed (backdrop.looked (some f) 1) s tlb
        (fun _ => s.writableCalls p (addressPageNumber a) f isWrite) 1
        p (addressPageNumber a)
        (fun moved _ => s.resident p (addressPageNumber a) f isWrite moved true)
        (if r.isSome then .ok else .internalError) := by
  unfold virtualMemoryAccessHit
  refine Comp.Returns.bindEnds (P := fun _ w' => w'.Shows (backdrop.looked (some f) 1) s tlb)
    hs.tlbStatsStep fun _ w₁ hs₁ => ?_
  refine Comp.Ends.bind (World.Shows.writableFrame h hs₁ hx hp hw htlb) (fun g w₂ h₂ => ?_)
    fun w₂ h₂ => ?_
  · obtain ⟨moved, tlb', hs₂, hg, ht, hmoved, hcalls⟩ := h₂
    obtain ⟨hc, hused⟩ := h.writable (addressPageNumber_lt ha) hocc hw moved
    have hend := Pager.resident_some hg true
    rw [if_pos rfl] at hend
    refine (World.Shows.notifyUsed hc hs₂ (hused g hg) isWrite).ends fun _ w₃ hs₃ =>
      ⟨moved, true, tlb', ?_, ?_, ?_, hmoved, tlb.accepts_true _, hcalls⟩
    all_goals
      dsimp only
      rw [hend]
    · exact hs₃
    · rfl
    · exact ht.congr rfl
  · obtain ⟨moved, tlb', hs₂, hg, ht, hmoved, hcalls⟩ := h₂
    have hend := Pager.resident_none hg true
    refine ⟨moved, true, tlb', ?_, ?_, ?_, hmoved, tlb.accepts_true _, hcalls⟩
    all_goals
      dsimp only
      rw [hend]
    · exact hs₂
    · rfl
    · exact ht

/-- An access after a page walk. -/
theorem World.Shows.accessWalked (h : s.Consistent) (hs : w.Shows backdrop s tlb)
    (hx : backdrop p = some x) (hp : p ∈ s.processes) (ha : a < wordSize)
    (hm : s.mapped p (addressPageNumber a) = some f)
    (hw : isWrite = true → s.Writable p (addressPageNumber a) f) (htlb : tlb.Wf) :
    Comp.Ends (virtualMemoryAccessWalked p (s.pid p) a (addressPageNumber a) f isWrite) w
      fun r w' => w'.Accessed backdrop s tlb
        (s.walkedCalls p (addressPageNumber a) f isWrite) 2 p (addressPageNumber a)
        (s.resident p (addressPageNumber a) f isWrite)
        (if r.isSome then .ok else .internalError) := by
  have hocc := h.occupied_of_mapped hm
  have hpid := h.live p hp
  unfold virtualMemoryAccessWalked
  refine Comp.Ends.bind (World.Shows.writableFrame h hs hx hp hw htlb) (fun g w₁ h₁ => ?_)
    fun w₁ h₁ => ?_
  · obtain ⟨moved, tlb', hs₁, hg, ht, hmoved, hcalls⟩ := h₁
    obtain ⟨hc, hused⟩ := h.writable (addressPageNumber_lt ha) hocc hw moved
    have hmapped : (s.writable p (addressPageNumber a) f isWrite moved).2.mapped p
        (addressPageNumber a) = some g := by
      cases isWrite with
      | true => exact h.cowWrite_mapped hm (hw rfl) moved hg
      | false =>
        cases hg
        exact hm
    have hwalked : s.walkedCalls p (addressPageNumber a) f isWrite moved =
        s.writableCalls p (addressPageNumber a) f isWrite ++
          [.insert (s.pid p) (addressPageNumber a) g] := by
      rw [Pager.walkedCalls, hg]
    have hrecord : tlb.Accepts (s.walkedCalls p (addressPageNumber a) f isWrite moved)
        (tlbAccepts tlb' (s.pid p) (addressPageNumber a) g) := by
      rw [hwalked]
      exact Tlb.accepts_insert _ hcalls hpid _ g []
    have hmoved' : tlb.Accepts (s.walkedCalls p (addressPageNumber a) f isWrite moved) moved := by
      rw [hwalked]
      exact hmoved.append _
    refine (hs₁.record (s.pid p) (addressPageNumber a) g fun w' tlb₂ hs₂ =>
      World.Shows.notifyUsed hc hs₂ (hused g hg) isWrite).mono fun r w₂ hend => ?_
    have htrace := ht.insert hpid hmapped
    have hperformed : (tlbInsert tlb' (s.pid p) (addressPageNumber a) g).2 =
        tlb.perform (s.walkedCalls p (addressPageNumber a) f isWrite moved) := by
      rw [hwalked, Tlb.perform_append, ← hcalls]
      rfl
    generalize tlbAccepts tlb' (s.pid p) (addressPageNumber a) g = accepted at hend hrecord
    have hres := Pager.resident_some hg accepted
    cases accepted with
    | true =>
      rw [if_pos rfl] at hres
      obtain ⟨rfl, hs'⟩ := hend
      exact ⟨moved, true, _, by rw [hres]; exact hs', by rw [hres]; rfl,
        by rw [hres]; exact htrace.congr rfl, hmoved', hrecord, hperformed⟩
    | false =>
      rw [if_neg Bool.false_ne_true] at hres
      obtain ⟨rfl, hs'⟩ := hend
      exact ⟨moved, false, _, by rw [hres]; exact hs', by rw [hres]; rfl,
        by rw [hres]; exact htrace, hmoved', hrecord, hperformed⟩
  · obtain ⟨moved, tlb', hs₁, hg, ht, hmoved, hcalls⟩ := h₁
    have hend := Pager.resident_none hg true
    have hwalked : s.walkedCalls p (addressPageNumber a) f isWrite moved =
        s.writableCalls p (addressPageNumber a) f isWrite := by
      rw [Pager.walkedCalls, hg, List.append_nil]
    exact ⟨moved, true, tlb', by rw [hend]; exact hs₁, by rw [hend]; rfl,
      by rw [hend]; exact ht.mono (by omega) fun _ _ _ hk => hk,
      by rw [hwalked]; exact hmoved, tlb.accepts_true _, by rw [hwalked]; exact hcalls⟩

/-! ## Accesses -/

theorem virtualMemoryRegisterAccess_eq (accessType : VirtualMemoryAccessType) :
    virtualMemoryRegisterAccess accessType = onStats fun stats =>
      { stats with
        totalAccesses := increment stats.totalAccesses
        readAccesses := if decide (accessType = .write) then stats.readAccesses
          else increment stats.readAccesses
        writeAccesses := if decide (accessType = .write) then increment stats.writeAccesses
          else stats.writeAccesses } := by
  cases accessType <;> rfl

/-- The frame a call finds in the TLB. -/
def Tlb.found (tlb : Tlb) (pid : Int) (page : Nat) : Option Nat := (tlbLookup tlb pid page).1

theorem Tlb.found_some {pid : Int} (h : tlb.found pid page = some f) : tlb.Holds pid page f :=
  tlbLookup_some h

theorem tlbLookup_miss {pid : Int} (h : tlb.found pid page = none) :
    (tlbLookup tlb pid page).2 = tlb := by
  unfold Tlb.found at h
  unfold tlbLookup at h ⊢
  split
  · rfl
  · rename_i hpid
    rw [if_neg hpid] at h
    split at h
    · cases h
    · rfl

/-- A trace depends on the pids, page maps and frames only. -/
theorem Pager.Traced.of_same {s₀ : Pager} (h : s₀.Traced tlb k p page s' tlb')
    (hpid : s₀.pid = s.pid) (hmapped : s₀.mapped = s.mapped) (hphysical : s₀.physical = s.physical) :
    s.Traced tlb k p page s' tlb' := by
  unfold Pager.Traced Pager.Keeps Pager.PagesIn at *
  rwa [hpid, hmapped, hphysical] at h

/-- The TLB after the lookup of a call. -/
def Tlb.looked (tlb : Tlb) (pid : Int) (page : Nat) : Tlb := (tlbLookup tlb pid page).2

/-- What a call that accesses the page `page` of `p` leaves behind. The
first of its TLB calls is the lookup. -/
def World.Done {α : Type} (w' : World) (backdrop : Backdrop) (s : Pager) (tlb : Tlb)
    (calls : TlbAnswers → List TlbCall) (p page : Nat) (end_ : TlbAnswers → α × Pager)
    (result : α) : Prop :=
  ∃ answers tlb' levels, answers.hit = tlb.found (s.pid p) page ∧
    (1 ≤ levels ∧ levels ≤ pageTableLevels) ∧
    w'.Shows (backdrop.looked answers.hit levels) (end_ answers).2 tlb' ∧ (end_ answers).1 = result ∧
    s.Traced tlb 3 p page (end_ answers).2 tlb' ∧
    (tlb.looked (s.pid p) page).Accepts (calls answers).tail answers.moved ∧
    (tlb.looked (s.pid p) page).Accepts (calls answers).tail answers.recorded ∧
    tlb' = tlb.perform (calls answers)

theorem World.Done.of_end {α : Type} {end_ : TlbAnswers → α × Pager} {answers : TlbAnswers}
    {result : α} {levels : Nat} (hend : end_ answers = (result, s'))
    (hhit : answers.hit = tlb.found (s.pid p) page)
    (hlevels : 1 ≤ levels ∧ levels ≤ pageTableLevels)
    (hs : w'.Shows (backdrop.looked answers.hit levels) s' tlb')
    (ht : s.Traced tlb 3 p page s' tlb') {calls : TlbAnswers → List TlbCall}
    (hmoved : (tlb.looked (s.pid p) page).Accepts (calls answers).tail answers.moved)
    (hrecorded : (tlb.looked (s.pid p) page).Accepts (calls answers).tail answers.recorded)
    (hcalls : tlb' = tlb.perform (calls answers)) :
    w'.Done backdrop s tlb calls p page end_ result :=
  ⟨answers, tlb', levels, hhit, hlevels, by rw [hend]; exact hs, by rw [hend],
    by rw [hend]; exact ht, hmoved, hrecorded, hcalls⟩

theorem Pager.access_hit {answers : TlbAnswers} (h : answers.hit = some f) (p page : Nat)
    (isWrite : Bool) : s.access answers p page isWrite =
      ((s.register p).count isWrite).resident p page f isWrite answers.moved true := by
  simp only [Pager.access, h]

theorem Pager.access_walked {answers : TlbAnswers} (h : answers.hit = none)
    (hm : s.mapped p page = some f) (isWrite : Bool) : s.access answers p page isWrite =
      ((s.register p).count isWrite).resident p page f isWrite answers.moved answers.recorded := by
  have hmapped : ((s.register p).count isWrite).mapped p page = some f := by
    rw [Pager.register_eq]
    exact hm
  simp only [Pager.access, h, hmapped]

theorem Pager.access_fault {answers : TlbAnswers} (h : answers.hit = none)
    (hm : s.mapped p page = none) (isWrite : Bool) : s.access answers p page isWrite =
      ((s.register p).count isWrite).fault p page isWrite answers.recorded := by
  have hmapped : ((s.register p).count isWrite).mapped p page = none := by
    rw [Pager.register_eq]
    exact hm
  simp only [Pager.access, h, hmapped]

/-- Where an access looks for the frame of its page. -/
theorem Pager.access_cases (s : Pager) (answers : TlbAnswers) (p page : Nat) (isWrite : Bool) :
    (∃ f recorded, (answers.hit = some f ∨ answers.hit = none ∧ s.mapped p page = some f) ∧
      s.access answers p page isWrite =
        ((s.register p).count isWrite).resident p page f isWrite answers.moved recorded) ∨
      answers.hit = none ∧ s.mapped p page = none ∧ s.access answers p page isWrite =
        ((s.register p).count isWrite).fault p page isWrite answers.recorded := by
  cases hhit : answers.hit with
  | some f => exact Or.inl ⟨f, true, Or.inl rfl, Pager.access_hit hhit p page isWrite⟩
  | none =>
    cases hm : s.mapped p page with
    | some f =>
      exact Or.inl ⟨f, answers.recorded, Or.inr ⟨rfl, rfl⟩, Pager.access_walked hhit hm isWrite⟩
    | none => exact Or.inr ⟨rfl, rfl, Pager.access_fault hhit hm isWrite⟩

/-- The three ways of an access: the TLB knows the page, the page walk
finds it, or it is not resident. -/
theorem World.Shows.accessPaths (hs : w.Shows backdrop s tlb) (hx : backdrop p = some x)
    (accessType : VirtualMemoryAccessType) {Q : VirtualMemoryAccessResult → World → Prop}
    (hhit : ∀ f w', tlb.found (s.pid p) (addressPageNumber a) = some f →
      w'.Shows backdrop ((s.register p).count (decide (accessType = .write)))
        (tlb.looked (s.pid p) (addressPageNumber a)) → Comp.Returns (do
          let done ← Comp.attempt (virtualMemoryAccessHit p a (addressPageNumber a) f
            (decide (accessType = .write)))
          return if done.isSome then .ok else .internalError) w' Q)
    (hwalked : ∀ f levels w', tlb.found (s.pid p) (addressPageNumber a) = none →
      s.mapped p (addressPageNumber a) = some f → (1 ≤ levels ∧ levels ≤ pageTableLevels) →
      w'.Shows (backdrop.looked none levels)
        ((s.register p).count (decide (accessType = .write)))
        (tlb.looked (s.pid p) (addressPageNumber a)) → Comp.Returns (do
          let done ← Comp.attempt (virtualMemoryAccessWalked p (s.pid p) a (addressPageNumber a) f
            (decide (accessType = .write)))
          return if done.isSome then .ok else .internalError) w' Q)
    (hfault : ∀ levels w', tlb.found (s.pid p) (addressPageNumber a) = none →
      s.mapped p (addressPageNumber a) = none → (1 ≤ levels ∧ levels ≤ pageTableLevels) →
      w'.Shows (backdrop.looked none levels)
        ((s.register p).count (decide (accessType = .write)))
        (tlb.looked (s.pid p) (addressPageNumber a)) → Comp.Returns
          (virtualMemoryAccessFault p (s.pid p) a (addressPageNumber a)
            (decide (accessType = .write))) w' Q) :
    Comp.Returns (virtualMemoryAccess p a accessType) w Q := by
  unfold virtualMemoryAccess
  refine Comp.Returns.bind (P := fun r w' => r = some () ∧ w'.Shows backdrop (s.register p) tlb)
    ((hs.register p).ends fun _ _ h => ⟨rfl, h⟩) fun registered w₁ h₁ => ?_
  obtain ⟨rfl, hs₁⟩ := h₁
  rw [if_neg (by simp)]
  refine (hs₁.getTable hx).bind fun table w₂ h₂ => ?_
  obtain ⟨rfl, hs₂⟩ := h₂
  rw [virtualMemoryRegisterAccess_eq]
  generalize decide (accessType = .write) = isWrite at hhit hwalked hfault
  refine Comp.Returns.bind (P := fun _ w' =>
    w'.Shows backdrop ((s.register p).count isWrite) tlb) hs₂.statsStep fun _ w₃ hs₃ => ?_
  have hsame : ((s.register p).count isWrite).pid = s.pid ∧
      ((s.register p).count isWrite).mapped = s.mapped := by
    rw [Pager.register_eq]
    exact ⟨rfl, rfl⟩
  refine (hs₃.getPid hx).bind fun pid w₄ h₄ => ?_
  obtain ⟨rfl, hs₄⟩ := h₄
  rw [hsame.1]
  refine (hs₄.tlbStep (tlbLookup · (s.pid p) (addressPageNumber a))).bind fun hit w₅ h₅ => ?_
  obtain ⟨rfl, hs₅⟩ := h₅
  cases hfound : (tlbLookup tlb (s.pid p) (addressPageNumber a)).1 with
  | some f => exact hhit f w₅ hfound hs₅
  | none =>
    refine (hs₅.walk hx a).bind fun r w₆ h₆ => ?_
    obtain ⟨entry, levels⟩ := r
    obtain ⟨hentry, hlevels, hs₆⟩ := h₆
    rw [hsame.2] at hentry
    refine Comp.Returns.bind (P := fun _ w' => w'.Shows (backdrop.looked none levels)
      ((s.register p).count isWrite) (tlb.looked (s.pid p) (addressPageNumber a)))
      hs₆.tlbStatsStep fun _ w₇ hs₇ => ?_
    cases entry with
    | some entry => exact hwalked entry.frameNumber levels w₇ hfound hentry.symm hlevels hs₇
    | none => exact hfault levels w₇ hfound hentry.symm hlevels hs₇

theorem World.Shows.access (h : s.Consistent) (hs : w.Shows backdrop s tlb)
    (hp : 0 ≤ s.pid p) (ha : a < wordSize) (accessType : VirtualMemoryAccessType)
    (had : s.Admits ⟨tlb.found (s.pid p) (addressPageNumber a), true, true⟩ p
      (addressPageNumber a) (decide (accessType = .write))) (htlb : tlb.Wf) :
    Comp.Returns (virtualMemoryAccess p a accessType) w fun result w' =>
      w'.Done backdrop s tlb
        (s.accessCalls · p (addressPageNumber a) (decide (accessType = .write))) p
        (addressPageNumber a)
        (s.access · p (addressPageNumber a) (decide (accessType = .write))) result := by
  obtain ⟨x, hx⟩ := hs.process_of_pid hp
  have hlooked := htlb.became.lookup (s.pid p) (addressPageNumber a)
  refine hs.accessPaths hx accessType ?_ ?_ ?_
  all_goals
    generalize decide (accessType = .write) = isWrite at had
    have hc : ((s.register p).count isWrite).Consistent := (h.register hp).setStats _
    have hmem : p ∈ ((s.register p).count isWrite).processes := s.mem_register p
    generalize hcounted : (s.register p).count isWrite = counted at hc hmem
    obtain ⟨hpids, hmaps, hphysical, hcow⟩ : counted.pid = s.pid ∧ counted.mapped = s.mapped ∧
        counted.physical = s.physical ∧ counted.cow = s.cow := by
      rw [← hcounted, Pager.register_eq]
      exact ⟨rfl, rfl, rfl, rfl⟩
    have hperform : ∀ answers, tlb.perform
        (s.accessCalls answers p (addressPageNumber a) isWrite) =
          (tlb.looked (s.pid p) (addressPageNumber a)).perform
            (counted.answeredCalls answers p (addressPageNumber a) isWrite) := by
      intro answers
      rw [Pager.accessCalls, hcounted]
      rfl
    have haccepts : ∀ answers accepted, (tlb.looked (s.pid p) (addressPageNumber a)).Accepts
        (counted.answeredCalls answers p (addressPageNumber a) isWrite) accepted →
        (tlb.looked (s.pid p) (addressPageNumber a)).Accepts
          (s.accessCalls answers p (addressPageNumber a) isWrite).tail accepted := by
      intro answers accepted ha
      rw [Pager.accessCalls, hcounted, List.tail_cons]
      exact ha
    have hadmits : ∀ f, tlb.found (s.pid p) (addressPageNumber a) = some f ∨
        (tlb.found (s.pid p) (addressPageNumber a) = none ∧
          s.mapped p (addressPageNumber a) = some f) →
        (counted.physical.frames f).occupied = true ∧
          (isWrite = true → counted.Writable p (addressPageNumber a) f) := by
      unfold Pager.Writable
      rw [hphysical, hcow]
      exact had
  · intro f w₅ hfound hs₅
    obtain ⟨hocc, hw⟩ := hadmits f (Or.inl hfound)
    refine Comp.Returns.bind (World.Shows.accessHit hc hs₅ hx hmem ha hocc hw hlooked.wf)
      fun r w₆ h₆ => ?_
    obtain ⟨moved, _, tlb', hs', hr, ht, hmoved, _, hcalls⟩ := h₆
    have hend : s.access ⟨some f, moved, true⟩ p (addressPageNumber a) isWrite =
        (if r.isSome then .ok else .internalError,
          (counted.resident p (addressPageNumber a) f isWrite moved true).2) := by
      rw [Pager.access_hit rfl, hcounted]
      exact Prod.ext hr rfl
    have htrace := (ht.of_same hpids hmaps hphysical).after_lookup htlb
    exact Comp.Returns.pure (World.Done.of_end hend hfound.symm (by decide) hs'
      (htrace.mono (by omega) fun _ _ _ hk => hk) (haccepts ⟨some f, moved, true⟩ moved hmoved)
      (Tlb.accepts_true _ _) (by rw [hperform]; exact hcalls))
  · intro f levels w₇ hfound hm' hlevels hs₇
    have hm : counted.mapped p (addressPageNumber a) = some f := hmaps ▸ hm'
    obtain ⟨_, hw⟩ := hadmits _ (Or.inr ⟨hfound, hm'⟩)
    rw [← hpids]
    refine Comp.Returns.bind (World.Shows.accessWalked hc hs₇ hx hmem ha hm hw hlooked.wf)
      fun r w₈ h₈ => ?_
    obtain ⟨moved, recorded, tlb', hs', hr, ht, hmoved, hrecorded, hcalls⟩ := h₈
    have hend : s.access ⟨none, moved, recorded⟩ p (addressPageNumber a) isWrite =
        (if r.isSome then .ok else .internalError, (counted.resident p (addressPageNumber a)
          f isWrite moved recorded).2) := by
      rw [Pager.access_walked rfl hm', hcounted]
      exact Prod.ext hr rfl
    exact Comp.Returns.pure (World.Done.of_end hend hfound.symm hlevels hs'
      ((ht.of_same hpids hmaps hphysical).after_lookup htlb)
      (haccepts _ _ (by simp only [Pager.answeredCalls, hm]; exact hmoved))
      (haccepts _ _ (by simp only [Pager.answeredCalls, hm]; exact hrecorded))
      (by rw [hperform]; simp only [Pager.answeredCalls, hm]; exact hcalls))
  · intro levels w₇ hfound hm' hlevels hs₇
    have hm : counted.mapped p (addressPageNumber a) = none := hmaps ▸ hm'
    have hmiss : ∀ g, ¬ (tlb.looked (s.pid p) (addressPageNumber a)).Holds
        (counted.pid p) (addressPageNumber a) g := fun g hh =>
      tlbLookup_none hp hfound g (by
        rw [← hpids]
        exact (tlbLookup_holds _ _ _ _ _).mp hh)
    rw [← hpids]
    refine (World.Shows.fault hc hs₇ hx hmem ha hm hlooked.wf hmiss isWrite).mono
      fun result w₈ h₈ => ?_
    obtain ⟨recorded, tlb', hs', hr, ht, hrecorded, hcalls⟩ := h₈
    have hend : s.access ⟨none, true, recorded⟩ p (addressPageNumber a) isWrite =
        (result, (counted.fault p (addressPageNumber a) isWrite recorded).2) := by
      rw [Pager.access_fault rfl hm', hcounted]
      exact Prod.ext hr rfl
    have htrace := (ht.of_same hpids hmaps hphysical).after_lookup htlb
    exact World.Done.of_end hend hfound.symm hlevels hs' (htrace.mono (by omega) fun _ _ _ hk => hk)
      (Tlb.accepts_true _ _)
      (haccepts _ _ (by simp only [Pager.answeredCalls, hm]; exact hrecorded))
      (by rw [hperform]; simp only [Pager.answeredCalls, hm]; exact hcalls)

/-- What an access needs, given the lookup alone. -/
theorem Pager.Admits.of_hit {answers answers' : TlbAnswers}
    (h : s.Admits answers p page isWrite) (hit : answers'.hit = answers.hit) :
    s.Admits answers' p page isWrite := by
  unfold Pager.Admits at *
  rwa [hit]

theorem readByte_eq {memory : PhysicalMemory} (hf : f < memory.frameCount)
    (hocc : (memory.frames f).occupied = true) (a : Nat) :
    physicalMemoryReadByte memory f (addressOffset a) = some (memory.data f (pageOffset a)) := by
  rw [physicalMemoryReadByte, if_neg (Nat.not_le.mpr hf), dif_pos (addressOffset_lt a),
    if_neg (by simp [hocc])]
  rfl

theorem writeByte_eq {memory : PhysicalMemory} (hf : f < memory.frameCount)
    (hocc : (memory.frames f).occupied = true) (a : Nat) (value : UInt8) :
    physicalMemoryWriteByte memory f (addressOffset a) value = (0, { memory with
      data := Function.update memory.data f
        (Function.update (memory.data f) (pageOffset a) value) }) := by
  rw [physicalMemoryWriteByte, if_neg (Nat.not_le.mpr hf), dif_pos (addressOffset_lt a),
    if_neg (by simp [hocc])]
  rfl

theorem World.Shows.readByte (h : s.Consistent) (hs : w.Shows backdrop s tlb)
    (hp : 0 ≤ s.pid p) (ha : a < wordSize)
    (had : s.Admits ⟨tlb.found (s.pid p) (addressPageNumber a), true, true⟩ p
      (addressPageNumber a) false) (htlb : tlb.Wf) :
    Comp.Ends (virtualMemoryReadByte p a) w fun r w' =>
      w'.Done backdrop s tlb (s.accessCalls · p (addressPageNumber a) false) p
        (addressPageNumber a) (s.readByte · p a) r := by
  obtain ⟨x, hx⟩ := hs.process_of_pid hp
  unfold virtualMemoryReadByte
  refine (World.Shows.access h hs hp ha .read had htlb).bindEnds fun result w₁ h₁ => ?_
  obtain ⟨answers, tlb', levels, hhit, hlevels, hs₁, hr, ht, hmoved, hrecorded, hcalls⟩ := h₁
  have hc : (s.access answers p (addressPageNumber a) false).2.Consistent :=
    h.access hp (addressPageNumber_lt ha) (had.of_hit hhit)
  have hend : s.readByte answers p a = if result.isError
      then (none, (s.access answers p (addressPageNumber a) false).2)
      else (((s.access answers p (addressPageNumber a) false).2.mapped p
        (addressPageNumber a)).map fun f =>
          (s.access answers p (addressPageNumber a) false).2.physical.data f (pageOffset a),
        (s.access answers p (addressPageNumber a) false).2) := by
    rw [← hr]
    rfl
  replace hs₁ : w₁.Shows (backdrop.looked answers.hit levels)
    (s.access answers p (addressPageNumber a) false).2 tlb' := hs₁
  replace ht : s.Traced tlb 3 p (addressPageNumber a)
    (s.access answers p (addressPageNumber a) false).2 tlb' := ht
  generalize (s.access answers p (addressPageNumber a) false).2 = s' at *
  cases herror : result.isError with
  | true =>
    rw [herror, if_pos rfl] at hend
    exact Comp.Ends.stop rfl (World.Done.of_end hend hhit hlevels hs₁ ht hmoved hrecorded hcalls)
  | false =>
    rw [herror, if_neg Bool.false_ne_true] at hend
    refine Comp.Ends.pass rfl ?_
    refine (hs₁.getTable hx).bindEnds fun table w₂ h₂ => ?_
    obtain ⟨rfl, hs₂⟩ := h₂
    refine (hs₂.lookup hx a).bindEnds fun entry w₃ h₃ => ?_
    obtain ⟨hentry, _, hs₃⟩ := h₃
    rw [← hentry] at hend
    cases entry with
    | none => exact Comp.Ends.fail (World.Done.of_end hend hhit hlevels hs₃ ht hmoved hrecorded hcalls)
    | some entry =>
      have hm : s'.mapped p (addressPageNumber a) = some entry.frameNumber := hentry.symm
      have hocc := hc.occupied_of_mapped hm
      refine Comp.Ends.found rfl ?_
      refine hs₃.get.bindEnds fun r w₄ hget => ?_
      obtain ⟨hs₄, rfl⟩ := hget
      rw [hs₄.physical, readByte_eq (hc.frame_lt hocc) hocc]
      exact Comp.Ends.pure (World.Done.of_end hend hhit hlevels hs₄ ht hmoved hrecorded hcalls)

theorem Pager.writeByte_eq (s : Pager) (answers : TlbAnswers) (p a : Nat) (value : UInt8) :
    s.writeByte answers p a value =
      if (s.access answers p (addressPageNumber a) true).1.isError
      then (false, (s.access answers p (addressPageNumber a) true).2)
      else match (s.access answers p (addressPageNumber a) true).2.mapped p
          (addressPageNumber a) with
        | none => (false, (s.access answers p (addressPageNumber a) true).2)
        | some f => (true, (s.access answers p (addressPageNumber a) true).2.setByte f
            (pageOffset a) value) := rfl

theorem World.Shows.writeByte (h : s.Consistent) (hs : w.Shows backdrop s tlb)
    (hp : 0 ≤ s.pid p) (ha : a < wordSize)
    (had : s.Admits ⟨tlb.found (s.pid p) (addressPageNumber a), true, true⟩ p
      (addressPageNumber a) true) (htlb : tlb.Wf) (value : UInt8) :
    Comp.Ends (virtualMemoryWriteByte p a value) w fun r w' =>
      w'.Done backdrop s tlb (s.accessCalls · p (addressPageNumber a) true) p
        (addressPageNumber a) (s.writeByte · p a value) r.isSome := by
  obtain ⟨x, hx⟩ := hs.process_of_pid hp
  unfold virtualMemoryWriteByte
  refine (World.Shows.access h hs hp ha .write had htlb).bindEnds fun result w₁ h₁ => ?_
  obtain ⟨answers, tlb', levels, hhit, hlevels, hs₁, hr, ht, hmoved, hrecorded, hcalls⟩ := h₁
  have hc : (s.access answers p (addressPageNumber a) true).2.Consistent :=
    h.access hp (addressPageNumber_lt ha) (had.of_hit hhit)
  replace hr : (s.access answers p (addressPageNumber a) true).1 = result := hr
  have hend := s.writeByte_eq answers p a value
  rw [hr] at hend
  replace hs₁ : w₁.Shows (backdrop.looked answers.hit levels)
    (s.access answers p (addressPageNumber a) true).2 tlb' := hs₁
  replace ht : s.Traced tlb 3 p (addressPageNumber a)
    (s.access answers p (addressPageNumber a) true).2 tlb' := ht
  generalize (s.access answers p (addressPageNumber a) true).2 = s' at *
  cases herror : result.isError with
  | true =>
    rw [herror, if_pos rfl] at hend
    exact Comp.Ends.stop rfl (World.Done.of_end hend hhit hlevels hs₁ ht hmoved hrecorded hcalls)
  | false =>
    rw [herror, if_neg Bool.false_ne_true] at hend
    refine Comp.Ends.pass rfl ?_
    refine (hs₁.getTable hx).bindEnds fun table w₂ h₂ => ?_
    obtain ⟨rfl, hs₂⟩ := h₂
    refine (hs₂.lookup hx a).bindEnds fun entry w₃ h₃ => ?_
    obtain ⟨hentry, _, hs₃⟩ := h₃
    cases entry with
    | none =>
      simp only [← hentry, Option.map_none] at hend
      exact Comp.Ends.fail (World.Done.of_end hend hhit hlevels hs₃ ht hmoved hrecorded hcalls)
    | some entry =>
      simp only [← hentry, Option.map_some] at hend
      have hm : s'.mapped p (addressPageNumber a) = some entry.frameNumber := hentry.symm
      have hocc := hc.occupied_of_mapped hm
      have hwrite := hs₃.physicalStep
        (physicalMemoryWriteByte · entry.frameNumber (addressOffset a) value)
      rw [writeByte_eq (hc.frame_lt hocc) hocc] at hwrite
      refine Comp.Ends.found rfl ?_
      refine hwrite.bindEnds fun code w₄ h₄ => ?_
      obtain ⟨rfl, hs₄⟩ := h₄
      exact Comp.Ends.check
        (fun _ => World.Done.of_end hend hhit hlevels hs₄ (ht.congr rfl) hmoved hrecorded hcalls)
        fun hne => absurd rfl hne

end VmSim
