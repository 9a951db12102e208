/-
VmSim.VirtualMemory.CopyOnWrite — the copy-on-write paths of the code are
those of the pager.
-/
import VmSim.VirtualMemory.Faults

namespace VmSim

open Lib

variable {w w' : World} {backdrop : Backdrop} {s s' : Pager} {tlb : Tlb}
  {p q page f g a : Nat} {x : Process} {isWrite : Bool}

/-! ## Owners -/

/-- The three writes of `virtual_memory_reassign_frame_owner` restore
everything but the owner. -/
theorem reassigned_eq {frame : PhysicalFrame} (hocc : frame.occupied = true)
    (hdirty : frame.dirty = true → frame.referenced = true) (q : Nat) (pid : Int) :
    (if frame.referenced || frame.dirty then
        (PhysicalFrame.assigned q pid frame.virtualPage).touch frame.dirty
      else .assigned q pid frame.virtualPage) =
      { frame with ownerProcess := some q, ownerPid := pid } := by
  obtain ⟨occupied, dirty, referenced, ownerPid, ownerProcess, virtualPage⟩ := frame
  cases hocc
  cases dirty <;> cases referenced <;> simp_all [PhysicalFrame.assigned, PhysicalFrame.touch]

theorem World.Shows.reassign (hs : w.Shows backdrop s tlb) (hf : f < s.physical.frameCount)
    (hocc : (s.physical.frames f).occupied = true)
    (hdirty : (s.physical.frames f).dirty = true → (s.physical.frames f).referenced = true)
    (hx : backdrop q = some x) (hpid : 0 ≤ s.pid q)
    (hpage : page = (s.physical.frames f).virtualPage) :
    Comp.Returns (virtualMemoryReassignFrameOwner f q page) w fun _ w' =>
      w'.Shows backdrop (s.handOver f q) tlb := by
  subst hpage
  have hreplace : physicalMemoryReplaceFrame s.physical f q (s.pid q)
      (s.physical.frames f).virtualPage =
        (0, physicalFrameAssign s.physical f q (s.pid q) (s.physical.frames f).virtualPage) := by
    rw [physicalMemoryReplaceFrame, if_neg (by simpa [hf] using hpid), if_neg (by simp [hocc])]
  have hframe := reassigned_eq hocc hdirty q (s.pid q)
  unfold virtualMemoryReassignFrameOwner
  refine hs.get.bind fun r w₁ hget => ?_
  obtain ⟨hs₁, rfl⟩ := hget
  rw [hs₁.physical, physicalMemoryGetFrame, if_neg (Nat.not_le.mpr hf), physicalMemoryReadPage,
    if_neg (by simp [hf, hocc])]
  refine Comp.Returns.bind (P := fun r w' => r = s.physical.frames f ∧ w' = w₁)
    (Comp.Returns.orFail rfl ⟨rfl, rfl⟩) fun frame w₂ h₂ => ?_
  obtain ⟨rfl, rfl⟩ := h₂
  refine Comp.Returns.bind (P := fun _ w' => w'.Shows backdrop s tlb)
    (Comp.Returns.failIf (by simp [hocc]) hs₁) fun _ w₃ hs₃ => ?_
  refine Comp.Returns.bind (P := fun r w' => r = s.physical.data f ∧ w'.Shows backdrop s tlb)
    (Comp.Returns.orFail rfl ⟨rfl, hs₃⟩) fun data w₄ h₄ => ?_
  obtain ⟨rfl, hs₄⟩ := h₄
  refine (hs₄.getPid hx).bind fun pid w₅ h₅ => ?_
  obtain ⟨rfl, hs₅⟩ := h₅
  refine (hs₅.physicalStep (physicalMemoryReplaceFrame · f q (s.pid q)
    (s.physical.frames f).virtualPage)).bindCheck
    (fun _ _ hc => hc.1.trans (congrArg Prod.fst hreplace)) fun _ w₆ h₆ => ?_
  have hs₆ := h₆.2
  simp only [hreplace] at hs₆
  refine (hs₆.fill hf (by simp [physicalFrameAssign, PhysicalMemory.setFrame,
    PhysicalFrame.assigned]) (s.physical.data f)).bindCheck (fun _ _ hc => hc.1) fun _ w₇ h₇ => ?_
  have hs₇ := h₇.2
  simp only [Pager.fill, physicalFrameAssign, PhysicalMemory.setFrame, Function.update_idem,
    Function.update_eq_self] at hs₇
  split
  · rename_i hbits
    rw [if_pos hbits] at hframe
    refine (hs₇.mark hf (by simp [PhysicalFrame.assigned]) (s.physical.frames f).dirty).bind
      fun code w₈ h₈ => Comp.Returns.check h₈.1 ?_
    have hs₈ := h₈.2
    simp only [Pager.touch, Function.update_self, Function.update_idem, hframe] at hs₈
    exact hs₈
  · rename_i hbits
    rw [if_neg hbits] at hframe
    rw [hframe] at hs₇
    exact Comp.Returns.pure hs₇

/-- The search for another user of a frame. -/
theorem World.Shows.findUserIn (hs : w.Shows backdrop s tlb) (hf : f < s.cow.frameCount)
    (hpage : page < 2 ^ 52) (registry : List Nat)
    (hall : ∀ q ∈ registry, q ≠ p → ⟨q, page⟩ ∈ s.cow.frames f →
      s.mapped q page = some f ∧ ∃ y, backdrop q = some y) :
    Comp.Returns (virtualMemoryFindFrameUserIn f page p registry) w fun r w' =>
      r = registry.find? (fun q => decide (q ≠ p) && (s.cow.frames f).contains ⟨q, page⟩) ∧
        w'.Shows backdrop s tlb := by
  induction registry generalizing w with
  | nil => exact Comp.Returns.pure ⟨rfl, hs⟩
  | cons candidate rest ih =>
    have hrest := fun q hq => hall q (List.mem_cons_of_mem candidate hq)
    unfold virtualMemoryFindFrameUserIn
    refine hs.get.bind fun r w₁ hget => ?_
    obtain ⟨hs₁, rfl⟩ := hget
    have hhas : cowManagerHasMapping w₁.memory.cowManager f candidate page =
        (s.cow.frames f).contains ⟨candidate, page⟩ := by
      rw [hs₁.cow, cowManagerHasMapping, decide_eq_true hf, Bool.true_and]
    rw [hhas, List.find?_cons]
    split
    · rename_i hskip
      have hno : (decide (candidate ≠ p) && (s.cow.frames f).contains ⟨candidate, page⟩) = false := by
        rcases hskip with e | e
        · simp [e]
        · simp only [Bool.not_eq_true'] at e
          rw [e, Bool.and_false]
      rw [hno]
      exact ih hs₁ hrest
    · rename_i htake
      simp only [not_or, Bool.not_eq_true', Bool.not_eq_false] at htake
      have hmem : ⟨candidate, page⟩ ∈ s.cow.frames f := by simpa using htake.2
      obtain ⟨hmapped, y, hy⟩ := hall candidate List.mem_cons_self htake.1 hmem
      have hyes : (decide (candidate ≠ p) && (s.cow.frames f).contains ⟨candidate, page⟩) = true := by
        simp [htake.1, hmem]
      rw [hyes]
      refine (hs₁.getTable hy).bind fun table w₂ h₂ => ?_
      obtain ⟨rfl, hs₂⟩ := h₂
      refine (hs₂.lookup hy (pageAddress page)).bind fun entry w₃ h₃ => ?_
      obtain ⟨hframe, hpresent, hs₃⟩ := h₃
      rw [addressPageNumber_pageAddress hpage, hmapped] at hframe
      obtain ⟨e, rfl, he⟩ := Option.map_eq_some_iff.mp hframe
      have hany : (some e).any (fun e => e.present && e.frameNumber == f) = true := by
        simp [hpresent e rfl, he]
      rw [if_pos hany]
      exact Comp.Returns.pure ⟨rfl, hs₃⟩

/-! ## Saving and detaching the readers -/

theorem World.Shows.saveReaders (writer : CowMapping) (data : PageData) (readers : List CowMapping)
    (hs : w.Shows backdrop s tlb) (h : s.Consistent) (hswap : s.swap.isSome)
    (hreg : ∀ reader ∈ readers, reader.process ∈ s.processes) :
    Comp.Ends (Comp.forEach (virtualMemorySaveReader writer data) readers) w fun r w' =>
      r.isSome = (Pager.saveReaders writer data readers s).1 ∧
        w'.Shows backdrop (Pager.saveReaders writer data readers s).2 tlb := by
  induction readers generalizing w s with
  | nil => exact Comp.Ends.pure ⟨rfl, hs⟩
  | cons reader readers ih =>
    obtain ⟨hreader, hreg'⟩ := List.forall_mem_cons.mp hreg
    show Comp.Ends (virtualMemorySaveReader writer data reader >>= fun _ =>
      Comp.forEach (virtualMemorySaveReader writer data) readers) w _
    unfold virtualMemorySaveReader
    by_cases e : reader = writer
    · rw [if_pos e]
      have hskip : Pager.saveReaders writer data (reader :: readers) s =
          Pager.saveReaders writer data readers s := by
        rw [Pager.saveReaders, if_pos e]
      rw [hskip]
      exact ih hs h hswap hreg'
    · rw [if_neg e]
      obtain ⟨x, hx⟩ := hs.process_of_pid (h.live _ hreader)
      obtain ⟨swap, hsw⟩ := Option.isSome_iff_exists.mp hswap
      rw [Comp.bind_assoc]
      refine (hs.getPid hx).bindEnds fun pid w₁ h₁ => ?_
      obtain ⟨rfl, hs₁⟩ := h₁
      have hstore := hs₁.store hsw (s.pid reader.process) reader.virtualPage data
      refine Comp.Ends.bind hstore (fun _ w₂ h₂ => ?_) fun w₂ h₂ => ?_
      · cases hstored : s.store (s.pid reader.process) reader.virtualPage data with
        | none =>
          simp only [hstored] at h₂
          cases h₂.1
        | some s₁ =>
          simp only [hstored] at h₂
          have hnext : Pager.saveReaders writer data (reader :: readers) s =
              Pager.saveReaders writer data readers s₁ := by
            rw [Pager.saveReaders, if_neg e]
            simp only [hstored]
          have h₁ := h.store hreader hstored
          obtain ⟨_, _, _, rfl⟩ := Pager.store_eq hstored
          rw [hnext]
          exact ih h₂.2 h₁ rfl hreg'
      · cases hstored : s.store (s.pid reader.process) reader.virtualPage data with
        | none =>
          simp only [hstored] at h₂
          have hstop : Pager.saveReaders writer data (reader :: readers) s = (false, s) := by
            rw [Pager.saveReaders, if_neg e]
            simp only [hstored]
          rw [hstop]
          exact ⟨rfl, h₂.2⟩
        | some s₁ =>
          simp only [hstored] at h₂
          cases h₂.1

/-- Every mapping but the writer's taken away. -/
def Pager.dropReaders (writer : CowMapping) (f : Nat) : List CowMapping → Pager → Pager
  | [], s => s
  | reader :: readers, s =>
    if reader = writer then Pager.dropReaders writer f readers s
    else Pager.dropReaders writer f readers (s.drop reader.process reader.virtualPage f)

/-- What detaching the readers can do to the TLB. -/
def Pager.dropReadersKept (s : Pager) (writer : CowMapping) (readers : List CowMapping)
    (kept : Int → Nat → Nat → Prop) (pid : Int) (v g : Nat) : Prop :=
  kept pid v g ∧ ∀ reader ∈ readers, reader ≠ writer →
    ¬ (pid = s.pid reader.process ∧ v = reader.virtualPage)

theorem World.Shows.detachReaders (writer : CowMapping) {tlb₀ : Tlb} {k : Nat}
    {kept : Int → Nat → Nat → Prop} (readers : List CowMapping)
    (hs : w.Shows backdrop s tlb) (htlb : tlb₀.Became k kept tlb)
    (hf : f < s.cow.frameCount) (hnodup : readers.Nodup)
    (hreader : ∀ reader ∈ readers, reader ∈ s.cow.frames f ∧ 0 ≤ s.pid reader.process ∧
      s.mapped reader.process reader.virtualPage = some f ∧
      reader.virtualPage = page ∧ page < 2 ^ 52) :
    Comp.Returns (Comp.forEach (virtualMemoryDetachReader writer f) readers) w fun _ w' =>
      ∃ tlb', w'.Shows backdrop (Pager.dropReaders writer f readers s) tlb' ∧
        tlb₀.Became k (s.dropReadersKept writer readers kept) tlb' ∧
        tlb' = tlb.perform (s.readerCalls writer readers) := by
  induction readers generalizing w s tlb kept with
  | nil => exact Comp.Returns.pure ⟨tlb, hs, htlb.mono (Nat.le_refl k) (fun _ _ _ hk =>
      ⟨hk, fun _ hm => absurd hm (List.not_mem_nil)⟩), rfl⟩
  | cons reader readers ih =>
    obtain ⟨⟨hmem, hpid, hmapped, hpage, hlt⟩, hrest⟩ := List.forall_mem_cons.mp hreader
    obtain ⟨hnot, hnodup'⟩ := List.nodup_cons.mp hnodup
    show Comp.Returns (virtualMemoryDetachReader writer f reader >>= fun _ =>
      Comp.forEach (virtualMemoryDetachReader writer f) readers) w _
    unfold virtualMemoryDetachReader
    by_cases e : reader = writer
    · rw [if_pos e, Pager.dropReaders, if_pos e]
      refine (ih hs htlb hf hnodup' hrest).mono fun _ w' hend => ?_
      obtain ⟨tlb', hs', hbecame, hcalls⟩ := hend
      refine ⟨tlb', hs', hbecame.mono (Nat.le_refl k) fun pid v g hk => ⟨hk.1, ?_⟩, ?_⟩
      · exact List.forall_mem_cons.mpr ⟨fun hne => absurd e hne, hk.2⟩
      · rw [hcalls, Pager.readerCalls, Pager.readerCalls, List.filter_cons_of_neg (by simp [e])]
    · rw [if_neg e, Pager.dropReaders, if_neg e]
      obtain ⟨x, hx⟩ := hs.process_of_pid hpid
      have hlt' : reader.virtualPage < 2 ^ 52 := hpage ▸ hlt
      have hremove : cowManagerRemoveMapping s.cow f reader.process reader.virtualPage =
          (0, { s.cow with
            frames := Function.update s.cow.frames f ((s.cow.frames f).erase reader) }) := by
        rw [cowManagerRemoveMapping, cowManagerHasMapping, if_pos (by simp [hf, hmem])]
      have hbody : Comp.Returns (do
          Comp.failIf (reader.virtualPage > (wordSize - 1) >>> pageOffsetBits)
          let table ← processGetPageTable reader.process
          onHeap (pageTableUnmap table (pageAddress reader.virtualPage))
          let code ← onCow (cowManagerRemoveMapping · f reader.process reader.virtualPage)
          Comp.check code
          let pid ← processGetPid reader.process
          let _ ← onTlb (tlbInvalidate · pid reader.virtualPage)) w fun _ w' =>
            w'.Shows backdrop (s.drop reader.process reader.virtualPage f)
              (tlbInvalidate tlb (s.pid reader.process) reader.virtualPage).2 := by
        have hrange : ¬ reader.virtualPage > (wordSize - 1) >>> pageOffsetBits := by
          simp only [wordSize, pageOffsetBits, Nat.shiftRight_eq_div_pow]
          omega
        refine Comp.Returns.bind (P := fun _ w' => w'.Shows backdrop s tlb)
          (Comp.Returns.failIf (decide_eq_false hrange) hs) fun _ w₁ hs₁ => ?_
        refine (hs₁.getTable hx).bind fun table w₂ h₂ => ?_
        obtain ⟨rfl, hs₂⟩ := h₂
        refine (hs₂.unmap hx (by
          rw [addressPageNumber_pageAddress hlt', hmapped]
          exact Option.some_ne_none f)).bind fun _ w₃ hs₃ => ?_
        rw [addressPageNumber_pageAddress hlt'] at hs₃
        refine (hs₃.cowStep (cowManagerRemoveMapping · f reader.process
          reader.virtualPage)).bindCheck (fun _ _ hc => hc.1.trans (congrArg Prod.fst hremove))
          fun _ w₄ h₄ => ?_
        refine (h₄.2.getPid hx).bind fun pid w₅ h₅ => ?_
        obtain ⟨rfl, hs₅⟩ := h₅
        exact (hs₅.tlbStep _).bind fun _ w₆ h₆ => Comp.Returns.pure h₆.2
      refine hbody.bind fun _ w₁ hs₁ => ?_
      have hdrop := htlb.invalidate hpid reader.virtualPage
      refine (ih hs₁ hdrop (by simp [Pager.drop, hremove, hf]) hnodup' fun reader' hin => ?_).mono
        fun _ w' hend => ?_
      · obtain ⟨hmem', hpid', hmapped', hpage', _⟩ := hrest reader' hin
        have hne : reader' ≠ reader := fun he => hnot (he ▸ hin)
        have hprocess : reader'.process ≠ reader.process := by
          intro he
          apply hne
          obtain ⟨r, u⟩ := reader
          obtain ⟨r', u'⟩ := reader'
          simp_all
        refine ⟨?_, hpid', ?_, hpage', hlt⟩
        · simp only [Pager.drop, hremove, Function.update_self]
          exact (List.mem_erase_of_ne hne).mpr hmem'
        · simp only [Pager.drop, rebind, hprocess, false_and, if_false]
          exact hmapped'
      · obtain ⟨tlb', hs', hbecame, hcalls⟩ := hend
        refine ⟨tlb', hs', hbecame.mono (Nat.le_refl k) fun pid v g hk => ⟨hk.1.2, ?_⟩, ?_⟩
        · exact List.forall_mem_cons.mpr ⟨fun _ => hk.1.1, hk.2⟩
        · rw [hcalls, Pager.readerCalls, Pager.readerCalls, List.filter_cons_of_pos (by simp [e])]
          rfl

/-- What is left after the readers were dropped. -/
theorem Pager.dropReaders_spec (writer : CowMapping) (f : Nat) (readers : List CowMapping)
    (s : Pager) (hf : f < s.cow.frameCount) (hmem : ∀ r ∈ readers, r ∈ s.cow.frames f)
    (hreaders : readers.Nodup) (husers : (s.cow.frames f).Nodup) :
    ∃ users mapped, Pager.dropReaders writer f readers s = { s with
        cow := { s.cow with frames := Function.update s.cow.frames f users }
        mapped := mapped } ∧
      users.Nodup ∧ (∀ m, m ∈ users ↔ m ∈ s.cow.frames f ∧ (m ∈ readers → m = writer)) ∧
      ∀ q v, (¬ (∃ r ∈ readers, r ≠ writer ∧ q = r.process ∧ pageKey v = pageKey r.virtualPage) →
          mapped q v = s.mapped q v) ∧
        ((∃ r ∈ readers, r ≠ writer ∧ q = r.process ∧ pageKey v = pageKey r.virtualPage) →
          mapped q v = none) := by
  induction readers generalizing s with
  | nil =>
    refine ⟨s.cow.frames f, s.mapped, ?_, husers, fun m => by simp, fun q v => by simp⟩
    rw [Function.update_eq_self]
    rfl
  | cons reader readers ih =>
    obtain ⟨hreader, hrest⟩ := List.forall_mem_cons.mp hmem
    obtain ⟨hnot, hnodup⟩ := List.nodup_cons.mp hreaders
    by_cases e : reader = writer
    · obtain ⟨users, mapped, heq, hun, hu, hm⟩ := ih s hf hrest hnodup husers
      refine ⟨users, mapped, by rw [Pager.dropReaders, if_pos e, heq], hun, fun m => ?_,
        fun q v => ?_⟩
      · rw [hu, List.mem_cons]
        refine and_congr_right fun _ => ⟨fun h hor => hor.elim (fun he => he.trans e) h,
          fun h hin => h (Or.inr hin)⟩
      · have hiff : (∃ r ∈ reader :: readers, r ≠ writer ∧ q = r.process ∧
            pageKey v = pageKey r.virtualPage) ↔
            ∃ r ∈ readers, r ≠ writer ∧ q = r.process ∧ pageKey v = pageKey r.virtualPage := by
          simp [e]
        rw [hiff]
        exact hm q v
    · have hremove : cowManagerRemoveMapping s.cow f reader.process reader.virtualPage =
          (0, { s.cow with
            frames := Function.update s.cow.frames f ((s.cow.frames f).erase reader) }) := by
        rw [cowManagerRemoveMapping, cowManagerHasMapping, if_pos (by simp [hf, hreader])]
      have hframes : (s.drop reader.process reader.virtualPage f).cow.frames f =
          (s.cow.frames f).erase reader := by
        simp [Pager.drop, hremove]
      obtain ⟨users, mapped, heq, hun, hu, hm⟩ := ih (s.drop reader.process reader.virtualPage f)
        (by simpa [Pager.drop, hremove] using hf)
        (fun r hr => by
          rw [hframes]
          have hne : r ≠ reader := fun he => hnot (he ▸ hr)
          exact (List.mem_erase_of_ne hne).mpr (hrest r hr))
        hnodup (by rw [hframes]; exact husers.erase reader)
      refine ⟨users, mapped, ?_, hun, fun m => ?_, fun q v => ?_⟩
      · rw [Pager.dropReaders, if_neg e, heq]
        simp only [Pager.drop, hremove, Function.update_idem]
      · rw [hu, hframes, husers.mem_erase_iff, List.mem_cons]
        constructor
        · rintro ⟨⟨hne, hin⟩, himp⟩
          exact ⟨hin, fun h => himp (h.resolve_left hne)⟩
        · rintro ⟨hin, himp⟩
          refine ⟨⟨fun he => e ?_, hin⟩, fun h => himp (Or.inr h)⟩
          rw [← he]
          exact himp (Or.inl he)
      · have hdropped : (s.drop reader.process reader.virtualPage f).mapped q v =
            if q = reader.process ∧ pageKey v = pageKey reader.virtualPage then none
            else s.mapped q v := rfl
        constructor
        · intro hno
          have hlater : ¬∃ r ∈ readers, r ≠ writer ∧ q = r.process ∧
              pageKey v = pageKey r.virtualPage := by
            rintro ⟨r, hr, h⟩
            exact hno ⟨r, List.mem_cons_of_mem _ hr, h⟩
          rw [(hm q v).1 hlater, hdropped,
            if_neg fun h => hno ⟨reader, List.mem_cons_self, e, h⟩]
        · rintro ⟨r, hr, hne, hq, hk⟩
          by_cases hlater : ∃ r ∈ readers, r ≠ writer ∧ q = r.process ∧
              pageKey v = pageKey r.virtualPage
          · exact (hm q v).2 hlater
          · rcases List.mem_cons.mp hr with rfl | hin
            · rw [(hm q v).1 hlater, hdropped, if_pos ⟨hq, hk⟩]
            · exact absurd ⟨r, hin, hne, hq, hk⟩ hlater

theorem Pager.Consistent.exclude_eq (h : s.Consistent) (hm : ⟨p, page⟩ ∈ s.cow.frames f) :
    (Pager.dropReaders ⟨p, page⟩ f (s.cow.frames f) s).handOver f p = s.exclude p page f := by
  have hf := h.lt_of_user hm
  have hnodup := (h.frame f hf).nodup
  obtain ⟨users, mapped, heq, hun, hu, hmapped⟩ := Pager.dropReaders_spec ⟨p, page⟩ f
    (s.cow.frames f) s (by rw [h.cow_count]; exact hf) (fun r hr => hr) hnodup hnodup
  have husers : users = [⟨p, page⟩] := by
    have hall : ∀ m ∈ users, m = ⟨p, page⟩ := fun m hin => ((hu m).mp hin).2 ((hu m).mp hin).1
    have hin : ⟨p, page⟩ ∈ users := (hu _).mpr ⟨hm, fun _ => rfl⟩
    cases users with
    | nil => cases hin
    | cons m rest =>
      obtain ⟨hfirst, hrest⟩ := List.forall_mem_cons.mp hall
      cases rest with
      | nil => rw [hfirst]
      | cons m' rest' =>
        have hm' := hrest m' List.mem_cons_self
        exact absurd (hfirst.trans hm'.symm ▸ List.mem_cons_self) (List.nodup_cons.mp hun).1
  have hmap : mapped = fun q v => if q ≠ p ∧ s.mapped q v = some f then none else s.mapped q v := by
    funext q v
    by_cases hk : q ≠ p ∧ s.mapped q v = some f
    · rw [if_pos hk]
      obtain ⟨huser, hkey⟩ := h.user_of_mapped hk.2
      refine (hmapped q v).2 ⟨_, huser, fun he => hk.1 ?_, rfl, hkey.symm⟩
      exact congrArg CowMapping.process he
    · rw [if_neg hk]
      refine (hmapped q v).1 ?_
      rintro ⟨r, hr, hne, rfl, hkey⟩
      refine hk ⟨fun he => hne ?_, (h.mapped _ v f).mpr ⟨r.virtualPage, hr, hkey.symm⟩⟩
      obtain ⟨o, u⟩ := r
      have hpage : u = page := (h.user_page hr).trans (h.user_page hm).symm
      rw [hpage]
      exact congrArg (fun o => CowMapping.mk o page) he
  rw [heq, husers, hmap]
  rfl

/-- What `virtual_memory_evict_cow_readers_for_write` leaves behind. -/
def World.ReadersEvicted (w' : World) (backdrop : Backdrop) (s : Pager) (tlb : Tlb)
    (p page f : Nat) (r : Option Unit) : Prop :=
  (∃ s', Pager.saveReaders ⟨p, page⟩ (s.physical.data f) (s.cow.frames f) s = (false, s') ∧
      r = none ∧ w'.Shows backdrop s' tlb) ∨
    ∃ s' tlb', Pager.saveReaders ⟨p, page⟩ (s.physical.data f) (s.cow.frames f) s = (true, s') ∧
      r = some () ∧ w'.Shows backdrop (s'.exclude p page f) tlb' ∧
      tlb.Became 0 (s.dropReadersKept ⟨p, page⟩ (s.cow.frames f) tlb.Holds) tlb' ∧
      tlb' = tlb.perform (s.readerCalls ⟨p, page⟩ (s.cow.frames f))

theorem World.Shows.evictReaders (h : s.Consistent) (hs : w.Shows backdrop s tlb)
    (hm : ⟨p, page⟩ ∈ s.cow.frames f) (hlen : 1 < (s.cow.frames f).length)
    (hswap : s.swap.isSome) (htlb : tlb.Wf) :
    Comp.Ends (virtualMemoryEvictCowReadersForWrite p page f (s.physical.data f)) w fun r w' =>
      w'.ReadersEvicted backdrop s tlb p page f r := by
  have hf := h.lt_of_user hm
  have hframe := h.frame f hf
  have hpage := h.user_page hm
  have hpage_lt : page < 2 ^ 52 := by
    rw [show page = _ from hpage]
    exact hframe.page_lt
  have hp := h.registered hm
  obtain ⟨x, hx⟩ := hs.process_of_pid (h.live p hp)
  unfold virtualMemoryEvictCowReadersForWrite
  refine hs.get.bindEnds fun r w₁ hget => ?_
  obtain ⟨hs₁, rfl⟩ := hget
  rw [hs₁.swap, hs₁.cow]
  refine Comp.Ends.pass (by simpa using hswap) ?_
  rw [h.mappingCount, if_neg (Nat.not_le.mpr hlen)]
  refine hs₁.allocate.bindEnds fun _ w₂ hs₂ => ?_
  have hcollect : cowManagerCollectFrameMappings s.cow f = s.cow.frames f := by
    rw [cowManagerCollectFrameMappings, if_neg (by rw [h.cow_count]; exact Nat.not_le.mpr hf)]
  rw [hcollect]
  refine Comp.Ends.pass (by simp) ?_
  have hsaved := Pager.Consistent.saveReaders ⟨p, page⟩ (s.physical.data f) (s.cow.frames f) s h
    hframe.registered
  obtain ⟨swap, stats, heq⟩ := s.saveReaders_eq ⟨p, page⟩ (s.physical.data f) (s.cow.frames f)
  refine Comp.Ends.bind (hs₂.saveReaders ⟨p, page⟩ (s.physical.data f) (s.cow.frames f) h hswap
    hframe.registered) (fun _ w₃ hend => ?_) fun w₃ hend => ?_
  · obtain ⟨hok, hs₃⟩ := hend
    rw [heq] at hs₃ hsaved
    have hsave : Pager.saveReaders ⟨p, page⟩ (s.physical.data f) (s.cow.frames f) s =
        (true, { s with swap := swap, stats := stats }) := Prod.ext hok.symm heq
    refine (hs₃.detachReaders ⟨p, page⟩ (s.cow.frames f) htlb.became
      (by rw [hsaved.cow_count]; exact hf) hframe.nodup fun reader hr => ⟨hr,
        h.live _ (h.registered hr), h.mapped_frame hr, (h.user_page hr).trans hpage.symm,
        hpage_lt⟩).bindEnds fun _ w₄ hdetached => ?_
    obtain ⟨tlb', hs₄, hbecame, hcalls⟩ := hdetached
    obtain ⟨users, mapped, hdropped, -⟩ := Pager.dropReaders_spec ⟨p, page⟩ f (s.cow.frames f)
      { s with swap := swap, stats := stats } (by rw [hsaved.cow_count]; exact hf)
      (fun r hr => hr) hframe.nodup hframe.nodup
    have hexclude := hsaved.exclude_eq hm
    refine hs₄.get.bindEnds fun r w₅ hget => ?_
    obtain ⟨hs₅, rfl⟩ := hget
    -- the last check of the function, which passes
    have hfinish : ∀ w₆ : World, w₆.Shows backdrop
        (Pager.exclude { s with swap := swap, stats := stats } p page f) tlb' →
        Comp.Ends (do
          let w ← Comp.get
          Comp.failIf (decide (cowManagerMappingCount w.memory.cowManager f ≠ 1))) w₆
          fun r w' => w'.ReadersEvicted backdrop s tlb p page f r := by
      intro w₆ hs₆
      refine hs₆.get.bindEnds fun r w₇ hget => ?_
      obtain ⟨hs₇, rfl⟩ := hget
      rw [hs₇.cow, (hsaved.exclude hm).mappingCount]
      refine Comp.Ends.failIf (fun _ => Or.inr ⟨_, tlb', hsave, rfl, hs₇, hbecame, hcalls⟩)
        fun hne => ?_
      simp [Pager.exclude] at hne
    obtain ⟨o, howner, hopid, _⟩ := hframe.owner (h.occupied_of_user hm)
    have hframes : (Pager.dropReaders ⟨p, page⟩ f (s.cow.frames f)
        { s with swap := swap, stats := stats }).physical = s.physical := by rw [hdropped]
    have hpids : (Pager.dropReaders ⟨p, page⟩ f (s.cow.frames f)
        { s with swap := swap, stats := stats }).pid = s.pid := by rw [hdropped]
    rw [hs₅.physical, hframes, physicalMemoryGetFrame, if_neg (Nat.not_le.mpr hf), Option.any_some]
    dsimp only
    by_cases ho : o = p
    · -- the writer already is the owner
      have hself : (Pager.dropReaders ⟨p, page⟩ f (s.cow.frames f)
          { s with swap := swap, stats := stats }).handOver f p =
            Pager.dropReaders ⟨p, page⟩ f (s.cow.frames f)
              { s with swap := swap, stats := stats } := by
        have hupdate : Function.update s.physical.frames f { s.physical.frames f with
            ownerProcess := some p, ownerPid := s.pid p } = s.physical.frames := by
          rw [← ho, ← howner, ← hopid]
          exact Function.update_eq_self f s.physical.frames
        rw [hdropped]
        simp only [Pager.handOver, hupdate]
      rw [if_neg (by simp [howner, ho])]
      refine hfinish w₅ ?_
      rw [← hexclude, hself]
      exact hs₅
    · rw [if_pos (by simp [howner, ho])]
      refine (hs₅.reassign (by rw [hframes]; exact hf)
        (by rw [hframes]; exact h.occupied_of_user hm) (by rw [hframes]; exact hframe.dirty) hx
        (by rw [hpids]; exact h.live p hp) (by rw [hframes]; exact hpage)).bindEnds
        fun _ w₆ hs₆ => hfinish w₆ ?_
      rw [← hexclude]
      exact hs₆
  · obtain ⟨hok, hs₃⟩ := hend
    exact Or.inl ⟨_, Prod.ext hok.symm rfl, rfl, hs₃⟩

/-! ## Resolving copy-on-write -/

/-- The end of `virtual_memory_handle_cow_write`: the old translation
goes, the new one is stored. -/
theorem World.Shows.moveTranslation (hs : w.Shows backdrop s tlb) (pid : Int) (page g : Nat) :
    Comp.Ends (do
      let _ ← onTlb (tlbInvalidate · pid page)
      let code ← onTlb (tlbInsert · pid page g)
      Comp.check code
      return g) w fun r w' =>
        r = (if tlbAccepts (tlbInvalidate tlb pid page).2 pid page g then some g else none) ∧
          w'.Shows backdrop s (tlbInsert (tlbInvalidate tlb pid page).2 pid page g).2 := by
  refine (hs.tlbStep (tlbInvalidate · pid page)).bindEnds fun _ w₁ h₁ => ?_
  obtain ⟨_, hs₁⟩ := h₁
  refine (hs₁.tlbStep (tlbInsert · pid page g)).bindEnds fun code w₂ h₂ => ?_
  obtain ⟨rfl, hs₂⟩ := h₂
  by_cases hcode : (tlbInsert (tlbInvalidate tlb pid page).2 pid page g).1 = 0
  · rw [tlbAccepts, decide_eq_true hcode, hcode]
    exact Comp.Ends.pure ⟨rfl, hs₂⟩
  · rw [tlbAccepts, decide_eq_false hcode]
    refine Comp.Ends.bind (P := fun r w' => r = none ∧ w' = w₂)
      (Comp.Ends.check (fun h => absurd h hcode) fun _ => ⟨rfl, rfl⟩) (fun _ _ h => ?_)
      fun _ h => ⟨rfl, h.2 ▸ hs₂⟩
    cases h.1

/-- The trace of a copy-on-write: the writer's translation is new, and
those of processes that lost the frame are gone. -/
theorem Pager.traced_move {tlb₁ : Tlb} {kept : Int → Nat → Nat → Prop} (hp : 0 ≤ s.pid p)
    (hbecame : tlb.Became 0 kept tlb₁) (hnew : s'.mapped p page = some g)
    (hkept : ∀ pid v k, kept pid v k → tlb.Holds pid v k ∧
      (¬ (pid = s.pid p ∧ v = page) → s.Keeps page s' pid v)) :
    s.Traced tlb 1 p page s'
      (tlbInsert (tlbInvalidate tlb₁ (s.pid p) page).2 (s.pid p) page g).2 := by
  refine ((hbecame.invalidate hp page).insert hp page g).mono (Nat.le_refl 1)
    fun pid v k hk => ?_
  rcases hk with ⟨hpid, hv, hg⟩ | ⟨hne, hk⟩
  · exact Or.inl ⟨hpid, hv, by rw [hnew, hg]⟩
  · obtain ⟨hold, hsame⟩ := hkept pid v k hk
    exact Or.inr ⟨hold, hsame hne⟩

/-- What `virtual_memory_handle_cow_write` leaves behind. -/
def World.CowResolved (w' : World) (backdrop : Backdrop) (s : Pager) (tlb : Tlb)
    (p page f : Nat) (r : Option Nat) : Prop :=
  ∃ moved tlb', w'.Shows backdrop (s.cowWrite p page f moved).2 tlb' ∧
    (s.cowWrite p page f moved).1 = r ∧
    s.Traced tlb 1 p page (s.cowWrite p page f moved).2 tlb' ∧
    tlb.Accepts (s.cowCalls p page f) moved ∧
    tlb' = tlb.perform (s.cowCalls p page f)

/-- The order of the updates of a copy: the code takes the new frame and
maps it before the old one is given up. -/
theorem Pager.copied_eq (s : Pager) (p page f g : Nat) (data : PageData) :
    ((s.drop p page f).place p page g).fill g data =
      { (s.allocated p page g).fill g data with
        mapped := rebind s.mapped p page (some g)
        cow := cowManagerInsert (cowManagerRemoveMapping s.cow f p page).2 g p page
        policy := (replacementPolicyOnLoad s.policy g).2 } := by
  simp only [Pager.fill, Pager.place, Pager.drop, Pager.allocated, rebind_idem]

theorem Pager.copied_handOver (s : Pager) (p page : Nat) (hne : f ≠ g) (data : PageData) (o : Nat) :
    (((s.drop p page f).handOver f o).place p page g).fill g data =
      (((s.drop p page f).place p page g).fill g data).handOver f o := by
  simp only [Pager.fill, Pager.place, Pager.handOver, Pager.drop, physicalFrameAssign,
    PhysicalMemory.setFrame, Function.update_of_ne hne, Function.update_comm hne]

/-- The users of the source frame as the copying process sees them. -/
theorem Pager.user_eq (s : Pager) (p page f : Nat) {frames : List CowMapping}
    (hframes : ∀ q, q ≠ p → (⟨q, page⟩ ∈ frames ↔ ⟨q, page⟩ ∈ s.cow.frames f)) :
    s.processes.find? (fun q => decide (q ≠ p) && frames.contains ⟨q, page⟩) =
      s.user p page f := by
  rw [Pager.user]
  congr 1
  funext q
  by_cases e : q = p
  · simp [e]
  · simp [e, hframes q e]

/-- Process `p` has given up its page in frame `f`, and nothing else has
changed there. -/
structure Pager.GivenUp (s : Pager) (p page f : Nat) (t : Pager) : Prop where
  processes : t.processes = s.processes
  pid : t.pid = s.pid
  frame : t.physical.frames f = s.physical.frames f
  frameCount : t.physical.frameCount = s.physical.frameCount
  cow_count : t.cow.frameCount = s.cow.frameCount
  users : t.cow.frames f = (s.cow.frames f).erase ⟨p, page⟩
  mapped : ∀ q, q ≠ p → t.mapped q page = s.mapped q page

theorem Pager.Consistent.givenUp_drop (h : s.Consistent) (hm : ⟨p, page⟩ ∈ s.cow.frames f) :
    s.GivenUp p page f (s.drop p page f) := by
  refine ⟨rfl, rfl, rfl, rfl, ?_, ?_, fun q hq => ?_⟩
  · simp [Pager.drop, h.removeMapping hm]
  · simp [Pager.drop, h.removeMapping hm]
  · simp only [Pager.drop, rebind, hq, false_and, if_false]

theorem Pager.Consistent.givenUp_copied (h : s.Consistent) (hm : ⟨p, page⟩ ∈ s.cow.frames f)
    (hne : f ≠ g) (data : PageData) :
    s.GivenUp p page f (((s.drop p page f).place p page g).fill g data) := by
  refine ⟨rfl, rfl, ?_, rfl, ?_, ?_, fun q hq => ?_⟩
  · simp [Pager.fill, Pager.place, Pager.drop, physicalFrameAssign, PhysicalMemory.setFrame, hne]
  · simp [Pager.fill, Pager.place, Pager.drop, cowManagerInsert, h.removeMapping hm]
  · simp [Pager.fill, Pager.place, Pager.drop, cowManagerInsert, h.removeMapping hm, hne]
  · simp only [Pager.fill, Pager.place, Pager.drop, rebind_idem, rebind, hq, false_and, if_false]

/-- The search finds the first of the users that are left. -/
theorem Pager.GivenUp.findUser {t : Pager} (ht : s.GivenUp p page f t) (h : s.Consistent)
    (hs : w.Shows backdrop t tlb) (hm : ⟨p, page⟩ ∈ s.cow.frames f) :
    Comp.Returns (virtualMemoryFindFrameUser f page p) w fun r w' =>
      r = s.user p page f ∧ w'.Shows backdrop t tlb := by
  have hf := h.lt_of_user hm
  have hpage : page < 2 ^ 52 := by
    rw [show page = _ from h.user_page hm]
    exact (h.frame f hf).page_lt
  have husers : ∀ q, q ≠ p → (⟨q, page⟩ ∈ t.cow.frames f ↔ ⟨q, page⟩ ∈ s.cow.frames f) := by
    intro q hq
    rw [ht.users, h.erase_users]
    simp [hq]
  rw [virtualMemoryFindFrameUser]
  refine hs.get.bind fun r w₁ hget => ?_
  obtain ⟨hs₁, rfl⟩ := hget
  rw [hs₁.registry, ht.processes]
  refine (hs₁.findUserIn (by rw [ht.cow_count, h.cow_count]; exact hf) hpage s.processes
    fun q hq hqp hin => ⟨?_, ?_⟩).mono fun r w' hend => ⟨?_, hend.2⟩
  · rw [ht.mapped q hqp]
    exact h.mapped_frame ((husers q hqp).mp hin)
  · exact hs₁.process_of_pid (by rw [ht.pid]; exact h.live q hq)
  · rw [hend.1, s.user_eq p page f husers]

/-- A user that is left becomes the owner. -/
theorem Pager.GivenUp.reassign {t : Pager} {o : Nat} (ht : s.GivenUp p page f t) (h : s.Consistent)
    (hs : w.Shows backdrop t tlb) (ho : ⟨o, page⟩ ∈ s.cow.frames f) :
    Comp.Returns (virtualMemoryReassignFrameOwner f o page) w fun _ w' =>
      w'.Shows backdrop (t.handOver f o) tlb := by
  have hf := h.lt_of_user ho
  have hlive : 0 ≤ t.pid o := by
    rw [ht.pid]
    exact h.live o (h.registered ho)
  obtain ⟨y, hy⟩ := hs.process_of_pid hlive
  exact hs.reassign (by rw [ht.frameCount]; exact hf) (by rw [ht.frame]; exact h.occupied_of_user ho)
    (by rw [ht.frame]; exact (h.frame f hf).dirty) hy hlive (by rw [ht.frame]; exact h.user_page ho)

/-- The copy: from the new frame to the translation of the copied page. -/
theorem World.Shows.copyShared (h : s.Consistent)
    (hs : w.Shows backdrop (s.allocated p (addressPageNumber a) g) tlb)
    (hx : backdrop p = some x) (hm : ⟨p, addressPageNumber a⟩ ∈ s.cow.frames f)
    (hlen : 1 < (s.cow.frames f).length) (hg : s.physical.firstFree = some g) :
    Comp.Ends (do
      let code ← onPhysical (physicalMemoryWritePage · g (s.physical.data f))
      Comp.onFailure (Comp.check code) (onPhysical (physicalMemoryReleaseFrame · g))
      let table ← processGetPageTable p
      Comp.onFailure (onHeap (pageTableMap table a g))
        (onPhysical (physicalMemoryReleaseFrame · g))
      let code ← onCow (cowManagerRemoveMapping · f p (addressPageNumber a))
      Comp.check code
      cowAddMapping g p (addressPageNumber a)
      let code ← onPolicy (replacementPolicyOnLoad · g)
      Comp.check code
      let w ← Comp.get
      if (physicalMemoryGetFrame w.memory.physicalMemory f).any
          fun source => source.ownerProcess = some p then do
        let remaining ← virtualMemoryFindFrameUser f (addressPageNumber a) p
        let remaining ← Comp.orFail remaining
        virtualMemoryReassignFrameOwner f remaining (addressPageNumber a)
      else pure ()
      let _ ← onTlb (tlbInvalidate · (s.pid p) (addressPageNumber a))
      let code ← onTlb (tlbInsert · (s.pid p) (addressPageNumber a) g)
      Comp.check code
      return g) w fun r w' =>
        let tlb₁ := (tlbInvalidate tlb (s.pid p) (addressPageNumber a)).2
        r = (if tlbAccepts tlb₁ (s.pid p) (addressPageNumber a) g then some g else none) ∧
          w'.Shows backdrop (((s.detach p (addressPageNumber a) f).place p (addressPageNumber a)
              g).fill g (s.physical.data f))
            (tlbInsert tlb₁ (s.pid p) (addressPageNumber a) g).2 := by
  obtain ⟨hg_lt, hg_free, hg_users⟩ := h.firstFree hg
  have hne : f ≠ g := by
    rintro rfl
    rw [hg_users] at hm
    cases hm
  have hf := h.lt_of_user hm
  have hload := replacementPolicyOnLoad_spec h.policy (h.policy_count ▸ hg_lt)
    ((h.loaded g).trans hg_free)
  obtain ⟨o, hop, ho, huser, hdetach⟩ := h.detach_eq hm hlen
  refine (hs.fill hg_lt (by simp [Pager.allocated, physicalFrameAssign, PhysicalMemory.setFrame,
    PhysicalFrame.assigned]) (s.physical.data f)).bindEnds fun code w₁ h₁ => ?_
  obtain ⟨rfl, hs₁⟩ := h₁
  refine Comp.Returns.bindEnds (P := fun _ (w' : World) => w' = w₁)
    (Comp.Returns.onFailure (Comp.Returns.check rfl rfl)) fun _ w₂ h₂ => ?_
  subst h₂
  refine (hs₁.getTable hx).bindEnds fun table w₃ h₃ => ?_
  obtain ⟨rfl, hs₃⟩ := h₃
  refine (hs₃.map hx a g).onFailure.bindEnds fun _ w₄ hs₄ => ?_
  refine (hs₄.cowStep (cowManagerRemoveMapping · f p (addressPageNumber a))).bindCheckEnds
    (fun _ _ hc => hc.1.trans (congrArg Prod.fst (h.removeMapping hm))) fun _ w₅ h₅ => ?_
  have hremoved : (cowManagerRemoveMapping s.cow f p (addressPageNumber a)).2.frames g = [] := by
    rw [h.removeMapping hm]
    simp [hne.symm, hg_users]
  refine (h₅.2.cowAdd (by
    show g < (cowManagerRemoveMapping s.cow f p (addressPageNumber a)).2.frameCount
    rw [h.removeMapping hm]
    exact h.cow_count ▸ hg_lt) (by
    show _ ∉ (cowManagerRemoveMapping s.cow f p (addressPageNumber a)).2.frames g
    rw [hremoved]
    exact List.not_mem_nil)).bindEnds fun _ w₆ hs₆ => ?_
  refine (hs₆.policyStep (replacementPolicyOnLoad · g)).bindCheckEnds
    (fun _ _ hc => hc.1.trans hload.code) fun _ w₇ h₇ => ?_
  have hs₇ : w₇.Shows backdrop (((s.drop p (addressPageNumber a) f).place p (addressPageNumber a)
      g).fill g (s.physical.data f)) tlb := by
    rw [Pager.copied_eq]
    exact h₇.2
  have hgiven := h.givenUp_copied hm hne (s.physical.data f)
  generalize hcopied : ((s.drop p (addressPageNumber a) f).place p (addressPageNumber a)
      g).fill g (s.physical.data f) = copied at *
  refine hs₇.get.bindEnds fun r w₈ hget => ?_
  obtain ⟨hs₈, rfl⟩ := hget
  have hgot : physicalMemoryGetFrame copied.physical f = some (s.physical.frames f) := by
    rw [physicalMemoryGetFrame, if_neg (by rw [hgiven.frameCount]; exact Nat.not_le.mpr hf),
      hgiven.frame]
  rw [hs₈.physical, hgot, Option.any_some]
  dsimp only
  by_cases howner : (s.physical.frames f).ownerProcess = some p
  · rw [if_pos (by simpa using howner)]
    refine (hgiven.findUser h hs₈ hm).bindEnds fun r w₉ h₉ => ?_
    obtain ⟨rfl, hs₉⟩ := h₉
    rw [huser howner]
    refine Comp.Ends.found rfl ?_
    refine (hgiven.reassign h hs₉ ho).bindEnds fun _ w₁₀ hs₁₀ => ?_
    rw [hdetach, Pager.copied_handOver _ _ _ hne, hcopied]
    exact hs₁₀.moveTranslation _ _ _
  · rw [if_neg (by simpa using howner)]
    rw [Pager.detach, if_neg howner, hcopied]
    exact hs₈.moveTranslation _ _ _

/-- A shared page when no frame is free. -/
theorem Pager.cowWrite_full (hlen : ¬(s.cow.frames f).length ≤ 1)
    (hfree : s.physical.firstFree = none) (p page : Nat) (moved : Bool) :
    s.cowWrite p page f moved =
      if s.swap.isNone then (none, s)
      else
        match Pager.saveReaders ⟨p, page⟩ (s.physical.data f) (s.cow.frames f) s with
        | (false, s') => (none, s')
        | (true, s') => (if moved then some f else none, s'.exclude p page f) := by
  rw [Pager.cowWrite, if_neg hlen]
  generalize s.physical.firstFree = free at hfree
  subst hfree
  rfl

theorem World.Shows.cowWrite (h : s.Consistent) (hs : w.Shows backdrop s tlb)
    (hx : backdrop p = some x) (hp : p ∈ s.processes)
    (hw : s.Writable p (addressPageNumber a) f) (htlb : tlb.Wf) :
    Comp.Ends (virtualMemoryHandleCowWrite p a (addressPageNumber a) f) w fun r w' =>
      w'.CowResolved backdrop s tlb p (addressPageNumber a) f r := by
  unfold virtualMemoryHandleCowWrite
  refine hs.get.bindEnds fun r w₁ hget => ?_
  obtain ⟨hs₁, rfl⟩ := hget
  rw [hs₁.cow, hs₁.physical, h.mappingCount]
  by_cases hlen : (s.cow.frames f).length ≤ 1
  · rw [if_pos hlen]
    have hcow : ∀ moved, s.cowWrite p (addressPageNumber a) f moved = (some f, s) := fun moved => by
      rw [Pager.cowWrite, if_pos hlen]
    exact Comp.Ends.pure ⟨true, tlb, by rw [hcow]; exact hs₁, by rw [hcow], by
      rw [hcow]
      exact (Pager.traced_same htlb rfl p _).mono (Nat.zero_le 1) fun _ _ _ hk => hk,
      tlb.accepts_true _, by rw [Pager.cowCalls, if_pos hlen]; rfl⟩
  · rw [if_neg hlen]
    have hm : ⟨p, addressPageNumber a⟩ ∈ s.cow.frames f := hw.resolve_left hlen
    have hlen' : 1 < (s.cow.frames f).length := Nat.lt_of_not_le hlen
    have hf := h.lt_of_user hm
    refine Comp.Ends.found (by
      rw [physicalMemoryReadPage, if_neg (by simp [hf, h.occupied_of_user hm])]) ?_
    refine (hs₁.getPid hx).bindEnds fun pid w₂ h₂ => ?_
    obtain ⟨rfl, hs₂⟩ := h₂
    refine (hs₂.physicalStep (physicalMemoryAllocateFrame · p (s.pid p)
      (addressPageNumber a))).bindEnds fun allocation w₃ h₃ => ?_
    obtain ⟨rfl, hs₃⟩ := h₃
    rw [physicalMemoryAllocateFrame_eq h.count_lt h.freeCount p (h.live p hp)] at hs₃ ⊢
    cases hfree : s.physical.firstFree with
    | some g =>
      have hcow : ∀ moved, s.cowWrite p (addressPageNumber a) f moved =
          (if moved then some g else none, ((s.detach p (addressPageNumber a) f).place p
            (addressPageNumber a) g).fill g (s.physical.data f)) := fun moved => by
        rw [Pager.cowWrite, if_neg hlen]
        simp only [hfree]
      simp only [hfree] at hs₃ ⊢
      have hcalls : s.cowCalls p (addressPageNumber a) f =
          s.moveCalls p (addressPageNumber a) g := by
        rw [Pager.cowCalls, if_neg hlen]
        simp only [hfree]
      refine (World.Shows.copyShared h hs₃ hx hm hlen' hfree).mono fun r w' hend => ?_
      obtain ⟨rfl, hs'⟩ := hend
      refine ⟨tlbAccepts (tlbInvalidate tlb (s.pid p) (addressPageNumber a)).2 (s.pid p)
        (addressPageNumber a) g, _, by rw [hcow]; exact hs', by rw [hcow], ?_,
        ?_, by rw [hcalls]; rfl⟩
      swap
      · rw [hcalls]
        exact Tlb.accepts_insert [.invalidate (s.pid p) (addressPageNumber a)] rfl
          (h.live p hp) _ g []
      rw [hcow]
      have hmapped := (h.copy_spec hm hlen' (h.firstFree hfree).2.2 (s.physical.data f)).mapped
      refine Pager.traced_move (h.live p hp) htlb.became (by rw [hmapped]; simp [rebind])
        fun pid v k hold => ⟨hold, fun hne pages hkeys hv hpage _ q hq => ?_⟩
      rw [hmapped, rebind, if_neg]
      rintro ⟨rfl, hk⟩
      exact hne ⟨hq.symm, hkeys v _ hv hpage hk⟩
    | none =>
      simp only [hfree] at hs₃ ⊢
      refine Comp.Ends.pass (by decide) ?_
      have hcow := Pager.cowWrite_full hlen hfree p (addressPageNumber a)
      have hcalls : s.cowCalls p (addressPageNumber a) f = if s.swap.isNone then []
          else if (Pager.saveReaders ⟨p, addressPageNumber a⟩ (s.physical.data f) (s.cow.frames f)
            s).1 then
            s.readerCalls ⟨p, addressPageNumber a⟩ (s.cow.frames f) ++
              s.moveCalls p (addressPageNumber a) f
          else [] := by
        rw [Pager.cowCalls, if_neg hlen]
        simp only [hfree]
      cases hswap : s.swap.isSome with
      | false =>
        have hnone : s.swap.isNone = true := by simpa using hswap
        simp only [hnone, if_true] at hcow
        have hevict : Comp.Ends (virtualMemoryEvictCowReadersForWrite p (addressPageNumber a) f
            (s.physical.data f)) w₃ fun r w' => r = none ∧ w'.Shows backdrop s tlb := by
          unfold virtualMemoryEvictCowReadersForWrite
          refine hs₃.get.bindEnds fun r w₄ hget => ?_
          obtain ⟨hs₄, rfl⟩ := hget
          exact Comp.Ends.stop (by rw [hs₄.swap]; exact hnone) ⟨rfl, hs₄⟩
        refine hevict.bind (fun _ _ hc => by cases hc.1) fun w₄ hc => ?_
        refine ⟨true, tlb, by rw [hcow]; exact hc.2, by rw [hcow], ?_, tlb.accepts_true _,
          by rw [hcalls, if_pos hnone]; rfl⟩
        rw [hcow]
        exact (Pager.traced_same htlb rfl p _).mono (Nat.zero_le 1) fun _ _ _ hk => hk
      | true =>
        have hsome : ¬ s.swap.isNone = true := by
          rw [Option.isNone_iff_eq_none]
          intro hnone
          rw [hnone] at hswap
          cases hswap
        simp only [if_neg hsome] at hcow
        rw [if_neg hsome] at hcalls
        obtain ⟨swap, stats, heq⟩ :=
          s.saveReaders_eq ⟨p, addressPageNumber a⟩ (s.physical.data f) (s.cow.frames f)
        refine Comp.Ends.bind (hs₃.evictReaders h hm hlen' hswap htlb) (fun _ w₄ hend => ?_)
          fun w₄ hend => ?_
        · obtain ⟨_, _, hr, _⟩ | ⟨s', tlb', hsave, _, hs₄, hbecame, hdetached⟩ := hend
          · cases hr
          · simp only [hsave] at hcow heq
            rw [hsave, if_pos rfl] at hcalls
            subst heq
            refine (hs₄.moveTranslation _ _ _).mono fun r w' hend => ?_
            obtain ⟨rfl, hs'⟩ := hend
            refine ⟨tlbAccepts (tlbInvalidate tlb' (s.pid p) (addressPageNumber a)).2 (s.pid p)
              (addressPageNumber a) f, _, by rw [hcow]; exact hs', by rw [hcow], ?_,
              ?_, by rw [hcalls, Tlb.perform_append, ← hdetached]; rfl⟩
            swap
            · rw [hcalls, Pager.moveCalls, ← List.singleton_append, ← List.append_assoc]
              refine Tlb.accepts_insert _ ?_ (h.live p hp) _ f []
              rw [Tlb.perform_append, ← hdetached]
              rfl
            rw [hcow]
            refine Pager.traced_move (h.live p hp) hbecame (by
              simp [Pager.exclude, h.mapped_frame hm]) fun pid v k hk =>
              ⟨hk.1, fun _ pages hkeys hv _ hin q hq => ?_⟩
            refine if_neg fun hlost => ?_
            obtain ⟨huser, hkey⟩ := h.user_of_mapped hlost.2
            have hpage := hkeys _ v (hin f (h.occupied_of_user hm)) hv hkey
            refine hk.2 _ huser (fun he => hlost.1 (congrArg CowMapping.process he))
              ⟨hq.symm, hpage.symm⟩
        · obtain ⟨s', hsave, _, hs₄⟩ | ⟨_, _, _, hr, _⟩ := hend
          · simp only [hsave] at hcow heq
            rw [hsave, if_neg Bool.false_ne_true] at hcalls
            subst heq
            refine ⟨true, tlb, by rw [hcow]; exact hs₄, by rw [hcow], ?_, tlb.accepts_true _,
              by rw [hcalls]; rfl⟩
            rw [hcow]
            exact (Pager.traced_same htlb rfl p _).mono (Nat.zero_le 1) fun _ _ _ hk => hk
          · cases hr

end VmSim
