/-
VmSim.VirtualMemory.Saturation — when the TLB takes the translations of a
call.

`tlb_find_lru_entry` looks for a stamp below `UINT64_MAX`, so a TLB whose
entries are all in use and carry that stamp has no room for a new key. It
is the only one that refuses, and a page that is given up makes room if
the TLB had its translation. So a call that loads a frame has its
translations taken unless it is crowded out (`World.Stepped.taken`).
-/
import VmSim.VirtualMemory.Touches
import VmSim.TlbOrder

namespace VmSim

open Lib

variable {w w' : World} {tlb : Tlb} {pid : Int} {page f : Nat} {calls : List TlbCall}
  {call : Call} {answers : TlbAnswers} {reply : Reply}

/-! ## Room -/

/-- Every entry is in use and has the last stamp. -/
def Tlb.Saturated (tlb : Tlb) : Prop :=
  ∀ i < tlb.capacity, (tlb.entries i).valid = true ∧ wordSize - 1 ≤ (tlb.entries i).lastAccess

instance Tlb.decidableSaturated (tlb : Tlb) : Decidable tlb.Saturated :=
  inferInstanceAs (Decidable (∀ i < tlb.capacity, _ ∧ _))

/-- There is an entry for the key: its own, a free one, or one that can be
replaced. -/
def Tlb.RoomFor (tlb : Tlb) (pid : Int) (page : Nat) : Prop :=
  ∃ i < tlb.capacity, (tlb.entries i).matches pid page = true ∨ (tlb.entries i).valid = false ∨
    (tlb.entries i).lastAccess < wordSize - 1

theorem Tlb.roomFor_of_unsaturated (h : ¬ tlb.Saturated) (pid : Int) (page : Nat) :
    tlb.RoomFor pid page := by
  unfold Tlb.Saturated at h
  push Not at h
  obtain ⟨i, hi, hroom⟩ := h
  refine ⟨i, hi, Or.inr ?_⟩
  cases hv : (tlb.entries i).valid with
  | false => exact Or.inl rfl
  | true => exact Or.inr (hroom hv)

theorem Tlb.roomFor_of_holds (h : tlb.Holds pid page f) : tlb.RoomFor pid page := by
  obtain ⟨i, hi, hm, _⟩ := h
  exact ⟨i, hi, Or.inl hm⟩

theorem Tlb.RoomFor.accepts (h : tlb.RoomFor pid page) (hpid : 0 ≤ pid) (f : Nat) :
    tlbAccepts tlb pid page f = true := by
  refine decide_eq_true ?_
  unfold tlbInsert
  rw [if_neg (Int.not_lt.mpr hpid)]
  split
  · rfl
  · rename_i hfind
    split
    · rfl
    · rename_i hfree
      split
      · rfl
      · rename_i hlru
        obtain ⟨i, hi, hroom⟩ := h
        have hvalid : (tlb.entries i).valid = true := by
          simpa using List.find?_eq_none.mp hfree i (List.mem_range.mpr hi)
        obtain ⟨_, hall⟩ := tlbLruStep_none tlb _ _ hlru
        have hstamp : wordSize - 1 ≤ (tlb.entries i).lastAccess :=
          hall i (List.mem_range.mpr hi) hvalid
        rcases hroom with hm | hfree' | hlt
        · rw [tlbFindExistingEntry_none hfind hi] at hm
          cases hm
        · rw [hvalid] at hfree'
          cases hfree'
        · omega

theorem Tlb.RoomFor.invalidate (h : tlb.RoomFor pid page) (q : Int) (v : Nat) :
    (tlbInvalidate tlb q v).2.RoomFor pid page := by
  obtain ⟨i, hi, hroom⟩ := h
  have hi' : i < (tlbInvalidate tlb q v).2.capacity := by
    rw [tlbInvalidate_capacity]
    exact hi
  refine ⟨i, hi', ?_⟩
  rcases tlb.spares_invalidate q v i with hsame | ⟨_, hcleared⟩
  · rw [hsame]
    exact hroom
  · exact Or.inr (Or.inl hcleared)

/-- The entry of an invalidated key is free. -/
theorem Tlb.roomFor_invalidate {q : Int} {v : Nat} (h : tlb.found q v = some f) (pid : Int)
    (page : Nat) : (tlbInvalidate tlb q v).2.RoomFor pid page := by
  unfold Tlb.found tlbLookup at h
  split at h
  · cases h
  · rename_i hq
    split at h
    · rename_i index hfind
      have hi := (tlbFindExistingEntry_some hfind).1
      unfold tlbInvalidate
      rw [if_neg hq, hfind]
      refine ⟨index, hi, Or.inr (Or.inl ?_)⟩
      simp [TlbEntry.cleared]
    · cases h

/-- An insertion that is taken leaves an entry with the key. -/
theorem Tlb.RoomFor.insert (h : tlb.RoomFor pid page) (hpid : 0 ≤ pid) (f : Nat) :
    (tlbInsert tlb pid page f).2.RoomFor pid page := by
  have htaken := of_decide_eq_true (h.accepts hpid f)
  unfold tlbInsert at htaken ⊢
  rw [if_neg (Int.not_lt.mpr hpid)] at htaken ⊢
  split
  · rename_i index hfind
    obtain ⟨hi, hm⟩ := tlbFindExistingEntry_some hfind
    refine ⟨index, hi, Or.inl ?_⟩
    simpa [tlbRegisterAccess, TlbEntry.matches] using hm
  · rename_i hfind
    split
    · rename_i index hfree
      refine ⟨index, List.mem_range.mp (List.mem_of_find?_eq_some hfree), Or.inl ?_⟩
      simp [tlbRegisterAccess, TlbEntry.matches]
    · rename_i hfree
      split
      · rename_i index hlru
        obtain ⟨hcand, _⟩ := tlbLruStep_least (List.range tlb.capacity) (none, wordSize - 1)
          (fun i hi => by cases hi) fun i hi => List.mem_range.mp hi
        have hi : index < tlb.capacity := (hcand index hlru).1
        refine ⟨index, hi, Or.inl ?_⟩
        simp [tlbRegisterAccess, TlbEntry.matches]
      · rename_i hlru
        simp only [hfind, hfree, hlru] at htaken
        cases htaken

/-! ## Calls -/

/-- The calls that an access makes after the lookup: invalidations, and
insertions of its own key. -/
def TlbCall.Records (pid : Int) (page : Nat) : TlbCall → Prop
  | .invalidate _ _ => True
  | .insert q v _ => q = pid ∧ v = page
  | _ => False

theorem Tlb.refuses_cons {call : TlbCall} (h : tlb.Refuses (call :: calls)) :
    (∃ pid page f, call = .insert pid page f ∧ 0 ≤ pid ∧ tlbAccepts tlb pid page f = false) ∨
      (tlb.step call).2.Refuses calls := by
  obtain ⟨before, q, v, g, after, heq, hq, hrefused⟩ := h
  cases before with
  | nil =>
    obtain ⟨rfl, rfl⟩ := List.cons.inj heq
    exact Or.inl ⟨q, v, g, rfl, hq, hrefused⟩
  | cons first before =>
    obtain ⟨rfl, rfl⟩ := List.cons.inj heq
    exact Or.inr ⟨before, q, v, g, after, rfl, hq, hrefused⟩

/-- With room for its key, no call of an access is refused. -/
theorem Tlb.RoomFor.takes (hpid : 0 ≤ pid) (calls : List TlbCall) :
    ∀ {tlb : Tlb}, tlb.RoomFor pid page → (∀ c ∈ calls, c.Records pid page) →
      ¬ tlb.Refuses calls := by
  induction calls with
  | nil =>
    rintro tlb _ _ ⟨before, q, v, g, after, heq, _⟩
    cases before <;> cases heq
  | cons call calls ih =>
    intro tlb h hcalls hrefused
    obtain ⟨hcall, hrest⟩ := List.forall_mem_cons.mp hcalls
    cases call with
    | invalidate q v =>
      rcases Tlb.refuses_cons hrefused with ⟨_, _, _, heq, _⟩ | hrefused
      · cases heq
      · exact ih (h.invalidate q v) hrest hrefused
    | insert q v f =>
      obtain ⟨rfl, rfl⟩ := hcall
      rcases Tlb.refuses_cons hrefused with ⟨_, _, _, heq, _, hlast⟩ | hrefused
      · cases heq
        rw [h.accepts hpid] at hlast
        cases hlast
      · exact ih (h.insert hpid f) hrest hrefused
    | lookup q v => exact hcall
    | invalidateProcess q => exact hcall
    | clear => exact hcall

/-! ## The calls of an access -/

theorem Pager.cowCalls_records (s : Pager) (p page f : Nat) :
    ∀ c ∈ s.cowCalls p page f, c.Records (s.pid p) page := by
  have hmove : ∀ g, ∀ c ∈ s.moveCalls p page g, c.Records (s.pid p) page := by
    intro g c hc
    simp only [Pager.moveCalls, List.mem_cons, List.not_mem_nil, or_false] at hc
    rcases hc with rfl | rfl
    · exact trivial
    · exact ⟨rfl, rfl⟩
  have hreaders : ∀ writer readers, ∀ c ∈ s.readerCalls writer readers,
      c.Records (s.pid p) page := by
    intro writer readers c hc
    obtain ⟨r, _, rfl⟩ := List.mem_map.mp hc
    exact trivial
  unfold Pager.cowCalls
  split
  · simp
  · split
    · exact hmove _
    · split
      · simp
      · split
        · intro c hc
          exact (List.mem_append.mp hc).elim (hreaders _ _ c) (hmove _ c)
        · simp

theorem Pager.answeredCalls_records (s : Pager) (answers : TlbAnswers) (p page : Nat)
    (isWrite : Bool) : ∀ c ∈ s.answeredCalls answers p page isWrite, c.Records (s.pid p) page := by
  have hwritable : ∀ f, ∀ c ∈ s.writableCalls p page f isWrite, c.Records (s.pid p) page := by
    intro f
    unfold Pager.writableCalls
    split
    · exact s.cowCalls_records p page f
    · simp
  have hreplace : ∀ c ∈ s.countFault.replaceCalls p page, c.Records (s.pid p) page := by
    unfold Pager.replaceCalls
    repeat' split
    all_goals simp [TlbCall.Records, Pager.countFault]
  unfold Pager.answeredCalls
  split
  · exact hwritable _
  · split
    · intro c hc
      rcases List.mem_append.mp hc with hc | hc
      · exact hwritable _ c hc
      · split at hc
        · rw [List.mem_singleton.mp hc]
          exact ⟨rfl, rfl⟩
        · cases hc
    · unfold Pager.faultCalls
      split
      · simp [TlbCall.Records]
      · exact hreplace

/-- The page that an access gives up is the one its frame holds. -/
theorem Pager.loadFrame_occupied {s : Pager} {p : Nat} {isWrite : Bool}
    (hloads : s.loadFrame p page isWrite = some f) (hocc : (s.physical.frames f).occupied = true) :
    s.mapped p page = none ∧ s.physical.firstFree = none ∧ s.victim = some f := by
  have hused : s.physical.firstFree ≠ some f := fun hfree => by
    rw [(PhysicalMemory.firstFree_some hfree).2] at hocc
    cases hocc
  unfold Pager.loadFrame at hloads
  split at hloads
  · split at hloads
    · exact absurd hloads hused
    · cases hloads
  · rename_i hm
    cases hfree : s.physical.firstFree with
    | none =>
      rw [hfree] at hloads
      exact ⟨hm, rfl, hloads⟩
    | some g =>
      rw [hfree] at hloads hused
      exact absurd hloads hused

theorem Pager.victim_some {s : Pager} (h : s.victim = some f) :
    ∃ policy, replacementPolicyChooseVictim s.policy = some (f, policy) ∧
      ¬ (f = replacementInvalidFrame ∨ 1 < (s.cow.frames f).length) ∧
      (s.saveVictim f).isSome = true := by
  obtain ⟨⟨g, policy⟩, hchoose, hkept⟩ := Option.bind_eq_some_iff.mp h
  dsimp only at hkept
  split at hkept
  · cases hkept
  · rename_i hcond
    cases hkept
    simp only [not_or, Bool.not_eq_true, Option.isNone_eq_false_iff] at hcond
    exact ⟨policy, hchoose, not_or.mpr ⟨hcond.1, hcond.2.1⟩, hcond.2.2⟩

/-- A fault that gives up a page drops its translation first. -/
theorem Pager.faultCalls_victim {s : Pager} {p : Nat} (hfree : s.physical.firstFree = none)
    (hvictim : s.victim = some f) : s.faultCalls p page =
      [.invalidate (s.physical.frames f).ownerPid (s.physical.frames f).virtualPage,
        .insert (s.pid p) page f] := by
  obtain ⟨policy, hchoose, hkept, hsaved⟩ := Pager.victim_some hvictim
  have hsaved' : (Pager.saveVictim { s.countFault with policy := policy } f).isSome = true := by
    have hsame := Pager.saveVictim_isNone { s.countFault with policy := policy } s f rfl rfl
    rw [← Option.not_isNone, hsame, Option.not_isNone]
    exact hsaved
  unfold Pager.faultCalls Pager.replaceCalls
  rw [hfree]
  dsimp only
  rw [show s.countFault.policy = s.policy from rfl, hchoose]
  exact (if_neg hkept).trans (if_pos hsaved')

/-! ## Crowded out -/

/-- The frame a call loads. -/
def World.loadFrame (w : World) (call : Call) : Option Nat :=
  call.target.bind fun (p, page) => w.pager.loadFrame p page call.writes

/-- A call that loads a frame, but finds no room for its translation: the
lookup misses, and the TLB is saturated and does not have the page that
the frame gives up. -/
def World.Crowded (w : World) (call : Call) : Prop :=
  (w.hit call = none ∧ w.memory.tlb.Saturated) ∧ ∃ f ∈ w.loadFrame call,
    (w.pager.physical.frames f).occupied = true →
      w.memory.tlb.found (w.pager.physical.frames f).ownerPid
        (w.pager.physical.frames f).virtualPage = none

instance World.decidableCrowded (w : World) (call : Call) : Decidable (w.Crowded call) :=
  inferInstanceAs (Decidable ((_ = none ∧ _) ∧ ∃ f ∈ _, _ → _))

/-- The TLB has room after the lookup if that finds the page, or if the TLB
is not saturated. -/
theorem World.looked_roomFor {p : Nat} (hroom : ¬ (w.hit call = none ∧ w.memory.tlb.Saturated))
    (ht : call.target = some (p, page)) : (w.looked call).RoomFor (w.pager.pid p) page := by
  unfold World.hit World.looked at *
  rw [ht] at hroom ⊢
  dsimp only [Option.bind_some] at hroom ⊢
  cases hfound : w.memory.tlb.found (w.pager.pid p) page with
  | some f =>
    refine Tlb.roomFor_of_holds (f := f) ?_
    exact (tlbLookup_holds _ _ _ _ _).mpr (Tlb.found_some hfound)
  | none =>
    rw [Tlb.looked, tlbLookup_miss hfound]
    exact Tlb.roomFor_of_unsaturated (fun hs => hroom ⟨hfound, hs⟩) _ _

/-- The calls of an access that gives up a page which the TLB knows are
taken. -/
theorem World.Stepped.makes_room {p g : Nat} (hs : w.Stepped call answers reply w')
    (hp : 0 ≤ w.pager.pid p) (ht : call.target = some (p, page)) (hmiss : w.hit call = none)
    (hloads : w.loadFrame call = some f) (hocc : (w.pager.physical.frames f).occupied = true)
    (hfound : w.memory.tlb.found (w.pager.physical.frames f).ownerPid
      (w.pager.physical.frames f).virtualPage = some g) :
    ¬ (w.looked call).Refuses (w.pager.tlbCalls answers call).tail := by
  have hlooked : w.looked call = w.memory.tlb := by
    rw [World.hit, ht] at hmiss
    rw [World.looked, ht]
    exact tlbLookup_miss hmiss
  rw [World.loadFrame, ht] at hloads
  obtain ⟨hm, hfree, hvictim⟩ := Pager.loadFrame_occupied hloads hocc
  obtain ⟨isWrite, hcalls⟩ := Pager.tlbCalls_target ht
  obtain ⟨processes, stats, heq⟩ := w.pager.counted_eq p isWrite
  have htail : (w.pager.tlbCalls answers call).tail =
      [.invalidate (w.pager.physical.frames f).ownerPid
        (w.pager.physical.frames f).virtualPage, .insert (w.pager.pid p) page f] := by
    rw [hcalls, Pager.accessCalls, List.tail_cons, Pager.answeredCalls, hs.hit, hmiss, heq]
    dsimp only
    rw [hm]
    refine Pager.faultCalls_victim hfree (Eq.trans ?_ hvictim)
    exact Pager.victim_of_same rfl rfl rfl rfl
  rw [hlooked, htail]
  intro hrefused
  rcases Tlb.refuses_cons hrefused with ⟨_, _, _, hcall, _⟩ | hrefused
  · cases hcall
  · refine Tlb.RoomFor.takes hp _ (Tlb.roomFor_invalidate hfound (w.pager.pid p) page) ?_ hrefused
    intro c hc
    rw [List.mem_singleton.mp hc]
    exact ⟨rfl, rfl⟩

/-- A call that loads a frame and is not crowded out has its translations
taken. -/
theorem World.Stepped.taken {p : Nat} (hs : w.Stepped call answers reply w')
    (hroom : ¬ w.Crowded call) (hp : 0 ≤ w.pager.pid p) (ht : call.target = some (p, page))
    (hloads : w.loadFrame call = some f) : answers.moved = true ∧ answers.recorded = true := by
  have htakes : ¬ (w.looked call).Refuses (w.pager.tlbCalls answers call).tail := by
    by_cases hcrowded : w.hit call = none ∧ w.memory.tlb.Saturated
    · have hgiven : ¬ ((w.pager.physical.frames f).occupied = true →
          w.memory.tlb.found (w.pager.physical.frames f).ownerPid
            (w.pager.physical.frames f).virtualPage = none) :=
        fun hnone => hroom ⟨hcrowded, f, hloads, hnone⟩
      obtain ⟨hocc, hsome⟩ := Classical.not_imp.mp hgiven
      obtain ⟨g, hfound⟩ := Option.ne_none_iff_exists'.mp hsome
      exact hs.makes_room hp ht hcrowded.1 hloads hocc hfound
    · obtain ⟨isWrite, hcalls⟩ := Pager.tlbCalls_target ht
      have hpids : ((w.pager.register p).count isWrite).pid = w.pager.pid := by
        rw [Pager.register_eq]
        rfl
      refine Tlb.RoomFor.takes hp _ (World.looked_roomFor hcrowded ht) ?_
      rw [hcalls, Pager.accessCalls, List.tail_cons]
      have hrecords := Pager.answeredCalls_records ((w.pager.register p).count isWrite) answers p
        page isWrite
      rwa [hpids] at hrecords
  have htaken : ∀ {accepted : Bool},
      (w.looked call).Accepts (w.pager.tlbCalls answers call).tail accepted → accepted = true := by
    intro accepted haccepts
    cases accepted with
    | true => rfl
    | false => exact absurd (haccepts rfl) htakes
  exact ⟨htaken hs.moved, htaken hs.recorded⟩

/-! ## A refusal

The page was loaded by the time its translation is refused, so it stays,
but no tick follows. -/

variable {backdrop : Backdrop} {s : Pager} {p a : Nat} {x : Process} {isWrite : Bool}

theorem World.Shows.fault_refused (h : s.Consistent) (hs : w.Shows backdrop s tlb)
    (hx : backdrop p = some x) (hp : p ∈ s.processes) (ha : a < wordSize)
    (hm : s.mapped p (addressPageNumber a) = none) (hfree : s.physical.firstFree = some f)
    (hrefused : tlbAccepts tlb (s.pid p) (addressPageNumber a) f = false) (isWrite : Bool) :
    Comp.Returns (virtualMemoryAccessFault p (s.pid p) a (addressPageNumber a) isWrite) w
      fun result w' => result = s.faultError ∧
        w'.Shows backdrop (s.countFault.load p (addressPageNumber a) f isWrite)
          (tlbInsert tlb (s.pid p) (addressPageNumber a) f).2 := by
  have hcounted : s.countFault.Consistent := h.setStats _
  obtain ⟨hf, hocc, _⟩ := h.firstFree hfree
  unfold virtualMemoryAccessFault
  refine Comp.Returns.bind (P := fun _ w' => w'.Shows backdrop s.countFault tlb) hs.statsStep
    fun _ w₁ hs₁ => ?_
  refine (hs₁.physicalStep (physicalMemoryAllocateFrame · p (s.pid p)
    (addressPageNumber a))).bind fun allocation w₂ h₂ => ?_
  obtain ⟨rfl, hs₂⟩ := h₂
  have halloc : physicalMemoryAllocateFrame s.countFault.physical p (s.pid p)
      (addressPageNumber a) = _ := physicalMemoryAllocateFrame_eq h.count_lt h.freeCount p
    (h.live p hp) (addressPageNumber a)
  rw [halloc] at hs₂ ⊢
  simp only [hfree] at hs₂ ⊢
  refine Comp.Returns.bind (World.Shows.loadFree hcounted hx hs₂ hf hocc hp ha hm isWrite)
    fun r w₃ hend => ?_
  rw [show s.countFault.pid = s.pid from rfl, hrefused, if_neg Bool.false_ne_true] at hend
  obtain ⟨rfl, hs₃⟩ := hend
  refine hs₃.get.bind fun v w₄ hget => ?_
  obtain ⟨hs₄, rfl⟩ := hget
  refine Comp.Returns.pure ⟨?_, hs₄⟩
  exact hs₄.faultCode (Pager.load_swap s.countFault p (addressPageNumber a) f isWrite)

/-- An access to a page that is not resident, with a free frame but no
room in the TLB. -/
theorem World.Wf.access_refused (h : w.Wf) (hp : 0 ≤ w.pager.pid p) (ha : a < wordSize)
    (hfound : w.memory.tlb.found (w.pager.pid p) (addressPageNumber a) = none)
    (hm : w.pager.mapped p (addressPageNumber a) = none)
    (hfree : w.pager.physical.firstFree = some f)
    (hrefused : tlbAccepts w.memory.tlb (w.pager.pid p) (addressPageNumber a) f = false)
    (t : VirtualMemoryAccessType) :
    ∃ w', w.step (.access p a t) = some (.result w.pager.faultError, w') ∧
      w'.pager = ((w.pager.register p).count (decide (t = .write))).countFault.load p
        (addressPageNumber a) f (decide (t = .write)) ∧
      w'.memory.tlb = w.memory.tlb := by
  obtain ⟨x, hx⟩ := h.shows.process_of_pid hp
  have hc : ((w.pager.register p).count (decide (t = .write))).Consistent :=
    (h.consistent.register hp).setStats _
  have hmem : p ∈ ((w.pager.register p).count (decide (t = .write))).processes :=
    w.pager.mem_register p
  have hsame : tlbInsert w.memory.tlb (w.pager.pid p) (addressPageNumber a) f =
      (-1, w.memory.tlb) := by
    rcases tlbInsert_spec h.tlb hp (addressPageNumber a) f with ⟨htaken, _⟩ | ⟨hcode, htlb⟩
    · rw [tlbAccepts, decide_eq_true htaken] at hrefused
      cases hrefused
    · exact Prod.ext hcode htlb
  obtain ⟨processes, stats, heq⟩ := w.pager.counted_eq p (decide (t = .write))
  have hreturns := World.Shows.accessPaths h.shows hx t
    (Q := fun result w' => result = w.pager.faultError ∧
      w'.pager = ((w.pager.register p).count (decide (t = .write))).countFault.load p
        (addressPageNumber a) f (decide (t = .write)) ∧
      w'.memory.tlb = w.memory.tlb)
    (fun g _ hfound' _ => by rw [hfound] at hfound'; cases hfound')
    (fun g _ _ _ hm' _ _ => by rw [hm] at hm'; cases hm')
    fun levels w₁ _ _ _ hs₁ => by
      rw [Tlb.looked, tlbLookup_miss hfound] at hs₁
      generalize hcounted : (w.pager.register p).count (decide (t = .write)) = counted at *
      have hpids : counted.pid = w.pager.pid := by rw [heq]
      rw [← hpids] at hrefused hsame ⊢
      refine (World.Shows.fault_refused hc hs₁ hx hmem ha (by rw [heq]; exact hm)
        (by rw [heq]; exact hfree) hrefused _).mono fun result w' hend => ?_
      obtain ⟨hresult, hs'⟩ := hend
      rw [hsame] at hs'
      refine ⟨hresult.trans ?_, hs'.pager, hs'.tlb_eq⟩
      rw [heq]
      rfl
  obtain ⟨result, w', hrun, rfl, hpager, htlb⟩ := hreturns.reply fun r =>
    Reply.result (r.getD .internalError)
  exact ⟨w', hrun, hpager, htlb⟩

end VmSim
