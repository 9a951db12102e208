/-
VmSim.VirtualMemory.Stored — a page that is in swap stays there.

`Pager.Stored s p page data`: the page of `p` is not resident, and its
slot holds `data`. Calls that neither access the page nor release its
process keep that, whatever else they evict and load.
-/
import VmSim.VirtualMemory.ReadFailure

namespace VmSim

open Lib

variable {w w' : World} {s s' : Pager} {p q page f v a : Nat} {data : PageData} {isWrite : Bool}
  {answers : TlbAnswers} {call : Call} {reply : Reply}

structure Pager.Stored (s : Pager) (p page : Nat) (data : PageData) : Prop where
  unmapped : s.mapped p page = none
  slot : s.slot (s.pid p) page = some data

theorem Pager.Stored.congr (h : s.Stored p page data) (hmapped : s'.mapped p page = s.mapped p page)
    (hswap : s'.swap = s.swap) (hpid : s'.pid p = s.pid p) : s'.Stored p page data :=
  ⟨hmapped.trans h.unmapped, by rw [hpid, Pager.slot_congr hswap]; exact h.slot⟩

/-- A page other than the one in swap. -/
def Pager.Elsewhere (s : Pager) (p page q v : Nat) : Prop :=
  (s.pid q = s.pid p → q = p) ∧ (q = p → pageKey page ≠ pageKey v)

/-! ## Faults -/

theorem Pager.Stored.place (h : s.Stored p page data) (hother : s.Elsewhere p page q v) (f : Nat) :
    (s.place q v f).Stored p page data := by
  refine h.congr ?_ rfl rfl
  show rebind s.mapped q v (some f) p page = s.mapped p page
  rw [rebind, if_neg fun hkey => hother.2 hkey.1.symm hkey.2]

theorem Pager.Stored.load (h : s.Stored p page data) (hc : s.Consistent) (hq : q ∈ s.processes)
    (hv : v < 2 ^ 52) (hf : f < s.physical.frameCount)
    (hfree : (s.physical.frames f).occupied = false) (hm : s.mapped q v = none)
    (hother : s.Elsewhere p page q v) (isWrite : Bool) :
    (s.load q v f isWrite).Stored p page data := by
  obtain ⟨hpid, _, hmapped, _⟩ := s.load_eq q v f isWrite
  refine ⟨?_, ?_⟩
  · rw [hmapped, rebind, if_neg fun hkey => hother.2 hkey.1.symm hkey.2]
    exact h.unmapped
  · rw [hpid, (hc.place hq hv hf hfree hm).load_slot, if_neg]
    · exact h.slot
    · rintro ⟨hkey, rfl⟩
      exact hother.2 (hother.1 hkey.symm) rfl

/-- Its slot is not the one a victim is saved in, because a victim is
resident. -/
theorem Pager.Stored.saveVictim (h : s.Stored p page data) (hc : s.Consistent) (halone : s.Alone p)
    (hocc : (s.physical.frames f).occupied = true) (hs : s.saveVictim f = some s') :
    s'.Stored p page data := by
  obtain ⟨o, _, hpid, ho⟩ := hc.owner hocc
  have hslot := hc.saved_slot hocc hs
  obtain ⟨swap, stats, rfl⟩ := Pager.saveVictim_eq hs
  refine ⟨h.unmapped, ?_⟩
  rw [hslot, if_neg]
  · exact h.slot
  · rintro ⟨_, _, hkey, hpage⟩
    have howner : o = p := halone o (hc.registered ho)
      (hpid.symm.trans hkey.symm)
    have hmapped := h.unmapped
    rw [hpage, ← howner, hc.mapped_frame ho] at hmapped
    cases hmapped

theorem Pager.Stored.vacate (h : s.Stored p page data) (q v f : Nat) :
    (s.vacate q v f).Stored p page data := by
  refine ⟨?_, h.slot⟩
  show rebind s.mapped q v none p page = none
  rw [rebind]
  split
  · rfl
  · exact h.unmapped

theorem Pager.Stored.replace (h : s.Stored p page data) (hc : s.Consistent) (halone : s.Alone p)
    (hq : q ∈ s.processes) (hv : v < 2 ^ 52) (hm : s.mapped q v = none)
    (hother : s.Elsewhere p page q v) (isWrite recorded : Bool) :
    (s.replace q v isWrite recorded).2.Stored p page data := by
  have h₁ : ∀ policy, Pager.Stored { s with policy := policy } p page data := fun policy =>
    h.congr rfl rfl rfl
  refine hc.replace_rule (P := fun s' => s'.Stored p page data) hm isWrite recorded
    (fun policy _ => h₁ policy) (fun f policy saved he => ?_)
    fun s' dirty h' => h'.congr rfl rfl rfl
  have h₂ := (h₁ policy).saveVictim he.chosen halone he.occupied he.victim
  have hevicted : (saved.evict f).Stored p page data := h₂.vacate _ _ f
  have helse : (saved.evict f).Elsewhere p page q v := by
    obtain ⟨swap, stats, rfl⟩ := Pager.saveVictim_eq he.victim
    exact hother
  exact hevicted.load he.evicted (by rw [he.processes]; exact hq) hv he.lt he.free he.unmapped helse
    isWrite

theorem Pager.Stored.fault (h : s.Stored p page data) (hc : s.Consistent) (halone : s.Alone p)
    (hq : q ∈ s.processes) (hv : v < 2 ^ 52) (hm : s.mapped q v = none)
    (hother : s.Elsewhere p page q v) (isWrite recorded : Bool) :
    (s.fault q v isWrite recorded).2.Stored p page data := by
  have hcounted : s.countFault.Consistent := hc.setStats _
  have h₁ : s.countFault.Stored p page data := h.congr rfl rfl rfl
  refine hc.fault_rule (P := fun s' => s'.Stored p page data) isWrite recorded
    (fun f _ hlt hfree => ?_) (fun _ => ?_) fun s' h' => h'.congr rfl rfl rfl
  · exact h₁.load hcounted hq hv hlt hfree hm hother isWrite
  · exact h₁.replace hcounted halone hq hv hm hother isWrite recorded

/-! ## Faults whose page cannot be restored -/

theorem Pager.Stored.faultUnread (h : s.Stored p page data) (hc : s.Consistent)
    (halone : s.Alone p) (hother : s.Elsewhere p page q v) :
    (s.faultUnread q v).Stored p page data := by
  have hcounted : s.countFault.Consistent := hc.setStats _
  have h₁ : s.countFault.Stored p page data := h.congr rfl rfl rfl
  unfold Pager.faultUnread
  split
  · exact (h₁.place hother _).vacate q v _
  · obtain ⟨f, policy, hchoose, hvictim, hchosen⟩ := hcounted.chooseVictim
    have h₂ : Pager.Stored { s.countFault with policy := policy } p page data :=
      h₁.congr rfl rfl rfl
    simp only [Pager.replaceUnread, hchoose]
    split
    · exact h₂
    · rename_i hcond
      have hocc := hvictim.resolve_left fun e => hcond (Or.inl e)
      split
      · exact h₂
      · rename_i saved hsaved
        have h₃ := h₂.saveVictim hchosen halone hocc hsaved
        obtain ⟨swap, stats, rfl⟩ := Pager.saveVictim_eq hsaved
        exact (h₃.vacate _ _ f).place hother f

/-! ## Copy-on-write -/

theorem Pager.Stored.cowWrite (h : s.Stored p page data) (hc : s.Consistent) (halone : s.Alone p)
    (hw : s.Writable q v f) (moved : Bool) :
    (s.cowWrite q v f moved).2.Stored p page data := by
  have hm : 1 < (s.cow.frames f).length → ⟨q, v⟩ ∈ s.cow.frames f := fun hlen =>
    hw.resolve_left (Nat.not_le.mpr hlen)
  -- a reader is resident, so its slot is another one
  have hsaved : (Pager.saveReaders ⟨q, v⟩ (s.physical.data f) (s.cow.frames f)
      s).2.Stored p page data := by
    have hreg : ∀ r ∈ s.cow.frames f, r.process ∈ s.processes := fun r hr => hc.registered hr
    have hslot := Pager.Consistent.saveReaders_slot ⟨q, v⟩ (s.physical.data f)
      (s.cow.frames f) s hc hreg (s.pid p) page
    obtain ⟨swap, stats, heq⟩ := s.saveReaders_eq ⟨q, v⟩ (s.physical.data f) (s.cow.frames f)
    rw [heq] at hslot ⊢
    refine ⟨h.unmapped, ?_⟩
    rcases hslot with hsame | ⟨_, r, hr, _, hpid, rfl⟩
    · exact hsame.trans h.slot
    · have hreader : r.process = p := halone r.process (hreg r hr) hpid
      have hnone := h.unmapped
      rw [← hreader, hc.mapped_frame hr] at hnone
      cases hnone
  refine Pager.cowWrite_rule (P := fun s' => s'.Stored p page data) moved h (fun g hlen hg => ?_)
    (fun swap stats _ _ _ hs => ?_) fun swap stats _ _ hs => ?_
  · have hne : ¬(p = q ∧ pageKey page = pageKey v) := by
      rintro ⟨rfl, hkey⟩
      have hnone := h.unmapped
      rw [hc.mapped_key hkey, hc.mapped_frame (hm hlen)] at hnone
      cases hnone
    have hcopied := hc.copy_spec (hm hlen) hlen (hc.firstFree hg).2.2 (s.physical.data f)
    refine h.congr ?_ hcopied.swap (congrFun hcopied.pid p)
    rw [hcopied.mapped, rebind, if_neg hne]
  · rw [hs] at hsaved
    exact hsaved
  · rw [hs] at hsaved
    refine ⟨?_, hsaved.slot⟩
    simp only [Pager.exclude]
    split
    · rfl
    · exact hsaved.unmapped

theorem Pager.Stored.resident (h : s.Stored p page data) (hc : s.Consistent) (halone : s.Alone p)
    (hw : isWrite = true → s.Writable q v f) (moved recorded : Bool) :
    (s.resident q v f isWrite moved recorded).2.Stored p page data := by
  refine Pager.resident_rule (P := fun s' => s'.Stored p page data) recorded (fun _ => h)
    (fun hwrite => ?_) fun s' g h' => h'.congr rfl rfl rfl
  exact h.cowWrite hc halone (hw hwrite) moved

/-! ## Calls -/

theorem Pager.Stored.access (h : s.Stored p page data) (hc : s.Consistent) (halone : s.Alone p)
    (hp : p ∈ s.processes) (hq : 0 ≤ s.pid q) (hqalone : s.Alone q) (hv : v < 2 ^ 52)
    (had : s.Admits answers q v isWrite) (hother : q = p → pageKey page ≠ pageKey v) :
    (s.access answers q v isWrite).2.Stored p page data := by
  have helse : s.Elsewhere p page q v := ⟨fun e => (hqalone p hp e.symm).symm, hother⟩
  have hc₁ : ((s.register q).count isWrite).Consistent := (hc.register hq).setStats _
  have hmem : q ∈ ((s.register q).count isWrite).processes := s.mem_register q
  have halone₁ : ((s.register q).count isWrite).Alone p := by
    intro r hr hpid
    have hpids : (s.register q).pid = s.pid := by rw [Pager.register_eq]
    change (s.register q).pid r = (s.register q).pid p at hpid
    rw [hpids] at hpid
    rcases Pager.mem_register_iff.mp hr with rfl | hold
    · exact helse.1 hpid
    · exact halone r hold hpid
  obtain ⟨processes, stats, heq⟩ := s.counted_eq q isWrite
  have h₁ : ((s.register q).count isWrite).Stored p page data := by
    rw [heq]
    exact h.congr rfl rfl rfl
  have hmapped : ((s.register q).count isWrite).mapped q v = s.mapped q v := by rw [heq]
  have helse₁ : ((s.register q).count isWrite).Elsewhere p page q v := by
    rw [heq]
    exact helse
  have hwritable : ∀ f, (answers.hit = some f ∨ answers.hit = none ∧ s.mapped q v = some f) →
      isWrite = true → ((s.register q).count isWrite).Writable q v f := by
    intro f hf
    rw [heq]
    exact (had f hf).2
  rcases s.access_cases answers q v isWrite with ⟨f, recorded, hf, haccess⟩ | ⟨_, hm, haccess⟩
  · rw [haccess]
    exact h₁.resident hc₁ halone₁ (hwritable f hf) _ recorded
  · rw [haccess]
    exact h₁.fault hc₁ halone₁ hmem hv (hmapped.trans hm) helse₁ isWrite _

theorem Pager.Stored.create (h : s.Stored p page data) (hc : s.Consistent) (hp : p ∈ s.processes)
    (pid : Int) : (s.create pid).2.Stored p page data := by
  unfold Pager.create
  split
  · exact h
  · have hne : p ≠ s.nextProcess := fun e => hc.next_notMem (e ▸ hp)
    exact h.congr (congrFun (Function.update_of_ne hne _ _) page) rfl (hc.pid_next hp)

theorem Pager.Stored.fork (h : s.Stored p page data) (hc : s.Consistent) (hp : p ∈ s.processes)
    (q : Nat) (childPid : Int) : (s.fork q childPid).2.Stored p page data := by
  unfold Pager.fork
  split
  · exact h
  · have hne : p ≠ s.nextProcess := fun e => hc.next_notMem (e ▸ hp)
    rw [Pager.register_eq]
    exact h.congr (congrFun (Function.update_of_ne hne _ _) page) rfl (hc.pid_next hp)

theorem Pager.Stored.release (h : s.Stored p page data) (hc : s.Consistent) (hq : 0 ≤ s.pid q)
    (hpid : s.pid q = s.pid p → q = p) (hne : q ≠ p) : (s.release q).Stored p page data := by
  have hr := Pager.Consistent.releaseFrames q (List.range s.physical.frameCount) s hc
  obtain ⟨_, _, _, hslot⟩ := hc.released hq
  refine ⟨?_, ?_⟩
  · show (s.releaseFrames q (List.range s.physical.frameCount)).mapped p page = none
    rw [hr.mapped_of_ne hc (Ne.symm hne)]
    exact h.unmapped
  · rw [show (s.release q).pid = s.pid from hr.pid, hslot, if_neg fun e => hne (hpid e.symm)]
    exact h.slot

/-- A call does not touch a page: it does not access it and does not
release its process. -/
def Call.Spares (call : Call) (p page : Nat) : Prop :=
  call.target ≠ some (p, page) ∧ call ≠ .release p

theorem Pager.Stored.step (h : s.Stored p page data) (hc : s.Consistent) (halone : s.Alone p)
    (hp : p ∈ s.processes) (hpage : page < 2 ^ 36) (ha : s.Allows (· < 2 ^ 36) call)
    (hadmits : ∀ q v isWrite, call.target = some (q, v) → s.Admits answers q v isWrite)
    (hspares : call.Spares p page) : (s.step answers call).2.Stored p page data := by
  have haccess : ∀ q v isWrite, call.target = some (q, v) →
      (s.access answers q v isWrite).2.Stored p page data := by
    intro q v isWrite ht
    obtain ⟨hq, hqalone, hv⟩ := ha.target ht
    refine h.access hc halone hp hq hqalone (Nat.lt_trans hv (by decide))
      (hadmits q v isWrite ht) ?_
    rintro rfl hkey
    exact hspares.1 (by rw [ht, keysApart_lt page v hpage hv hkey])
  cases call with
  | createProcess pid => exact h.create hc hp pid
  | access q a t => exact haccess q _ _ rfl
  | readByte q a =>
    show (s.readByte answers q a).2.Stored p page data
    rw [Pager.readByte_state]
    exact haccess q _ _ rfl
  | writeByte q a value =>
    have hwritten := haccess q (addressPageNumber a) true rfl
    show (s.writeByte answers q a value).2.Stored p page data
    rcases s.writeByte_state answers q a value with hsame | ⟨f, _, hset⟩
    · rw [hsame]
      exact hwritten
    · rw [hset]
      exact hwritten.congr rfl rfl rfl
  | fork q childPid => exact h.fork hc hp q childPid
  | release q =>
    exact h.release hc ha.1 (fun e => (ha.2 p hp e.symm).symm) fun e => hspares.2 (by rw [e])

/-! ## Bringing the page back -/

/-- A frame the page is mapped to holds `data`. -/
def Pager.Shows (s : Pager) (p page : Nat) (data : PageData) : Prop :=
  ∃ f, s.mapped p page = some f ∧ s.physical.data f = data

theorem Pager.Stored.loaded (h : s.Stored p page data) (f : Nat) (isWrite : Bool) :
    (s.load p page f isWrite).Shows p page data := by
  refine ⟨f, ?_, ?_⟩
  · rw [(s.load_eq p page f isWrite).2.2.1]
    simp [rebind]
  · rw [Pager.load_data, Function.update_self, Pager.swapped, h.slot, Option.getD_some]

/-- An access that succeeds brings in what the slot holds. -/
theorem Pager.Stored.fault_self (h : s.Stored p page data) (hc : s.Consistent)
    (halone : s.Alone p) (isWrite recorded : Bool)
    (hok : (s.fault p page isWrite recorded).1.isError = false) :
    (s.fault p page isWrite recorded).2.Shows p page data := by
  have hcounted : s.countFault.Consistent := hc.setStats _
  have h₁ : s.countFault.Stored p page data := h.congr rfl rfl rfl
  have herror : ∀ {s' : Pager} {P : Prop}, s'.faultError.isError = false → P := by
    intro s' P hnot
    rw [s'.faultError_isError] at hnot
    cases hnot
  unfold Pager.fault at hok ⊢
  split
  · rename_i f hf
    rw [hf] at hok
    cases recorded with
    | true => exact h₁.loaded f isWrite
    | false => exact herror hok
  · rename_i hfull
    rw [hfull] at hok
    obtain ⟨f, policy, hchoose, hvictim, hchosen⟩ := hcounted.chooseVictim
    have h₂ : Pager.Stored { s.countFault with policy := policy } p page data :=
      h₁.congr rfl rfl rfl
    simp only [Pager.replace, hchoose] at hok ⊢
    split
    · rename_i hcond
      rw [if_pos hcond] at hok
      exact herror hok
    · rename_i hcond
      rw [if_neg hcond] at hok
      have hocc := hvictim.resolve_left fun e => hcond (Or.inl e)
      cases hsaved : Pager.saveVictim { s.countFault with policy := policy } f with
      | none =>
        rw [hsaved] at hok
        exact herror hok
      | some saved =>
        rw [hsaved] at hok
        have h₃ := h₂.saveVictim hchosen halone hocc hsaved
        have hevicted : (saved.evict f).Stored p page data := h₃.vacate _ _ f
        cases recorded with
        | true => exact hevicted.loaded f isWrite
        | false => exact herror hok

/-- An access to the page finds it in its slot. -/
theorem Pager.Stored.accessed (h : s.Stored p page data) (hc : s.Consistent) (halone : s.Alone p)
    (hp : p ∈ s.processes) (hhit : answers.hit = none) (isWrite : Bool)
    (hok : (s.access answers p page isWrite).1.isError = false) :
    (s.access answers p page isWrite).2.Shows p page data := by
  have hc₁ : ((s.register p).count isWrite).Consistent := (hc.register (hc.live p hp)).setStats _
  have halone₁ : ((s.register p).count isWrite).Alone p := by
    rw [Pager.register, if_pos (by simpa using hp)]
    exact halone
  obtain ⟨processes, stats, heq⟩ := s.counted_eq p isWrite
  have h₁ : ((s.register p).count isWrite).Stored p page data := by
    rw [heq]
    exact h.congr rfl rfl rfl
  rw [Pager.access_fault hhit h.unmapped] at hok ⊢
  exact h₁.fault_self hc₁ halone₁ isWrite _ hok

theorem Pager.Stored.readByte (h : s.Stored p (addressPageNumber a) data) (hc : s.Consistent)
    (halone : s.Alone p) (hp : p ∈ s.processes) (hhit : answers.hit = none) {value : UInt8}
    (hread : (s.readByte answers p a).1 = some value) : value = data (pageOffset a) := by
  have hshown := h.accessed hc halone hp hhit false
  simp only [Pager.readByte] at hread
  cases herror : (s.access answers p (addressPageNumber a) false).1.isError with
  | true =>
    rw [herror] at hread
    cases hread
  | false =>
    obtain ⟨f, hm, hdata⟩ := hshown herror
    rw [herror, if_neg Bool.false_ne_true, hm] at hread
    rw [← hdata]
    exact (Option.some.inj hread).symm

/-- A process stays registered as long as it is not released. -/
theorem Pager.Consistent.step_registered (h : s.Consistent) (hp : p ∈ s.processes)
    (hne : call ≠ .release p) : p ∈ (s.step answers call).2.processes := by
  have hregister : ∀ q, p ∈ (s.register q).processes :=
    fun q => Pager.mem_register_iff.mpr (Or.inr hp)
  cases call with
  | createProcess pid =>
    show p ∈ (s.create pid).2.processes
    unfold Pager.create
    split <;> exact hp
  | access q a t =>
    show p ∈ (s.access answers q _ _).2.processes
    rw [(s.evolves_access answers q _ _).processes]
    exact hregister q
  | readByte q a =>
    show p ∈ (s.readByte answers q a).2.processes
    rw [Pager.readByte_state, (s.evolves_access answers q _ _).processes]
    exact hregister q
  | writeByte q a value =>
    show p ∈ (s.writeByte answers q a value).2.processes
    rw [(s.evolves_writeByte answers q a value).processes]
    exact hregister q
  | fork q childPid =>
    show p ∈ (s.fork q childPid).2.processes
    unfold Pager.fork
    split
    · exact hp
    · exact List.mem_cons_of_mem _ (hregister q)
  | release q =>
    have hr := Pager.Consistent.releaseFrames q (List.range s.physical.frameCount) s h
    show p ∈ (s.release q).processes
    rw [Pager.release, Pager.forget, hr.processes, h.registry.mem_erase_iff]
    exact ⟨fun e => hne (by rw [e]), hp⟩

end VmSim
