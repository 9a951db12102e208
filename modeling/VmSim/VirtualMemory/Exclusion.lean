/-
VmSim.VirtualMemory.Exclusion — no page is resident and in swap.

A page gives its slot up when it is loaded, and its frame when it is
saved, so `Pager.Exclusive` is kept by every call but one: a write to a
shared page in a full memory that saves some readers and then finds no
slot for the next one (`Pager.CopyBlocked`). It is kept there too if the
call changes no slot (`Pager.Spares`).
-/
import VmSim.VirtualMemory.Slots

namespace VmSim

open Lib

variable {s s' : Pager} {p q page f g v : Nat} {isWrite : Bool} {answers : TlbAnswers}

/-! ## The invariant -/

def Pager.Exclusive (s : Pager) : Prop :=
  ∀ f, ∀ m ∈ s.cow.frames f, s.slot (s.pid m.process) m.virtualPage = none

/-- A write to a shared page finds no frame for a copy, and the readers
find too few slots. -/
def Pager.CopyBlocked (s : Pager) (p page f : Nat) : Prop :=
  s.physical.firstFree = none ∧ 1 < (s.cow.frames f).length ∧
    (s.swap = none ∨ s.room < s.unsaved ⟨p, page⟩ (s.cow.frames f))

/-- No slot is free, and the readers up to the first without a slot have
the page in theirs. -/
def Pager.Spares (s : Pager) (p page f : Nat) : Prop :=
  s.swap = none ∨ (s.room = 0 ∧ ∀ r ∈ s.overwritten ⟨p, page⟩ (s.cow.frames f),
    s.slot (s.pid r.process) r.virtualPage = some (s.physical.data f))

theorem Pager.Exclusive.congr (h : s.Exclusive) (hcow : s'.cow.frames = s.cow.frames)
    (hswap : s'.swap = s.swap) (hpid : s'.pid = s.pid) : s'.Exclusive := by
  intro f m hm
  rw [hcow] at hm
  rw [hpid, Pager.slot_congr hswap]
  exact h f m hm

/-! ## Faults -/

theorem Pager.Exclusive.load (h : s.Exclusive) (hc : s.Consistent) (hp : p ∈ s.processes)
    (hpage : page < 2 ^ 52) (hf : f < s.physical.frameCount)
    (hfree : (s.physical.frames f).occupied = false) (hm : s.mapped p page = none)
    (isWrite : Bool) : (s.load p page f isWrite).Exclusive := by
  intro g m hg
  rw [s.load_pid, (hc.place hp hpage hf hfree hm).load_slot]
  split
  · rfl
  · rename_i hkey
    rw [hc.load_users hf hfree] at hg
    by_cases e : g = f
    · rw [e, Function.update_self, List.mem_singleton] at hg
      exact absurd (by rw [hg]; exact ⟨rfl, rfl⟩) hkey
    · rw [Function.update_of_ne e] at hg
      exact h g m hg

/-- A saved victim leaves its frame. -/
theorem Pager.Exclusive.evict (h : s.Exclusive) (hc : s.Consistent)
    (hdistinct : ∀ q ∈ s.processes, s.Alone q) (hocc : (s.physical.frames f).occupied = true)
    (hlen : (s.cow.frames f).length ≤ 1) (hs : s.saveVictim f = some s') :
    (s'.evict f).Exclusive := by
  obtain ⟨o, ho, _, hpid, husers, _⟩ := hc.evict_eq hocc hlen
  have hslot := hc.saved_slot hocc hs
  have hc' := hc.saveVictim hocc hs
  obtain ⟨swap, stats, rfl⟩ := Pager.saveVictim_eq hs
  have hmem : ⟨o, (s.physical.frames f).virtualPage⟩ ∈ s.cow.frames f := by rw [husers]; simp
  intro g m hg
  obtain ⟨e, hold⟩ := hc'.mem_evict hocc hlen hg
  show Pager.slot { s with swap := swap, stats := stats } (s.pid m.process) m.virtualPage = none
  rw [hslot, if_neg]
  · exact h g m hold
  · rintro ⟨_, _, hmpid, hmpage⟩
    have hprocess : m.process = o := hdistinct o ho m.process (hc.registered hold)
      (hmpid.trans hpid)
    have hm : ⟨o, m.virtualPage⟩ ∈ s.cow.frames g := hprocess ▸ hold
    exact e (hc.frame_unique hm hmem (by rw [hmpage]))

theorem Pager.Exclusive.replace (h : s.Exclusive) (hc : s.Consistent)
    (hdistinct : ∀ q ∈ s.processes, s.Alone q) (hp : p ∈ s.processes) (hpage : page < 2 ^ 52)
    (hm : s.mapped p page = none) (isWrite recorded : Bool) :
    (s.replace p page isWrite recorded).2.Exclusive := by
  have h₁ : ∀ policy, Pager.Exclusive { s with policy := policy } := fun policy =>
    h.congr rfl rfl rfl
  refine hc.replace_rule hm isWrite recorded (fun policy _ => h₁ policy)
    (fun f policy saved hv => ?_) fun s' dirty h' => h'.congr rfl rfl rfl
  have h₂ := (h₁ policy).evict hv.chosen hdistinct hv.occupied hv.sole hv.victim
  exact h₂.load hv.evicted (by rw [hv.processes]; exact hp) hpage hv.lt hv.free hv.unmapped isWrite

theorem Pager.Exclusive.fault (h : s.Exclusive) (hc : s.Consistent)
    (hdistinct : ∀ q ∈ s.processes, s.Alone q) (hp : p ∈ s.processes) (hpage : page < 2 ^ 52)
    (hm : s.mapped p page = none) (isWrite recorded : Bool) :
    (s.fault p page isWrite recorded).2.Exclusive := by
  have hcounted : s.countFault.Consistent := hc.setStats _
  have h₁ : s.countFault.Exclusive := h.congr rfl rfl rfl
  refine hc.fault_rule isWrite recorded (fun f _ hlt hfree => ?_) (fun _ => ?_)
    fun s' h' => h'.congr rfl rfl rfl
  · exact h₁.load hcounted hp hpage hlt hfree hm isWrite
  · exact h₁.replace hcounted hdistinct hp hpage hm isWrite recorded

/-! ## Copy-on-write -/

theorem Pager.Exclusive.copy (h : s.Exclusive) (hc : s.Consistent)
    (hm : ⟨p, page⟩ ∈ s.cow.frames f) (hlen : 1 < (s.cow.frames f).length)
    (hg : s.physical.firstFree = some g) (data : PageData) :
    (((s.detach p page f).place p page g).fill g data).Exclusive := by
  have hcopied := hc.copy_spec hm hlen (hc.firstFree hg).2.2 data
  intro k m hk
  rw [hcopied.pid, Pager.slot_congr hcopied.swap]
  rcases hcopied.users k m hk with ⟨_, rfl⟩ | ⟨_, hold⟩
  · exact h f _ hm
  · exact h k m hold

/-- Readers that were saved leave the frame. -/
theorem Pager.Exclusive.exclude (h : s.Exclusive) (hc : s.Consistent)
    (hdistinct : ∀ q ∈ s.processes, s.Alone q) (hm : ⟨p, page⟩ ∈ s.cow.frames f)
    (data : PageData) :
    ((Pager.saveReaders ⟨p, page⟩ data (s.cow.frames f) s).2.exclude p page f).Exclusive := by
  have hreg : ∀ g, ∀ r ∈ s.cow.frames g, r.process ∈ s.processes := fun g r hr => hc.registered hr
  have hslot := Pager.Consistent.saveReaders_slot ⟨p, page⟩ data (s.cow.frames f) s hc (hreg f)
  obtain ⟨swap, stats, heq⟩ := s.saveReaders_eq ⟨p, page⟩ data (s.cow.frames f)
  rw [heq] at hslot ⊢
  intro k m hk
  simp only [Pager.exclude] at hk
  have hold : m ∈ s.cow.frames k ∧ (k = f → m = ⟨p, page⟩) := by
    by_cases ekf : k = f
    · rw [ekf, Function.update_self, List.mem_singleton] at hk
      exact ⟨by rw [hk, ekf]; exact hm, fun _ => hk⟩
    · rw [Function.update_of_ne ekf] at hk
      exact ⟨hk, fun e => absurd e ekf⟩
  show Pager.slot { s with swap := swap, stats := stats } (s.pid m.process) m.virtualPage = none
  rcases hslot (s.pid m.process) m.virtualPage with hsame | ⟨_, r, hr, hne, hpid, hpage⟩
  · rw [hsame]
    exact h k m hold.1
  · -- the slot that was filled is that of a reader of `f`, which is `m` itself
    have hprocess : r.process = m.process :=
      hdistinct _ (hreg k m hold.1) r.process (hreg f r hr) hpid
    have hsame : r = m := by
      cases r
      cases m
      exact congrArg₂ CowMapping.mk hprocess hpage
    have hkf : k = f := hc.frame_unique (p := m.process) (u := m.virtualPage)
      (v := m.virtualPage) hold.1 (hsame ▸ hr) rfl
    exact absurd (hsame.trans (hold.2 hkf)) hne

theorem Pager.Exclusive.cowWrite (h : s.Exclusive) (hc : s.Consistent)
    (hdistinct : ∀ q ∈ s.processes, s.Alone q) (hw : s.Writable p page f)
    (hspares : s.CopyBlocked p page f → s.Spares p page f) (moved : Bool) :
    (s.cowWrite p page f moved).2.Exclusive := by
  have hm : 1 < (s.cow.frames f).length → ⟨p, page⟩ ∈ s.cow.frames f := fun hlen =>
    hw.resolve_left (Nat.not_le.mpr hlen)
  have hreg : ∀ r ∈ s.cow.frames f, r.process ∈ s.processes := fun r hr => hc.registered hr
  refine Pager.cowWrite_rule moved h (fun g hlen hg => ?_) (fun swap stats hlen hfull hsome hs => ?_)
    fun swap stats hlen _ hs => ?_
  · exact h.copy hc (hm hlen) hlen hg _
  · have hfail : (Pager.saveReaders ⟨p, page⟩ (s.physical.data f) (s.cow.frames f) s).1 = false := by
      rw [hs]
    have hblocked : s.CopyBlocked p page f := ⟨hfull, hlen, Or.inr
      ((Pager.Consistent.saveReaders_fails ⟨p, page⟩ (s.physical.data f) (s.cow.frames f) s hc hreg
        (hc.keysDiffer hdistinct f)).mp hfail)⟩
    have hsame := (Pager.Consistent.saveReaders_unchanged ⟨p, page⟩ (s.physical.data f)
      (s.cow.frames f) s hc hreg hfail).mpr ((hspares hblocked).resolve_left hsome)
    rw [hs] at hsame
    intro k m hk
    exact (hsame _ _).trans (h k m hk)
  · have hexclude := h.exclude hc hdistinct (hm hlen) (s.physical.data f)
    rw [hs] at hexclude
    exact hexclude

/-! ## Accesses -/

theorem Pager.Exclusive.resident (h : s.Exclusive) (hc : s.Consistent)
    (hdistinct : ∀ q ∈ s.processes, s.Alone q) (hw : isWrite = true → s.Writable p page f)
    (hspares : isWrite = true → s.CopyBlocked p page f → s.Spares p page f)
    (moved recorded : Bool) : (s.resident p page f isWrite moved recorded).2.Exclusive := by
  refine Pager.resident_rule recorded (fun _ => h) (fun hwrite => ?_)
    fun s' g h' => h'.congr rfl rfl rfl
  exact h.cowWrite hc hdistinct (hw hwrite) (hspares hwrite) moved

theorem Pager.Exclusive.access (h : s.Exclusive) (hc : s.Consistent)
    (hdistinct : ∀ q ∈ s.processes, s.Alone q) (hp : 0 ≤ s.pid p) (halone : s.Alone p)
    (hpage : page < 2 ^ 52) (had : s.Admits answers p page isWrite)
    (hhit : ∀ f, answers.hit = some f → s.mapped p page = some f)
    (hspares : ∀ f, isWrite = true → s.mapped p page = some f → s.CopyBlocked p page f →
      s.Spares p page f) : (s.access answers p page isWrite).2.Exclusive := by
  have hc₁ : ((s.register p).count isWrite).Consistent := (hc.register hp).setStats _
  obtain ⟨processes, stats, heq⟩ := s.counted_eq p isWrite
  have h₁ : ((s.register p).count isWrite).Exclusive := by
    rw [heq]
    exact h
  have hdistinct₁ : ∀ q ∈ ((s.register p).count isWrite).processes,
      ((s.register p).count isWrite).Alone q := halone.register hdistinct
  have hmem : p ∈ ((s.register p).count isWrite).processes := s.mem_register p
  rcases s.access_cases answers p page isWrite with ⟨f, recorded, hf, haccess⟩ | ⟨_, hm, haccess⟩
  · have hw := (had f hf).2
    have hmapped : s.mapped p page = some f := hf.elim (hhit f) And.right
    have hsp := fun hwrite => hspares f hwrite hmapped
    rw [haccess]
    rw [heq] at hc₁ h₁ hdistinct₁ ⊢
    exact h₁.resident hc₁ hdistinct₁ hw hsp _ recorded
  · rw [haccess]
    rw [heq] at hc₁ h₁ hdistinct₁ hmem ⊢
    exact h₁.fault hc₁ hdistinct₁ hmem hpage hm isWrite _

/-! ## Processes -/

theorem Pager.Exclusive.register (h : s.Exclusive) (p : Nat) : (s.register p).Exclusive := by
  rw [Pager.register_eq]
  exact h

theorem Pager.Exclusive.spawn (h : s.Exclusive) (hc : s.Consistent) (p : Nat) {childPid : Int}
    (hfresh : ∀ q ∈ s.processes, s.pid q ≠ childPid) : (s.spawn p childPid).Exclusive := by
  intro f m hm
  show s.slot ((s.spawn p childPid).pid m.process) m.virtualPage = none
  simp only [Pager.spawn] at hm
  rcases Pager.mem_joined.mp hm with hold | ⟨rfl, _⟩
  · rw [show (s.spawn p childPid).pid m.process = s.pid m.process from
      hc.pid_next (hc.registered hold)]
    exact h f m hold
  · rw [show (s.spawn p childPid).pid s.nextProcess = childPid from Function.update_self _ _ _]
    by_contra hsome
    obtain ⟨r, hr, hpid⟩ := hc.slot_owner hsome
    exact hfresh r hr hpid

theorem Pager.Exclusive.release (h : s.Exclusive) (hc : s.Consistent) (hp : 0 ≤ s.pid p) :
    (s.release p).Exclusive := by
  obtain ⟨s₁, hr, heq, hslot⟩ := hc.released hp
  rw [heq] at hslot ⊢
  intro f m hm
  have hm' : m ∈ s₁.cow.frames f := hm
  rw [show (s₁.forget p).pid m.process = s.pid m.process from congrFun hr.pid _, hslot]
  split
  · rfl
  · exact h f m ((hr.users f m).mp hm').1

theorem Pager.Exclusive.create (h : s.Exclusive) (hc : s.Consistent) (pid : Int) :
    (s.create pid).2.Exclusive := by
  unfold Pager.create
  split
  · exact h
  · intro f m hm
    have hold : m ∈ s.cow.frames f := hm
    have hpid : Function.update s.pid s.nextProcess pid m.process = s.pid m.process :=
      hc.pid_next (hc.registered hold)
    show s.slot (Function.update s.pid s.nextProcess pid m.process) m.virtualPage = none
    rw [hpid]
    exact h f m hold

theorem World.boot_exclusive {n tlbEntries : Nat} {type : ReplacementPolicyType}
    {slots : Option Nat} {memory : VirtualMemory}
    (h : virtualMemoryCreateInternal n type tlbEntries slots = some memory) :
    (World.boot memory).pager.Exclusive := by
  intro f m hm
  rw [World.boot_users h] at hm
  cases hm

end VmSim
