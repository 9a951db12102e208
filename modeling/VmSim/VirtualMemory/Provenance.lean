/-
VmSim.VirtualMemory.Provenance — where the bytes of a page come from.

`Pager.Backed s P` says that what a process has in a frame or in a swap
slot satisfies `P`, for that process and that page. Whatever moves pages
around keeps it, as long as zero pages satisfy `P` and no two registered
processes share a pid: a frame is zeroed before it gets a new user, and a
slot is only ever written for its own process.
-/
import VmSim.VirtualMemory.Views

namespace VmSim

open Lib

variable {s s' : Pager} {p q o page f g u v : Nat} {data : PageData} {isWrite : Bool}
  {P Q : Nat → Nat → PageData → Prop} {answers : TlbAnswers}

/-! ## The invariant -/

structure Pager.Backed (s : Pager) (P : Nat → Nat → PageData → Prop) : Prop where
  frames : ∀ f, ∀ m ∈ s.cow.frames f, P m.process m.virtualPage (s.physical.data f)
  slots : ∀ q ∈ s.processes, ∀ v data, s.slot (s.pid q) v = some data → P q v data

theorem Pager.Backed.mono (h : s.Backed P) (hPQ : ∀ q v data, P q v data → Q q v data) :
    s.Backed Q :=
  ⟨fun f m hm => hPQ _ _ _ (h.frames f m hm), fun q hq v data hd => hPQ _ _ _ (h.slots q hq v data hd)⟩

/-- Operations on metadata. -/
theorem Pager.Backed.congr (h : s.Backed P) (hdata : s'.physical.data = s.physical.data)
    (hcow : s'.cow.frames = s.cow.frames) (hswap : s'.swap = s.swap) (hpid : s'.pid = s.pid)
    (hprocesses : s'.processes = s.processes) : s'.Backed P := by
  refine ⟨fun f m hm => ?_, fun q hq v data hd => ?_⟩
  · rw [hcow] at hm
    rw [hdata]
    exact h.frames f m hm
  · rw [hprocesses] at hq
    rw [hpid, Pager.slot_congr hswap] at hd
    exact h.slots q hq v data hd

/-- What the swap gives a registered process is its own. -/
theorem Pager.Backed.swapped (h : s.Backed P) (hzero : ∀ q v, P q v zeroPage)
    (hp : p ∈ s.processes) (v : Nat) : P p v (s.swapped (s.pid p) v) := by
  unfold Pager.swapped
  cases hs : s.slot (s.pid p) v with
  | none => exact hzero p v
  | some data => exact h.slots p hp v data hs

/-! ## Faults -/

theorem Pager.Backed.load (h : s.Backed P) (hc : s.Consistent) (hzero : ∀ q v, P q v zeroPage)
    (hp : p ∈ s.processes) (hpage : page < 2 ^ 52) (hf : f < s.physical.frameCount)
    (hfree : (s.physical.frames f).occupied = false) (hm : s.mapped p page = none)
    (isWrite : Bool) : (s.load p page f isWrite).Backed P := by
  obtain ⟨hpid, hprocesses, _⟩ := s.load_eq p page f isWrite
  refine ⟨fun g m hg => ?_, fun q hq v data hd => ?_⟩
  · rw [Pager.load_data]
    rw [hc.load_users hf hfree] at hg
    by_cases e : g = f
    · rw [e, Function.update_self, List.mem_singleton] at hg
      rw [hg, e, Function.update_self]
      exact h.swapped hzero hp page
    · rw [Function.update_of_ne e] at hg ⊢
      exact h.frames g m hg
  · rw [hpid, (hc.place hp hpage hf hfree hm).load_slot] at hd
    rw [hprocesses] at hq
    split at hd
    · cases hd
    · exact h.slots q hq v data hd

/-- The sole user of a frame gives it up. -/
theorem Pager.Backed.vacate (h : s.Backed P) (husers : s.cow.frames f = [⟨o, u⟩])
    (hcount : f < s.cow.frameCount) : (s.vacate o u f).Backed P := by
  have hleft : (s.vacate o u f).cow.frames = Function.update s.cow.frames f [] := by
    simp [Pager.vacate, cowManagerRemoveMapping, cowManagerHasMapping, hcount, husers]
  refine ⟨fun g m hg => ?_, h.slots⟩
  rw [hleft] at hg
  by_cases e : g = f
  · rw [e, Function.update_self] at hg
    cases hg
  · rw [Function.update_of_ne e] at hg
    rw [show (s.vacate o u f).physical.data g = s.physical.data g from Function.update_of_ne e _ _]
    exact h.frames g m hg

/-- A victim goes to the slot of its owner. -/
theorem Pager.Backed.saveVictim (h : s.Backed P) (hc : s.Consistent)
    (hdistinct : ∀ q ∈ s.processes, s.Alone q) (hocc : (s.physical.frames f).occupied = true)
    (hs : s.saveVictim f = some s') : s'.Backed P := by
  obtain ⟨o, _, hpid, ho⟩ := hc.owner hocc
  have hslot := hc.saved_slot hocc hs
  obtain ⟨swap, stats, rfl⟩ := Pager.saveVictim_eq hs
  refine ⟨h.frames, fun q hq v data hd => ?_⟩
  rw [hslot] at hd
  split at hd
  · rename_i hkey
    cases hd
    have howner : o = q := hdistinct q hq o (hc.registered ho)
      (hpid.symm.trans hkey.2.2.1.symm)
    have hframe := h.frames f _ ho
    rwa [howner, ← hkey.2.2.2] at hframe
  · exact h.slots q hq v data hd

theorem Pager.Backed.replace (h : s.Backed P) (hc : s.Consistent)
    (hdistinct : ∀ q ∈ s.processes, s.Alone q) (hzero : ∀ q v, P q v zeroPage)
    (hp : p ∈ s.processes) (hpage : page < 2 ^ 52) (hm : s.mapped p page = none)
    (isWrite recorded : Bool) : (s.replace p page isWrite recorded).2.Backed P := by
  have h₁ : ∀ policy, Pager.Backed { s with policy := policy } P := fun policy =>
    h.congr rfl rfl rfl rfl rfl
  refine hc.replace_rule (P := fun s' => s'.Backed P) hm isWrite recorded
    (fun policy _ => h₁ policy) (fun f policy saved hv => ?_)
    fun s' dirty h' => h'.congr rfl rfl rfl rfl rfl
  have h₂ := (h₁ policy).saveVictim hv.chosen hdistinct hv.occupied hv.victim
  have h₃ : (saved.evict f).Backed P := by
    have hocc := hv.occupied
    have hlen := hv.sole
    have hlt := hc.cow_count ▸ hc.frame_lt hocc
    have hsaved := hv.consistent
    obtain ⟨swap, stats, rfl⟩ := Pager.saveVictim_eq hv.victim
    obtain ⟨o, _, _, _, husers, heq⟩ := hsaved.evict_eq hocc hlen
    rw [heq]
    exact h₂.vacate husers hlt
  exact h₃.load hv.evicted hzero (by rw [hv.processes]; exact hp) hpage hv.lt hv.free hv.unmapped
    isWrite

theorem Pager.Backed.fault (h : s.Backed P) (hc : s.Consistent)
    (hdistinct : ∀ q ∈ s.processes, s.Alone q) (hzero : ∀ q v, P q v zeroPage)
    (hp : p ∈ s.processes) (hpage : page < 2 ^ 52) (hm : s.mapped p page = none)
    (isWrite recorded : Bool) : (s.fault p page isWrite recorded).2.Backed P := by
  have hcounted : s.countFault.Consistent := hc.setStats _
  have h₁ : s.countFault.Backed P := h.congr rfl rfl rfl rfl rfl
  refine hc.fault_rule (P := fun s' => s'.Backed P) isWrite recorded (fun f _ hlt hfree => ?_)
    (fun _ => ?_) fun s' h' => h'.congr rfl rfl rfl rfl rfl
  · exact h₁.load hcounted hzero hp hpage hlt hfree hm isWrite
  · exact h₁.replace hcounted hdistinct hzero hp hpage hm isWrite recorded

/-! ## Copy-on-write -/

theorem Pager.Backed.saveReaders (h : s.Backed P) (hc : s.Consistent)
    (hdistinct : ∀ q ∈ s.processes, s.Alone q) (writer : CowMapping) (f : Nat) :
    (Pager.saveReaders writer (s.physical.data f) (s.cow.frames f) s).2.Backed P := by
  have hreg : ∀ r ∈ s.cow.frames f, r.process ∈ s.processes := fun r hr => hc.registered hr
  have hslot := Pager.Consistent.saveReaders_slot writer (s.physical.data f) (s.cow.frames f) s
    hc hreg
  obtain ⟨swap, stats, heq⟩ := s.saveReaders_eq writer (s.physical.data f) (s.cow.frames f)
  rw [heq] at hslot ⊢
  refine ⟨h.frames, fun q hq v data hd => ?_⟩
  rcases hslot (s.pid q) v with hsame | ⟨hsome, r, hr, _, hpid, rfl⟩
  · exact h.slots q hq v data (hsame ▸ hd)
  · have hreader : r.process = q := hdistinct q hq r.process (hreg r hr) hpid
    have hdata : data = s.physical.data f := Option.some.inj (hd.symm.trans hsome)
    rw [hdata, ← hreader]
    exact h.frames f r hr

theorem Pager.Backed.cowWrite (h : s.Backed P) (hc : s.Consistent)
    (hdistinct : ∀ q ∈ s.processes, s.Alone q) (hw : s.Writable p page f) (moved : Bool) :
    (s.cowWrite p page f moved).2.Backed P := by
  have hm : 1 < (s.cow.frames f).length → ⟨p, page⟩ ∈ s.cow.frames f := fun hlen =>
    hw.resolve_left (Nat.not_le.mpr hlen)
  have hsaved := h.saveReaders hc hdistinct ⟨p, page⟩ f
  refine Pager.cowWrite_rule (P := fun s' => s'.Backed P) moved h (fun g hlen hg => ?_)
    (fun swap stats _ _ _ hs => ?_) fun swap stats hlen _ hs => ?_
  · have hcopied := hc.copy_spec (hm hlen) hlen (hc.firstFree hg).2.2 (s.physical.data f)
    refine ⟨fun k m hk => ?_, fun q hq u data hd => ?_⟩
    · rw [hcopied.data]
      rcases hcopied.users k m hk with ⟨rfl, rfl⟩ | ⟨hne, hold⟩
      · rw [Function.update_self]
        exact h.frames f _ (hm hlen)
      · rw [Function.update_of_ne hne]
        exact h.frames k m hold
    · rw [hcopied.pid, Pager.slot_congr hcopied.swap] at hd
      exact h.slots q (hcopied.processes ▸ hq) u data hd
  · rw [hs] at hsaved
    exact hsaved
  · rw [hs] at hsaved
    refine ⟨fun k m hk => ?_, hsaved.slots⟩
    simp only [Pager.exclude] at hk
    by_cases ekf : k = f
    · rw [ekf, Function.update_self, List.mem_singleton] at hk
      rw [hk, ekf]
      exact h.frames f _ (hm hlen)
    · rw [Function.update_of_ne ekf] at hk
      exact h.frames k m hk

/-! ## Accesses -/

theorem Pager.Backed.resident (h : s.Backed P) (hc : s.Consistent)
    (hdistinct : ∀ q ∈ s.processes, s.Alone q)
    (hw : isWrite = true → s.Writable p page f) (moved recorded : Bool) :
    (s.resident p page f isWrite moved recorded).2.Backed P := by
  refine Pager.resident_rule (P := fun s' => s'.Backed P) recorded (fun _ => h)
    (fun hwrite => ?_) fun s' g h' => h'.congr rfl rfl rfl rfl rfl
  exact h.cowWrite hc hdistinct (hw hwrite) moved

/-- A process that registers has nothing in swap. -/
theorem Pager.Backed.register (h : s.Backed P) (hc : s.Consistent) (hp : s.Alone p) :
    (s.register p).Backed P := by
  refine ⟨by rw [Pager.register_eq]; exact h.frames, fun q hq v data hd => ?_⟩
  have hd' : s.slot (s.pid q) v = some data := by
    rw [Pager.register_eq] at hd
    exact hd
  rcases Pager.mem_register_iff.mp hq with rfl | hold
  · obtain ⟨r, hr, hpid⟩ := hc.slot_owner (by rw [hd']; exact Option.some_ne_none data)
    exact h.slots q (hp r hr hpid ▸ hr) v data hd'
  · exact h.slots q hold v data hd'

theorem Pager.Backed.access (h : s.Backed P) (hc : s.Consistent)
    (hdistinct : ∀ q ∈ s.processes, s.Alone q) (hzero : ∀ q v, P q v zeroPage)
    (hp : 0 ≤ s.pid p) (halone : s.Alone p) (hpage : page < 2 ^ 52)
    (had : s.Admits answers p page isWrite) : (s.access answers p page isWrite).2.Backed P := by
  have hc₁ : ((s.register p).count isWrite).Consistent := (hc.register hp).setStats _
  have h₁ : ((s.register p).count isWrite).Backed P :=
    (h.register hc halone).congr rfl rfl rfl rfl rfl
  have hdistinct₁ : ∀ q ∈ ((s.register p).count isWrite).processes,
      ((s.register p).count isWrite).Alone q := halone.register hdistinct
  have hmem : p ∈ ((s.register p).count isWrite).processes := s.mem_register p
  have hmapped : ((s.register p).count isWrite).mapped p page = s.mapped p page := by
    rw [Pager.register_eq]
    rfl
  have hwritable : ∀ f, (answers.hit = some f ∨ answers.hit = none ∧ s.mapped p page = some f) →
      isWrite = true → ((s.register p).count isWrite).Writable p page f := by
    intro f hf
    rw [Pager.register_eq]
    exact (had f hf).2
  rcases s.access_cases answers p page isWrite with ⟨f, recorded, hf, haccess⟩ | ⟨_, hm, haccess⟩
  · rw [haccess]
    exact h₁.resident hc₁ hdistinct₁ (hwritable f hf) _ recorded
  · rw [haccess]
    exact h₁.fault hc₁ hdistinct₁ hzero hmem hpage (hmapped.trans hm) isWrite _

/-! ## Processes -/

/-- A child gets what its parent has. -/
theorem Pager.Backed.spawn (h : s.Backed P) (hc : s.Consistent) {childPid : Int}
    (hfresh : ∀ q ∈ s.processes, s.pid q ≠ childPid) (hPQ : ∀ q v data, P q v data → Q q v data)
    (hchild : ∀ v data, P p v data → Q s.nextProcess v data) :
    (s.spawn p childPid).Backed Q := by
  refine ⟨fun f m hm => ?_, fun q hq v data hd => ?_⟩
  · simp only [Pager.spawn] at hm
    rcases Pager.mem_joined.mp hm with hold | ⟨rfl, hparent⟩
    · exact hPQ _ _ _ (h.frames f m hold)
    · exact hchild _ _ (h.frames f _ hparent)
  · have hd' : s.slot ((s.spawn p childPid).pid q) v = some data := hd
    rcases List.mem_cons.mp hq with rfl | hold
    · rw [show (s.spawn p childPid).pid s.nextProcess = childPid from
        Function.update_self _ _ _] at hd'
      obtain ⟨r, hr, hpid⟩ := hc.slot_owner (by rw [hd']; exact Option.some_ne_none data)
      exact absurd hpid (hfresh r hr)
    · rw [show (s.spawn p childPid).pid q = s.pid q from hc.pid_next hold] at hd'
      exact hPQ _ _ _ (h.slots q hold v data hd')

theorem Pager.Backed.release (h : s.Backed P) (hc : s.Consistent) (hp : 0 ≤ s.pid p) :
    (s.release p).Backed P := by
  obtain ⟨s₁, hr, heq, hslot⟩ := hc.released hp
  rw [heq] at hslot ⊢
  refine ⟨fun f m hm => ?_, fun q hq v data hd => ?_⟩
  · have hm' : m ∈ s₁.cow.frames f := hm
    have hkept := (hr.kept f (hr.consistent.occupied_of_user hm')).1
    show P m.process m.virtualPage (s₁.physical.data f)
    rw [hkept]
    exact h.frames f m ((hr.users f m).mp hm').1
  · have hq' : q ∈ s.processes := hr.processes ▸ List.mem_of_mem_erase hq
    rw [show (s₁.forget p).pid q = s.pid q from congrFun hr.pid q, hslot] at hd
    split at hd
    · cases hd
    · exact h.slots q hq' v data hd

theorem Pager.Backed.create (h : s.Backed P) (hc : s.Consistent) (pid : Int) :
    (s.create pid).2.Backed P := by
  unfold Pager.create
  split
  · exact h
  · refine ⟨h.frames, fun q hq v data hd => ?_⟩
    have hpid : Function.update s.pid s.nextProcess pid q = s.pid q := hc.pid_next hq
    exact h.slots q hq v data (hpid ▸ hd)

end VmSim
