/-
VmSim.VirtualMemory.Preservation — every call keeps the invariant.

`Pager.Admits` is what an access needs of the frame the TLB or the page
walk came up with: it is in use, and a write either finds it unshared or
is made by one of its users. `Consistent.step` then says that every call
leads from a consistent pager to a consistent pager, also one that fails
half-way.
-/
import VmSim.VirtualMemory.Consistency

namespace VmSim

open Lib

variable {s s' : Pager} {p q page f g : Nat} {isWrite : Bool}

/-! ## Page faults -/

theorem Pager.place_frames (s : Pager) (p page f : Nat) :
    (s.place p page f).physical.frames =
      Function.update s.physical.frames f (.assigned p (s.pid p) page) := rfl

/-- Loading a page changes one frame's metadata. -/
theorem Pager.load_frames (s : Pager) (p page f : Nat) (isWrite : Bool) :
    (s.load p page f isWrite).physical.frames = Function.update s.physical.frames f
      ((PhysicalFrame.assigned p (s.pid p) page).touch isWrite) := by
  obtain ⟨data, swap, stats, heq⟩ := (s.place p page f).restore_eq p page f
  simp only [Pager.load, Pager.touch, heq, Pager.fill, Pager.place_frames, Function.update_self,
    Function.update_idem]

/-- Loading a page leaves the processes and the page maps of the placed
page alone. -/
theorem Pager.load_eq (s : Pager) (p page f : Nat) (isWrite : Bool) :
    (s.load p page f isWrite).pid = s.pid ∧ (s.load p page f isWrite).processes = s.processes ∧
      (s.load p page f isWrite).mapped = rebind s.mapped p page (some f) ∧
      (s.load p page f isWrite).cow = cowManagerInsert s.cow f p page ∧
      (s.load p page f isWrite).policy = (replacementPolicyOnLoad s.policy f).2 ∧
      (s.load p page f isWrite).nextProcess = s.nextProcess := by
  obtain ⟨data, swap, stats, heq⟩ := (s.place p page f).restore_eq p page f
  simp only [Pager.load, Pager.touch, heq]
  exact ⟨rfl, rfl, rfl, rfl, rfl, rfl⟩

theorem Pager.load_pid (s : Pager) (p page f : Nat) (isWrite : Bool) :
    (s.load p page f isWrite).pid = s.pid := (s.load_eq p page f isWrite).1

/-- A page that is loaded is the only user of its frame. -/
theorem Pager.Consistent.load_users (h : s.Consistent) (hf : f < s.physical.frameCount)
    (hfree : (s.physical.frames f).occupied = false) (p page : Nat) (isWrite : Bool) :
    (s.load p page f isWrite).cow.frames = Function.update s.cow.frames f [⟨p, page⟩] := by
  rw [(s.load_eq p page f isWrite).2.2.2.1, cowManagerInsert, h.no_user hf hfree]

theorem Pager.Consistent.load (h : s.Consistent) (hp : p ∈ s.processes) (hpage : page < 2 ^ 52)
    (hf : f < s.physical.frameCount) (hfree : (s.physical.frames f).occupied = false)
    (hm : s.mapped p page = none) (isWrite : Bool) : (s.load p page f isWrite).Consistent := by
  have hplaced := h.place hp hpage hf hfree hm
  have hocc : ((s.place p page f).physical.frames f).occupied = true := by
    simp [Pager.place_frames, PhysicalFrame.assigned]
  obtain ⟨data, swap, stats, heq⟩ := (s.place p page f).restore_eq p page f
  refine (hplaced.restore hocc p page).touch ?_ isWrite
  rw [heq]
  exact hocc

/-- A frame that is in use but not shared has its owner as only user. -/
theorem Pager.Consistent.sole_user (h : s.Consistent)
    (hocc : (s.physical.frames f).occupied = true) (hlen : (s.cow.frames f).length ≤ 1) :
    ∃ o, (s.physical.frames f).ownerProcess = some o ∧
      (s.physical.frames f).ownerPid = s.pid o ∧ o ∈ s.processes ∧
      s.cow.frames f = [⟨o, (s.physical.frames f).virtualPage⟩] := by
  have hframe := h.frame f (h.frame_lt hocc)
  obtain ⟨o, howner, hpid, ho⟩ := hframe.owner hocc
  refine ⟨o, howner, hpid, hframe.registered _ ho, ?_⟩
  cases husers : s.cow.frames f with
  | nil => simp [husers] at ho
  | cons m rest =>
    have hrest : rest = [] := by
      rw [husers] at hlen
      simpa using hlen
    subst hrest
    rw [husers] at ho
    rw [List.mem_singleton.mp ho]

theorem Pager.Consistent.evict_eq (h : s.Consistent)
    (hocc : (s.physical.frames f).occupied = true) (hlen : (s.cow.frames f).length ≤ 1) :
    ∃ o, o ∈ s.processes ∧ (s.physical.frames f).ownerProcess = some o ∧
      (s.physical.frames f).ownerPid = s.pid o ∧
      s.cow.frames f = [⟨o, (s.physical.frames f).virtualPage⟩] ∧
      s.evict f = s.vacate o (s.physical.frames f).virtualPage f := by
  obtain ⟨o, howner, hpid, ho, husers⟩ := h.sole_user hocc hlen
  exact ⟨o, ho, howner, hpid, husers, by rw [Pager.evict, howner, Option.getD_some]⟩

theorem Pager.vacate_frames (s : Pager) (p page f : Nat) :
    (s.vacate p page f).physical.frames = Function.update s.physical.frames f .free := rfl

/-- What is left to load after a victim was saved and evicted. -/
theorem Pager.Consistent.evicted (h : s.Consistent)
    (hocc : (s.physical.frames f).occupied = true) (hlen : (s.cow.frames f).length ≤ 1)
    (hm : s.mapped p page = none) : (s.evict f).Consistent ∧
      (s.evict f).processes = s.processes ∧ (s.evict f).mapped p page = none ∧
      ((s.evict f).physical.frames f).occupied = false ∧
      (s.evict f).physical.frameCount = s.physical.frameCount := by
  obtain ⟨o, _, _, _, husers, heq⟩ := h.evict_eq hocc hlen
  rw [heq]
  refine ⟨h.vacate husers, rfl, ?_, by simp [Pager.vacate_frames, PhysicalFrame.free], rfl⟩
  simp [Pager.vacate, rebind, hm]

/-- An evicted frame has no user left. -/
theorem Pager.Consistent.evict_users (h : s.Consistent)
    (hocc : (s.physical.frames f).occupied = true) (hlen : (s.cow.frames f).length ≤ 1) :
    (s.evict f).cow.frames = Function.update s.cow.frames f [] := by
  obtain ⟨o, _, _, _, husers, heq⟩ := h.evict_eq hocc hlen
  have hmem : ⟨o, (s.physical.frames f).virtualPage⟩ ∈ s.cow.frames f := by rw [husers]; simp
  simp [heq, Pager.vacate, h.removeMapping hmem, husers]

/-- The users that are left when a frame was evicted. -/
theorem Pager.Consistent.mem_evict (h : s.Consistent)
    (hocc : (s.physical.frames f).occupied = true) (hlen : (s.cow.frames f).length ≤ 1)
    {m : CowMapping} (hm : m ∈ (s.evict f).cow.frames g) : g ≠ f ∧ m ∈ s.cow.frames g := by
  rw [h.evict_users hocc hlen] at hm
  by_cases e : g = f
  · rw [e, Function.update_self] at hm
    cases hm
  · rw [Function.update_of_ne e] at hm
    exact ⟨e, hm⟩

/-! ## Rules for a page fault

What each way to end a fault leaves holds after the fault. -/

/-- A victim for a page: it was chosen and saved, and its frame is free
once it is evicted. -/
structure Pager.Evicts (s : Pager) (p page f : Nat) (policy : ReplacementPolicy)
    (saved : Pager) : Prop where
  choose : replacementPolicyChooseVictim s.policy = some (f, policy)
  valid : f ≠ replacementInvalidFrame
  chosen : Pager.Consistent { s with policy := policy }
  occupied : (s.physical.frames f).occupied = true
  sole : (s.cow.frames f).length ≤ 1
  victim : Pager.saveVictim { s with policy := policy } f = some saved
  consistent : saved.Consistent
  evicted : (saved.evict f).Consistent
  processes : (saved.evict f).processes = s.processes
  unmapped : (saved.evict f).mapped p page = none
  free : ((saved.evict f).physical.frames f).occupied = false
  lt : f < (saved.evict f).physical.frameCount

theorem Pager.Consistent.replace_rule {P : Pager → Prop} (h : s.Consistent)
    (hm : s.mapped p page = none) (isWrite recorded : Bool)
    (hkept : ∀ policy, Pager.Consistent { s with policy := policy } → P { s with policy := policy })
    (hloaded : ∀ f policy saved, s.Evicts p page f policy saved →
      P ((saved.evict f).load p page f isWrite))
    (hcounted : ∀ s' dirty, P s' → P (s'.countReplacement dirty).tick) :
    P (s.replace p page isWrite recorded).2 := by
  obtain ⟨f, policy, hchoose, hvictim, hchosen⟩ := h.chooseVictim
  simp only [Pager.replace, hchoose]
  split
  · exact hkept policy hchosen
  · rename_i hcond
    have hvalid : f ≠ replacementInvalidFrame := fun e => hcond (Or.inl e)
    have hocc : (s.physical.frames f).occupied = true := hvictim.resolve_left hvalid
    have hlen : (s.cow.frames f).length ≤ 1 := Nat.le_of_not_lt fun hlt => hcond (Or.inr hlt)
    split
    · exact hkept policy hchosen
    · rename_i saved hsaved
      have hconsistent := hchosen.saveVictim hocc hsaved
      have hloads : P ((saved.evict f).load p page f isWrite) := by
        refine hloaded f policy saved ?_
        obtain ⟨swap, stats, rfl⟩ := Pager.saveVictim_eq hsaved
        obtain ⟨hevicted, hprocesses, hnone, hfree, hcount⟩ := hconsistent.evicted hocc hlen hm
        exact ⟨hchoose, hvalid, hchosen, hocc, hlen, hsaved, hconsistent, hevicted, hprocesses,
          hnone, hfree, by rw [hcount]; exact h.frame_lt hocc⟩
      split
      · exact hcounted _ _ hloads
      · exact hloads

theorem Pager.Consistent.fault_rule {P : Pager → Prop} (h : s.Consistent) (isWrite recorded : Bool)
    (hloaded : ∀ f, s.physical.firstFree = some f → f < s.physical.frameCount →
      (s.physical.frames f).occupied = false → P (s.countFault.load p page f isWrite))
    (hreplaced : s.physical.firstFree = none →
      P (s.countFault.replace p page isWrite recorded).2)
    (htick : ∀ s', P s' → P s'.tick) : P (s.fault p page isWrite recorded).2 := by
  unfold Pager.fault
  split
  · rename_i f hf
    obtain ⟨hlt, hfree, _⟩ := h.firstFree hf
    have hloads := hloaded f hf hlt hfree
    dsimp only
    split
    · exact htick _ hloads
    · exact hloads
  · rename_i hnone
    exact hreplaced hnone

theorem Pager.Consistent.replace (h : s.Consistent) (hp : p ∈ s.processes) (hpage : page < 2 ^ 52)
    (hm : s.mapped p page = none) (isWrite recorded : Bool) :
    (s.replace p page isWrite recorded).2.Consistent := by
  refine h.replace_rule hm isWrite recorded (fun policy hchosen => hchosen)
    (fun f policy saved hv => ?_) fun s' dirty h' => (h'.setStats _).tick
  exact hv.evicted.load (by rw [hv.processes]; exact hp) hpage hv.lt hv.free hv.unmapped isWrite

theorem Pager.Consistent.fault (h : s.Consistent) (hp : p ∈ s.processes) (hpage : page < 2 ^ 52)
    (hm : s.mapped p page = none) (isWrite recorded : Bool) :
    (s.fault p page isWrite recorded).2.Consistent := by
  have hcounted : s.countFault.Consistent := h.setStats _
  refine h.fault_rule isWrite recorded (fun f _ hlt hfree => ?_) (fun _ => ?_)
    fun s' h' => h'.tick
  · exact hcounted.load hp hpage hlt hfree hm isWrite
  · exact hcounted.replace hp hpage hm isWrite recorded

/-! ## Resident pages -/

/-- What each way to resolve copy-on-write leaves holds after it: the page
is not shared, it is copied, or the other readers are sent to swap. -/
theorem Pager.cowWrite_rule {P : Pager → Prop} (moved : Bool) (hsame : P s)
    (hcopied : ∀ g, 1 < (s.cow.frames f).length → s.physical.firstFree = some g →
      P (((s.detach p page f).place p page g).fill g (s.physical.data f)))
    (hrefused : ∀ swap stats, 1 < (s.cow.frames f).length → s.physical.firstFree = none →
      s.swap ≠ none → Pager.saveReaders ⟨p, page⟩ (s.physical.data f) (s.cow.frames f) s =
        (false, { s with swap := swap, stats := stats }) → P { s with swap := swap, stats := stats })
    (hexcluded : ∀ swap stats, 1 < (s.cow.frames f).length → s.physical.firstFree = none →
      Pager.saveReaders ⟨p, page⟩ (s.physical.data f) (s.cow.frames f) s =
        (true, { s with swap := swap, stats := stats }) →
      P (Pager.exclude { s with swap := swap, stats := stats } p page f)) :
    P (s.cowWrite p page f moved).2 := by
  unfold Pager.cowWrite
  split
  · exact hsame
  · rename_i hlen
    have hshared := Nat.lt_of_not_le hlen
    split
    · rename_i g hg
      exact hcopied g hshared hg
    · rename_i hfull
      split
      · exact hsame
      · rename_i hswap
        obtain ⟨swap, stats, heq⟩ :=
          s.saveReaders_eq ⟨p, page⟩ (s.physical.data f) (s.cow.frames f)
        split
        · rename_i s₁ hs
          rw [hs] at heq
          obtain rfl : s₁ = { s with swap := swap, stats := stats } := heq
          exact hrefused swap stats hshared hfull (by simpa using hswap) hs
        · rename_i s₁ hs
          rw [hs] at heq
          obtain rfl : s₁ = { s with swap := swap, stats := stats } := heq
          exact hexcluded swap stats hshared hfull hs

/-- The frame that copy-on-write gives, and what it has done for it. -/
theorem Pager.cowWrite_some {moved : Bool} (hg : (s.cowWrite p page f moved).1 = some g) :
    ((s.cow.frames f).length ≤ 1 ∧ g = f ∧ (s.cowWrite p page f moved).2 = s) ∨
    (1 < (s.cow.frames f).length ∧ s.physical.firstFree = some g ∧
      (s.cowWrite p page f moved).2 =
        ((s.detach p page f).place p page g).fill g (s.physical.data f)) ∨
    (1 < (s.cow.frames f).length ∧ s.physical.firstFree = none ∧ g = f ∧ ∃ swap stats,
      (s.cowWrite p page f moved).2 =
        Pager.exclude { s with swap := swap, stats := stats } p page f) := by
  unfold Pager.cowWrite at hg ⊢
  split at hg
  · rename_i hlen
    rw [if_pos hlen]
    cases hg
    exact Or.inl ⟨hlen, rfl, rfl⟩
  · rename_i hlen
    rw [if_neg hlen]
    split at hg
    · rename_i k hfree
      cases moved with
      | true =>
        cases hg
        exact Or.inr (Or.inl ⟨Nat.lt_of_not_le hlen, hfree, rfl⟩)
      | false => cases hg
    · rename_i hfull
      split at hg
      · cases hg
      · rename_i hswap
        rw [if_neg hswap]
        obtain ⟨swap, stats, heq⟩ :=
          s.saveReaders_eq ⟨p, page⟩ (s.physical.data f) (s.cow.frames f)
        split at hg
        · cases hg
        · rename_i s₁ hsave
          simp only [hsave] at heq ⊢
          subst heq
          cases moved with
          | true =>
            cases hg
            exact Or.inr (Or.inr ⟨Nat.lt_of_not_le hlen, hfull, rfl, swap, stats, rfl⟩)
          | false => cases hg

/-- What copy-on-write leaves, and the note of the access keeps, holds
after an access to a page that was found. -/
theorem Pager.resident_rule {P : Pager → Prop} {moved : Bool} (recorded : Bool)
    (hread : isWrite = false → P s)
    (hwrite : isWrite = true → P (s.cowWrite p page f moved).2)
    (hnoted : ∀ s' g, P s' → P (s'.notify g isWrite)) :
    P (s.resident p page f isWrite moved recorded).2 := by
  have hwritable : P (if isWrite then s.cowWrite p page f moved else (some f, s)).2 := by
    cases isWrite with
    | true => exact hwrite rfl
    | false => exact hread rfl
  unfold Pager.resident
  split
  · rename_i s₁ hs
    rw [hs] at hwritable
    exact hwritable
  · rename_i g s₁ hs
    rw [hs] at hwritable
    split
    · exact hnoted s₁ g hwritable
    · exact hwritable

/-- A write may go to the frame, or copy-on-write can be resolved. -/
def Pager.Writable (s : Pager) (p page f : Nat) : Prop :=
  (s.cow.frames f).length ≤ 1 ∨ ⟨p, page⟩ ∈ s.cow.frames f

theorem Pager.Consistent.detach_frames (h : s.Consistent) (hm : ⟨p, page⟩ ∈ s.cow.frames f)
    (hlen : 1 < (s.cow.frames f).length) (hg : g ≠ f) :
    (s.detach p page f).physical.frames g = s.physical.frames g ∧
      (s.detach p page f).cow.frames g = s.cow.frames g := by
  obtain ⟨o, _, _, _, heq⟩ := h.detach_eq hm hlen
  simp [heq, Pager.handOver, Pager.drop, h.removeMapping hm, hg]

/-- The copy of a shared page: consistent, and in use. -/
theorem Pager.Consistent.copied (h : s.Consistent) (hpage : page < 2 ^ 52)
    (hm : ⟨p, page⟩ ∈ s.cow.frames f) (hlen : 1 < (s.cow.frames f).length)
    (hg : s.physical.firstFree = some g) (data : PageData) :
    (((s.detach p page f).place p page g).fill g data).Consistent ∧
      ((((s.detach p page f).place p page g).fill g data).physical.frames g).occupied = true := by
  obtain ⟨hlt, hfree, husers⟩ := h.firstFree hg
  have hne : g ≠ f := by
    rintro rfl
    rw [husers] at hm
    cases hm
  have hp : p ∈ s.processes := h.registered hm
  obtain ⟨hframes, _⟩ := h.detach_frames hm hlen hne
  obtain ⟨o, _, _, _, heq⟩ := h.detach_eq hm hlen
  have hplaced : ((s.detach p page f).place p page g).Consistent := (h.detach hm hlen).place
    (by rw [heq]; exact hp) hpage (by rw [heq]; exact hlt) (by rw [hframes]; exact hfree)
    (by rw [heq]; simp [Pager.handOver, Pager.drop, rebind])
  have hocc : ((((s.detach p page f).place p page g)).physical.frames g).occupied = true := by
    simp [Pager.place_frames, PhysicalFrame.assigned]
  exact ⟨hplaced.fill hocc data, hocc⟩

/-- What the copy of a shared page to the frame `g` changes. -/
structure Pager.Copied (s : Pager) (p page g : Nat) (data : PageData) (s' : Pager) : Prop where
  mapped : s'.mapped = rebind s.mapped p page (some g)
  data : s'.physical.data = Function.update s.physical.data g data
  users : ∀ k, ∀ m ∈ s'.cow.frames k, k = g ∧ m = ⟨p, page⟩ ∨ k ≠ g ∧ m ∈ s.cow.frames k
  occupied : ∀ k, (s.physical.frames k).occupied = true →
    (s'.physical.frames k).occupied = true
  policy : s'.policy = (replacementPolicyOnLoad s.policy g).2
  swap : s'.swap = s.swap
  pid : s'.pid = s.pid
  processes : s'.processes = s.processes

theorem Pager.Consistent.copy_spec (h : s.Consistent) (hm : ⟨p, page⟩ ∈ s.cow.frames f)
    (hlen : 1 < (s.cow.frames f).length) (hg : s.cow.frames g = []) (data : PageData) :
    s.Copied p page g data (((s.detach p page f).place p page g).fill g data) := by
  have hne : g ≠ f := by
    rintro rfl
    rw [hg] at hm
    cases hm
  obtain ⟨o, _, _, _, heq⟩ := h.detach_eq hm hlen
  rw [heq]
  refine ⟨by simp only [Pager.fill, Pager.place, Pager.handOver, Pager.drop, rebind_idem], ?_,
    fun k m hk => ?_, fun k hk => ?_, rfl, rfl, rfl, rfl⟩
  · simp [Pager.fill, Pager.place, Pager.handOver, Pager.drop, physicalFrameAssign,
      PhysicalMemory.setFrame]
  · simp only [Pager.fill, Pager.place, Pager.handOver, Pager.drop, cowManagerInsert,
      h.removeMapping hm] at hk
    by_cases ekg : k = g
    · rw [ekg, Function.update_self, Function.update_of_ne hne, hg, List.mem_singleton] at hk
      exact Or.inl ⟨ekg, hk⟩
    · refine Or.inr ⟨ekg, ?_⟩
      rw [Function.update_of_ne ekg] at hk
      by_cases ekf : k = f
      · rw [ekf, Function.update_self] at hk
        rw [ekf]
        exact List.mem_of_mem_erase hk
      · rwa [Function.update_of_ne ekf] at hk
  · show (((Pager.place _ p page g).physical.frames) k).occupied = true
    rw [Pager.place_frames]
    by_cases ekg : k = g
    · rw [ekg, Function.update_self]
      rfl
    · rw [Function.update_of_ne ekg]
      by_cases ekf : k = f
      · rw [ekf] at hk ⊢
        simpa [Pager.handOver, Pager.drop] using hk
      · simpa [Pager.handOver, Pager.drop, ekf] using hk

theorem Pager.Consistent.cowWrite (h : s.Consistent) (hpage : page < 2 ^ 52)
    (hocc : (s.physical.frames f).occupied = true) (hw : s.Writable p page f) (moved : Bool) :
    (s.cowWrite p page f moved).2.Consistent ∧ ∀ g, (s.cowWrite p page f moved).1 = some g →
      ((s.cowWrite p page f moved).2.physical.frames g).occupied = true := by
  unfold Pager.cowWrite
  split
  · exact ⟨h, fun g hg => by cases hg; exact hocc⟩
  · rename_i hlen
    have hm : ⟨p, page⟩ ∈ s.cow.frames f := hw.resolve_left hlen
    have hlen' : 1 < (s.cow.frames f).length := Nat.lt_of_not_le hlen
    split
    · rename_i g hg
      obtain ⟨hcopied, hin⟩ := h.copied hpage hm hlen' hg (s.physical.data f)
      refine ⟨hcopied, fun g' hg' => ?_⟩
      cases moved with
      | true => cases hg'; exact hin
      | false => cases hg'
    · split
      · exact ⟨h, fun g hg => by cases hg⟩
      · have hsaved := Pager.Consistent.saveReaders ⟨p, page⟩ (s.physical.data f)
          (s.cow.frames f) s h (h.frame f (h.lt_of_user hm)).registered
        obtain ⟨swap, stats, heq⟩ :=
          s.saveReaders_eq ⟨p, page⟩ (s.physical.data f) (s.cow.frames f)
        split
        · rename_i s₁ hs
          rw [hs] at hsaved
          exact ⟨hsaved, fun g hg => by cases hg⟩
        · rename_i s₁ hs
          rw [hs] at hsaved heq
          simp only at heq
          subst heq
          refine ⟨hsaved.exclude hm, fun g hg => ?_⟩
          cases moved with
          | true => cases hg; simpa [Pager.exclude, Pager.handOver] using hocc
          | false => cases hg

theorem Pager.Consistent.resident (h : s.Consistent) (hpage : page < 2 ^ 52)
    (hocc : (s.physical.frames f).occupied = true)
    (hw : isWrite = true → s.Writable p page f) (moved recorded : Bool) :
    (s.resident p page f isWrite moved recorded).2.Consistent := by
  have hframe : (if isWrite then s.cowWrite p page f moved else (some f, s)).2.Consistent ∧
      ∀ g, (if isWrite then s.cowWrite p page f moved else (some f, s)).1 = some g →
        ((if isWrite then s.cowWrite p page f moved else (some f, s)).2.physical.frames
          g).occupied = true := by
    cases isWrite with
    | true => exact h.cowWrite hpage hocc (hw rfl) moved
    | false => exact ⟨h, fun g hg => by cases hg; exact hocc⟩
  unfold Pager.resident
  split
  · rename_i s₁ hs
    rw [hs] at hframe
    exact hframe.1
  · rename_i g s₁ hs
    rw [hs] at hframe
    split
    · exact hframe.1.notify (hframe.2 g rfl) isWrite
    · exact hframe.1

/-! ## Accesses -/

/-- What an access needs of the frame it finds its page in. -/
def Pager.Admits (s : Pager) (answers : TlbAnswers) (p page : Nat) (isWrite : Bool) : Prop :=
  ∀ f, answers.hit = some f ∨ (answers.hit = none ∧ s.mapped p page = some f) →
    (s.physical.frames f).occupied = true ∧ (isWrite = true → s.Writable p page f)

theorem Pager.register_eq (s : Pager) (p : Nat) :
    s.register p = { s with processes := (s.register p).processes } := by
  unfold Pager.register
  split <;> rfl

/-- The state in which an access has been counted. -/
theorem Pager.counted_eq (s : Pager) (p : Nat) (isWrite : Bool) : ∃ processes stats,
    (s.register p).count isWrite = { s with processes := processes, stats := stats } := by
  rw [Pager.register_eq]
  exact ⟨_, _, rfl⟩

theorem Pager.Consistent.access (h : s.Consistent) (hp : 0 ≤ s.pid p) (hpage : page < 2 ^ 52)
    {answers : TlbAnswers} (ha : s.Admits answers p page isWrite) :
    (s.access answers p page isWrite).2.Consistent := by
  have hcounted : ((s.register p).count isWrite).Consistent := (h.register hp).setStats _
  have hmem : p ∈ ((s.register p).count isWrite).processes := s.mem_register p
  have hfound : ∀ f, answers.hit = some f ∨ (answers.hit = none ∧ s.mapped p page = some f) →
      (((s.register p).count isWrite).physical.frames f).occupied = true ∧
        (isWrite = true → ((s.register p).count isWrite).Writable p page f) := by
    intro f hf
    rw [Pager.register_eq]
    exact ha f hf
  have hmapped : ((s.register p).count isWrite).mapped = s.mapped := by
    rw [Pager.register_eq]
    rfl
  unfold Pager.access
  dsimp only
  split
  · rename_i f hhit
    obtain ⟨hocc, hw⟩ := hfound f (Or.inl hhit)
    exact hcounted.resident hpage hocc hw _ _
  · rename_i hhit
    split
    · rename_i f hm
      rw [hmapped] at hm
      obtain ⟨hocc, hw⟩ := hfound f (Or.inr ⟨hhit, hm⟩)
      exact hcounted.resident hpage hocc hw _ _
    · rename_i hm
      exact hcounted.fault hmem hpage hm _ _

theorem Pager.Consistent.readByte (h : s.Consistent) (hp : 0 ≤ s.pid p) {a : Nat}
    (ha : a < wordSize) {answers : TlbAnswers}
    (had : s.Admits answers p (addressPageNumber a) false) :
    (s.readByte answers p a).2.Consistent := by
  unfold Pager.readByte
  dsimp only
  split
  · exact h.access hp (addressPageNumber_lt ha) had
  · exact h.access hp (addressPageNumber_lt ha) had

theorem Pager.Consistent.writeByte (h : s.Consistent) (hp : 0 ≤ s.pid p) {a : Nat}
    (ha : a < wordSize) {answers : TlbAnswers}
    (had : s.Admits answers p (addressPageNumber a) true) (value : UInt8) :
    (s.writeByte answers p a value).2.Consistent := by
  have haccess := h.access hp (addressPageNumber_lt ha) had
  unfold Pager.writeByte
  dsimp only
  split
  · exact haccess
  · split
    · exact haccess
    · rename_i f hm
      exact haccess.fill (haccess.occupied_of_mapped hm) _

/-! ## Creation and fork -/

/-- A process that does not exist maps nothing. -/
theorem Pager.Consistent.mapped_none (h : s.Consistent) (hp : p ∉ s.processes) (page : Nat) :
    s.mapped p page = none := by
  cases hm : s.mapped p page with
  | none => rfl
  | some f => exact absurd (h.process_of_mapped hm) hp

theorem Pager.Consistent.user_ne_next (h : s.Consistent) {m : CowMapping}
    (hm : m ∈ s.cow.frames f) : m.process ≠ s.nextProcess := by
  intro e
  exact h.next_notMem (e ▸ h.registered hm)

theorem Pager.Consistent.pid_next (h : s.Consistent) {pid : Int} (hq : q ∈ s.processes) :
    Function.update s.pid s.nextProcess pid q = s.pid q := by
  apply Function.update_of_ne
  rintro rfl
  exact h.next_notMem hq

theorem Pager.Consistent.pid_lt_next (h : s.Consistent) {pid : Int}
    (hq : 0 ≤ Function.update s.pid s.nextProcess pid q) : q < s.nextProcess + 1 := by
  by_cases e : q = s.nextProcess
  · omega
  · rw [Function.update_of_ne e] at hq
    have hlt := h.pid_lt q hq
    omega

theorem Pager.Consistent.create (h : s.Consistent) (pid : Int) :
    (s.create pid).2.Consistent := by
  unfold Pager.create
  split
  · exact h
  · refine ⟨h.pos, h.count_lt, h.policy, h.policy_count, h.cow_count, h.loaded, fun f hf => ?_,
      h.beyond, fun q v f => ?_, h.registry, fun q hq => ?_, fun q hq => h.pid_lt_next hq,
      h.freeCount, h.swap, fun swap hswap pid' page hc => ?_⟩
    · have hframe := h.frame f hf
      refine ⟨hframe.occupied, hframe.nodup, hframe.page, hframe.page_lt, hframe.registered,
        fun hocc => ?_, hframe.free, hframe.dirty⟩
      obtain ⟨o, howner, hpid, ho⟩ := hframe.owner hocc
      exact ⟨o, howner, hpid.trans (h.pid_next (hframe.registered _ ho)).symm, ho⟩
    · show Function.update s.mapped s.nextProcess (fun _ => none) q v = some f ↔ _
      by_cases e : q = s.nextProcess
      · rw [e, Function.update_self, ← h.mapped, h.mapped_none h.next_notMem]
      · rw [Function.update_of_ne e]
        exact h.mapped q v f
    · show 0 ≤ Function.update s.pid s.nextProcess pid q
      rw [h.pid_next hq]
      exact h.live q hq
    · obtain ⟨q, hq, hpid⟩ := h.stored swap hswap pid' page hc
      exact ⟨q, hq, (h.pid_next hq).trans hpid⟩

theorem Pager.mem_joined {m : CowMapping} :
    m ∈ s.joined p s.nextProcess f ↔ m ∈ s.cow.frames f ∨
      (m = ⟨s.nextProcess, (s.physical.frames f).virtualPage⟩ ∧
        ⟨p, (s.physical.frames f).virtualPage⟩ ∈ s.cow.frames f) := by
  unfold Pager.joined
  by_cases hmem : ⟨p, (s.physical.frames f).virtualPage⟩ ∈ s.cow.frames f
  · simp [hmem, or_comm]
  · simp [hmem]

theorem Pager.Consistent.spawn (h : s.Consistent) (p : Nat) {childPid : Int}
    (hpid : 0 ≤ childPid) : (s.spawn p childPid).Consistent := by
  have hchild := h.next_notMem
  refine ⟨h.pos, h.count_lt, h.policy, h.policy_count, h.cow_count, h.loaded, fun f hf => ?_,
    fun f hf => ?_, fun q v f => ?_, List.nodup_cons.mpr ⟨hchild, h.registry⟩, fun q hq => ?_,
    fun q hq => h.pid_lt_next hq, h.freeCount, h.swap, fun swap hswap pid' page hc => ?_⟩
  · have hframe := h.frame f hf
    refine ⟨?_, ?_, fun m hm => ?_, hframe.page_lt, fun m hm => ?_, fun hocc => ?_, hframe.free,
      hframe.dirty⟩
    · show (s.physical.frames f).occupied = true ↔ s.joined p s.nextProcess f ≠ []
      rw [hframe.occupied]
      unfold Pager.joined
      split
      · rename_i hmem
        exact ⟨fun _ => List.cons_ne_nil _ _, fun _ => List.ne_nil_of_mem hmem⟩
      · rfl
    · show (s.joined p s.nextProcess f).Nodup
      unfold Pager.joined
      split
      · exact List.nodup_cons.mpr ⟨fun hmem => h.user_ne_next hmem rfl, hframe.nodup⟩
      · exact hframe.nodup
    · rcases Pager.mem_joined.mp hm with hm | ⟨rfl, _⟩
      · exact hframe.page m hm
      · rfl
    · rcases Pager.mem_joined.mp hm with hm | ⟨rfl, _⟩
      · exact List.mem_cons_of_mem _ (hframe.registered m hm)
      · exact List.mem_cons_self
    · obtain ⟨o, howner, hopid, ho⟩ := hframe.owner hocc
      exact ⟨o, howner, hopid.trans (h.pid_next (hframe.registered _ ho)).symm,
        Pager.mem_joined.mpr (Or.inl ho)⟩
  · show s.joined p s.nextProcess f = []
    simp [Pager.joined, h.beyond f hf]
  · show Function.update s.mapped s.nextProcess (s.mapped p) q v = some f ↔
      ∃ u, ⟨q, u⟩ ∈ s.joined p s.nextProcess f ∧ pageKey u = pageKey v
    by_cases e : q = s.nextProcess
    · rw [e, Function.update_self]
      constructor
      · intro hm
        obtain ⟨hu, hk⟩ := h.user_of_mapped hm
        exact ⟨_, Pager.mem_joined.mpr (Or.inr ⟨rfl, hu⟩), hk⟩
      · rintro ⟨u, hu, hk⟩
        rcases Pager.mem_joined.mp hu with hu | ⟨hu, hmem⟩
        · exact absurd rfl (h.user_ne_next hu)
        · have hpage : u = (s.physical.frames f).virtualPage := congrArg CowMapping.virtualPage hu
          rw [hpage] at hk
          exact (h.mapped p v f).mpr ⟨_, hmem, hk⟩
    · rw [Function.update_of_ne e, h.mapped]
      refine exists_congr fun u => and_congr_left fun _ => ?_
      rw [Pager.mem_joined]
      refine ⟨Or.inl, fun hu => hu.resolve_right fun hn => e ?_⟩
      exact congrArg CowMapping.process hn.1
  · show 0 ≤ Function.update s.pid s.nextProcess childPid q
    rcases List.mem_cons.mp hq with rfl | hq
    · rw [Function.update_self]
      exact hpid
    · rw [h.pid_next hq]
      exact h.live q hq
  · obtain ⟨q, hq, hqpid⟩ := h.stored swap hswap pid' page hc
    exact ⟨q, List.mem_cons_of_mem _ hq, (h.pid_next hq).trans hqpid⟩

theorem Pager.Consistent.fork (h : s.Consistent) (hp : 0 ≤ s.pid p) (childPid : Int) :
    (s.fork p childPid).2.Consistent := by
  unfold Pager.fork
  split
  · exact h
  · rename_i hpid
    exact (h.register hp).spawn p (Int.not_lt.mp hpid)

/-! ## Release -/

/-- The pager after a process gave up its mappings of some frames. -/
structure Pager.Released (s : Pager) (p : Nat) (frames : List Nat) (s' : Pager) : Prop where
  consistent : s'.Consistent
  processes : s'.processes = s.processes
  pid : s'.pid = s.pid
  nextProcess : s'.nextProcess = s.nextProcess
  swap : s'.swap = s.swap
  stats : s'.stats = s.stats
  frameCount : s'.physical.frameCount = s.physical.frameCount
  users : ∀ g m, m ∈ s'.cow.frames g ↔ m ∈ s.cow.frames g ∧ (g ∈ frames → m.process ≠ p)
  kept : ∀ g, (s'.physical.frames g).occupied = true →
    s'.physical.data g = s.physical.data g ∧
      (s'.physical.frames g).dirty = (s.physical.frames g).dirty ∧
      (s'.physical.frames g).referenced = (s.physical.frames g).referenced ∧
      (s'.physical.frames g).virtualPage = (s.physical.frames g).virtualPage

theorem Pager.Consistent.released_nil (h : s.Consistent) (p : Nat) : s.Released p [] s :=
  ⟨h, rfl, rfl, rfl, rfl, rfl, rfl, fun g m => by simp, fun g _ => ⟨rfl, rfl, rfl, rfl⟩⟩

theorem Pager.Released.trans {frames frames' : List Nat} {s'' : Pager}
    (h : s.Released p frames s') (h' : s'.Released p frames' s'') :
    s.Released p (frames ++ frames') s'' := by
  refine ⟨h'.consistent, h'.processes.trans h.processes, h'.pid.trans h.pid,
    h'.nextProcess.trans h.nextProcess, h'.swap.trans h.swap, h'.stats.trans h.stats,
    h'.frameCount.trans h.frameCount, fun g m => ?_, fun g hg => ?_⟩
  · rw [h'.users, h.users, List.mem_append]
    tauto
  · obtain ⟨hd', h₁', h₂', h₃'⟩ := h'.kept g hg
    have hg' : (s'.physical.frames g).occupied = true := by
      obtain ⟨o, _, _, ho⟩ := h'.consistent.owner hg
      exact h.consistent.occupied_of_user ((h'.users g _).mp ho).1
    obtain ⟨hd, h₁, h₂, h₃⟩ := h.kept g hg'
    exact ⟨hd'.trans hd, h₁'.trans h₁, h₂'.trans h₂, h₃'.trans h₃⟩

/-- The users of a frame after one of them left. -/
theorem Pager.Consistent.users_left (h : s.Consistent) (hm : ⟨p, page⟩ ∈ s.cow.frames f)
    (g : Nat) (m : CowMapping) :
    m ∈ (Function.update s.cow.frames f ((s.cow.frames f).erase ⟨p, page⟩)) g ↔
      m ∈ s.cow.frames g ∧ (g ∈ [f] → m.process ≠ p) := by
  by_cases e : g = f
  · subst e
    rw [Function.update_self, h.erase_users, and_comm]
    refine and_congr_right fun hmem => ⟨fun hne _ he => hne ?_, fun hne he => ?_⟩
    · obtain ⟨o, u⟩ := m
      have hpage : u = page := (h.user_page hmem).trans (h.user_page hm).symm
      rw [hpage, ← he]
    · exact hne (List.mem_singleton.mpr rfl) (by rw [he])
  · simp [e]

theorem Pager.Consistent.releaseFrame (h : s.Consistent) (p f : Nat) :
    s.Released p [f] (s.releaseFrame p f) := by
  unfold Pager.releaseFrame
  split
  · rename_i hm
    have hlt := h.lt_of_user hm
    split
    · rename_i hlen
      obtain ⟨m, husers⟩ := List.length_eq_one_iff.mp hlen
      have hsole : s.cow.frames f = [⟨p, (s.physical.frames f).virtualPage⟩] := by
        rw [husers] at hm ⊢
        rw [List.mem_singleton.mp hm]
      refine ⟨h.vacate hsole, rfl, rfl, rfl, rfl, rfl, rfl, fun g m => ?_, fun g hg => ?_⟩
      · simp only [Pager.vacate, h.removeMapping hm]
        exact h.users_left hm g m
      · have hne : g ≠ f := by
          rintro rfl
          simp [Pager.vacate_frames, PhysicalFrame.free] at hg
        simp [Pager.vacate, physicalFrameReset, PhysicalMemory.setFrame, hne]
    · rename_i hlen
      have hlen' : 1 < (s.cow.frames f).length := by
        have hpos := List.length_pos_of_mem hm
        omega
      obtain ⟨o, hne, ho, _, heq⟩ := h.detach_eq hm hlen'
      refine ⟨h.detach hm hlen', by rw [heq]; rfl, by rw [heq]; rfl, by rw [heq]; rfl,
        by rw [heq]; rfl, by rw [heq]; rfl, by rw [heq]; rfl, fun g m => ?_, fun g hg => ?_⟩
      · simp only [heq, Pager.handOver, Pager.drop, h.removeMapping hm]
        exact h.users_left hm g m
      · by_cases e : g = f <;> simp [heq, Pager.handOver, Pager.drop, e]
  · rename_i hm
    refine ⟨h, rfl, rfl, rfl, rfl, rfl, rfl, fun g m => ⟨fun hmem => ⟨hmem, fun hg he => hm ?_⟩,
      fun hmem => hmem.1⟩, fun g _ => ⟨rfl, rfl, rfl, rfl⟩⟩
    rw [List.mem_singleton.mp hg] at hmem
    obtain ⟨o, u⟩ := m
    have hpage : u = (s.physical.frames f).virtualPage := h.user_page hmem
    rwa [← hpage, ← he]

theorem Pager.Consistent.releaseFrames (p : Nat) (frames : List Nat) :
    ∀ s : Pager, s.Consistent → s.Released p frames (s.releaseFrames p frames) := by
  induction frames with
  | nil => exact fun s h => h.released_nil p
  | cons f frames ih =>
    intro s h
    have hfirst := h.releaseFrame p f
    exact hfirst.trans (ih _ hfirst.consistent)

/-- After all frames, a process has no mapping left. -/
theorem Pager.Released.no_user (h : s.Consistent)
    (hr : s.Released p (List.range s.physical.frameCount) s') {m : CowMapping}
    (hm : m ∈ s'.cow.frames f) : m.process ≠ p := by
  obtain ⟨hmem, hne⟩ := (hr.users f m).mp hm
  exact hne (List.mem_range.mpr (h.lt_of_user hmem))

theorem Pager.Consistent.forget (h : s.Consistent) (hp : 0 ≤ s.pid p)
    (hgone : ∀ f m, m ∈ s.cow.frames f → m.process ≠ p) : (s.forget p).Consistent := by
  have hmem : ∀ q, q ∈ s.processes.erase p ↔ q ≠ p ∧ q ∈ s.processes := fun q =>
    h.registry.mem_erase_iff
  refine ⟨h.pos, h.count_lt, h.policy, h.policy_count, h.cow_count, h.loaded, fun f hf => ?_,
    h.beyond, h.mapped, h.registry.erase p, fun q hq => h.live q ((hmem q).mp hq).2, h.pid_lt,
    h.freeCount, fun swap hswap => ?_, fun swap hswap pid page hc => ?_⟩
  · have hframe := h.frame f hf
    exact ⟨hframe.occupied, hframe.nodup, hframe.page, hframe.page_lt,
      fun m hm => (hmem _).mpr ⟨hgone f m hm, hframe.registered m hm⟩, hframe.owner, hframe.free,
      hframe.dirty⟩
  · obtain ⟨swap₀, hswap₀, rfl⟩ := Option.map_eq_some_iff.mp hswap
    obtain ⟨hwf, hworks⟩ := h.swap swap₀ hswap₀
    obtain ⟨hwf', hfile, _⟩ := swapRemoveProcess_spec hwf hp
    exact ⟨hwf', by rw [Swap.Works, hfile]; exact hworks⟩
  · obtain ⟨swap₀, hswap₀, rfl⟩ := Option.map_eq_some_iff.mp hswap
    obtain ⟨_, _, hcontent⟩ := swapRemoveProcess_spec (h.swap swap₀ hswap₀).1 hp
    rw [hcontent] at hc
    split at hc
    · exact absurd rfl hc
    · rename_i hne
      obtain ⟨q, hq, hpid⟩ := h.stored swap₀ hswap₀ pid page hc
      exact ⟨q, (hmem q).mpr ⟨fun e => hne (by rw [← hpid, e]), hq⟩, hpid⟩

theorem Pager.Consistent.release (h : s.Consistent) (hp : 0 ≤ s.pid p) :
    (s.release p).Consistent := by
  have hr := Pager.Consistent.releaseFrames p (List.range s.physical.frameCount) s h
  exact hr.consistent.forget (by rw [hr.pid]; exact hp) fun f m hm => hr.no_user h hm

/-! ## Calls -/

/-- What a call asks of the TLB. -/
def Pager.Expects (s : Pager) (answers : TlbAnswers) : Call → Prop
  | .access p a t => s.Admits answers p (addressPageNumber a) (decide (t = .write))
  | .readByte p a => s.Admits answers p (addressPageNumber a) false
  | .writeByte p a _ => s.Admits answers p (addressPageNumber a) true
  | _ => True

/-- The process of a call exists, and its address is a 64-bit word. -/
def Pager.Valid (s : Pager) : Call → Prop
  | .createProcess _ => True
  | .access p a _ => 0 ≤ s.pid p ∧ a < wordSize
  | .readByte p a => 0 ≤ s.pid p ∧ a < wordSize
  | .writeByte p a _ => 0 ≤ s.pid p ∧ a < wordSize
  | .fork p _ => 0 ≤ s.pid p
  | .release p => 0 ≤ s.pid p

theorem Pager.Consistent.step (h : s.Consistent) {answers : TlbAnswers} {call : Call}
    (hv : s.Valid call) (he : s.Expects answers call) : (s.step answers call).2.Consistent := by
  cases call with
  | createProcess pid => exact h.create pid
  | access p a t => exact h.access hv.1 (addressPageNumber_lt hv.2) he
  | readByte p a => exact h.readByte hv.1 hv.2 he
  | writeByte p a value => exact h.writeByte hv.1 hv.2 he value
  | fork p childPid => exact h.fork hv childPid
  | release p => exact h.release hv

end VmSim
