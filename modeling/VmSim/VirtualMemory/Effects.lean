/-
VmSim.VirtualMemory.Effects — what an access leaves alone.

`Pager.Evolves s page s'` is what every part of an access to `page`
satisfies: the processes stay, and a frame in use afterwards holds `page`
or what it held before.
-/
import VmSim.VirtualMemory.Simulation

namespace VmSim

open Lib

variable {s s' s'' : Pager} {p q page f g a : Nat} {isWrite : Bool}

structure Pager.Evolves (s : Pager) (page : Nat) (s' : Pager) : Prop where
  processes : s'.processes = s.processes
  pid : s'.pid = s.pid
  nextProcess : s'.nextProcess = s.nextProcess
  frameCount : s'.physical.frameCount = s.physical.frameCount
  swap : s'.swap.isSome = s.swap.isSome
  pages : ∀ f, (s'.physical.frames f).occupied = true →
    (s'.physical.frames f).virtualPage = page ∨
      ((s.physical.frames f).occupied = true ∧
        (s'.physical.frames f).virtualPage = (s.physical.frames f).virtualPage)

theorem Pager.Evolves.trans (h : s.Evolves page s') (h' : s'.Evolves page s'') :
    s.Evolves page s'' := by
  refine ⟨h'.processes.trans h.processes, h'.pid.trans h.pid, h'.nextProcess.trans h.nextProcess,
    h'.frameCount.trans h.frameCount, h'.swap.trans h.swap, fun f hf => ?_⟩
  rcases h'.pages f hf with hp | ⟨hocc, heq⟩
  · exact Or.inl hp
  · rw [heq]
    exact h.pages f hocc

/-- An operation that leaves the frame table alone. -/
theorem Pager.evolves_of_frames (hprocesses : s'.processes = s.processes) (hpid : s'.pid = s.pid)
    (hnext : s'.nextProcess = s.nextProcess)
    (hcount : s'.physical.frameCount = s.physical.frameCount)
    (hswap : s'.swap.isSome = s.swap.isSome)
    (hframes : s'.physical.frames = s.physical.frames) : s.Evolves page s' :=
  ⟨hprocesses, hpid, hnext, hcount, hswap, fun f hf => by
    rw [hframes] at hf ⊢
    exact Or.inr ⟨hf, rfl⟩⟩

theorem Pager.evolves_refl (s : Pager) (page : Nat) : s.Evolves page s :=
  Pager.evolves_of_frames rfl rfl rfl rfl rfl rfl

/-- An operation that changes one entry of the frame table. -/
theorem Pager.evolves_of_frame {frame : PhysicalFrame} (hprocesses : s'.processes = s.processes)
    (hpid : s'.pid = s.pid) (hnext : s'.nextProcess = s.nextProcess)
    (hcount : s'.physical.frameCount = s.physical.frameCount)
    (hswap : s'.swap.isSome = s.swap.isSome)
    (hframes : s'.physical.frames = Function.update s.physical.frames f frame)
    (hframe : frame.occupied = true → frame.virtualPage = page ∨
      ((s.physical.frames f).occupied = true ∧
        frame.virtualPage = (s.physical.frames f).virtualPage)) : s.Evolves page s' := by
  refine ⟨hprocesses, hpid, hnext, hcount, hswap, fun g hg => ?_⟩
  rw [hframes] at hg ⊢
  by_cases e : g = f
  · subst e
    rw [Function.update_self] at hg ⊢
    exact hframe hg
  · rw [Function.update_of_ne e] at hg ⊢
    exact Or.inr ⟨hg, rfl⟩

/-! ## The operations -/

theorem Pager.evolves_place (s : Pager) (p page f : Nat) : s.Evolves page (s.place p page f) :=
  Pager.evolves_of_frame rfl rfl rfl rfl rfl (s.place_frames p page f) fun _ => Or.inl rfl

theorem Pager.evolves_vacate (s : Pager) (p v f page : Nat) :
    s.Evolves page (s.vacate p v f) :=
  Pager.evolves_of_frame rfl rfl rfl rfl rfl (s.vacate_frames p v f) fun hf => by
    simp [PhysicalFrame.free] at hf

theorem Pager.evolves_evict (s : Pager) (f page : Nat) : s.Evolves page (s.evict f) :=
  s.evolves_vacate _ _ f page

theorem Pager.evolves_touch (s : Pager) (f : Nat) (isWrite : Bool) (page : Nat) :
    s.Evolves page (s.touch f isWrite) :=
  Pager.evolves_of_frame rfl rfl rfl rfl rfl rfl fun hf => Or.inr ⟨hf, rfl⟩

theorem Pager.evolves_handOver (s : Pager) (f q page : Nat) :
    s.Evolves page (s.handOver f q) :=
  Pager.evolves_of_frame rfl rfl rfl rfl rfl rfl fun hf => Or.inr ⟨hf, rfl⟩

theorem Pager.evolves_exclude (s : Pager) (p v f page : Nat) :
    s.Evolves page (s.exclude p v f) :=
  (s.evolves_handOver f p page).trans (Pager.evolves_of_frames rfl rfl rfl rfl rfl rfl)

theorem Pager.evolves_detach (s : Pager) (p v f page : Nat) :
    s.Evolves page (s.detach p v f) := by
  have hdrop : s.Evolves page (s.drop p v f) :=
    Pager.evolves_of_frames rfl rfl rfl rfl rfl rfl
  unfold Pager.detach
  split
  · split
    · exact hdrop.trans (Pager.evolves_handOver _ f _ page)
    · exact hdrop
  · exact hdrop

theorem Pager.evolves_fill (s : Pager) (f : Nat) (data : PageData) (page : Nat) :
    s.Evolves page (s.fill f data) :=
  Pager.evolves_of_frames rfl rfl rfl rfl rfl rfl

theorem Pager.evolves_notify (s : Pager) (f : Nat) (isWrite : Bool) (page : Nat) :
    s.Evolves page (s.notify f isWrite) :=
  (s.evolves_touch f isWrite page).trans (Pager.evolves_of_frames rfl rfl rfl rfl rfl rfl)

theorem Pager.evolves_restore (s : Pager) (p v f page : Nat) :
    s.Evolves page (s.restore p v f) := by
  unfold Pager.restore
  split
  · exact s.evolves_refl page
  · rename_i swap hswap
    split
    · exact s.evolves_refl page
    · exact Pager.evolves_of_frames rfl rfl rfl rfl (by rw [hswap]; rfl) rfl

theorem Pager.evolves_saveVictim (hs : s.saveVictim f = some s') (page : Nat) :
    s.Evolves page s' := by
  have hswap := Pager.saveVictim_swap hs
  obtain ⟨swap, stats, rfl⟩ := Pager.saveVictim_eq hs
  exact Pager.evolves_of_frames rfl rfl rfl rfl hswap rfl

theorem Pager.saveReaders_swap (writer : CowMapping) (data : PageData)
    (readers : List CowMapping) :
    ∀ s : Pager, (Pager.saveReaders writer data readers s).2.swap.isSome = s.swap.isSome := by
  induction readers with
  | nil => exact fun s => rfl
  | cons reader readers ih =>
    intro s
    unfold Pager.saveReaders
    split
    · exact ih s
    · split
      · rfl
      · rename_i s₁ hs
        obtain ⟨swap, hswap, _, rfl⟩ := Pager.store_eq hs
        rw [ih, hswap]
        rfl

theorem Pager.evolves_saveReaders (s : Pager) (writer : CowMapping) (data : PageData)
    (readers : List CowMapping) (page : Nat) :
    s.Evolves page (Pager.saveReaders writer data readers s).2 := by
  have hswap := Pager.saveReaders_swap writer data readers s
  obtain ⟨swap, stats, heq⟩ := s.saveReaders_eq writer data readers
  rw [heq] at hswap ⊢
  exact Pager.evolves_of_frames rfl rfl rfl rfl hswap rfl

/-! ## Accesses -/

theorem Pager.evolves_load (s : Pager) (p page f : Nat) (isWrite : Bool) :
    s.Evolves page (s.load p page f isWrite) :=
  ((s.evolves_place p page f).trans (Pager.evolves_restore _ p page f page)).trans
    (Pager.evolves_touch _ f isWrite page)

theorem Pager.evolves_replace (s : Pager) (p page : Nat) (isWrite recorded : Bool) :
    s.Evolves page (s.replace p page isWrite recorded).2 := by
  unfold Pager.replace
  split
  · exact s.evolves_refl page
  · rename_i f policy _
    have hchosen : s.Evolves page { s with policy := policy } :=
      Pager.evolves_of_frames rfl rfl rfl rfl rfl rfl
    dsimp only
    split
    · exact hchosen
    · split
      · exact hchosen
      · rename_i saved hsaved
        have hloaded := ((hchosen.trans (Pager.evolves_saveVictim hsaved page)).trans
          (saved.evolves_evict f page)).trans ((saved.evict f).evolves_load p page f isWrite)
        split
        · exact hloaded.trans (Pager.evolves_of_frames rfl rfl rfl rfl rfl rfl)
        · exact hloaded

theorem Pager.evolves_fault (s : Pager) (p page : Nat) (isWrite recorded : Bool) :
    s.Evolves page (s.fault p page isWrite recorded).2 := by
  have hcounted : s.Evolves page s.countFault :=
    Pager.evolves_of_frames rfl rfl rfl rfl rfl rfl
  unfold Pager.fault
  split
  · rename_i f _
    have hloaded := hcounted.trans (s.countFault.evolves_load p page f isWrite)
    dsimp only
    split
    · exact hloaded.trans (Pager.evolves_of_frames rfl rfl rfl rfl rfl rfl)
    · exact hloaded
  · exact hcounted.trans (Pager.evolves_replace _ p page isWrite recorded)

theorem Pager.evolves_cowWrite (s : Pager) (p page f : Nat) (moved : Bool) :
    s.Evolves page (s.cowWrite p page f moved).2 := by
  have hsaved := s.evolves_saveReaders ⟨p, page⟩ (s.physical.data f) (s.cow.frames f) page
  refine Pager.cowWrite_rule moved (s.evolves_refl page) (fun g _ _ => ?_)
    (fun swap stats _ _ _ hs => ?_) fun swap stats _ _ hs => ?_
  · exact ((s.evolves_detach p page f page).trans (Pager.evolves_place _ p page g)).trans
      (Pager.evolves_fill _ g _ page)
  · rw [hs] at hsaved
    exact hsaved
  · rw [hs] at hsaved
    exact hsaved.trans (Pager.evolves_exclude _ p page f page)

theorem Pager.evolves_resident (s : Pager) (p page f : Nat) (isWrite moved recorded : Bool) :
    s.Evolves page (s.resident p page f isWrite moved recorded).2 := by
  refine Pager.resident_rule recorded (fun _ => s.evolves_refl page) (fun _ => ?_)
    fun s' g h' => h'.trans (s'.evolves_notify g isWrite page)
  exact s.evolves_cowWrite p page f moved

theorem Pager.evolves_access (s : Pager) (answers : TlbAnswers) (p page : Nat) (isWrite : Bool) :
    (s.register p).Evolves page (s.access answers p page isWrite).2 := by
  have hcounted : (s.register p).Evolves page ((s.register p).count isWrite) :=
    Pager.evolves_of_frames rfl rfl rfl rfl rfl rfl
  unfold Pager.access
  dsimp only
  split
  · exact hcounted.trans (Pager.evolves_resident _ _ _ _ _ _ _)
  · split
    · exact hcounted.trans (Pager.evolves_resident _ _ _ _ _ _ _)
    · exact hcounted.trans (Pager.evolves_fault _ _ _ _ _)

theorem Pager.readByte_state (s : Pager) (answers : TlbAnswers) (p a : Nat) :
    (s.readByte answers p a).2 = (s.access answers p (addressPageNumber a) false).2 := by
  unfold Pager.readByte
  dsimp only
  split <;> rfl

theorem Pager.writeByte_state (s : Pager) (answers : TlbAnswers) (p a : Nat) (value : UInt8) :
    (s.writeByte answers p a value).2 = (s.access answers p (addressPageNumber a) true).2 ∨
      ∃ f, (s.access answers p (addressPageNumber a) true).2.mapped p (addressPageNumber a) =
          some f ∧ (s.writeByte answers p a value).2 =
        (s.access answers p (addressPageNumber a) true).2.setByte f (pageOffset a) value := by
  unfold Pager.writeByte
  dsimp only
  split
  · exact Or.inl rfl
  · split
    · exact Or.inl rfl
    · rename_i f hf
      exact Or.inr ⟨f, hf, rfl⟩

theorem Pager.evolves_writeByte (s : Pager) (answers : TlbAnswers) (p a : Nat) (value : UInt8) :
    (s.register p).Evolves (addressPageNumber a) (s.writeByte answers p a value).2 := by
  have haccess := s.evolves_access answers p (addressPageNumber a) true
  rcases s.writeByte_state answers p a value with h | ⟨f, _, h⟩
  · rw [h]
    exact haccess
  · rw [h]
    exact haccess.trans (Pager.evolves_fill _ f _ _)

/-- The three calls that access a page leave what the access leaves, but
for a byte written. -/
theorem Pager.step_state (s : Pager) (answers : TlbAnswers) {call : Call}
    (ht : call.target = some (p, page)) :
    (s.step answers call).2 = (s.access answers p page call.writes).2 ∨ ∃ f offset value,
      (s.step answers call).2 =
        (s.access answers p page call.writes).2.setByte f offset value := by
  cases call with
  | access p' a t =>
    cases ht
    exact Or.inl rfl
  | readByte p' a =>
    cases ht
    exact Or.inl (s.readByte_state answers p a)
  | writeByte p' a value =>
    cases ht
    exact (s.writeByte_state answers p a value).imp id fun ⟨f, _, hset⟩ => ⟨f, _, _, hset⟩
  | _ => cases ht

/-- What the access leaves, and a byte written keeps, holds after the
call. -/
theorem Pager.step_rule {P : Pager → Prop} (s : Pager) (answers : TlbAnswers) {call : Call}
    (ht : call.target = some (p, page)) (haccess : P (s.access answers p page call.writes).2)
    (hset : ∀ s' f offset value, P s' → P (s'.setByte f offset value)) :
    P (s.step answers call).2 := by
  rcases s.step_state answers ht with h | ⟨f, offset, value, h⟩
  · rw [h]
    exact haccess
  · rw [h]
    exact hset _ f offset value haccess

theorem Pager.evolves_step (s : Pager) (answers : TlbAnswers) {call : Call}
    (ht : call.target = some (p, page)) :
    (s.register p).Evolves page (s.step answers call).2 := by
  refine s.step_rule answers ht ?_ fun s' f offset value h => h.trans (s'.evolves_fill f _ _)
  exact s.evolves_access answers p page call.writes

end VmSim
