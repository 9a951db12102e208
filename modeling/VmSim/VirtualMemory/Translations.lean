/-
VmSim.VirtualMemory.Translations — the calls of the TLB that a call of
the virtual memory makes.

They depend on the pager and on the answers the TLB gave, but not on the
TLB otherwise. `VmSim.VirtualMemory.Simulation` proves that the TLB after
a call is the one before it after these calls.
-/
import VmSim.VirtualMemory.Pager

namespace VmSim

open Lib

/-- The translations of the readers go. -/
def Pager.readerCalls (s : Pager) (writer : CowMapping) (readers : List CowMapping) :
    List TlbCall :=
  (readers.filter (· ≠ writer)).map fun r => .invalidate (s.pid r.process) r.virtualPage

/-- A translation is replaced. -/
def Pager.moveCalls (s : Pager) (p page f : Nat) : List TlbCall :=
  [.invalidate (s.pid p) page, .insert (s.pid p) page f]

def Pager.cowCalls (s : Pager) (p page f : Nat) : List TlbCall :=
  if (s.cow.frames f).length ≤ 1 then []
  else
    match s.physical.firstFree with
    | some g => s.moveCalls p page g
    | none =>
      if s.swap.isNone then []
      else if (Pager.saveReaders ⟨p, page⟩ (s.physical.data f) (s.cow.frames f) s).1 then
        s.readerCalls ⟨p, page⟩ (s.cow.frames f) ++ s.moveCalls p page f
      else []

def Pager.replaceCalls (s : Pager) (p page : Nat) : List TlbCall :=
  match replacementPolicyChooseVictim s.policy with
  | none => []
  | some (f, policy) =>
    if f = replacementInvalidFrame ∨ 1 < (s.cow.frames f).length then []
    else if (Pager.saveVictim { s with policy := policy } f).isSome then
      [.invalidate (s.physical.frames f).ownerPid (s.physical.frames f).virtualPage,
        .insert (s.pid p) page f]
    else []

def Pager.faultCalls (s : Pager) (p page : Nat) : List TlbCall :=
  match s.physical.firstFree with
  | some f => [.insert (s.pid p) page f]
  | none => s.countFault.replaceCalls p page

/-- The frame that a write goes to, before the translation is recorded. -/
def Pager.writableCalls (s : Pager) (p page f : Nat) (isWrite : Bool) : List TlbCall :=
  if isWrite then s.cowCalls p page f else []

/-- The part of a write that resolves copy-on-write. -/
def Pager.writable (s : Pager) (p page f : Nat) (isWrite moved : Bool) : Option Nat × Pager :=
  if isWrite then s.cowWrite p page f moved else (some f, s)

/-- A translation found by a page walk is recorded. -/
def Pager.walkedCalls (s : Pager) (p page f : Nat) (isWrite moved : Bool) : List TlbCall :=
  s.writableCalls p page f isWrite ++
    match (s.writable p page f isWrite moved).1 with
    | some g => [.insert (s.pid p) page g]
    | none => []

/-- The calls after the lookup. -/
def Pager.answeredCalls (s : Pager) (answers : TlbAnswers) (p page : Nat) (isWrite : Bool) :
    List TlbCall :=
  match answers.hit with
  | some f => s.writableCalls p page f isWrite
  | none =>
    match s.mapped p page with
    | some f => s.walkedCalls p page f isWrite answers.moved
    | none => s.faultCalls p page

def Pager.accessCalls (s : Pager) (answers : TlbAnswers) (p page : Nat) (isWrite : Bool) :
    List TlbCall :=
  .lookup (s.pid p) page ::
    ((s.register p).count isWrite).answeredCalls answers p page isWrite

def Pager.releaseCalls (s : Pager) (p : Nat) : List Nat → List TlbCall
  | [] => []
  | f :: frames =>
    (if ⟨p, (s.physical.frames f).virtualPage⟩ ∈ s.cow.frames f then
      [.invalidate (s.pid p) (s.physical.frames f).virtualPage] else []) ++
      Pager.releaseCalls (s.releaseFrame p f) p frames

def Pager.tlbCalls (s : Pager) (answers : TlbAnswers) : Call → List TlbCall
  | .createProcess _ => []
  | .access p a t => s.accessCalls answers p (addressPageNumber a) (decide (t = .write))
  | .readByte p a => s.accessCalls answers p (addressPageNumber a) false
  | .writeByte p a _ => s.accessCalls answers p (addressPageNumber a) true
  | .fork p childPid => if childPid < 0 then [] else [.invalidateProcess (s.pid p)]
  | .release p =>
    s.releaseCalls p (List.range s.physical.frameCount) ++ [.invalidateProcess (s.pid p)]

/-! ## Clocks -/

theorem Pager.readerCalls_ticks (s : Pager) (writer : CowMapping) (readers : List CowMapping) :
    TlbCall.totalTicks (s.readerCalls writer readers) = 0 := by
  simp [Pager.readerCalls, TlbCall.totalTicks, Function.comp_def, TlbCall.ticks]

theorem Pager.moveCalls_ticks (s : Pager) (p page f : Nat) :
    TlbCall.totalTicks (s.moveCalls p page f) = 1 := rfl

theorem Pager.writableCalls_ticks (s : Pager) (p page f : Nat) (isWrite : Bool) :
    TlbCall.totalTicks (s.writableCalls p page f isWrite) ≤ 1 := by
  unfold Pager.writableCalls Pager.cowCalls
  repeat' split
  all_goals simp [Pager.moveCalls_ticks, Pager.readerCalls_ticks]

theorem Pager.walkedCalls_ticks (s : Pager) (p page f : Nat) (isWrite moved : Bool) :
    TlbCall.totalTicks (s.walkedCalls p page f isWrite moved) ≤ 2 := by
  have hwritable := s.writableCalls_ticks p page f isWrite
  unfold Pager.walkedCalls
  rw [TlbCall.totalTicks_append]
  split <;> simp [TlbCall.ticks] <;> omega

theorem Pager.faultCalls_ticks (s : Pager) (p page : Nat) :
    TlbCall.totalTicks (s.faultCalls p page) ≤ 1 := by
  unfold Pager.faultCalls Pager.replaceCalls
  repeat' split
  all_goals simp [TlbCall.ticks]

theorem Pager.accessCalls_ticks (s : Pager) (answers : TlbAnswers) (p page : Nat)
    (isWrite : Bool) : TlbCall.totalTicks (s.accessCalls answers p page isWrite) ≤ 3 := by
  have hanswered : ∀ s : Pager,
      TlbCall.totalTicks (s.answeredCalls answers p page isWrite) ≤ 2 := by
    intro s
    unfold Pager.answeredCalls
    split
    · exact (s.writableCalls_ticks p page _ isWrite).trans (by omega)
    · split
      · exact s.walkedCalls_ticks p page _ isWrite answers.moved
      · exact (s.faultCalls_ticks p page).trans (by omega)
  have h := hanswered ((s.register p).count isWrite)
  rw [Pager.accessCalls, TlbCall.totalTicks_cons, TlbCall.ticks]
  omega

theorem Pager.releaseCalls_ticks (p : Nat) (frames : List Nat) :
    ∀ s : Pager, TlbCall.totalTicks (s.releaseCalls p frames) = 0 := by
  induction frames with
  | nil => exact fun s => rfl
  | cons f frames ih =>
    intro s
    rw [Pager.releaseCalls, TlbCall.totalTicks_append, ih]
    split <;> rfl

theorem Pager.tlbCalls_ticks (s : Pager) (answers : TlbAnswers) (call : Call) :
    TlbCall.totalTicks (s.tlbCalls answers call) ≤ 3 := by
  cases call with
  | createProcess pid => exact Nat.zero_le 3
  | access p a t => exact s.accessCalls_ticks answers p _ _
  | readByte p a => exact s.accessCalls_ticks answers p _ _
  | writeByte p a value => exact s.accessCalls_ticks answers p _ _
  | fork p childPid =>
    simp only [Pager.tlbCalls]
    split <;> simp [TlbCall.ticks]
  | release p =>
    simp only [Pager.tlbCalls, TlbCall.totalTicks_append, Pager.releaseCalls_ticks]
    simp [TlbCall.ticks]

end VmSim
