/-
VmSim.VirtualMemory.Simulation — every call of the code is a step of the
pager.

`World.Wf` is the invariant of the code: the heap is sound, no key sits
in two TLB entries, and the pager it shows is consistent. `World.Wf.step`
is the simulation: a call whose process exists and whose TLB hit, if any,
is usable (`Pager.Expects`) returns, and what it returns and leaves is
what `Pager.step` says for the answers the TLB gave. What the call left
in the TLB is bounded by `Pager.Kept`, and is what `Pager.tlbCalls` make
of it.
-/
import VmSim.VirtualMemory.Lifecycle

namespace VmSim

open Lib

variable {w w' : World} {s s' : Pager} {tlb : Tlb} {p page f a : Nat}

/-! ## The invariant -/

structure World.Wf (w : World) : Prop where
  sound : w.heap.Sound
  tlb : w.memory.tlb.Wf
  consistent : w.pager.Consistent

theorem World.Wf.shows (h : w.Wf) :
    w.Shows w.backdrop w.pager w.memory.tlb := ⟨h.sound, rfl, rfl, rfl⟩

/-! ## Steps -/

/-- The process and the page a call accesses. -/
def Call.target : Call → Option (Nat × Nat)
  | .access p a _ => some (p, addressPageNumber a)
  | .readByte p a => some (p, addressPageNumber a)
  | .writeByte p a _ => some (p, addressPageNumber a)
  | _ => none

def Call.writes : Call → Bool
  | .access _ _ t => decide (t = .write)
  | .writeByte _ _ _ => true
  | _ => false

theorem Pager.tlbCalls_target {call : Call} (ht : call.target = some (p, page)) :
    ∃ isWrite, ∀ (s : Pager) (answers : TlbAnswers),
      s.tlbCalls answers call = s.accessCalls answers p page isWrite := by
  cases call with
  | access p' a t => cases ht; exact ⟨_, fun _ _ => rfl⟩
  | readByte p' a => cases ht; exact ⟨_, fun _ _ => rfl⟩
  | writeByte p' a value => cases ht; exact ⟨_, fun _ _ => rfl⟩
  | _ => cases ht

/-- What a call finds in the TLB. -/
def World.hit (w : World) (call : Call) : Option Nat :=
  call.target.bind fun (p, page) => w.memory.tlb.found (w.pager.pid p) page

/-- The TLB after the lookup of a call, if it makes one. -/
def World.looked (w : World) (call : Call) : Tlb :=
  match call.target with
  | some (p, page) => w.memory.tlb.looked (w.pager.pid p) page
  | none => w.memory.tlb

/-- The translations a call can leave in the TLB. -/
def Pager.Kept (s s' : Pager) (tlb : Tlb) (call : Call) (pid : Int) (v f : Nat) : Prop :=
  match call with
  | .createProcess _ => tlb.Holds pid v f
  | .fork p childPid => tlb.Holds pid v f ∧ (0 ≤ childPid → pid ≠ s.pid p)
  | .release p => tlb.Holds pid v f ∧ pid ≠ s.pid p
  | .access p a _ | .readByte p a | .writeByte p a _ =>
    (pid = s.pid p ∧ v = addressPageNumber a ∧ s'.mapped p (addressPageNumber a) = some f) ∨
      (tlb.Holds pid v f ∧ s.Keeps (addressPageNumber a) s' pid v)

/-- The counters of the translations after a call: only an access
translates. -/
def TranslationStats.after (stats : TranslationStats) (call : Call) (hit : Option Nat)
    (levels : Nat) : TranslationStats :=
  match call.target with
  | some _ => stats.looked hit levels
  | none => stats

/-- A call that did what the pager does. -/
structure World.Stepped (w : World) (call : Call) (answers : TlbAnswers) (reply : Reply)
    (w' : World) : Prop where
  run : w.step call = some (reply, w')
  pager : w.pager.step answers call = (reply, w'.pager)
  wf : w'.Wf
  hit : answers.hit = w.hit call
  tlb : w.memory.tlb.Became 3 (w.pager.Kept w'.pager w.memory.tlb call) w'.memory.tlb
  performed : w'.memory.tlb = w.memory.tlb.perform (w.pager.tlbCalls answers call)
  translations : ∃ levels, (1 ≤ levels ∧ levels ≤ pageTableLevels) ∧
    w'.memory.stats.translation = w.memory.stats.translation.after call answers.hit levels
  moved : (w.looked call).Accepts (w.pager.tlbCalls answers call).tail answers.moved
  recorded : (w.looked call).Accepts (w.pager.tlbCalls answers call).tail answers.recorded

/-- A call that accesses a page, from what it leaves behind. -/
theorem World.Done.stepped {α : Type} {result : α} {end_ : TlbAnswers → α × Pager}
    (call : Call) (hdone : w'.Done w.backdrop w.pager w.memory.tlb
      (w.pager.tlbCalls · call) p page end_ result)
    (reply : α → Reply) (htarget : call.target = some (p, page))
    (hrun : w.step call = some (reply result, w'))
    (hstep : ∀ answers, w.pager.step answers call = (reply (end_ answers).1, (end_ answers).2))
    (hkept : ∀ s', w.pager.Traced w.memory.tlb 3 p page s' w'.memory.tlb →
      w.memory.tlb.Became 3 (w.pager.Kept s' w.memory.tlb call) w'.memory.tlb)
    (hconsistent : ∀ answers, answers.hit = w.hit call →
      (w.pager.step answers call).2.Consistent) :
    ∃ answers, w.Stepped call answers (reply result) w' := by
  obtain ⟨answers, tlb', levels, hhit, hlevels, hs, hr, ht, hmoved, hrecorded, hcalls⟩ := hdone
  have htlb : w'.memory.tlb = tlb' := hs.tlb_eq
  subst htlb
  have hhit' : answers.hit = w.hit call := by
    rw [hhit, World.hit, htarget]
    rfl
  refine ⟨answers, hrun, by rw [hstep, hr, hs.pager], ⟨hs.sound, ht.wf, ?_⟩, hhit',
    hkept _ (hs.pager ▸ ht), hcalls, ⟨levels, hlevels, ?_⟩,
    by rw [World.looked, htarget]; exact hmoved, by rw [World.looked, htarget]; exact hrecorded⟩
  · have hc := hconsistent answers hhit'
    rw [hstep] at hc
    rw [hs.pager]
    exact hc
  · rw [TranslationStats.after, htarget]
    exact congrArg Backdrop.translations hs.backdrop_eq

theorem World.Wf.step (h : w.Wf) {call : Call} (hv : w.pager.Valid call)
    (he : w.pager.Expects ⟨w.hit call, true, true⟩ call) :
    ∃ answers reply w', w.Stepped call answers reply w' := by
  have hs := h.shows
  have hconsistent : ∀ answers, answers.hit = w.hit call →
      (w.pager.step answers call).2.Consistent := fun answers hhit =>
    h.consistent.step hv (by
      cases call with
      | access p a t => exact Pager.Admits.of_hit he hhit
      | readByte p a => exact Pager.Admits.of_hit he hhit
      | writeByte p a value => exact Pager.Admits.of_hit he hhit
      | _ => trivial)
  have hcounters : ∀ {w' : World} {processes : Nat → Option Process},
      w'.backdrop = { w.backdrop with processes := processes } → call.target = none →
      ∃ levels, (1 ≤ levels ∧ levels ≤ pageTableLevels) ∧
        w'.memory.stats.translation = w.memory.stats.translation.after call none levels := by
    intro w' processes hback htarget
    refine ⟨1, by decide, ?_⟩
    rw [TranslationStats.after, htarget]
    exact congrArg Backdrop.translations hback
  have htrivial : ∀ {tlb : Tlb} {calls : List TlbCall}, tlb.Accepts calls true :=
    Tlb.accepts_true _ _
  cases call with
  | createProcess pid =>
    obtain ⟨r, w', hrun, hr, processes', hs'⟩ := (hs.create pid).reply Reply.process
    refine ⟨⟨none, true, true⟩, _, w', hrun, ?_, ⟨hs'.sound, by rw [hs'.tlb_eq]; exact h.tlb, ?_⟩,
      rfl, ?_, hs'.tlb_eq, hcounters hs'.backdrop_eq rfl, htrivial, htrivial⟩
    · rw [hs'.pager, hr]
      rfl
    · rw [hs'.pager]
      exact h.consistent.create pid
    · rw [hs'.tlb_eq]
      exact h.tlb.became.mono (by omega) fun _ _ _ hh => hh
  | access p a t =>
    obtain ⟨result, w', hrun, hdone⟩ := (World.Shows.access h.consistent hs hv.1 hv.2 t he
      h.tlb).reply fun r => Reply.result (r.getD .internalError)
    obtain ⟨answers, hstepped⟩ := hdone.stepped (.access p a t) Reply.result rfl hrun
      (fun answers => rfl) (fun s' ht => ht) hconsistent
    exact ⟨answers, _, w', hstepped⟩
  | readByte p a =>
    obtain ⟨result, w', hrun, hdone⟩ := (World.Shows.readByte h.consistent hs hv.1 hv.2 he
      h.tlb).reply Reply.byte
    obtain ⟨answers, hstepped⟩ := hdone.stepped (.readByte p a) Reply.byte rfl hrun
      (fun answers => rfl) (fun s' ht => ht) hconsistent
    exact ⟨answers, _, w', hstepped⟩
  | writeByte p a value =>
    obtain ⟨result, w', hrun, hdone⟩ := (World.Shows.writeByte h.consistent hs hv.1 hv.2 he
      h.tlb value).reply fun r => Reply.status r.isSome
    obtain ⟨answers, hstepped⟩ := hdone.stepped (.writeByte p a value) Reply.status rfl hrun
      (fun answers => rfl) (fun s' ht => ht) hconsistent
    exact ⟨answers, _, w', hstepped⟩
  | fork p childPid =>
    obtain ⟨r, w', hrun, hr, processes', hs'⟩ :=
      (World.Shows.fork h.consistent hs hv childPid).reply Reply.process
    have htlb : w.memory.tlb.Became 0
        (w.pager.Kept w'.pager w.memory.tlb (.fork p childPid)) w'.memory.tlb := by
      rw [hs'.tlb_eq]
      split
      · rename_i hneg
        exact h.tlb.became.mono (by omega) fun _ _ _ hh => ⟨hh, fun hpos => by omega⟩
      · exact (h.tlb.became.invalidateProcess hv).mono (by omega) fun _ _ _ hh =>
          ⟨hh.2, fun _ => hh.1⟩
    refine ⟨⟨none, true, true⟩, _, w', hrun, ?_, ⟨hs'.sound, htlb.wf, ?_⟩, rfl,
      htlb.mono (by omega) fun _ _ _ hh => hh, ?_, hcounters hs'.backdrop_eq rfl, htrivial,
      htrivial⟩
    · rw [hs'.pager, hr]
      rfl
    · rw [hs'.pager]
      exact h.consistent.fork hv childPid
    · rw [hs'.tlb_eq, Pager.tlbCalls]
      split <;> rfl
  | release p =>
    obtain ⟨_, w', hrun, hs'⟩ := (World.Shows.release h.consistent hs hv).reply
      fun r => Reply.status r.isSome
    have htlb := (h.consistent.releaseTlb hv h.tlb).1
    rw [← hs'.tlb_eq] at htlb
    refine ⟨⟨none, true, true⟩, _, w', hrun, ?_, ⟨hs'.sound, htlb.wf, ?_⟩, rfl,
      htlb.mono (by omega) fun _ _ _ hh => hh.symm,
      hs'.tlb_eq.trans (Pager.releaseTlb_perform _ p _), hcounters hs'.backdrop_eq rfl, htrivial,
      htrivial⟩
    · rw [hs'.pager]
      rfl
    · rw [hs'.pager]
      exact h.consistent.release hv

end VmSim
