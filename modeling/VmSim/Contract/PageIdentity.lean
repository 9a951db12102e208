/-
VmSim.Contract.PageIdentity — when every address is translated by its own
page.

The TLB, the copy-on-write lists, the frame table and the swap know a page
by its number, of 52 bits; the trie knows it by four indices, of 36 bits
together. A run is translated page by page as long as no process touches
two pages that the trie takes for one.
-/
import VmSim.VirtualMemory.ForkFreeRuns
import VmSim.VirtualMemory.RoomyRuns

namespace VmSim

open Lib

variable {w w' : World} {s : Pager} {p q page f v a b n tlbEntries : Nat}
  {type : ReplacementPolicyType} {slots : Option Nat} {memory : VirtualMemory} {call : Call}
  {answers : TlbAnswers} {reply : Reply} {history : List (Call × Reply)}

/-! ## The calls -/

/-- Bytes are read and written at any address, by processes that share
their pid with no other. -/
def World.AllowsAny (w : World) : Call → Prop
  | .createProcess _ => True
  | .readByte p a => w.Live p ∧ a < wordSize
  | .writeByte p a _ => w.Live p ∧ a < wordSize
  | _ => False

instance (w : World) : ∀ call : Call, Decidable (w.AllowsAny call)
  | .createProcess _ => .isTrue trivial
  | .readByte _ _ => inferInstanceAs (Decidable (_ ∧ _))
  | .writeByte _ _ _ => inferInstanceAs (Decidable (_ ∧ _))
  | .fork _ _ => .isFalse id
  | .access _ _ _ => .isFalse id
  | .release _ => .isFalse id

theorem World.AllowsAny.accepts (h : w.AllowsAny call) : w.Accepts wordSize call := by
  cases call with
  | createProcess pid => trivial
  | readByte p a => exact ⟨h.1.1, h.2⟩
  | writeByte p a value => exact ⟨h.1.1, h.2⟩
  | _ => exact h.elim

/-- The frames an address is translated to, by the TLB or by the page
table. -/
def World.TranslatesTo (w : World) (p a f : Nat) : Prop :=
  w.memory.tlb.found (w.heap.pid p) (addressPageNumber a) = some f ∨ w.translate p a = some f

/-! ## The invariant -/

/-- Pages that have a frame keep it. -/
theorem Pager.Roomy.keeps (h : s.Roomy n history) (hc : s.Consistent) (hunforked : s.Unforked)
    (ht : call.target = some (p, page))
    (hroom : (insert (p, page) (footprint history)).card ≤ n) (hm : s.mapped q v = some f) :
    (s.step answers call).2.mapped q v = some f := by
  have haccess : (s.access answers p page call.writes).2.mapped q v = some f := by
    obtain ⟨processes, stats, heq⟩ := s.counted_eq p call.writes
    have hcounted : Pager.Unforked { s with processes := processes, stats := stats } := hunforked
    rcases s.access_cases answers p page call.writes with
      ⟨g, recorded, _, haccess⟩ | ⟨_, hnone, haccess⟩
    · rw [haccess, heq, hcounted.resident]
      split
      · exact hm
      · exact hm
    · cases hfree : s.physical.firstFree with
      | none =>
        obtain ⟨_, g, hg⟩ := h.full hc hroom hfree
        rw [hg] at hnone
        cases hnone
      | some g =>
        have hne : ¬(q = p ∧ pageKey v = pageKey page) := by
          rintro ⟨rfl, hk⟩
          rw [hc.mapped_key hk, hnone] at hm
          cases hm
        have hload : (Pager.load { s with processes := processes, stats := stats }.countFault p page
            g call.writes).mapped q v = some f := by
          rw [(Pager.load_eq _ p page g call.writes).2.2.1, rebind, if_neg hne]
          exact hm
        have hfree' : (Pager.physical { s with processes := processes, stats := stats }).firstFree =
            some g := hfree
        rw [haccess, heq, Pager.fault, hfree']
        dsimp only
        split
        · exact hload
        · exact hload
  exact s.step_rule (P := fun s' => s'.mapped q v = some f) answers ht haccess
    fun _ _ _ _ h' => h'

/-- Frames are not shared, and the TLB agrees with the page tables. -/
structure World.Agrees (w : World) (n : Nat) (history : List (Call × Reply)) : Prop where
  roomy : w.Roomy n history
  unforked : w.pager.Unforked
  hits : ∀ pid v f, w.memory.tlb.Holds pid v f →
    ∃ p ∈ w.pager.processes, w.pager.pid p = pid ∧ w.pager.mapped p v = some f

theorem World.Agrees.hit (h : w.Agrees n history) (hp : w.Live p)
    (hhit : w.memory.tlb.found (w.heap.pid p) v = some f) : w.pager.mapped p v = some f := by
  obtain ⟨q, hq, hpid, hm⟩ := h.hits _ _ _ (Tlb.found_some hhit)
  rwa [hp.2 q hq hpid] at hm

theorem World.Agrees.allowsOwn (h : w.Agrees n history) (ha : w.AllowsAny call) :
    w.AllowsOwn wordSize call := by
  refine ⟨ha.accepts, ?_⟩
  cases call with
  | writeByte p a value =>
    intro f hf
    rw [h.roomy.wf.translate_eq]
    exact Or.inl (h.hit ha.1 hf)
  | _ => trivial

theorem World.Agrees.next (h : w.Agrees n history) (ha : w.AllowsAny call)
    (hs : w.Stepped call answers reply w')
    (hroom : (footprint ((call, reply) :: history)).card ≤ n)
    (hapart : ∀ q, KeysApart fun v => (q, v) ∈ footprint ((call, reply) :: history)) :
    w'.Agrees n ((call, reply) :: history) := by
  have hc := h.roomy.wf.consistent
  have hroomy := h.roomy.next (h.allowsOwn ha) (Nat.le_refl _) hs hroom hapart
  have hstate : (w.pager.step answers call).2 = w'.pager := by rw [hs.pager]
  cases ht : call.target with
  | none =>
    cases call with
    | createProcess pid =>
      have hcow : w'.pager.cow.frames = w.pager.cow.frames := by
        rw [← hstate]
        simp only [Pager.step, Pager.create]
        split <;> rfl
      refine ⟨hroomy, h.unforked.congr hcow, fun pid' v f hh => ?_⟩
      obtain ⟨q, hq, hpid, hm⟩ := h.hits pid' v f ((hs.tlb.holds pid' v f hh).untargeted rfl)
      have hne : q ≠ w.pager.nextProcess := fun e => hc.next_notMem (e ▸ hq)
      rw [← hstate]
      simp only [Pager.step, Pager.create]
      split
      · exact ⟨q, hq, hpid, hm⟩
      · exact ⟨q, hq, (hc.pid_next hq).trans hpid,
          (congrFun (Function.update_of_ne hne _ _) v).trans hm⟩
    | fork p childPid => exact ha.elim
    | release p => exact ha.elim
    | _ => cases ht
  | some target =>
    obtain ⟨p, page⟩ := target
    obtain ⟨hp, hpage⟩ := ha.accepts.target (Nat.le_refl _) ht
    have hevolves := w.pager.evolves_step answers ht
    rw [footprint_target ht] at hroom
    have hunforked : (w.pager.step answers call).2.Unforked := w.pager.step_rule answers ht
      (h.unforked.access hc hp answers page call.writes) fun _ _ _ _ h' => h'
    have hpids : (w.pager.register p).pid = w.pager.pid := by rw [Pager.register_eq]
    rw [hstate] at hunforked hevolves
    refine ⟨hroomy, hunforked, fun pid v f hh => ?_⟩
    rw [hevolves.processes, hevolves.pid, hpids]
    rcases (hs.tlb.holds pid v f hh).target ht with ⟨rfl, rfl, hm⟩ | hold
    · exact ⟨p, w.pager.mem_register p, rfl, hm⟩
    · obtain ⟨q, hq, hpid, hm⟩ := h.hits pid v f hold
      refine ⟨q, Pager.mem_register_iff.mpr (Or.inr hq), hpid, ?_⟩
      rw [← hstate]
      exact h.roomy.pager.keeps hc h.unforked ht hroom hm

theorem World.boot_agrees (h : virtualMemoryCreateInternal n type tlbEntries slots = some memory)
    (hn : n < 2 ^ 32) : (World.boot memory).Agrees n [] := by
  refine ⟨World.boot_roomy h hn, fun f => ?_, fun pid v f hh => ?_⟩
  · rw [World.boot_users h]
    exact Nat.zero_le 1
  · exact ((World.boot_coherent h hn fun _ => True).translated pid v f hh).2

theorem World.Agrees.run (h : virtualMemoryCreateInternal n type tlbEntries slots = some memory)
    (hn : n < 2 ^ 32) (hrun : Run World.step World.AllowsAny (World.boot memory) history w) :
    (footprint history).card ≤ n → (∀ p, KeysApart fun v => (p, v) ∈ footprint history) →
      w.Agrees n history ∧ Remembered history := by
  refine Run.invariant (fun history w => (footprint history).card ≤ n →
    (∀ p, KeysApart fun v => (p, v) ∈ footprint history) →
      w.Agrees n history ∧ Remembered history)
    (fun _ _ => ⟨World.boot_agrees h hn, trivial⟩) ?_ hrun
  intro history w call reply w' ih ha hstep hroom hapart
  have hsub := footprint_subset (call, reply) history
  obtain ⟨hagrees, hr⟩ := ih ((Finset.card_le_card hsub).trans hroom)
    fun p u v hu hv => hapart p u v (hsub hu) (hsub hv)
  have hown := hagrees.allowsOwn ha
  obtain ⟨answers, hs⟩ := hagrees.roomy.stepped hown (Nat.le_refl _) hstep hapart
  exact ⟨hagrees.next ha hs hroom hapart,
    hagrees.roomy.read hown (Nat.le_refl _) hs hroom hapart hr⟩

/-! ## Translations -/

theorem World.Agrees.mapped (h : w.Agrees n history) (hp : w.Live p)
    (hf : w.TranslatesTo p a f) : w.pager.mapped p (addressPageNumber a) = some f := by
  rcases hf with hhit | hwalked
  · exact h.hit hp hhit
  · rwa [h.roomy.wf.translate_eq] at hwalked

/-- **Every address is translated by its own page** as long as no process
touches two pages whose keys are the same: touched addresses with one
frame have one page number, and every byte read is the last one written
at this very address. -/
theorem virtualMemory_translates (hn : n < 2 ^ 32)
    (h : virtualMemoryCreateInternal n type tlbEntries slots = some memory)
    (hrun : Run World.step World.AllowsAny (World.boot memory) history w)
    (hroom : (footprint history).card ≤ n)
    (hapart : ∀ p, KeysApart fun v => (p, v) ∈ footprint history) :
    Remembered history ∧ ∀ p, w.Live p → ∀ a b f, (p, addressPageNumber a) ∈ footprint history →
      (p, addressPageNumber b) ∈ footprint history → w.TranslatesTo p a f →
      w.TranslatesTo p b f → addressPageNumber a = addressPageNumber b := by
  obtain ⟨hagrees, hr⟩ := World.Agrees.run h hn hrun hroom hapart
  refine ⟨hr, fun p hp a b f ha hb hfa hfb => ?_⟩
  have hc := hagrees.roomy.wf.consistent
  obtain ⟨_, hka⟩ := hc.user_of_mapped (hagrees.mapped hp hfa)
  obtain ⟨_, hkb⟩ := hc.user_of_mapped (hagrees.mapped hp hfb)
  exact hapart p _ _ ha hb (hka.symm.trans hkb)

/-- Two pages far apart, above 2^48. -/
theorem virtualMemory_translates_two : ∃ history, ∃ w : World, history.map Prod.snd =
    [.byte (some 5), .status true, .status true, .process (some 0)] ∧
      Remembered history ∧ ∀ p, w.Live p → ∀ a b f,
        (p, addressPageNumber a) ∈ footprint history →
        (p, addressPageNumber b) ∈ footprint history → w.TranslatesTo p a f →
        w.TranslatesTo p b f → addressPageNumber a = addressPageNumber b := by
  have hrun : ((virtualMemoryCreateInternal 2 .fifo 1 none).bind fun memory =>
      runChecked World.step World.AllowsAny [] (World.boot memory) [.createProcess 1,
        .writeByte 0 0x1000 5, .writeByte 0 0x8000000002000 6, .readByte 0 0x1000]).any (fun r =>
          decide (r.1.map Prod.snd =
            [.byte (some 5), .status true, .status true, .process (some 0)] ∧
            footprint r.1 = {(0, 0x1), (0, 0x8000000002)})) = true := by
    decide +kernel
  obtain ⟨⟨history, w⟩, hafter, hcheck⟩ := (Option.any_eq_true _ _).mp hrun
  obtain ⟨memory, hcreate, hchecked⟩ := Option.bind_eq_some_iff.mp hafter
  obtain ⟨hreplies, hpages⟩ := of_decide_eq_true hcheck
  refine ⟨history, w, hreplies, virtualMemory_translates (by decide) hcreate
    (Run.of_runChecked _ .start hchecked) (by rw [hpages]; decide) fun p u v hu hv hk => ?_⟩
  rw [hpages] at hu hv
  simp only [Finset.mem_insert, Finset.mem_singleton, Prod.mk.injEq] at hu hv
  rcases hu with ⟨_, rfl⟩ | ⟨_, rfl⟩ <;> rcases hv with ⟨_, rfl⟩ | ⟨_, rfl⟩
  · rfl
  · exact absurd hk (by decide)
  · exact absurd hk (by decide)
  · rfl

/-- Addresses 2^48 apart have one frame, and the write at one of them is
read at the other. -/
theorem virtualMemory_confuses : ∃ memory history w,
    virtualMemoryCreateInternal 2 .fifo 1 none = some memory ∧
      Run World.step World.AllowsAny (World.boot memory) history w ∧
      (∀ event ∈ history, event.2.succeeded = true) ∧ (footprint history).card ≤ 2 ∧
      addressPageNumber 0x1000 ≠ addressPageNumber 0x1000000001000 ∧
      w.translate 0 0x1000 = w.translate 0 0x1000000001000 ∧
      history.head? = some (.readByte 0 0x1000, .byte (some 6)) ∧ ¬Remembered history := by
  have hrun : ((virtualMemoryCreateInternal 2 .fifo 1 none).bind fun memory =>
      runChecked World.step World.AllowsAny [] (World.boot memory) [.createProcess 1,
        .writeByte 0 0x1000 5, .writeByte 0 0x1000000001000 6, .readByte 0 0x1000]).any (fun r =>
          decide ((∀ event ∈ r.1, event.2.succeeded = true) ∧ (footprint r.1).card ≤ 2 ∧
            r.2.translate 0 0x1000 = r.2.translate 0 0x1000000001000 ∧
            r.1.head? = some (.readByte 0 0x1000, .byte (some 6)) ∧
            recalled r.1.tail 0 0x1000 = 5)) = true := by
    decide +kernel
  obtain ⟨⟨history, w⟩, hafter, hcheck⟩ := (Option.any_eq_true _ _).mp hrun
  obtain ⟨memory, hcreate, hchecked⟩ := Option.bind_eq_some_iff.mp hafter
  obtain ⟨hevents, hroom, hsame, hlast, hrecall⟩ := of_decide_eq_true hcheck
  refine ⟨memory, history, w, hcreate, Run.of_runChecked _ .start hchecked, hevents, hroom,
    by decide, hsame, hlast, fun hr => ?_⟩
  obtain ⟨earlier, rfl⟩ := List.head?_eq_some_iff.mp hlast
  have hsix : 6 = recalled earlier 0 0x1000 := hr.1
  have hfive : recalled earlier 0 0x1000 = 5 := hrecall
  rw [hfive] at hsix
  cases hsix

end VmSim
