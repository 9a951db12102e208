/-
VmSim.Contract.NoLeak — no byte of one process reaches another.

`Wrote history p a value` says that `p` wrote the value to the address, or
that a process it descends from did so before the fork that leads to `p`.
Every byte in a frame or a swap slot was written so by its process, or is
zero (`Pager.Backed` with `Authored`), after every run.
-/
import VmSim.VirtualMemory.Provenance

namespace VmSim

open Lib

variable {w w' : World} {s s' : Pager} {p q a b v : Nat} {value : UInt8} {data : PageData}
  {n tlbEntries : Nat} {type : ReplacementPolicyType} {slots : Option Nat}
  {history : List (Call × Reply)} {call : Call} {reply : Reply} {answers : TlbAnswers}

/-- A process or its ancestor wrote a value to an address. -/
inductive Wrote : List (Call × Reply) → Nat → Nat → UInt8 → Prop where
  | itself {history : List (Call × Reply)} {p a : Nat} {value : UInt8} :
      Wrote ((.writeByte p a value, .status true) :: history) p a value
  | inherited {history : List (Call × Reply)} {p a child : Nat} {value : UInt8} {pid : Int} :
      Wrote history p a value →
      Wrote ((.fork p pid, .process (some child)) :: history) child a value
  | earlier {history : List (Call × Reply)} {p a : Nat} {value : UInt8} {event : Call × Reply} :
      Wrote history p a value → Wrote (event :: history) p a value

/-- Every byte of a page is zero, or the process wrote it there. -/
def Authored (history : List (Call × Reply)) (q v : Nat) (data : PageData) : Prop :=
  ∀ b, addressPageNumber b = v →
    data (pageOffset b) = 0 ∨ Wrote history q b (data (pageOffset b))

theorem authored_zero (history : List (Call × Reply)) (q v : Nat) :
    Authored history q v zeroPage := fun _ _ => Or.inl rfl

theorem Authored.earlier (h : Authored history q v data) (event : Call × Reply) :
    Authored (event :: history) q v data := fun b hb => (h b hb).imp_right .earlier

theorem Authored.write (h : Authored history p (addressPageNumber a) data) (value : UInt8) :
    Authored ((.writeByte p a value, .status true) :: history) p (addressPageNumber a)
      (Function.update data (pageOffset a) value) := by
  intro b hb
  by_cases hoffset : pageOffset b = pageOffset a
  · have hab : b = a := address_eq hb (congrArg Fin.val hoffset)
    rw [hab, Function.update_self]
    exact Or.inr .itself
  · rw [Function.update_of_ne hoffset]
    exact (h b hb).imp_right .earlier

/-! ## Steps -/

/-- A write that succeeds stores its byte in a frame of its own. -/
theorem Pager.Backed.writeByte (h : s.Backed (Authored history)) (hc : s.Consistent)
    (hdistinct : ∀ q ∈ s.processes, s.Alone q) (hp : 0 ≤ s.pid p) (halone : s.Alone p)
    (ha : addressPageNumber a < 2 ^ 36) (hin : s.PagesIn (· < 2 ^ 36))
    (hhit : ∀ f, answers.hit = some f → s.mapped p (addressPageNumber a) = some f)
    (hr : s.writeByte answers p a value = (result, s')) :
    s'.Backed (Authored ((.writeByte p a value, .status result) :: history)) := by
  have had := hc.admits keysApart_lt hin ha hhit true
  have haccess := h.access hc hdistinct (authored_zero history) hp halone
    (Nat.lt_trans ha (by decide)) had
  have howns := hc.access_owns hp had hhit fun f hf =>
    keysApart_lt _ _ (hin f (hc.occupied_of_mapped hf)) ha
  unfold Pager.writeByte at hr
  dsimp only at hr
  split at hr
  · cases hr
    exact haccess.mono fun _ _ _ hd => hd.earlier _
  · rename_i hok
    obtain ⟨g, hg, _⟩ := howns (by simpa using hok)
    rw [hg.mapped] at hr
    cases hr
    have hdata : ∀ f, ((s.access answers p (addressPageNumber a) true).2.setByte g (pageOffset a)
        value).physical.data f = if f = g then Function.update
          ((s.access answers p (addressPageNumber a) true).2.physical.data g) (pageOffset a) value
        else (s.access answers p (addressPageNumber a) true).2.physical.data f :=
      fun f => Function.update_apply _ g _ f
    refine ⟨fun f m hm => ?_, fun q hq v data hd => (haccess.slots q hq v data hd).earlier _⟩
    have hm' : m ∈ (s.access answers p (addressPageNumber a) true).2.cow.frames f := hm
    have hframe := haccess.frames f m hm'
    rw [hdata]
    split
    · rename_i e
      rw [e, hg.users, List.mem_singleton] at hm'
      rw [hm', e] at hframe
      rw [hm']
      exact hframe.write value
    · exact hframe.earlier _

theorem World.Coherent.backed (h : w.Coherent (· < 2 ^ 36))
    (hb : w.pager.Backed (Authored history)) (ha : w.Allows call)
    (hs : w.Stepped call answers reply w') :
    w'.pager.Backed (Authored ((call, reply) :: history)) := by
  have hc := h.wf.consistent
  have hmono : ∀ {s : Pager}, s.Backed (Authored history) →
      s.Backed (Authored ((call, reply) :: history)) := fun hb =>
    hb.mono fun _ _ _ hd => hd.earlier _
  have hhit : ∀ p page f, call.target = some (p, page) → answers.hit = some f →
      w.pager.mapped p page = some f :=
    fun p page f ht hf => h.hit_mapped ha.pager ht (hs.hit ▸ hf)
  have haccess : ∀ p page isWrite, call.target = some (p, page) →
      (w.pager.access answers p page isWrite).2.Backed (Authored history) := by
    intro p page isWrite ht
    obtain ⟨hp, halone, hpage⟩ := ha.pager.target ht
    exact hb.access hc h.distinct (authored_zero history) hp halone
      (Nat.lt_trans hpage (by decide)) (hc.admits keysApart_lt h.resident hpage
        (fun f => hhit p page f ht) isWrite)
  have hstate : (w.pager.step answers call) = (reply, w'.pager) := hs.pager
  cases call with
  | createProcess pid =>
    obtain ⟨_, hend⟩ := Prod.mk.inj hstate
    rw [← hend]
    exact hmono (hb.create hc pid)
  | access p a t =>
    obtain ⟨_, hend⟩ := Prod.mk.inj hstate
    rw [← hend]
    exact hmono (haccess p _ _ rfl)
  | readByte p a =>
    obtain ⟨_, hend⟩ := Prod.mk.inj hstate
    rw [← hend, Pager.readByte_state]
    exact hmono (haccess p _ _ rfl)
  | writeByte p a value =>
    obtain ⟨hp, halone, hpage⟩ := ha.pager.target rfl
    obtain ⟨hreply, hend⟩ := Prod.mk.inj hstate
    rw [← hreply]
    exact hb.writeByte hc h.distinct hp halone hpage h.resident (fun f => hhit p _ f rfl)
      (Prod.ext rfl hend)
  | fork p childPid =>
    obtain ⟨hp, halone, hne, hfresh⟩ := ha.pager
    obtain ⟨hreply, hend⟩ := Prod.mk.inj hstate
    rw [← hreply, ← hend]
    unfold Pager.fork
    split
    · exact hb.mono fun _ _ _ hd => hd.earlier _
    · have hnext : (w.pager.register p).nextProcess = w.pager.nextProcess := by
        rw [Pager.register_eq]
      have hpid : (w.pager.register p).pid = w.pager.pid := by rw [Pager.register_eq]
      refine (hb.register hc halone).spawn (hc.register hp) (fun q hq => ?_)
        (fun _ _ _ hd => hd.earlier _) fun v data hd b hv => (hd b hv).imp_right fun hwrote => ?_
      · rw [hpid]
        rcases Pager.mem_register_iff.mp hq with rfl | hold
        · exact Ne.symm hne
        · exact hfresh q hold
      · rw [hnext]
        exact .inherited hwrote
  | release p =>
    obtain ⟨_, hend⟩ := Prod.mk.inj hstate
    rw [← hend]
    exact hmono (hb.release hc ha.1)

/-! ## Runs -/

theorem World.boot_backed {memory : VirtualMemory}
    (h : virtualMemoryCreateInternal n type tlbEntries slots = some memory)
    (P : Nat → Nat → PageData → Prop) : (World.boot memory).pager.Backed P := by
  obtain ⟨_, _, _, _, _, hprocesses, _⟩ := virtualMemoryCreateInternal_some h
  refine ⟨fun f m hm => ?_, fun q hq => absurd hq ?_⟩
  · rw [World.boot_users h] at hm
    cases hm
  · rw [show (World.boot memory).pager.processes = [] from hprocesses]
    exact List.not_mem_nil

theorem World.Reachable.backed (h : World.Reachable n type tlbEntries slots history w)
    (hn : n < 2 ^ 32) : w.pager.Backed (Authored history) := by
  obtain ⟨memory, hcreate, hrun⟩ := h
  have hinv : w.Coherent (· < 2 ^ 36) ∧ w.pager.Backed (Authored history) :=
    Run.invariant (fun history w => w.Coherent (· < 2 ^ 36) ∧ w.pager.Backed (Authored history))
      ⟨World.boot_coherent hcreate hn _, World.boot_backed hcreate _⟩
      (fun history w call reply w' ⟨hc, hb⟩ ha hs => by
        obtain ⟨answers, hstepped, hc'⟩ := hc.stepped ha hs
        exact ⟨hc', hc.backed hb ha hstepped⟩) hrun
  exact hinv.2

/-- **No data leaks**: whatever calls were made before, and whether they
failed or not, a byte that is read is zero, or the reader or one of its
ancestors wrote it to that address. -/
theorem virtualMemory_noLeak (hn : n < 2 ^ 32)
    (h : World.Reachable n type tlbEntries slots history w) (ha : w.Allows (.readByte p a))
    (hstep : w.step (.readByte p a) = some (.byte (some value), w')) :
    value = 0 ∨ Wrote history p a value := by
  have hc := h.coherent hn
  obtain ⟨answers, hs, hc'⟩ := hc.stepped ha hstep
  obtain ⟨hp, halone, hpage⟩ := ha.pager.target rfl
  have hb := (h.backed hn).access hc.wf.consistent hc.distinct (authored_zero history) hp halone
    (Nat.lt_trans hpage (by decide)) (hc.wf.consistent.admits keysApart_lt hc.resident hpage
      (fun f hf => hc.hit_mapped ha.pager rfl (hs.hit ▸ hf)) false)
  obtain ⟨hreply, hstate⟩ := Prod.mk.inj hs.pager
  have hread : (w.pager.readByte answers p a).1 = some value := Reply.byte.inj hreply
  rw [Pager.readByte_state] at hstate
  unfold Pager.readByte at hread
  dsimp only at hread
  split at hread
  · cases hread
  · rw [hstate] at hread hb
    obtain ⟨f, hf, rfl⟩ := Option.map_eq_some_iff.mp hread
    obtain ⟨huser, hk⟩ := hc'.wf.consistent.user_of_mapped hf
    have hv := keysApart_lt _ _
      (hc'.resident f (hc'.wf.consistent.occupied_of_mapped hf)) hpage hk
    rw [hv] at huser
    exact hb.frames f _ huser a rfl

/-- A child reads what its parent wrote before the fork, after a process
that had its pid was released and the parent has written again. -/
theorem virtualMemory_noLeak_child : ∃ history w,
    World.Reachable 2 .fifo 1 (some 1) history w ∧ history.length = 7 ∧
      (w.step (.readByte 2 0x1000)).map Prod.fst = some (.byte (some 5)) ∧
      Wrote history 2 0x1000 5 := by
  have hafter : (World.after 2 .fifo 1 (some 1) [.createProcess 1, .createProcess 2,
      .writeByte 1 0x1000 7, .release 1, .writeByte 0 0x1000 5, .fork 0 2,
      .writeByte 0 0x1000 6]).any (fun r => decide (r.1.length = 7 ∧
        r.2.Allows (.readByte 2 0x1000) ∧
        (r.2.step (.readByte 2 0x1000)).map Prod.fst = some (.byte (some 5)))) = true := by
    decide +kernel
  obtain ⟨⟨history, w⟩, hafter, hcheck⟩ := (Option.any_eq_true _ _).mp hafter
  obtain ⟨hlength, hallows, hread⟩ := of_decide_eq_true hcheck
  have hreach := World.reachable_of_after hafter
  obtain ⟨⟨reply, w'⟩, hstep, rfl⟩ := Option.map_eq_some_iff.mp hread
  refine ⟨history, w, hreach, hlength, hread, ?_⟩
  exact (virtualMemory_noLeak (by decide) hreach hallows hstep).resolve_left (by decide)

end VmSim
