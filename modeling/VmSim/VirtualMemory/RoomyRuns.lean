/-
VmSim.VirtualMemory.RoomyRuns — runs of a virtual memory that never has to
evict.

`World.AllowsOwn` is the condition on calls: processes are only created,
forked and accessed, under any pids, and a write whose page is in the TLB
finds its own frame there, or frames that have one user. Under it, a run
whose footprint fits into the frames keeps `World.Roomy`.
-/
import VmSim.VirtualMemory.Roomy

namespace VmSim

open Lib

variable {w w' : World} {s s' : Pager} {p q page f v a n limit : Nat} {tlb : Tlb}
  {answers : TlbAnswers} {call : Call} {reply : Reply} {history : List (Call × Reply)}

/-! ## The condition on calls -/

/-- Processes are created, forked, read and written, at addresses below
the limit. -/
def World.Accepts (w : World) (limit : Nat) : Call → Prop
  | .createProcess _ => True
  | .readByte p a => 0 ≤ w.heap.pid p ∧ a < limit
  | .writeByte p a _ => 0 ≤ w.heap.pid p ∧ a < limit
  | .fork p _ => 0 ≤ w.heap.pid p
  | _ => False

instance (w : World) (limit : Nat) : ∀ call : Call, Decidable (w.Accepts limit call)
  | .createProcess _ => .isTrue trivial
  | .readByte _ _ => inferInstanceAs (Decidable (_ ∧ _))
  | .writeByte _ _ _ => inferInstanceAs (Decidable (_ ∧ _))
  | .fork p _ => inferInstanceAs (Decidable (0 ≤ w.heap.pid p))
  | .access _ _ _ => .isFalse id
  | .release _ => .isFalse id

/-- The frame that the TLB has for the page of a write is the one in the
page table, or else neither of them has two users. -/
def World.WritesOwn (w : World) : Call → Prop
  | .writeByte p a _ =>
    ∀ f ∈ w.memory.tlb.found (w.heap.pid p) (addressPageNumber a), w.translate p a = some f ∨
      (w.memory.cowManager.frames f).length ≤ 1 ∧
        ∀ g ∈ w.translate p a, (w.memory.cowManager.frames g).length ≤ 1
  | _ => True

instance (w : World) : ∀ call : Call, Decidable (w.WritesOwn call)
  | .writeByte _ _ _ => inferInstanceAs (Decidable (∀ f ∈ _, _))
  | .createProcess _ => .isTrue trivial
  | .readByte _ _ => .isTrue trivial
  | .fork _ _ => .isTrue trivial
  | .access _ _ _ => .isTrue trivial
  | .release _ => .isTrue trivial

def World.AllowsOwn (w : World) (limit : Nat) (call : Call) : Prop :=
  w.Accepts limit call ∧ w.WritesOwn call

instance (w : World) (limit : Nat) (call : Call) : Decidable (w.AllowsOwn limit call) := by
  unfold World.AllowsOwn
  infer_instance

theorem World.Accepts.valid (h : w.Accepts limit call) (hlimit : limit ≤ wordSize) :
    w.pager.Valid call := by
  cases call with
  | createProcess pid => trivial
  | readByte p a => exact ⟨h.1, Nat.lt_of_lt_of_le h.2 hlimit⟩
  | writeByte p a value => exact ⟨h.1, Nat.lt_of_lt_of_le h.2 hlimit⟩
  | fork p childPid => exact h
  | _ => exact h.elim

theorem World.Accepts.target (h : w.Accepts limit call) (hlimit : limit ≤ wordSize)
    (ht : call.target = some (p, page)) : 0 ≤ w.pager.pid p ∧ page < 2 ^ 52 := by
  cases call with
  | readByte p' a =>
    cases ht
    exact ⟨h.1, addressPageNumber_lt (Nat.lt_of_lt_of_le h.2 hlimit)⟩
  | writeByte p' a value =>
    cases ht
    exact ⟨h.1, addressPageNumber_lt (Nat.lt_of_lt_of_le h.2 hlimit)⟩
  | access p' a t => exact h.elim
  | _ => cases ht

theorem World.WritesOwn.hitsOwn (h : w.WritesOwn call) (ha : w.Accepts limit call) (hwf : w.Wf)
    (ht : call.target = some (p, page)) (hwrites : call.writes = true) :
    w.pager.HitsOwn (w.hit call) p page := by
  cases call with
  | writeByte p' a value =>
    cases ht
    intro f hf
    have hown := h f hf
    rw [hwf.translate_eq] at hown
    exact hown
  | readByte p' a => cases hwrites
  | access p' a t => exact ha.elim
  | _ => cases ht

/-! ## The invariant -/

structure World.Roomy (w : World) (n : Nat) (history : List (Call × Reply)) : Prop where
  wf : w.Wf
  pager : w.pager.Roomy n history
  translated : ∀ pid v f, w.memory.tlb.Holds pid v f → (w.pager.physical.frames f).occupied = true

theorem World.Roomy.admits (h : w.Roomy n history) (ha : w.AllowsOwn limit call)
    (ht : call.target = some (p, page)) (hhit : answers.hit = w.hit call)
    (hapart : KeysApart fun v => (p, v) ∈ insert (p, page) (footprint history)) :
    w.pager.Admits answers p page call.writes := by
  have hc := h.wf.consistent
  have hown := ha.2.hitsOwn ha.1 h.wf ht
  have hmapped : ∀ f, w.pager.mapped p page = some f →
      (w.pager.physical.frames f).occupied = true ∧ w.pager.Writable p page f := by
    intro f hm
    obtain ⟨huser, _⟩ := hc.user_of_mapped hm
    rw [h.pager.apart_frame hc hapart hm] at huser
    exact ⟨hc.occupied_of_mapped hm, Or.inr huser⟩
  rintro f (hf | ⟨_, hm⟩)
  · rw [hhit] at hf
    refine ⟨?_, fun hwrites => ?_⟩
    · rw [World.hit, ht] at hf
      exact h.translated _ _ _ (Tlb.found_some hf)
    · exact (hown hwrites f hf).elim (fun hm => (hmapped f hm).2) fun hlen => Or.inl hlen.1
  · exact ⟨(hmapped f hm).1, fun _ => (hmapped f hm).2⟩

theorem World.Roomy.expects (h : w.Roomy n history) (ha : w.AllowsOwn limit call)
    (hapart : ∀ q, KeysApart fun v => (q, v) ∈ footprint ((call, reply) :: history)) :
    w.pager.Expects ⟨w.hit call, true, true⟩ call := by
  cases call with
  | readByte p a => exact h.admits ha rfl rfl (hapart p)
  | writeByte p a value => exact h.admits ha rfl rfl (hapart p)
  | access p a t => exact ha.1.elim
  | _ => trivial

/-- The translations after an access. -/
theorem Pager.Kept.target {pid : Int} (h : s.Kept s' tlb call pid v f)
    (ht : call.target = some (p, page)) :
    (pid = s.pid p ∧ v = page ∧ s'.mapped p page = some f) ∨ tlb.Holds pid v f := by
  cases call with
  | access p' a t => cases ht; exact h.imp_right And.left
  | readByte p' a => cases ht; exact h.imp_right And.left
  | writeByte p' a value => cases ht; exact h.imp_right And.left
  | _ => cases ht

theorem Pager.Kept.untargeted {pid : Int} (h : s.Kept s' tlb call pid v f)
    (ht : call.target = none) : tlb.Holds pid v f := by
  cases call with
  | createProcess pid => exact h
  | fork p childPid => exact h.1
  | release p => exact h.1
  | _ => cases ht

/-! ## Steps -/

/-- What a step within the frames does. -/
theorem World.Roomy.stepped (h : w.Roomy n history) (ha : w.AllowsOwn limit call)
    (hlimit : limit ≤ wordSize) (hrun : w.step call = some (reply, w'))
    (hapart : ∀ q, KeysApart fun v => (q, v) ∈ footprint ((call, reply) :: history)) :
    ∃ answers, w.Stepped call answers reply w' := by
  obtain ⟨answers, reply₁, w₁, hs⟩ := h.wf.step (ha.1.valid hlimit) (h.expects ha hapart)
  obtain ⟨rfl, rfl⟩ := hs.unique hrun
  exact ⟨answers, hs⟩

theorem World.Roomy.accessed (h : w.Roomy n history) (ha : w.AllowsOwn limit call)
    (hlimit : limit ≤ wordSize) (ht : call.target = some (p, page))
    (hs : w.Stepped call answers reply w')
    (hroom : (footprint ((call, reply) :: history)).card ≤ n)
    (hapart : ∀ q, KeysApart fun v => (q, v) ∈ footprint ((call, reply) :: history)) :
    w'.Roomy n ((call, reply) :: history) := by
  have hc := h.wf.consistent
  have hreply : (w.pager.step answers call).1 = reply := by rw [hs.pager]
  have hstate : (w.pager.step answers call).2 = w'.pager := by rw [hs.pager]
  obtain ⟨hp, hpage⟩ := ha.1.target hlimit ht
  have hown := ha.2.hitsOwn ha.1 h.wf ht
  rw [footprint_target ht] at hroom
  simp only [footprint_target ht] at hapart
  have had := h.admits ha ht hs.hit (hapart p)
  rw [← hs.hit] at hown
  have hpager := h.pager.access hc ht hp hpage had hown hroom hapart
  have hgains := w.pager.gains_step ht (h.pager.gains_access hc hp had hroom)
  rw [hreply, hstate] at hpager
  rw [hstate] at hgains
  refine ⟨hs.wf, hpager, fun pid v f hh => ?_⟩
  rcases (hs.tlb.holds pid v f hh).target ht with ⟨_, _, hm⟩ | hold
  · exact hs.wf.consistent.occupied_of_mapped hm
  · exact hgains.occupied f (h.translated pid v f hold)

/-- A call that leaves the frames alone keeps the translations in use. -/
theorem World.Roomy.untargeted (h : w.Roomy n history) (ht : call.target = none)
    (hs : w.Stepped call answers reply w') (hpager : w'.pager.Roomy n ((call, reply) :: history))
    (hphysical : w'.pager.physical = w.pager.physical) : w'.Roomy n ((call, reply) :: history) := by
  refine ⟨hs.wf, hpager, fun pid v f hh => ?_⟩
  rw [hphysical]
  exact h.translated pid v f ((hs.tlb.holds pid v f hh).untargeted ht)

theorem World.Roomy.created {pid : Int} (h : w.Roomy n history)
    (hs : w.Stepped (.createProcess pid) answers reply w') :
    w'.Roomy n ((.createProcess pid, reply) :: history) := by
  obtain ⟨hreply, hstate⟩ := Prod.mk.inj hs.pager
  have hphysical : (w.pager.create pid).2.physical = w.pager.physical := by
    unfold Pager.create
    split <;> rfl
  refine h.untargeted rfl hs ?_ (by rw [← hstate]; exact hphysical)
  rw [← hreply, ← hstate]
  exact h.pager.create pid

theorem World.Roomy.forked {childPid : Int} (h : w.Roomy n history)
    (hs : w.Stepped (.fork p childPid) answers reply w')
    (hroom : (footprint ((.fork p childPid, reply) :: history)).card ≤ n)
    (hapart : ∀ q, KeysApart fun v => (q, v) ∈ footprint ((.fork p childPid, reply) :: history)) :
    w'.Roomy n ((.fork p childPid, reply) :: history) := by
  have hreply : Reply.process (w.pager.fork p childPid).1 = reply := congrArg Prod.fst hs.pager
  have hstate : (w.pager.fork p childPid).2 = w'.pager := congrArg Prod.snd hs.pager
  have hregister : (w.pager.register p).physical = w.pager.physical ∧
      (w.pager.register p).nextProcess = w.pager.nextProcess := by
    rw [Pager.register_eq]
    exact ⟨rfl, rfl⟩
  unfold Pager.fork at hreply hstate
  split at hstate
  · rename_i hneg
    rw [if_pos hneg] at hreply
    subst hreply
    refine h.untargeted rfl hs ?_ (by rw [← hstate])
    rw [← hstate]
    exact ⟨h.pager.frames, hroom, hapart, h.pager.empty, h.pager.users, h.pager.born, h.pager.recalls⟩
  · rename_i hpos
    rw [if_neg hpos, ← hregister.2] at hreply
    subst hreply
    refine h.untargeted rfl hs ?_ (by rw [← hstate]; exact hregister.1)
    rw [← hstate]
    exact (h.pager.register p).spawn hroom hapart

/-- A step of a run within the frames. -/
theorem World.Roomy.next (h : w.Roomy n history) (ha : w.AllowsOwn limit call)
    (hlimit : limit ≤ wordSize) (hs : w.Stepped call answers reply w')
    (hroom : (footprint ((call, reply) :: history)).card ≤ n)
    (hapart : ∀ q, KeysApart fun v => (q, v) ∈ footprint ((call, reply) :: history)) :
    w'.Roomy n ((call, reply) :: history) := by
  cases call with
  | createProcess pid => exact h.created hs
  | access p a t => exact ha.1.elim
  | readByte p a => exact h.accessed ha hlimit rfl hs hroom hapart
  | writeByte p a value => exact h.accessed ha hlimit rfl hs hroom hapart
  | fork p childPid => exact h.forked hs hroom hapart
  | release p => exact ha.1.elim

/-- A byte that is read is remembered. -/
theorem World.Roomy.read (h : w.Roomy n history) (ha : w.AllowsOwn limit call)
    (hlimit : limit ≤ wordSize) (hs : w.Stepped call answers reply w')
    (hroom : (footprint ((call, reply) :: history)).card ≤ n)
    (hapart : ∀ q, KeysApart fun v => (q, v) ∈ footprint ((call, reply) :: history))
    (hr : Remembered history) : Remembered ((call, reply) :: history) := by
  refine hr.cons fun p a value hcall hreply => ?_
  subst hcall
  obtain ⟨hp, hpage⟩ := ha.1.target hlimit rfl
  have had := h.admits ha rfl hs.hit (hapart p)
  have hread : (w.pager.readByte answers p a).1 = some value := by
    have hend : Reply.byte (w.pager.readByte answers p a).1 = reply := congrArg Prod.fst hs.pager
    rw [hreply] at hend
    exact Reply.byte.inj hend
  have hrecalls : w.pager.Recalls history p (addressPageNumber a) :=
    h.pager.recalls p _ fun u hu hk =>
      hapart p _ _ (Finset.mem_insert_self _ _) (Finset.mem_insert_of_mem hu) hk
  exact hrecalls.read
    (h.pager.view_access h.wf.consistent hp hpage had hroom fun _ _ => rfl) hread

/-! ## Runs -/

theorem World.boot_roomy {tlbEntries : Nat} {type : ReplacementPolicyType} {slots : Option Nat}
    {memory : VirtualMemory}
    (h : virtualMemoryCreateInternal n type tlbEntries slots = some memory) (hn : n < 2 ^ 32) :
    (World.boot memory).Roomy n [] := by
  have hcoherent := World.boot_coherent h hn fun _ => True
  have hwf := hcoherent.wf
  obtain ⟨hphysical, _, _, _, _, hprocesses, _⟩ := virtualMemoryCreateInternal_some h
  obtain ⟨_, _, _, _, hcount, _⟩ := physicalMemoryCreate_spec hphysical hn
  have hregistry : (World.boot memory).pager.processes = [] := hprocesses
  have hnobody : ∀ p, p ∉ (World.boot memory).pager.processes := fun p hp => by
    rw [hregistry] at hp
    cases hp
  have hempty : ∀ pid v, (World.boot memory).pager.slot pid v = none := by
    intro pid v
    by_contra hne
    obtain ⟨p, hp, _⟩ := hwf.consistent.slot_owner hne
    exact hnobody p hp
  refine ⟨hwf, ⟨hcount, Nat.zero_le n, fun p u v hu => absurd hu (Finset.notMem_empty _), hempty,
    fun f m hm => ?_, fun q v hv => absurd hv (Finset.notMem_empty _), fun q v _ a _ => ?_⟩,
    fun pid v f hh => ?_⟩
  · rw [World.boot_users h] at hm
    cases hm
  · rw [Pager.view_absent rfl, Pager.swapped, hempty]
    rfl
  · obtain ⟨_, p, hp, _⟩ := hcoherent.translated pid v f hh
    exact absurd hp (hnobody p)

/-- A run whose footprint fits, and whose pages the trie tells apart. -/
theorem World.Roomy.run {tlbEntries : Nat} {type : ReplacementPolicyType} {slots : Option Nat}
    {memory : VirtualMemory}
    (h : virtualMemoryCreateInternal n type tlbEntries slots = some memory) (hn : n < 2 ^ 32)
    (hlimit : limit ≤ wordSize)
    (hrun : Run World.step (·.AllowsOwn limit) (World.boot memory) history w) :
    (footprint history).card ≤ n → (∀ p, KeysApart fun v => (p, v) ∈ footprint history) →
      w.Roomy n history ∧ Remembered history := by
  refine Run.invariant (fun history w => (footprint history).card ≤ n →
    (∀ p, KeysApart fun v => (p, v) ∈ footprint history) →
      w.Roomy n history ∧ Remembered history)
    (fun _ _ => ⟨World.boot_roomy h hn, trivial⟩) ?_ hrun
  intro history w call reply w' ih ha hstep hroom hapart
  have hsub := footprint_subset (call, reply) history
  obtain ⟨hroomy, hr⟩ := ih ((Finset.card_le_card hsub).trans hroom)
    fun p u v hu hv => hapart p u v (hsub hu) (hsub hv)
  obtain ⟨answers, hs⟩ := hroomy.stepped ha hlimit hstep hapart
  exact ⟨hroomy.next ha hlimit hs hroom hapart, hroomy.read ha hlimit hs hroom hapart hr⟩

/-- Every process sees what it remembers. -/
theorem World.Roomy.view_eq (h : w.Roomy n history)
    (hkey : ∀ u, (q, u) ∈ footprint history → Apart (addressPageNumber a) u) :
    w.view q a = recalled history q a :=
  (h.wf.view_eq q a).trans (h.pager.recalls q _ hkey a rfl)

end VmSim
