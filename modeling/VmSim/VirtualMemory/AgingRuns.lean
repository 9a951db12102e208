/-
VmSim.VirtualMemory.AgingRuns — runs under the Aging policy, with a log of
the accesses that succeeded.

A `LoggedWorld` adds the log to the state. `World.logged` reads off a call
what it adds; the log is looked at by no call. `LoggedWorld.Aged` is kept
as long as no call is crowded out of the TLB.
-/
import VmSim.VirtualMemory.Saturation

namespace VmSim

open Lib

variable {w w' : World} {s s' : Pager} {p page f n : Nat} {log : List Touch} {touch : Touch}
  {call : Call} {reply : Reply} {answers : TlbAnswers} {policy : ReplacementPolicy}

/-! ## The policy -/

/-- The policy is the Aging policy, and its ages tell the log. -/
def ReplacementPolicy.Aged (policy : ReplacementPolicy) (n : Nat) (log : List Touch) : Prop :=
  ∃ state, policy = ⟨n, .aging state⟩ ∧ state.Tells log

theorem ReplacementPolicy.Aged.onEvict (h : policy.Aged n log) (f : Nat) :
    (replacementPolicyOnEvict policy f).2.Aged n log := by
  obtain ⟨state, rfl, htells⟩ := h
  unfold replacementPolicyOnEvict
  split
  · exact ⟨_, rfl, htells.evicted f⟩
  · exact ⟨state, rfl, htells⟩

theorem ReplacementPolicy.Aged.chosen (h : policy.Aged n log) {policy' : ReplacementPolicy}
    (hchoose : replacementPolicyChooseVictim policy = some (f, policy')) :
    policy' = policy := by
  obtain ⟨state, rfl, _⟩ := h
  cases hchoose
  rfl

theorem ReplacementPolicy.Aged.load (h : policy.Aged n log)
    (hlt : ∀ g, policy.loaded g = true → g < n) (hf : f < n) :
    (replacementPolicyTick (replacementPolicyOnLoad policy f).2).Aged n (⟨f, true⟩ :: log) := by
  obtain ⟨state, rfl, htells⟩ := h
  rw [replacementPolicyOnLoad, if_pos (show f < n from hf)]
  exact ⟨_, rfl, htells.loaded hlt hf⟩

theorem ReplacementPolicy.Aged.access (h : policy.Aged n log)
    (hlt : ∀ g, policy.loaded g = true → g < n) (hl : policy.loaded f = true) :
    (replacementPolicyTick (replacementPolicyOnAccess policy f).2).Aged n
      (⟨f, false⟩ :: log) := by
  obtain ⟨state, rfl, htells⟩ := h
  rw [replacementPolicyOnAccess, if_pos (show f < n from hlt f hl)]
  exact ⟨_, rfl, htells.accessed hlt hl⟩

/-- A frame that has just been loaded is marked already. -/
theorem ReplacementPolicy.Aged.access_load (h : policy.Aged n log) (hf : f < n) :
    (replacementPolicyOnAccess (replacementPolicyOnLoad policy f).2 f).2 =
      (replacementPolicyOnLoad policy f).2 := by
  obtain ⟨state, rfl, _⟩ := h
  simp [replacementPolicyOnLoad, replacementPolicyOnAccess, hf, ReplacementPolicy.wrap,
    agingOnLoad, agingOnAccess]

/-! ## The pager -/

/-- An access that ends on a frame adds it to the log. -/
theorem Pager.Marks.aged (hmarks : s.Marks p page touch policy) (hc : s.Consistent)
    (h : s.policy.Aged n log) : policy.Aged n (touch :: log) := by
  have hcount : s.policy.frameCount = n := by
    obtain ⟨state, heq, _⟩ := h
    rw [heq]
  have hlt : ∀ g, s.policy.loaded g = true → g < n := fun g hg => hcount ▸ hc.policy.lt hg
  have hframe : ∀ {g}, g < s.physical.frameCount → g < n := fun {g} hg => by
    rw [← hcount, hc.policy_count]
    exact hg
  cases hmarks with
  | accessed hm => exact h.access hlt ((hc.loaded _).trans (hc.occupied_of_mapped hm))
  | copied hm hg =>
    have hg' := hframe (hc.firstFree hg).1
    rw [h.access_load hg']
    exact h.load hlt hg'
  | placed hm hf => exact h.load hlt (hframe (hc.firstFree hf).1)
  | replaced hm hchoose hocc =>
    rename_i f policy'
    have hsame := h.chosen hchoose
    subst hsame
    have hevict := replacementPolicyOnEvict_spec hc.policy ((hc.loaded f).trans hocc)
    refine (h.onEvict f).load (fun g hg => ?_) (hframe (hc.frame_lt hocc))
    rw [← hcount, ← hevict.frameCount]
    exact hevict.wf.lt hg

theorem Pager.EndsMarked.aged {succeeded : Bool} (hend : s.EndsMarked p page succeeded s')
    (hc : s.Consistent) (h : s.policy.Aged n log) :
    (succeeded = false ∧ s'.policy.Aged n log) ∨
      (succeeded = true ∧ ∃ touch, s'.mapped p page = some touch.frameNumber ∧
        touch.loads = decide (s.mapped p page ≠ some touch.frameNumber) ∧
        s'.policy.Aged n (touch :: log)) := by
  rcases hend with ⟨hfailed, hsame | ⟨f, hchoose⟩⟩ | ⟨hok, touch, hm, hloads, hmarks⟩
  · exact Or.inl ⟨hfailed, hsame ▸ h⟩
  · exact Or.inl ⟨hfailed, (h.chosen hchoose).symm ▸ h⟩
  · exact Or.inr ⟨hok, touch, hm, hloads, hmarks.aged hc h⟩

/-- A call that is not crowded out of the TLB ends on a frame, or fails. -/
theorem World.Coherent.endsMarked (h : w.Coherent (· < 2 ^ 36)) (ha : w.Allows call)
    (hroom : ¬ w.Crowded call) (ht : call.target = some (p, page))
    (hs : w.Stepped call answers reply w') :
    w.pager.EndsMarked p page reply.succeeded w'.pager := by
  obtain ⟨hp, _, hpage⟩ := ha.pager.target ht
  have hhit : ∀ f, answers.hit = some f → w.pager.mapped p page = some f :=
    fun f hf => h.hit_mapped ha.pager ht (hs.hit ▸ hf)
  have htaken : (w.pager.loadFrame p page call.writes).isSome = true →
      answers.moved = true ∧ answers.recorded = true := by
    intro hsome
    obtain ⟨f, hloads⟩ := Option.isSome_iff_exists.mp hsome
    refine hs.taken hroom hp ht (f := f) ?_
    rw [World.loadFrame, ht]
    exact hloads
  have hend := h.wf.consistent.step_marks ht hp
    (h.wf.consistent.admits keysApart_lt h.resident hpage hhit) hhit htaken
  rwa [hs.pager] at hend

/-- A call that accesses no page adds nothing. -/
theorem Pager.aged_other (h : s.policy.Aged n log) (ht : call.target = none) :
    (s.step answers call).2.policy.Aged n log := by
  cases call with
  | createProcess pid =>
    show (s.create pid).2.policy.Aged n log
    unfold Pager.create
    split <;> exact h
  | fork p childPid =>
    show (s.fork p childPid).2.policy.Aged n log
    unfold Pager.fork
    split
    · exact h
    · rw [Pager.register_eq]
      exact h
  | release p =>
    exact Pager.releaseFrames_policy (·.Aged n log) (fun _ f hk => hk.onEvict f) p
      (List.range s.physical.frameCount) h
  | _ => cases ht

/-! ## The log -/

/-- The process and the address of a call that accesses memory. -/
def Call.accessed : Call → Option (Nat × Nat)
  | .access p a _ => some (p, a)
  | .readByte p a => some (p, a)
  | .writeByte p a _ => some (p, a)
  | _ => none

theorem Call.target_eq (call : Call) :
    call.target = call.accessed.map fun (p, a) => (p, addressPageNumber a) := by
  cases call <;> rfl

/-- What a call from `w` to `w'` adds to the log: if it succeeded, the
frame it ended on, which it loaded if the page was not there before. -/
def World.logged (w w' : World) (call : Call) (reply : Reply) : Option Touch :=
  if reply.succeeded then
    call.accessed.bind fun (p, a) =>
      (w'.translate p a).map fun f => ⟨f, decide (w.translate p a ≠ some f)⟩
  else none

structure LoggedWorld where
  world : World
  log : List Touch

def LoggedWorld.step (s : LoggedWorld) (call : Call) : Option (Reply × LoggedWorld) :=
  (s.world.step call).map fun (reply, w) =>
    (reply, ⟨w, (s.world.logged w call reply).toList ++ s.log⟩)

def LoggedWorld.boot (memory : VirtualMemory) : LoggedWorld := ⟨World.boot memory, []⟩

/-- A call that is allowed, and that finds room in the TLB for the
translation of a page it loads. -/
def LoggedWorld.Allows (s : LoggedWorld) (call : Call) : Prop :=
  s.world.Allows call ∧ ¬ s.world.Crowded call

/-! ## Runs -/

structure LoggedWorld.Aged (s : LoggedWorld) (n : Nat) : Prop where
  coherent : s.world.Coherent (· < 2 ^ 36)
  aged : s.world.memory.replacementPolicy.Aged n s.log

/-- A call that does not succeed, or accesses no page, adds nothing. -/
theorem World.logged_none (h : reply.succeeded = false ∨ call.target = none) :
    w.logged w' call reply = none := by
  unfold World.logged
  rcases h with hfailed | ht
  · rw [hfailed]
    rfl
  · rw [Call.target_eq, Option.map_eq_none_iff] at ht
    rw [ht]
    simp

/-- What a call that ended on the frame of `touch` adds. -/
theorem World.logged_some (h : w.Wf) (h' : w'.Wf) (hok : reply.succeeded = true)
    (ht : call.target = some (p, page)) (hm : w'.pager.mapped p page = some touch.frameNumber)
    (hloads : touch.loads = decide (w.pager.mapped p page ≠ some touch.frameNumber)) :
    w.logged w' call reply = some touch := by
  rw [Call.target_eq] at ht
  obtain ⟨⟨q, a⟩, haccessed, heq⟩ := Option.map_eq_some_iff.mp ht
  cases heq
  rw [World.logged, hok, if_pos rfl, haccessed, Option.bind_some]
  simp only [h.translate_eq, h'.translate_eq, hm, Option.map_some, ← hloads]

theorem LoggedWorld.Aged.step {s s' : LoggedWorld} (h : s.Aged n) (ha : s.Allows call)
    (hs : s.step call = some (reply, s')) : s'.Aged n := by
  obtain ⟨⟨reply, w'⟩, hrun, heq⟩ := Option.map_eq_some_iff.mp hs
  cases heq
  obtain ⟨answers, hstepped, hc'⟩ := h.coherent.stepped ha.1 hrun
  have hpager : s.world.pager.policy.Aged n s.log := h.aged
  refine ⟨hc', ?_⟩
  show w'.pager.policy.Aged n _
  cases ht : call.target with
  | none =>
    have hother : (s.world.pager.step answers call).2.policy.Aged n s.log :=
      Pager.aged_other hpager ht
    rw [hstepped.pager] at hother
    dsimp only
    rw [World.logged_none (Or.inr ht)]
    exact hother
  | some target =>
    obtain ⟨p, page⟩ := target
    have hend := h.coherent.endsMarked ha.1 ha.2 ht hstepped
    dsimp only
    rcases hend.aged h.coherent.wf.consistent hpager with
      ⟨hfailed, haged⟩ | ⟨hok, touch, hm, hloads, haged⟩
    · rw [World.logged_none (Or.inl hfailed)]
      exact haged
    · rw [World.logged_some h.coherent.wf hc'.wf hok ht hm hloads]
      exact haged

theorem LoggedWorld.boot_aged {tlbEntries : Nat} {slots : Option Nat} {memory : VirtualMemory}
    (hcreate : virtualMemoryCreateInternal n .aging tlbEntries slots = some memory)
    (hn : n < 2 ^ 32) : (LoggedWorld.boot memory).Aged n := by
  refine ⟨World.boot_coherent hcreate hn _, agingCreate, ?_, agingCreate_tells⟩
  obtain ⟨_, hpolicy, _⟩ := virtualMemoryCreateInternal_some hcreate
  unfold replacementPolicyCreate at hpolicy
  split at hpolicy
  · cases hpolicy
  · exact (Option.some.inj hpolicy).symm

theorem LoggedWorld.aged {tlbEntries : Nat} {slots : Option Nat} {memory : VirtualMemory}
    (hcreate : virtualMemoryCreateInternal n .aging tlbEntries slots = some memory)
    (hn : n < 2 ^ 32) {history : List (Call × Reply)} {s : LoggedWorld}
    (hrun : Run LoggedWorld.step LoggedWorld.Allows (LoggedWorld.boot memory) history s) :
    s.Aged n :=
  Run.invariant (fun _ s => s.Aged n) (LoggedWorld.boot_aged hcreate hn)
    (fun _ _ _ _ _ h ha hs => h.step ha hs) hrun

end VmSim
