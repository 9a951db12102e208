/-
VmSim.VirtualMemory.FifoPages — FIFO replaces the page loaded first.

The queue of the policy lists frames, and frames are reused; the pages in
these frames are those that the list of `VmSim.Lib.Conservative` keeps, in
its order (`PageFrames.served_fifo`).
-/
import VmSim.Lib.Conservative
import VmSim.VirtualMemory.PageFrames

namespace VmSim

open Lib

variable {s s' : PageFrames} {key : Nat × Nat} {keys pages : List (Nat × Nat)} {f n : Nat}
  {policy : ReplacementPolicy} {queue : List Nat}

/-! ## The queue behind the interface -/

def ReplacementPolicy.Queues (policy : ReplacementPolicy) (queue : List Nat) : Prop :=
  ∃ state : FifoState, policy.state = .fifo state ∧ state.queue = queue

theorem replacementPolicyCreate_queues (h : replacementPolicyCreate .fifo n = some policy) :
    policy.Queues [] := by
  unfold replacementPolicyCreate at h
  split at h
  · cases h
  · cases h
    exact ⟨fifoCreate, rfl, rfl⟩

theorem ReplacementPolicy.Queues.wf (h : policy.Queues queue) (hwf : policy.Wf) :
    queue.Nodup ∧ ∀ f, f ∈ queue ↔ policy.loaded f = true := by
  obtain ⟨state, hstate, rfl⟩ := h
  obtain ⟨count, _⟩ := policy
  cases hstate
  have hfifo : state.Wf count := hwf.state
  exact ⟨hfifo.nodup, hfifo.mem_iff⟩

theorem ReplacementPolicy.Queues.tick (h : policy.Queues queue) :
    (replacementPolicyTick policy).Queues queue := by
  obtain ⟨state, hstate, hqueue⟩ := h
  obtain ⟨count, _⟩ := policy
  cases hstate
  exact ⟨state, rfl, hqueue⟩

theorem ReplacementPolicy.Queues.onAccess (h : policy.Queues queue) (f : Nat) :
    (replacementPolicyOnAccess policy f).2.Queues queue := by
  obtain ⟨state, hstate, hqueue⟩ := h
  obtain ⟨count, _⟩ := policy
  cases hstate
  simp only [replacementPolicyOnAccess]
  split
  · exact ⟨state, rfl, hqueue⟩
  · exact ⟨state, rfl, hqueue⟩

/-- A frame that is loaded joins the queue at its end. -/
theorem ReplacementPolicy.Queues.onLoad (h : policy.Queues queue) (hwf : policy.Wf)
    (hf : f < policy.frameCount) (hl : policy.loaded f = false) :
    (replacementPolicyOnLoad policy f).2.Queues (queue ++ [f]) := by
  obtain ⟨state, hstate, rfl⟩ := h
  obtain ⟨count, _⟩ := policy
  cases hstate
  have hfifo : state.Wf count := hwf.state
  have hlf : state.loaded f = false := hl
  have hroom : ¬ state.queue.length ≥ count := Nat.not_le.mpr (hfifo.length_lt hf hl)
  refine ⟨⟨state.queue ++ [f], Function.update state.loaded f true⟩, ?_, rfl⟩
  simp [replacementPolicyOnLoad, show f < count from hf, ReplacementPolicy.wrap, fifoOnLoad, hlf,
    hroom]

/-- The victim is at the head of the queue, and leaves it. -/
theorem ReplacementPolicy.Queues.evict (h : policy.Queues queue) (hwf : policy.Wf)
    {policy' : ReplacementPolicy} (hchoose : replacementPolicyChooseVictim policy = some (f, policy'))
    (hl : policy.loaded f = true) :
    ∃ rest, queue = f :: rest ∧ (replacementPolicyOnEvict policy' f).2.Queues rest := by
  have hlt := hwf.lt hl
  obtain ⟨state, hstate, rfl⟩ := h
  obtain ⟨count, _⟩ := policy
  cases hstate
  have hfifo : state.Wf count := hwf.state
  have hlf : state.loaded f = true := hl
  have hmem := (hfifo.mem_iff f).mpr hlf
  simp only [replacementPolicyChooseVictim, fifoChooseVictim, Option.some.injEq,
    Prod.mk.injEq] at hchoose
  obtain ⟨hhead, rfl⟩ := hchoose
  cases hqueue : state.queue with
  | nil =>
    rw [hqueue] at hmem
    cases hmem
  | cons g rest =>
    rw [hqueue] at hhead
    obtain rfl : g = f := hhead
    refine ⟨rest, rfl, ⟨rest, Function.update state.loaded g false⟩, ?_, rfl⟩
    simp [replacementPolicyOnEvict, show g < count from hlt, ReplacementPolicy.wrap, fifoOnEvict,
      hlf, hqueue, List.findIdx?_cons]

/-! ## The pages in the queue -/

/-- The frames of the queue hold the pages, the one loaded last first. -/
def PageFrames.Queues (s : PageFrames) (pages : List (Nat × Nat)) : Prop :=
  ∃ queue, s.policy.Queues queue ∧ queue.map s.content = (pages.map some).reverse

theorem PageFrames.Queues.mem_iff (h : s.Queues pages) (hwf : s.Wf) :
    key ∈ pages ↔ ∃ f, s.content f = some key := by
  obtain ⟨queue, hqueue, hpages⟩ := h
  obtain ⟨_, hmem⟩ := hqueue.wf hwf.policy
  have hin : key ∈ pages ↔ some key ∈ queue.map s.content := by simp [hpages]
  rw [hin, List.mem_map]
  constructor
  · rintro ⟨f, _, hf⟩
    exact ⟨f, hf⟩
  · rintro ⟨f, hf⟩
    refine ⟨f, (hmem f).mpr ?_, hf⟩
    rw [hwf.loaded, hf]
    rfl

theorem PageFrames.Queues.resident (h : s.Queues pages) (hwf : s.Wf) :
    s.resident = pages.toFinset := by
  ext key
  rw [hwf.mem_resident, List.mem_toFinset, h.mem_iff hwf]

/-- A page is put into a frame outside the queue. -/
theorem PageFrames.Queues.put {state : ReplacementPolicy} (hqueue : state.Queues queue)
    (hwf : state.Wf) (hf : f < state.frameCount) (hl : state.loaded f = false)
    (hpages : queue.map s.content = (pages.map some).reverse) :
    (s.put key f state).Queues (key :: pages) := by
  have hnot : f ∉ queue := fun hin => by simp [((hqueue.wf hwf).2 f).mp hin] at hl
  refine ⟨queue ++ [f], (hqueue.onLoad hwf hf hl).tick, ?_⟩
  have hsame : queue.map (s.put key f state).content = queue.map s.content := by
    refine List.map_congr_left fun g hg => ?_
    have hne : g ≠ f := fun e => hnot (e ▸ hg)
    simp [PageFrames.put, hne]
  rw [List.map_append, hsame, hpages]
  simp [PageFrames.put]

theorem PageFrames.Ends.fifo (hend : s.Ends key s') (hwf : s.Wf) (hcount : s.frameCount = n)
    (h : s.Queues (fifo n keys)) : s'.Queues (fifo n (key :: keys)) := by
  have hcard := congrArg Finset.card (h.resident hwf)
  rw [List.toFinset_card_of_nodup (fifo_nodup n keys)] at hcard
  cases hend with
  | hit hf =>
    rw [fifo_hit ((h.mem_iff hwf).mpr ⟨_, hf⟩)]
    obtain ⟨queue, hqueue, hpages⟩ := h
    exact ⟨queue, (hqueue.onAccess _).tick, hpages⟩
  | @load f habsent hfree =>
    have hroom := hwf.resident_room hfree
    obtain ⟨hlt, hnone, _⟩ := PageFrames.free_some hfree
    rw [fifo_miss fun hin => ((h.mem_iff hwf).mp hin).elim habsent,
      List.take_of_length_le (by simp only [List.length_cons]; omega)]
    obtain ⟨queue, hqueue, hpages⟩ := h
    refine PageFrames.Queues.put hqueue hwf.policy (hwf.count ▸ hlt) ?_ hpages
    rw [hwf.loaded, hnone]
    rfl
  | @replace f old policy habsent hfull hchoose hold =>
    have hloaded : s.policy.loaded f = true := by
      rw [hwf.loaded, hold]
      rfl
    have hevict := hwf.evicted hchoose hold
    have hfullCard := hwf.resident_full hfull
    rw [fifo_miss fun hin => ((h.mem_iff hwf).mp hin).elim habsent]
    obtain ⟨queue, hqueue, hpages⟩ := h
    obtain ⟨rest, rfl, hrest⟩ := hqueue.evict hwf.policy hchoose hloaded
    -- the page that goes is the last one of the list
    have hlast : (key :: fifo n keys).take n = key :: (fifo n keys).dropLast := by
      rw [List.dropLast_eq_take, ← List.take_succ_cons]
      congr 1
      have hpos := hwf.pos
      omega
    have hdrop : rest.map s.content = ((fifo n keys).dropLast.map some).reverse := by
      rw [List.map_dropLast, ← List.tail_reverse, ← hpages]
      rfl
    have hput : (s.put key f (replacementPolicyOnEvict policy f).2).Queues
        (key :: (fifo n keys).dropLast) := by
      refine PageFrames.Queues.put hrest hevict.wf ?_ ?_ hdrop
      · rw [hevict.frameCount, (hwf.chosen hchoose).frameCount]
        exact hwf.policy.lt hloaded
      · rw [hevict.loaded_eq, Function.update_self]
    rw [hlast]
    obtain ⟨queue', hqueue', hpages'⟩ := hput
    exact ⟨queue', hqueue', hpages'⟩

/-! ## Runs -/

theorem PageFrames.served_fifo (hn : n < 2 ^ 32)
    (hcreate : replacementPolicyCreate .fifo n = some policy) (hlt : keys.length < wordSize) :
    ((PageFrames.fresh policy).serve keys).Queues (Lib.fifo n keys) := by
  induction keys with
  | nil => exact ⟨[], replacementPolicyCreate_queues hcreate, rfl⟩
  | cons key keys ih =>
    obtain ⟨hwf, hfresh, hcount⟩ := PageFrames.served hn hcreate (Nat.lt_of_succ_lt hlt)
    exact (hwf.ends hfresh hlt key).fifo hwf hcount (ih (Nat.lt_of_succ_lt hlt))

theorem PageFrames.fifo_resident (hn : n < 2 ^ 32)
    (hcreate : replacementPolicyCreate .fifo n = some policy) (hlt : keys.length < wordSize) :
    ((PageFrames.fresh policy).serve keys).resident = fifoPages n keys :=
  (PageFrames.served_fifo hn hcreate hlt).resident (PageFrames.served hn hcreate hlt).1

end VmSim
