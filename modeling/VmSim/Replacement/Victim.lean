/-
VmSim.Replacement.Victim — when a policy has a victim.

All four policies find a victim as soon as a frame is loaded. The LRU
policy looks for a timestamp below the largest `uint64_t`, so its clock
must not have come there yet (`ReplacementPolicy.Fresh`).
-/
import VmSim.Replacement.Policy

namespace VmSim

variable {policy : ReplacementPolicy} {f n : Nat}

/-! ## Clocks -/

/-- The clock and the timestamps of the LRU policy are at most `n`. -/
def PolicyState.Fresh (n : Nat) : PolicyState → Prop
  | .lru s => s.logicalClock ≤ n ∧ ∀ f, s.lastAccess f ≤ n
  | _ => True

def ReplacementPolicy.Fresh (policy : ReplacementPolicy) (n : Nat) : Prop := policy.state.Fresh n

theorem ReplacementPolicy.Fresh.mono {m : Nat} (h : policy.Fresh m) (hle : m ≤ n) :
    policy.Fresh n := by
  obtain ⟨count, state⟩ := policy
  cases state with
  | lru s => exact ⟨Nat.le_trans h.1 hle, fun f => Nat.le_trans (h.2 f) hle⟩
  | _ => trivial

theorem lruUpdateAccess_fresh {state : LruState} (hclock : state.logicalClock ≤ n)
    (hstamps : ∀ f, state.lastAccess f ≤ n) (hn : n + 1 < wordSize) (f : Nat) :
    (lruUpdateAccess state f).logicalClock ≤ n + 1 ∧
      ∀ g, (lruUpdateAccess state f).lastAccess g ≤ n + 1 := by
  have hmod : (state.logicalClock + 1) % wordSize = state.logicalClock + 1 :=
    Nat.mod_eq_of_lt (by omega)
  simp only [lruUpdateAccess, hmod]
  refine ⟨by omega, fun g => ?_⟩
  by_cases e : g = f
  · rw [e, Function.update_self]
    omega
  · rw [Function.update_of_ne e]
    exact Nat.le_succ_of_le (hstamps g)

theorem ReplacementPolicy.Fresh.onLoad (h : policy.Fresh n) (hn : n + 1 < wordSize) (f : Nat) :
    (replacementPolicyOnLoad policy f).2.Fresh (n + 1) := by
  obtain ⟨count, state⟩ := policy
  unfold replacementPolicyOnLoad
  split
  · cases state with
    | lru s => exact lruUpdateAccess_fresh h.1 h.2 hn f
    | _ => trivial
  · exact h.mono (Nat.le_succ n)

theorem ReplacementPolicy.Fresh.onAccess (h : policy.Fresh n) (hn : n + 1 < wordSize) (f : Nat) :
    (replacementPolicyOnAccess policy f).2.Fresh (n + 1) := by
  have hsame := h.mono (Nat.le_succ n)
  obtain ⟨count, state⟩ := policy
  unfold replacementPolicyOnAccess
  split
  · cases state with
    | lru s =>
      simp only [lruOnAccess]
      split
      · exact hsame
      · exact lruUpdateAccess_fresh h.1 h.2 hn f
    | _ => trivial
  · exact hsame

theorem ReplacementPolicy.Fresh.onEvict (h : policy.Fresh n) (f : Nat) :
    (replacementPolicyOnEvict policy f).2.Fresh n := by
  obtain ⟨count, state⟩ := policy
  unfold replacementPolicyOnEvict
  split
  · cases state with
    | lru s =>
      simp only [lruOnEvict]
      split
      · exact h
      · refine ⟨h.1, fun g => ?_⟩
        dsimp only [ReplacementPolicy.wrap]
        by_cases e : g = f
        · rw [e, Function.update_self]
          exact Nat.zero_le n
        · rw [Function.update_of_ne e]
          exact h.2 g
    | _ => trivial
  · exact h

theorem ReplacementPolicy.Fresh.tick (h : policy.Fresh n) :
    (replacementPolicyTick policy).Fresh n := by
  obtain ⟨count, state⟩ := policy
  cases state <;> exact h

/-- A search for a victim reads the clock only. -/
theorem ReplacementPolicy.Fresh.chooseVictim (h : policy.Fresh n) {policy' : ReplacementPolicy}
    (hchoose : replacementPolicyChooseVictim policy = some (f, policy')) : policy'.Fresh n := by
  obtain ⟨count, state⟩ := policy
  cases state with
  | clock s =>
    obtain ⟨answer, _, he⟩ := Option.map_eq_some_iff.mp hchoose
    cases he
    trivial
  | fifo s | lru s | aging s =>
    cases hchoose
    exact h

theorem replacementPolicyCreate_fresh {type : ReplacementPolicyType}
    (h : replacementPolicyCreate type n = some policy) : policy.Fresh 0 := by
  unfold replacementPolicyCreate at h
  split at h
  · cases h
  · cases h
    cases type with
    | lru => exact ⟨Nat.le_refl 0, fun _ => Nat.le_refl 0⟩
    | _ => trivial

/-! ## Searches -/

theorem toUint32_ne_invalid (hf : f < replacementInvalidFrame) :
    toUint32 f ≠ replacementInvalidFrame := by
  unfold replacementInvalidFrame at *
  rw [toUint32_of_lt (by omega)]
  omega

/-- The LRU search has a victim, or one is still to come. -/
theorem lruVictim_found (state : LruState) (indices : List Nat) :
    ∀ best : Nat × Nat, (∀ i ∈ indices, i < replacementInvalidFrame) →
      (best.1 ≠ replacementInvalidFrame ∨
        ∃ i ∈ indices, state.loaded i = true ∧ state.lastAccess i < best.2) →
      (indices.foldl (lruVictimStep state) best).1 ≠ replacementInvalidFrame := by
  induction indices with
  | nil =>
    intro best _ h
    exact h.resolve_right (by rintro ⟨_, hi, _⟩; cases hi)
  | cons index indices ih =>
    intro best hlt h
    obtain ⟨hindex, hrest⟩ := List.forall_mem_cons.mp hlt
    refine ih _ hrest ?_
    rcases h with hbest | ⟨i, hi, hl, hstamp⟩
    · refine Or.inl ?_
      unfold lruVictimStep
      split
      · exact toUint32_ne_invalid hindex
      · exact hbest
    · rcases List.mem_cons.mp hi with rfl | hi
      · refine Or.inl ?_
        rw [lruVictimStep, if_pos ⟨hl, hstamp⟩]
        exact toUint32_ne_invalid hindex
      · unfold lruVictimStep
        split
        · exact Or.inl (toUint32_ne_invalid hindex)
        · exact Or.inr ⟨i, hi, hl, hstamp⟩

theorem agingVictim_found (state : AgingState) (indices : List Nat) :
    ∀ best : Nat × BitVec 8, (∀ i ∈ indices, i < replacementInvalidFrame) →
      (best.1 ≠ replacementInvalidFrame ∨ ∃ i ∈ indices, state.loaded i = true) →
      (indices.foldl (agingVictimStep state) best).1 ≠ replacementInvalidFrame := by
  induction indices with
  | nil =>
    intro best _ h
    exact h.resolve_right (by rintro ⟨_, hi, _⟩; cases hi)
  | cons index indices ih =>
    intro best hlt h
    obtain ⟨hindex, hrest⟩ := List.forall_mem_cons.mp hlt
    refine ih _ hrest ?_
    by_cases hbest : best.1 = replacementInvalidFrame
    · obtain ⟨i, hi, hl⟩ := h.resolve_left (fun hne => hne hbest)
      rcases List.mem_cons.mp hi with rfl | hi
      · refine Or.inl ?_
        rw [agingVictimStep, if_pos ⟨hl, Or.inl hbest⟩]
        exact toUint32_ne_invalid hindex
      · exact Or.inr ⟨i, hi, hl⟩
    · refine Or.inl ?_
      unfold agingVictimStep
      split
      · exact toUint32_ne_invalid hindex
      · exact hbest

/-- As long as the clock has not come to its end, a policy with a loaded
frame has a victim. -/
theorem ReplacementPolicy.Wf.victim (h : policy.Wf) (hfresh : policy.Fresh n)
    (hn : n + 1 < wordSize) (hl : policy.loaded f = true) {victim : Nat}
    {policy' : ReplacementPolicy}
    (hchoose : replacementPolicyChooseVictim policy = some (victim, policy')) :
    victim ≠ replacementInvalidFrame := by
  have hf := h.lt hl
  have hloaded : policy.loaded victim = true → victim ≠ replacementInvalidFrame := by
    intro hv he
    have hlt := h.lt hv
    have hcount := h.count_lt
    rw [he, replacementInvalidFrame] at hlt
    omega
  have hindices : ∀ i ∈ List.range policy.frameCount, i < replacementInvalidFrame := by
    intro i hi
    have hlt := List.mem_range.mp hi
    have hcount := h.count_lt
    rw [replacementInvalidFrame]
    omega
  obtain ⟨count, state⟩ := policy
  cases state with
  | fifo s =>
    have hfifo : s.Wf count := h.state
    refine hloaded ?_
    cases hchoose
    rcases fifoChooseVictim_loaded hfifo with hnone | hsome
    · have hmem : f ∈ s.queue := (hfifo.mem_iff f).mpr hl
      cases hq : s.queue with
      | nil =>
        rw [hq] at hmem
        cases hmem
      | cons g rest =>
        rw [fifoChooseVictim, hq]
        exact (hfifo.mem_iff g).mp (by simp [hq])
    · exact hsome
  | lru s =>
    cases hchoose
    refine lruVictim_found s _ _ hindices (Or.inr ⟨f, List.mem_range.mpr hf, hl, ?_⟩)
    have hstamp := hfresh.2 f
    dsimp only
    omega
  | clock s =>
    obtain ⟨answer, hanswer, he⟩ := Option.map_eq_some_iff.mp hchoose
    cases he
    have hclock : s.Wf count := h.state
    obtain ⟨victim, s', hsweep, hvictim, _⟩ := hclock.sweep_ends hl
    rw [clockChooseVictim_some hf hl, hsweep,
      toUint32_of_lt (Nat.lt_trans (hclock.lt victim hvictim) h.count_lt)] at hanswer
    cases hanswer
    exact hloaded hvictim
  | aging s =>
    cases hchoose
    exact agingVictim_found s _ _ hindices (Or.inr ⟨f, List.mem_range.mpr hf, hl⟩)

end VmSim
