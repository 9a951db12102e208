/-
VmSim.Replacement.LruOrder — the timestamps of the LRU policy order the
loaded frames by their last use.

`LruState.Orders` is the invariant, as long as the clock does not wrap:
loading or accessing a frame brings it to the front, an eviction takes it
out, and the victim is the last frame.
-/
import VmSim.Replacement.Victim
import Mathlib.Data.List.Nodup

namespace VmSim

variable {state : LruState} {policy policy' : ReplacementPolicy} {order : List Nat}
  {f n : Nat}

/-! ## The timestamps -/

/-- `order` lists the loaded frames, the last used one first. -/
structure LruState.Orders (state : LruState) (order : List Nat) : Prop where
  mem : ∀ f, f ∈ order ↔ state.loaded f = true
  recent : order.Pairwise fun f g => state.lastAccess g < state.lastAccess f
  clock : ∀ f ∈ order, state.lastAccess f ≤ state.logicalClock

theorem lruCreate_orders : lruCreate.Orders [] where
  mem f := ⟨fun hf => absurd hf List.not_mem_nil, fun hf => by cases hf⟩
  recent := List.Pairwise.nil
  clock f hf := absurd hf List.not_mem_nil

theorem LruState.Orders.nodup (h : state.Orders order) : order.Nodup :=
  h.recent.imp fun hlt e => absurd hlt (by rw [e]; exact Nat.lt_irrefl _)

/-- A frame that is stamped comes to the front. -/
theorem LruState.Orders.onLoad (h : state.Orders order)
    (hclock : state.logicalClock + 1 < wordSize) (f : Nat) :
    (lruOnLoad state f).2.Orders (f :: order.filter (· ≠ f)) := by
  have hmod : (state.logicalClock + 1) % wordSize = state.logicalClock + 1 :=
    Nat.mod_eq_of_lt hclock
  have hself : (lruOnLoad state f).2.lastAccess f = state.logicalClock + 1 := by
    simp [lruOnLoad, lruUpdateAccess, hmod]
  have hother : ∀ g ∈ order.filter (· ≠ f),
      (lruOnLoad state f).2.lastAccess g = state.lastAccess g := by
    intro g hg
    have hne : g ≠ f := by simpa using (List.mem_filter.mp hg).2
    exact Function.update_of_ne hne _ _
  have hnow : (lruOnLoad state f).2.logicalClock = state.logicalClock + 1 := hmod
  refine ⟨fun g => ?_, List.pairwise_cons.mpr ⟨fun g hg => ?_, ?_⟩, fun g hg => ?_⟩
  · by_cases e : g = f
    · simp [e, lruOnLoad, lruUpdateAccess]
    · simp [e, h.mem, lruOnLoad, lruUpdateAccess]
  · rw [hself, hother g hg]
    exact Nat.lt_succ_of_le (h.clock g (List.mem_filter.mp hg).1)
  · refine (h.recent.filter _).imp_of_mem fun hg hg' hlt => ?_
    rw [hother _ hg, hother _ hg']
    exact hlt
  · rw [hnow]
    rcases List.mem_cons.mp hg with rfl | hg'
    · exact Nat.le_of_eq hself
    · rw [hother g hg']
      exact Nat.le_succ_of_le (h.clock g (List.mem_filter.mp hg').1)

/-- To access a loaded frame is to load it again. -/
theorem lruOnAccess_eq (hf : state.loaded f = true) : lruOnAccess state f = lruOnLoad state f := by
  have hsame : Function.update state.loaded f true = state.loaded := by
    rw [← hf, Function.update_eq_self]
  simp [lruOnAccess, lruOnLoad, hf, hsame]

theorem LruState.Orders.onEvict (h : state.Orders order) (hf : state.loaded f = true) :
    (lruOnEvict state f).2.Orders (order.filter (· ≠ f)) := by
  have hother : ∀ g ∈ order.filter (· ≠ f),
      (lruOnEvict state f).2.lastAccess g = state.lastAccess g := by
    intro g hg
    have hne : g ≠ f := by simpa using (List.mem_filter.mp hg).2
    simp [lruOnEvict, hf, hne]
  have hnow : (lruOnEvict state f).2.logicalClock = state.logicalClock := by
    simp [lruOnEvict, hf]
  refine ⟨fun g => ?_, ?_, fun g hg => ?_⟩
  · by_cases e : g = f
    · simp [e, lruOnEvict, hf]
    · simp [e, h.mem, lruOnEvict, hf]
  · refine (h.recent.filter _).imp_of_mem fun hg hg' hlt => ?_
    rw [hother _ hg, hother _ hg']
    exact hlt
  · rw [hother g hg, hnow]
    exact h.clock g (List.mem_filter.mp hg).1

/-! ## The victim -/

/-- What the search carries along: a loaded frame and its stamp. -/
def LruState.Candidate (state : LruState) (best : Nat × Nat) : Prop :=
  best.1 = replacementInvalidFrame ∨
    (state.loaded best.1 = true ∧ state.lastAccess best.1 = best.2)

/-- The search ends at a stamp that no loaded frame it saw is below. -/
theorem lruVictimStep_least (state : LruState) (frames : List Nat) :
    ∀ best, state.Candidate best → (∀ f ∈ frames, f < 2 ^ 32) →
      state.Candidate (frames.foldl (lruVictimStep state) best) ∧
        (frames.foldl (lruVictimStep state) best).2 ≤ best.2 ∧
        ∀ f ∈ frames, state.loaded f = true →
          (frames.foldl (lruVictimStep state) best).2 ≤ state.lastAccess f := by
  induction frames with
  | nil => exact fun best h _ => ⟨h, Nat.le_refl _, fun f hf => absurd hf List.not_mem_nil⟩
  | cons f frames ih =>
    intro best h hlt
    obtain ⟨hf, hrest⟩ := List.forall_mem_cons.mp hlt
    have hstep : state.Candidate (lruVictimStep state best f) ∧
        (lruVictimStep state best f).2 ≤ best.2 ∧
        (state.loaded f = true → (lruVictimStep state best f).2 ≤ state.lastAccess f) := by
      unfold lruVictimStep
      split
      · rename_i hc
        refine ⟨Or.inr ?_, Nat.le_of_lt hc.2, fun _ => Nat.le_refl _⟩
        rw [toUint32_of_lt hf]
        exact ⟨hc.1, rfl⟩
      · rename_i hc
        exact ⟨h, Nat.le_refl _, fun hl => Nat.le_of_not_lt fun hlt => hc ⟨hl, hlt⟩⟩
    obtain ⟨hcand, hle, hseen⟩ := hstep
    obtain ⟨hcand', hle', hall⟩ := ih (lruVictimStep state best f) hcand hrest
    exact ⟨hcand', Nat.le_trans hle' hle,
      List.forall_mem_cons.mpr ⟨fun hl => Nat.le_trans hle' (hseen hl), hall⟩⟩

/-- The victim is the frame that was not used for the longest time. -/
theorem LruState.Orders.chooseVictim (h : state.Orders order) (hn : n < 2 ^ 32)
    (hlt : ∀ f ∈ order, f < n) (hvalid : (lruChooseVictim n state).1 ≠ replacementInvalidFrame)
    (hne : order ≠ []) : (lruChooseVictim n state).1 = order.getLast hne := by
  have hlast : order.getLast hne ∈ order := List.getLast_mem hne
  obtain ⟨hcand, _, hall⟩ := lruVictimStep_least state (List.range n)
    (replacementInvalidFrame, wordSize - 1) (Or.inl rfl)
    fun f hf => Nat.lt_trans (List.mem_range.mp hf) hn
  obtain ⟨hloaded, hstamp⟩ := hcand.resolve_left hvalid
  have hmin := hall _ (List.mem_range.mpr (hlt _ hlast)) ((h.mem _).mp hlast)
  have hin : (lruChooseVictim n state).1 ∈ order := (h.mem _).mpr hloaded
  by_contra hdiff
  -- a frame before the last one has a later stamp
  have hrecent := h.recent
  rw [← List.dropLast_append_getLast hne] at hin hrecent
  have hbefore : (lruChooseVictim n state).1 ∈ order.dropLast :=
    (List.mem_append.mp hin).resolve_right fun hs => hdiff (List.mem_singleton.mp hs)
  have hearlier := (List.pairwise_append.mp hrecent).2.2 _ hbefore _ (List.mem_singleton.mpr rfl)
  change state.lastAccess (lruChooseVictim n state).1 = _ at hstamp
  rw [← hstamp] at hmin
  exact absurd hearlier (Nat.not_lt.mpr hmin)

/-! ## The interface -/

/-- The LRU policy orders the loaded frames. -/
def ReplacementPolicy.Orders (policy : ReplacementPolicy) (order : List Nat) : Prop :=
  ∃ state, policy.state = .lru state ∧ state.Orders order

theorem ReplacementPolicy.Orders.loaded (h : policy.Orders order) (f : Nat) :
    f ∈ order ↔ policy.loaded f = true := by
  obtain ⟨state, hstate, ho⟩ := h
  rw [ReplacementPolicy.loaded, hstate]
  exact ho.mem f

theorem ReplacementPolicy.Orders.nodup (h : policy.Orders order) : order.Nodup := by
  obtain ⟨_, _, ho⟩ := h
  exact ho.nodup

theorem ReplacementPolicy.Orders.onLoad (h : policy.Orders order) (hfresh : policy.Fresh n)
    (hn : n + 1 < wordSize) (hf : f < policy.frameCount) :
    (replacementPolicyOnLoad policy f).2.Orders (f :: order.filter (· ≠ f)) := by
  obtain ⟨state, hstate, ho⟩ := h
  have hclock : state.logicalClock ≤ n := by
    rw [ReplacementPolicy.Fresh, hstate] at hfresh
    exact hfresh.1
  have heq : (replacementPolicyOnLoad policy f).2.state = .lru (lruOnLoad state f).2 := by
    rw [replacementPolicyOnLoad, if_pos hf, hstate]
    rfl
  exact ⟨_, heq, ho.onLoad (by omega) f⟩

theorem ReplacementPolicy.Orders.onAccess (h : policy.Orders order) (hfresh : policy.Fresh n)
    (hn : n + 1 < wordSize) (hf : f < policy.frameCount) (hl : policy.loaded f = true) :
    (replacementPolicyOnAccess policy f).2.Orders (f :: order.filter (· ≠ f)) := by
  have heq : (replacementPolicyOnAccess policy f).2 = (replacementPolicyOnLoad policy f).2 := by
    obtain ⟨state, hstate, _⟩ := h
    rw [ReplacementPolicy.loaded, hstate] at hl
    rw [replacementPolicyOnAccess, replacementPolicyOnLoad, if_pos hf, if_pos hf, hstate]
    exact congrArg (fun answer => (policy.wrap .lru answer).2) (lruOnAccess_eq hl)
  rw [heq]
  exact h.onLoad hfresh hn hf

theorem ReplacementPolicy.Orders.onEvict (h : policy.Orders order) (hf : f < policy.frameCount)
    (hl : policy.loaded f = true) :
    (replacementPolicyOnEvict policy f).2.Orders (order.filter (· ≠ f)) := by
  obtain ⟨state, hstate, ho⟩ := h
  rw [ReplacementPolicy.loaded, hstate] at hl
  have heq : (replacementPolicyOnEvict policy f).2.state = .lru (lruOnEvict state f).2 := by
    rw [replacementPolicyOnEvict, if_pos hf, hstate]
    rfl
  exact ⟨_, heq, ho.onEvict hl⟩

theorem ReplacementPolicy.Orders.tick (h : policy.Orders order) :
    replacementPolicyTick policy = policy := by
  obtain ⟨state, hstate, _⟩ := h
  rw [replacementPolicyTick, hstate]

/-- The victim is the last frame in the order. -/
theorem ReplacementPolicy.Orders.chooseVictim (h : policy.Orders order) (hwf : policy.Wf)
    (hfresh : policy.Fresh n) (hn : n + 1 < wordSize) (hne : order ≠ [])
    (hchoose : replacementPolicyChooseVictim policy = some (f, policy')) :
    policy' = policy ∧ f = order.getLast hne := by
  have hloaded : policy.loaded (order.getLast hne) = true :=
    (h.loaded _).mp (List.getLast_mem hne)
  have hvalid := hwf.victim hfresh hn hloaded hchoose
  have hlt : ∀ g ∈ order, g < policy.frameCount := fun g hg => hwf.lt ((h.loaded g).mp hg)
  obtain ⟨state, hstate, ho⟩ := h
  rw [replacementPolicyChooseVictim, hstate] at hchoose
  cases hchoose
  exact ⟨rfl, ho.chooseVictim hwf.count_lt hlt hvalid hne⟩

theorem replacementPolicyCreate_orders (h : replacementPolicyCreate .lru n = some policy) :
    policy.Orders [] := by
  unfold replacementPolicyCreate at h
  split at h
  · cases h
  · cases h
    exact ⟨lruCreate, rfl, lruCreate_orders⟩

end VmSim
