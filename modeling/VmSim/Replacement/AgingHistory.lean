/-
VmSim.Replacement.AgingHistory — the ages of the Aging policy as the
history of the last eight accesses.

A log lists the accesses, the newest first. `AgingState.Tells` is the
invariant: no reference is left to be folded in, and the age of a loaded
frame has a bit for every one of the last eight accesses that ended on it
since it was loaded. `AgingState.Tells.victim` reads the victim off the
log.
-/
import VmSim.Lib.ShiftRegister
import VmSim.Replacement.Victim

namespace VmSim

open Lib

/-- An access: the frame it ended on, and whether it loaded the frame. -/
structure Touch where
  frameNumber : Nat
  loads : Bool
  deriving DecidableEq

/-- The access `k` before the last one ended on `f`, and no later one
loaded it. -/
def TouchedAt (log : List Touch) (f k : Nat) : Prop :=
  (∃ touch, log[k]? = some touch ∧ touch.frameNumber = f) ∧ ∀ j < k, log[j]? ≠ some ⟨f, true⟩

variable {log : List Touch} {touch : Touch} {frameCount f g k v : Nat} {state : AgingState}

theorem touchedAt_zero : TouchedAt (touch :: log) f 0 ↔ touch.frameNumber = f := by
  simp [TouchedAt]

theorem touchedAt_succ :
    TouchedAt (touch :: log) f (k + 1) ↔ touch ≠ ⟨f, true⟩ ∧ TouchedAt log f k := by
  unfold TouchedAt
  rw [List.getElem?_cons_succ]
  constructor
  · rintro ⟨hlast, hlater⟩
    refine ⟨fun he => hlater 0 (Nat.succ_pos k) (by simp [he]), hlast, fun j hj => ?_⟩
    exact hlater (j + 1) (by omega)
  · rintro ⟨hne, hlast, hlater⟩
    refine ⟨hlast, fun j hj => ?_⟩
    cases j with
    | zero => simpa using hne
    | succ j => exact hlater j (by omega)

/-- An access ends on one frame. -/
theorem TouchedAt.unique (hf : TouchedAt log f k) (hg : TouchedAt log g k) : f = g := by
  obtain ⟨⟨touch, hat, rfl⟩, _⟩ := hf
  obtain ⟨⟨touch', hat', rfl⟩, _⟩ := hg
  rw [hat] at hat'
  cases hat'
  rfl

/-! ## The ages -/

/-- The bit `7 - k` of the age of a frame. -/
def AgingState.bit (state : AgingState) (f k : Nat) : Bool := (state.ages f).getLsbD (7 - k)

theorem AgingState.bit_eq (hk : k < 8) (state : AgingState) (f : Nat) :
    state.bit f k = (state.ages f).getMsbD k := by
  rw [AgingState.bit, BitVec.getMsbD, decide_eq_true hk, Bool.true_and]

theorem agingShift_eq (age : BitVec 8) (referenced : Bool) :
    agingShift age referenced = shiftIn age referenced := rfl

/-- The accesses in the log are those the ages tell. -/
structure AgingState.Tells (state : AgingState) (log : List Touch) : Prop where
  settled : ∀ f, state.loaded f = true → state.referenced f = false
  bit : ∀ f, state.loaded f = true → ∀ k < 8, (state.bit f k = true ↔ TouchedAt log f k)

theorem agingCreate_tells : agingCreate.Tells [] :=
  ⟨(fun f hl => by cases hl), (fun f hl => by cases hl)⟩

/-- A tick folds in the reference of the last access. -/
theorem AgingState.tells_tick (hlt : ∀ g, state.loaded g = true → g < frameCount)
    (hmarked : ∀ g, state.loaded g = true →
      (state.referenced g = true ↔ touch.frameNumber = g))
    (hbit : ∀ g, state.loaded g = true → ∀ k < 7,
      (state.bit g k = true ↔ touch ≠ ⟨g, true⟩ ∧ TouchedAt log g k)) :
    (agingTick frameCount state).Tells (touch :: log) := by
  refine ⟨fun g hl => ?_, fun g hl k hk => ?_⟩
  · have hl' : state.loaded g = true := hl
    simp [agingTick, hlt g hl', hl']
  · have hl' : state.loaded g = true := hl
    have hage : (agingTick frameCount state).ages g =
        shiftIn (state.ages g) (state.referenced g) := by
      simp [agingTick, hlt g hl', hl', agingShift_eq]
    rw [AgingState.bit_eq hk, hage]
    cases k with
    | zero => rw [shiftIn_zero, hmarked g hl', touchedAt_zero]
    | succ k =>
      rw [shiftIn_succ (by omega), ← AgingState.bit_eq (by omega), hbit g hl' k (by omega),
        touchedAt_succ]

/-- A loaded frame is accessed. -/
theorem AgingState.Tells.accessed (h : state.Tells log)
    (hlt : ∀ g, state.loaded g = true → g < frameCount) (hl : state.loaded f = true) :
    (agingTick frameCount (agingOnAccess state f).2).Tells (⟨f, false⟩ :: log) := by
  have haccess : (agingOnAccess state f).2 =
      { state with referenced := Function.update state.referenced f true } := by
    simp [agingOnAccess, hl]
  rw [haccess]
  refine AgingState.tells_tick hlt (fun g hg => ?_) fun g hg k hk => ?_
  · by_cases e : g = f
    · simp [e]
    · simp [e, h.settled g hg, Ne.symm e]
  · have hbit : AgingState.bit { state with
        referenced := Function.update state.referenced f true } g k = state.bit g k := rfl
    rw [hbit, h.bit g hg k (by omega)]
    simp

/-- A frame is loaded. -/
theorem AgingState.Tells.loaded (h : state.Tells log)
    (hlt : ∀ g, state.loaded g = true → g < frameCount) (hf : f < frameCount) :
    (agingTick frameCount (agingOnLoad state f).2).Tells (⟨f, true⟩ :: log) := by
  refine AgingState.tells_tick (update_loaded_lt hf hlt) (fun g hg => ?_) fun g hg k hk => ?_
  · by_cases e : g = f
    · simp [agingOnLoad, e]
    · have hg' : state.loaded g = true := by simpa [agingOnLoad, e] using hg
      simp [agingOnLoad, e, h.settled g hg', Ne.symm e]
  · by_cases e : g = f
    · simp [agingOnLoad, e, AgingState.bit]
    · have hg' : state.loaded g = true := by simpa [agingOnLoad, e] using hg
      have hbit : (agingOnLoad state f).2.bit g k = state.bit g k := by
        simp [AgingState.bit, agingOnLoad, e]
      rw [hbit, h.bit g hg' k (by omega)]
      simp [Ne.symm e]

theorem AgingState.Tells.evicted (h : state.Tells log) (f : Nat) :
    (agingOnEvict state f).2.Tells log := by
  unfold agingOnEvict
  split
  · exact h
  · have hback : ∀ g, Function.update state.loaded f false g = true →
        g ≠ f ∧ state.loaded g = true := by
      intro g hg
      by_cases e : g = f
      · simp [e] at hg
      · exact ⟨e, by simpa [e] using hg⟩
    refine ⟨fun g hg => ?_, fun g hg k hk => ?_⟩
    · obtain ⟨e, hl⟩ := hback g hg
      simpa [e] using h.settled g hl
    · obtain ⟨e, hl⟩ := hback g hg
      simpa [e, AgingState.bit] using h.bit g hl k hk

/-! ## The victim -/

/-- `v` is the first of the loaded frames below `n` with the least age. -/
structure AgingState.Least (state : AgingState) (n v : Nat) : Prop where
  loaded : state.loaded v = true
  age_le : ∀ g < n, state.loaded g = true → state.ages v ≤ state.ages g
  first : ∀ g < n, state.loaded g = true → state.ages g = state.ages v → v ≤ g

/-- The search up to an index: nothing was loaded so far, or the first
loaded frame with the least age has been found. -/
theorem agingVictim_least (n : Nat) (hn : n ≤ replacementInvalidFrame) (state : AgingState) :
    let best := (List.range n).foldl (agingVictimStep state)
      (replacementInvalidFrame, BitVec.allOnes 8)
    (best.1 = replacementInvalidFrame ∧ ∀ g < n, state.loaded g = false) ∨
      (best.1 < n ∧ best.2 = state.ages best.1 ∧ state.Least n best.1) := by
  induction n with
  | zero => exact Or.inl ⟨rfl, fun g hg => absurd hg (Nat.not_lt_zero g)⟩
  | succ n ih =>
    have hindex : toUint32 n = n := toUint32_of_lt (by unfold replacementInvalidFrame at hn; omega)
    have hprev := ih (by omega)
    dsimp only at hprev ⊢
    rw [List.range_succ, List.foldl_append, List.foldl_cons, List.foldl_nil]
    generalize (List.range n).foldl (agingVictimStep state)
      (replacementInvalidFrame, BitVec.allOnes 8) = best at hprev ⊢
    unfold agingVictimStep
    rw [hindex]
    have hnew : ∀ {g}, g < n + 1 → g = n ∨ g < n := fun {g} hg => by omega
    split
    · rename_i hcond
      obtain ⟨hl, hbetter⟩ := hcond
      refine Or.inr ⟨Nat.lt_succ_self n, rfl, hl, fun g hg hlg => ?_, fun g hg hlg hage => ?_⟩
      · rcases hnew hg with rfl | hg
        · exact BitVec.le_refl _
        · rcases hprev with ⟨_, hnone⟩ | ⟨hlt, hage, hleast⟩
          · rw [hnone g hg] at hlg
            cases hlg
          · have hless := hbetter.resolve_left (by omega)
            rw [hage] at hless
            exact BitVec.le_trans (BitVec.le_of_lt hless) (hleast.age_le g hg hlg)
      · rcases hnew hg with rfl | hg
        · exact Nat.le_refl g
        · rcases hprev with ⟨_, hnone⟩ | ⟨hlt, hage', hleast⟩
          · rw [hnone g hg] at hlg
            cases hlg
          · have hless := hbetter.resolve_left (by omega)
            have hle := hleast.age_le g hg hlg
            rw [hage, ← hage'] at hle
            exact absurd hless (BitVec.not_lt.mpr hle)
    · rename_i hcond
      have hkeep : state.loaded n = true →
          best.1 ≠ replacementInvalidFrame ∧ best.2 ≤ state.ages n := fun hl =>
        ⟨fun he => hcond ⟨hl, Or.inl he⟩,
          BitVec.not_lt.mp fun hlt => hcond ⟨hl, Or.inr hlt⟩⟩
      rcases hprev with ⟨hinvalid, hnone⟩ | ⟨hlt, hage, hleast⟩
      · refine Or.inl ⟨hinvalid, fun g hg => ?_⟩
        rcases hnew hg with rfl | hg
        · exact Bool.eq_false_iff.mpr fun hl => (hkeep hl).1 hinvalid
        · exact hnone g hg
      · refine Or.inr ⟨by omega, hage, hleast.loaded, fun g hg hlg => ?_, fun g hg hlg he => ?_⟩
        · rcases hnew hg with rfl | hg
          · exact hage ▸ (hkeep hlg).2
          · exact hleast.age_le g hg hlg
        · rcases hnew hg with rfl | hg
          · omega
          · exact hleast.first g hg hlg he

theorem agingChooseVictim_least (hn : frameCount < 2 ^ 32)
    (hlt : ∀ g, state.loaded g = true → g < frameCount)
    (hv : (agingChooseVictim frameCount state).1 = v) (hvalid : v ≠ replacementInvalidFrame) :
    state.loaded v = true ∧ (∀ g, state.loaded g = true → state.ages v ≤ state.ages g) ∧
      ∀ g, state.loaded g = true → state.ages g = state.ages v → v ≤ g := by
  subst hv
  rcases agingVictim_least frameCount (by unfold replacementInvalidFrame; omega) state with
    ⟨hinvalid, _⟩ | ⟨_, _, hleast⟩
  · exact absurd hinvalid hvalid
  · exact ⟨hleast.loaded, fun g hg => hleast.age_le g (hlt g hg) hg,
      fun g hg => hleast.first g (hlt g hg) hg⟩

/-- None of the last eight accesses touched the frame. -/
def Untouched (log : List Touch) (f : Nat) : Prop := ∀ k < 8, ¬ TouchedAt log f k

/-- The last access that touched `g`, one of the last eight, came after
all that touched `v`. -/
def TouchedLater (log : List Touch) (g v : Nat) : Prop :=
  ∃ j < 8, TouchedAt log g j ∧ ∀ i ≤ j, ¬ TouchedAt log v i

theorem AgingState.Tells.age_zero (h : state.Tells log) (hl : state.loaded f = true) :
    state.ages f = 0 ↔ Untouched log f := by
  constructor
  · intro hage k hk htouched
    have hbit := (h.bit f hl k hk).mpr htouched
    simp [AgingState.bit, hage] at hbit
  · intro huntouched
    refine BitVec.eq_of_getMsbD_eq fun k hk => ?_
    rw [← AgingState.bit_eq hk, show (0 : BitVec 8) = 0#8 from rfl, BitVec.getMsbD_zero]
    exact Bool.eq_false_iff.mpr fun hbit => huntouched k hk ((h.bit f hl k hk).mp hbit)

/-- A frame that is not older was touched later. -/
theorem AgingState.Tells.touchedLater (h : state.Tells log) (hlv : state.loaded v = true)
    (hlg : state.loaded g = true) (hne : g ≠ v) (hle : state.ages v ≤ state.ages g)
    (htouched : ¬ Untouched log g) : TouchedLater log g v := by
  classical
  obtain ⟨j₀, hj₀, htouched₀⟩ : ∃ j < 8, TouchedAt log g j := by
    simpa [Untouched] using htouched
  have hsome : ∃ j, j < 8 ∧ TouchedAt log g j := ⟨j₀, hj₀, htouched₀⟩
  obtain ⟨hj, hlast⟩ := Nat.find_spec hsome
  have hfirst : ∀ i < Nat.find hsome, ¬ TouchedAt log g i := fun i hi hat =>
    Nat.find_min hsome hi ⟨by omega, hat⟩
  generalize Nat.find hsome = j at hj hlast hfirst
  refine ⟨j, hj, hlast, fun i hi hat => ?_⟩
  have hij : i ≠ j := fun e => hne ((e ▸ hat).unique hlast).symm
  have hbit : (state.ages v).getMsbD i = true := by
    rw [← AgingState.bit_eq (by omega)]
    exact (h.bit v hlv i (by omega)).mpr hat
  have hclear : ∀ l ≤ i, (state.ages g).getMsbD l = false := by
    intro l hl
    rw [← AgingState.bit_eq (by omega)]
    exact Bool.eq_false_iff.mpr fun hset =>
      hfirst l (by omega) ((h.bit g hlg l (by omega)).mp hset)
  have hlt : state.ages g < state.ages v := lt_of_later (by omega) hbit hclear
  exact absurd hlt (BitVec.not_lt.mpr hle)

/-- What the log says of the victim: the lowest-numbered loaded frame that
the last eight accesses did not touch, or else the loaded frame all
others were touched later than. -/
theorem AgingState.Tells.victim (h : state.Tells log) (hn : frameCount < 2 ^ 32)
    (hlt : ∀ g, state.loaded g = true → g < frameCount)
    (hv : (agingChooseVictim frameCount state).1 = v) (hvalid : v ≠ replacementInvalidFrame) :
    state.loaded v = true ∧
      (∀ g, state.loaded g = true → Untouched log g → Untouched log v ∧ v ≤ g) ∧
      ((∀ g, state.loaded g = true → ¬ Untouched log g) →
        ∀ g, state.loaded g = true → g ≠ v → TouchedLater log g v) := by
  obtain ⟨hl, hleast, hfirst⟩ := agingChooseVictim_least hn hlt hv hvalid
  refine ⟨hl, fun g hg huntouched => ?_, fun hall g hg hne =>
    h.touchedLater hl hg hne (hleast g hg) (hall g hg)⟩
  have hzero : state.ages g = 0 := (h.age_zero hg).mpr huntouched
  have hvzero : state.ages v = 0 := by
    have hle := hleast g hg
    rw [hzero] at hle
    exact BitVec.le_zero_iff.mp hle
  exact ⟨(h.age_zero hl).mp hvzero, hfirst g hg (hzero.trans hvzero.symm)⟩

end VmSim
