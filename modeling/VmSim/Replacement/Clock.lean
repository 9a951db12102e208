/-
VmSim.Replacement.Clock — the Clock policy with second chance
(`src/replacement/clock.c`).

The `while (true)` loop of `clock_choose_victim` runs on fuel;
`clockChooseVictim` gives it two rounds of the frame table and returns
`none` when they do not suffice, which never happens
(`clockChooseVictim_spec`).
-/
import VmSim.PhysicalMemory
import VmSim.Replacement.Fifo
import Mathlib.Data.Nat.Find
import Mathlib.Data.Nat.ModEq

namespace VmSim

structure ClockState where
  loaded : Nat → Bool
  referenced : Nat → Bool
  hand : Nat

def clockCreate : ClockState := ⟨fun _ => false, fun _ => false, 0⟩

def clockOnLoad (state : ClockState) (frameNumber : Nat) : Int × ClockState :=
  (0, { state with
    loaded := Function.update state.loaded frameNumber true
    referenced := Function.update state.referenced frameNumber true })

def clockOnAccess (state : ClockState) (frameNumber : Nat) : Int × ClockState :=
  if !state.loaded frameNumber then (-1, state)
  else (0, { state with referenced := Function.update state.referenced frameNumber true })

def clockOnEvict (state : ClockState) (frameNumber : Nat) : Int × ClockState :=
  if !state.loaded frameNumber then (-1, state)
  else (0, { state with
    loaded := Function.update state.loaded frameNumber false
    referenced := Function.update state.referenced frameNumber false })

/-- The loop of `clock_choose_victim`. -/
def clockSweep (frameCount : Nat) : Nat → ClockState → Option (Nat × ClockState)
  | 0, _ => none
  | fuel + 1, state =>
    let current := state.hand
    let advanced := { state with hand := (state.hand + 1) % frameCount }
    if !state.loaded current then clockSweep frameCount fuel advanced
    else if state.referenced current then
      clockSweep frameCount fuel
        { advanced with referenced := Function.update state.referenced current false }
    else some (toUint32 current, advanced)

def clockChooseVictim (frameCount : Nat) (state : ClockState) : Option (Nat × ClockState) :=
  if (List.range frameCount).countP (fun index => state.loaded index) = 0 then
    some (replacementInvalidFrame, state)
  else clockSweep frameCount (2 * frameCount) state

/-! ## The sweep ends

A slot is `d` slots ahead of the hand when the hand has to pass `d` slots
to come to it. The sweep passes unloaded slots and referenced frames,
whose bit it clears; `after` is what it has done after `d` slots. The
first frame at which it stops is ahead of the hand by less than a round
if some loaded frame is unreferenced, and else by one round more. -/

structure ClockState.Wf (frameCount : Nat) (state : ClockState) : Prop where
  lt : ∀ f, state.loaded f = true → f < frameCount
  hand_lt : state.hand < frameCount

/-- `f` is `d` slots ahead of the hand. -/
def ClockState.Ahead (frameCount : Nat) (state : ClockState) (d f : Nat) : Prop :=
  d < frameCount ∧ (state.hand + d) % frameCount = f

/-- `f` is, `d` slots ahead of the hand, the first slot with `p`. -/
structure ClockState.FirstAhead (frameCount : Nat) (state : ClockState) (p : Nat → Prop)
    (d f : Nat) : Prop where
  ahead : state.Ahead frameCount d f
  holds : p f
  first : ∀ k < d, ∀ g, state.Ahead frameCount k g → ¬ p g

/-- The state after the sweep has passed the frame under the hand. -/
def ClockState.passed (frameCount : Nat) (state : ClockState) : ClockState :=
  { state with
    hand := (state.hand + 1) % frameCount
    referenced :=
      if state.loaded state.hand then Function.update state.referenced state.hand false
      else state.referenced }

/-- The sweep ends at the frame under the hand. -/
def ClockState.Stops (state : ClockState) : Prop :=
  state.loaded state.hand = true ∧ state.referenced state.hand = false

/-- The state after the sweep has passed `d` slots. -/
def ClockState.after (frameCount : Nat) (state : ClockState) : Nat → ClockState
  | 0 => state
  | d + 1 => (state.after frameCount d).passed frameCount

variable {frameCount : Nat} {state : ClockState}

theorem ClockState.exists_ahead (h : state.hand < frameCount) {f : Nat} (hf : f < frameCount) :
    ∃ d, state.Ahead frameCount d f := by
  refine ⟨(f + frameCount - state.hand) % frameCount, Nat.mod_lt _ (Nat.zero_lt_of_lt hf), ?_⟩
  rw [Nat.add_mod_mod, show state.hand + (f + frameCount - state.hand) = f + frameCount by omega,
    Nat.add_mod_right, Nat.mod_eq_of_lt hf]

theorem ClockState.Ahead.unique {d k f : Nat} (hd : state.Ahead frameCount d f)
    (hk : state.Ahead frameCount k f) : d = k := by
  have hmod : state.hand + d ≡ state.hand + k [MOD frameCount] := hd.2.trans hk.2.symm
  exact Nat.ModEq.eq_of_lt_of_lt (Nat.ModEq.add_left_cancel' _ hmod) hd.1 hk.1

/-- Some frame has `p`, so there is a first one. -/
theorem ClockState.exists_firstAhead (h : state.hand < frameCount) {p : Nat → Prop} {f : Nat}
    (hf : f < frameCount) (hp : p f) : ∃ d g, state.FirstAhead frameCount p d g := by
  classical
  have hsome : ∃ d g, state.Ahead frameCount d g ∧ p g := by
    obtain ⟨d, hd⟩ := ClockState.exists_ahead h hf
    exact ⟨d, f, hd, hp⟩
  obtain ⟨g, hahead, hg⟩ := Nat.find_spec hsome
  exact ⟨Nat.find hsome, g, hahead, hg, fun k hk g' hk' hg' =>
    Nat.find_min hsome hk ⟨g', hk', hg'⟩⟩

theorem clockSweep_succ (frameCount fuel : Nat) (state : ClockState) :
    clockSweep frameCount (fuel + 1) state =
      if state.loaded state.hand ∧ state.referenced state.hand = false then
        some (toUint32 state.hand, { state with hand := (state.hand + 1) % frameCount })
      else clockSweep frameCount fuel (state.passed frameCount) := by
  rw [clockSweep]
  cases hl : state.loaded state.hand <;> cases hr : state.referenced state.hand <;>
    simp [ClockState.passed, hl]

@[simp] theorem ClockState.after_loaded (d : Nat) :
    (state.after frameCount d).loaded = state.loaded := by
  induction d with
  | zero => rfl
  | succ d ih => exact ih

theorem ClockState.after_passed (d : Nat) :
    (state.passed frameCount).after frameCount d = state.after frameCount (d + 1) := by
  induction d with
  | zero => rfl
  | succ d ih => exact congrArg (ClockState.passed frameCount) ih

theorem ClockState.Wf.after_hand (h : state.Wf frameCount) (d : Nat) :
    (state.after frameCount d).hand = (state.hand + d) % frameCount := by
  induction d with
  | zero => exact (Nat.mod_eq_of_lt h.hand_lt).symm
  | succ d ih =>
    show ((state.after frameCount d).hand + 1) % frameCount = _
    rw [ih, Nat.mod_add_mod, Nat.add_assoc]

/-- The bits that are left: those of unloaded frames, and of frames that
were not under the hand. -/
theorem ClockState.Wf.after_referenced (h : state.Wf frameCount) (d g : Nat) :
    (state.after frameCount d).referenced g = true ↔ state.referenced g = true ∧
      ¬ (state.loaded g = true ∧ ∃ k < d, (state.hand + k) % frameCount = g) := by
  induction d with
  | zero => simp [ClockState.after]
  | succ d ih =>
    have hhand := h.after_hand d
    have hsplit : (∃ k < d + 1, (state.hand + k) % frameCount = g) ↔
        (∃ k < d, (state.hand + k) % frameCount = g) ∨ (state.hand + d) % frameCount = g := by
      simp only [Nat.lt_succ_iff_lt_or_eq, or_and_right, exists_or, exists_eq_left]
    simp only [ClockState.after, ClockState.passed, ClockState.after_loaded, hhand, hsplit]
    by_cases e : (state.hand + d) % frameCount = g
    · cases hl : state.loaded g with
      | true => simp [e, hl]
      | false => simp [e, hl, ih]
    · have hne : g ≠ (state.hand + d) % frameCount := fun heq => e heq.symm
      split <;> simp [e, hne, ih]

/-- The sweep goes on until it stops, whatever fuel it has left over. -/
theorem clockSweep_stops {d : Nat} : ∀ {state : ClockState},
    (∀ k < d, ¬ (state.after frameCount k).Stops) → (state.after frameCount d).Stops →
    ∀ fuel > d, clockSweep frameCount fuel state =
      some (toUint32 (state.after frameCount d).hand,
        { state.after frameCount d with
          hand := ((state.after frameCount d).hand + 1) % frameCount }) := by
  induction d with
  | zero =>
    intro state _ hstop fuel hfuel
    obtain ⟨fuel, rfl⟩ := Nat.exists_eq_succ_of_ne_zero (Nat.ne_zero_of_lt hfuel)
    have hcond : state.loaded state.hand = true ∧ state.referenced state.hand = false := hstop
    rw [clockSweep_succ, if_pos hcond]
    rfl
  | succ d ih =>
    intro state hpass hstop fuel hfuel
    obtain ⟨fuel, rfl⟩ := Nat.exists_eq_succ_of_ne_zero (Nat.ne_zero_of_lt hfuel)
    have hfirst : ¬ (state.loaded state.hand = true ∧ state.referenced state.hand = false) :=
      hpass 0 (Nat.succ_pos d)
    rw [← ClockState.after_passed] at hstop
    rw [clockSweep_succ, if_neg hfirst, ih (fun k hk => ?_) hstop fuel (by omega),
      ClockState.after_passed]
    rw [ClockState.after_passed]
    exact hpass (k + 1) (by omega)

/-- The sweep stops at a loaded frame that has no bit, or has lost it. -/
theorem ClockState.Wf.stops_iff (h : state.Wf frameCount) {d f : Nat}
    (hf : (state.hand + d) % frameCount = f) :
    (state.after frameCount d).Stops ↔ state.loaded f = true ∧
      (state.referenced f = true → ∃ k < d, (state.hand + k) % frameCount = f) := by
  have hbit := h.after_referenced d f
  simp only [ClockState.Stops, ClockState.after_loaded, h.after_hand, hf, ← Bool.not_eq_true, hbit]
  refine and_congr_right fun hl => ?_
  rw [not_and, not_not, hl]
  simp only [true_and]

/-! ## The victim -/

/-- What a sweep has done that returned `victim`. -/
structure ClockState.Swept (frameCount : Nat) (state : ClockState) (victim : Nat)
    (cleared : Nat → Prop) (state' : ClockState) : Prop where
  loaded : state'.loaded = state.loaded
  hand : state'.hand = (victim + 1) % frameCount
  clears : ∀ g, cleared g → state'.referenced g = false
  keeps : ∀ g, ¬ cleared g → state'.referenced g = state.referenced g

theorem ClockState.Wf.swept (h : state.Wf frameCount) {d f : Nat}
    (hf : (state.hand + d) % frameCount = f) (hpass : ∀ k < d, ¬ (state.after frameCount k).Stops)
    (hstop : (state.after frameCount d).Stops) {cleared : Nat → Prop}
    (hcleared : ∀ g, cleared g ↔
      state.loaded g = true ∧ ∃ k < d, (state.hand + k) % frameCount = g) :
    ∃ state', (∀ fuel > d, clockSweep frameCount fuel state = some (toUint32 f, state')) ∧
      state.Swept frameCount f cleared state' := by
  have hhand : (state.after frameCount d).hand = f := (h.after_hand d).trans hf
  refine ⟨{ state.after frameCount d with hand := (f + 1) % frameCount }, fun fuel hfuel => ?_,
    ClockState.after_loaded d, rfl, fun g hg => ?_, fun g hg => ?_⟩
  · rw [clockSweep_stops hpass hstop fuel hfuel, hhand]
  · refine Bool.eq_false_iff.mpr fun hbit => ?_
    exact ((h.after_referenced d g).mp hbit).2 ((hcleared g).mp hg)
  · have hbit := h.after_referenced d g
    rw [← hcleared g] at hbit
    simp only [hg, not_false_eq_true, and_true] at hbit
    exact Bool.eq_iff_iff.mpr hbit

/-- Some loaded frame is unreferenced: the first one is the victim, and
the loaded frames before it lose their bits. -/
theorem ClockState.Wf.sweep_unreferenced (h : state.Wf frameCount)
    {d f : Nat} (hfirst : state.FirstAhead frameCount
      (fun g => state.loaded g = true ∧ state.referenced g = false) d f) :
    ∃ state', (∀ fuel > d, clockSweep frameCount fuel state = some (toUint32 f, state')) ∧
      state.Swept frameCount f
        (fun g => state.loaded g = true ∧ ∃ k < d, state.Ahead frameCount k g) state' := by
  have hd : d < frameCount := hfirst.ahead.1
  refine h.swept hfirst.ahead.2 (fun k hk hstop => ?_) ?_ fun g => ?_
  · obtain ⟨hl, hr⟩ := (h.stops_iff rfl).mp hstop
    have hahead : state.Ahead frameCount k ((state.hand + k) % frameCount) := ⟨by omega, rfl⟩
    refine hfirst.first k hk _ hahead ⟨hl, Bool.eq_false_iff.mpr fun hbit => ?_⟩
    -- in the first round no slot comes under the hand twice
    obtain ⟨k', hk', hslot⟩ := hr hbit
    have hsame : k' = k := ClockState.Ahead.unique ⟨by omega, hslot⟩ hahead
    omega
  · refine (h.stops_iff hfirst.ahead.2).mpr ⟨hfirst.holds.1, fun hbit => ?_⟩
    rw [hfirst.holds.2] at hbit
    cases hbit
  · refine and_congr_right fun _ => exists_congr fun k => and_congr_right fun hk => ?_
    exact ⟨fun hahead => hahead.2, fun hslot => ⟨by omega, hslot⟩⟩

/-- All loaded frames are referenced: all lose their bits, and the first
one is the victim one round later. -/
theorem ClockState.Wf.sweep_referenced (h : state.Wf frameCount)
    (hall : ∀ g, state.loaded g = true → state.referenced g = true) {d f : Nat}
    (hfirst : state.FirstAhead frameCount (fun g => state.loaded g = true) d f) :
    ∃ state', (∀ fuel > frameCount + d,
        clockSweep frameCount fuel state = some (toUint32 f, state')) ∧
      state.Swept frameCount f (fun g => state.loaded g = true) state' := by
  have hround : ∀ k, (state.hand + (frameCount + k)) % frameCount =
      (state.hand + k) % frameCount := by
    intro k
    rw [Nat.add_left_comm, Nat.add_mod_left]
  refine h.swept ((hround d).trans hfirst.ahead.2) (fun k hk hstop => ?_) ?_ fun g => ?_
  · obtain ⟨hl, hr⟩ := (h.stops_iff rfl).mp hstop
    obtain ⟨k', hk', hslot⟩ := hr (hall _ hl)
    have hd : d < frameCount := hfirst.ahead.1
    rcases Nat.lt_or_ge k frameCount with hlt | hge
    · have hsame : k' = k := ClockState.Ahead.unique ⟨by omega, hslot⟩ ⟨hlt, rfl⟩
      omega
    · have hprev := hround (k - frameCount)
      rw [Nat.add_sub_cancel' hge] at hprev
      exact hfirst.first (k - frameCount) (by omega) _ ⟨by omega, hprev.symm⟩ hl
  · refine (h.stops_iff ((hround d).trans hfirst.ahead.2)).mpr ⟨hfirst.holds, fun _ => ?_⟩
    exact ⟨d, Nat.lt_add_of_pos_left (Nat.zero_lt_of_lt h.hand_lt), hfirst.ahead.2⟩
  · refine ⟨fun hl => ⟨hl, ?_⟩, fun hg => hg.1⟩
    obtain ⟨k, hk, hslot⟩ := ClockState.exists_ahead h.hand_lt (h.lt g hl)
    exact ⟨k, Nat.lt_add_right d hk, hslot⟩

/-- The sweep ends in two rounds, at a loaded frame. -/
theorem ClockState.Wf.sweep_ends (h : state.Wf frameCount) {f : Nat}
    (hl : state.loaded f = true) :
    ∃ victim state',
      clockSweep frameCount (2 * frameCount) state = some (toUint32 victim, state') ∧
      state.loaded victim = true ∧ state'.loaded = state.loaded ∧ state'.Wf frameCount := by
  have hpos : 0 < frameCount := Nat.zero_lt_of_lt h.hand_lt
  have hwf : ∀ {victim cleared state'}, state.Swept frameCount victim cleared state' →
      state'.Wf frameCount := by
    intro victim cleared state' hswept
    exact ⟨by rw [hswept.loaded]; exact h.lt, by rw [hswept.hand]; exact Nat.mod_lt _ hpos⟩
  by_cases hall : ∀ g, state.loaded g = true → state.referenced g = true
  · obtain ⟨d, victim, hfirst⟩ := ClockState.exists_firstAhead h.hand_lt (h.lt f hl)
      (p := fun g => state.loaded g = true) hl
    obtain ⟨state', hsweep, hswept⟩ := h.sweep_referenced hall hfirst
    have hd : d < frameCount := hfirst.ahead.1
    exact ⟨victim, state', hsweep _ (by omega), hfirst.holds, hswept.loaded, hwf hswept⟩
  · obtain ⟨g, hg, hbit⟩ : ∃ g, state.loaded g = true ∧ state.referenced g = false := by
      simpa using hall
    obtain ⟨d, victim, hfirst⟩ := ClockState.exists_firstAhead h.hand_lt (h.lt g hg)
      (p := fun g => state.loaded g = true ∧ state.referenced g = false) ⟨hg, hbit⟩
    obtain ⟨state', hsweep, hswept⟩ := h.sweep_unreferenced hfirst
    have hd : d < frameCount := hfirst.ahead.1
    exact ⟨victim, state', hsweep _ (by omega), hfirst.holds.1, hswept.loaded, hwf hswept⟩

theorem clockChooseVictim_none (hnone : ∀ f < frameCount, state.loaded f = false) :
    clockChooseVictim frameCount state = some (replacementInvalidFrame, state) := by
  unfold clockChooseVictim
  rw [if_pos (List.countP_eq_zero.mpr fun f hf => ?_)]
  rw [hnone f (List.mem_range.mp hf)]
  exact Bool.false_ne_true

theorem clockChooseVictim_some {f : Nat} (hf : f < frameCount) (hl : state.loaded f = true) :
    clockChooseVictim frameCount state = clockSweep frameCount (2 * frameCount) state := by
  unfold clockChooseVictim
  rw [if_neg fun hcount => List.countP_eq_zero.mp hcount f (List.mem_range.mpr hf) hl]

/-- The search for a victim ends. -/
theorem ClockState.Wf.chooseVictim (h : state.Wf frameCount) :
    ∃ answer, clockChooseVictim frameCount state = some answer ∧ answer.2.Wf frameCount ∧
      answer.2.loaded = state.loaded ∧ (answer.1 = replacementInvalidFrame ∨
        ∃ victim, state.loaded victim = true ∧ answer.1 = toUint32 victim) := by
  by_cases hnone : ∀ f < frameCount, state.loaded f = false
  · exact ⟨_, clockChooseVictim_none hnone, h, rfl, Or.inl rfl⟩
  · obtain ⟨f, hf, hl⟩ : ∃ f < frameCount, state.loaded f = true := by
      simpa using hnone
    obtain ⟨victim, state', hsweep, hvictim, hloaded, hwf⟩ := h.sweep_ends hl
    rw [clockChooseVictim_some hf hl]
    exact ⟨_, hsweep, hwf, hloaded, Or.inr ⟨victim, hvictim, rfl⟩⟩

theorem clockChooseVictim_spec (hn : frameCount ≤ 2 ^ 32) (h : state.Wf frameCount) :
    ∃ answer, clockChooseVictim frameCount state = some answer ∧
      (answer.1 = replacementInvalidFrame ∨ state.loaded answer.1 = true) ∧
      answer.2.loaded = state.loaded ∧ answer.2.Wf frameCount := by
  obtain ⟨answer, hchoose, hwf, hloaded, hanswer⟩ := h.chooseVictim
  refine ⟨answer, hchoose, hanswer.imp_right fun ⟨victim, hvictim, heq⟩ => ?_, hloaded, hwf⟩
  rwa [heq, toUint32_of_lt (Nat.lt_of_lt_of_le (h.lt victim hvictim) hn)]

end VmSim
