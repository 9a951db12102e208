/-
VmSim.VirtualMemory.ClockPages — Clock gives every page a second chance.

The frames from the hand on, with the pages in them and their bits, are
the circle of `VmSim.Lib.SecondChance` (`PageFrames.served_clock`). While
the memory fills up the hand does not move, and the frames are taken in
their order; so what the circle holds is a stretch of it from the hand on.
-/
import VmSim.Lib.SecondChance
import VmSim.VirtualMemory.PageFrames
import Mathlib.Data.List.Rotate

namespace VmSim

open Lib

variable {s s' : PageFrames} {key old : Nat × Nat} {keys : List (Nat × Nat)} {f g d n : Nat}
  {pages : List ((Nat × Nat) × Bool)} {policy : ReplacementPolicy} {state state' : ClockState}
  {content : Nat → Option (Nat × Nat)}

/-! ## The slots from the hand on -/

def ClockState.slots (n : Nat) (state : ClockState) : List Nat := (List.range n).rotate state.hand

@[simp] theorem ClockState.slots_length (n : Nat) (state : ClockState) :
    (state.slots n).length = n := by simp [ClockState.slots]

theorem ClockState.slots_nodup (n : Nat) (state : ClockState) : (state.slots n).Nodup :=
  List.nodup_rotate.mpr List.nodup_range

theorem ClockState.mem_slots : f ∈ state.slots n ↔ f < n := by simp [ClockState.slots]

theorem ClockState.slots_getElem (hd : d < (state.slots n).length) :
    (state.slots n)[d] = (state.hand + d) % n := by
  simp [ClockState.slots, List.getElem_rotate, Nat.add_comm]

/-- The slots before a place, its own, and those behind it; when the hand
has passed the place, they come in another order. -/
theorem ClockState.Ahead.slots (h : state.Ahead n d f) (hhand : state'.hand = (f + 1) % n) :
    state.slots n = (state.slots n).take d ++ f :: (state.slots n).drop (d + 1) ∧
      state'.slots n = (state.slots n).drop (d + 1) ++ ((state.slots n).take d ++ [f]) := by
  have hlt : d < (state.slots n).length := (state.slots_length n).symm ▸ h.1
  have hf : (state.slots n)[d] = f := (ClockState.slots_getElem hlt).trans h.2
  have hsplit : state.slots n = (state.slots n).take d ++ f :: (state.slots n).drop (d + 1) := by
    rw [← hf, List.getElem_cons_drop, List.take_append_drop]
  have hturn : state'.slots n = (state.slots n).rotate (d + 1) := by
    rw [ClockState.slots, hhand, ClockState.slots, List.rotate_rotate, ← h.2, Nat.mod_add_mod,
      ← Nat.add_assoc]
    conv_rhs => rw [← List.rotate_mod, List.length_range]
  refine ⟨hsplit, hturn.trans ?_⟩
  rw [List.rotate_eq_drop_append_take (by rw [state.slots_length]; exact h.1),
    List.take_succ_eq_append_getElem hlt, hf]

/-! ## The pages in the slots -/

def ClockState.page (state : ClockState) (content : Nat → Option (Nat × Nat)) (f : Nat) :
    Option ((Nat × Nat) × Bool) :=
  (content f).map fun key => (key, state.referenced f)

def ClockState.circle (n : Nat) (content : Nat → Option (Nat × Nat)) (state : ClockState) :
    List ((Nat × Nat) × Bool) :=
  (state.slots n).filterMap (state.page content)

theorem ClockState.circle_fst (n : Nat) (content : Nat → Option (Nat × Nat)) (state : ClockState) :
    (state.circle n content).map Prod.fst = (state.slots n).filterMap content := by
  rw [ClockState.circle, List.map_filterMap]
  refine List.filterMap_congr fun f _ => ?_
  cases hf : content f <;> simp [ClockState.page, hf]

/-- A frame without a page comes before no frame that has one, and the
hand has not moved. -/
def Filling (n : Nat) (content : Nat → Option (Nat × Nat)) (state : ClockState) : Prop :=
  ∀ f < n, content f = none → state.hand = 0 ∧ ∀ g, f ≤ g → content g = none

/-- The frames hold the pages of the circle. -/
def PageFrames.Turns (s : PageFrames) (pages : List ((Nat × Nat) × Bool)) : Prop :=
  ∃ state : ClockState, s.policy.state = .clock state ∧
    Filling s.frameCount s.content state ∧ state.circle s.frameCount s.content = pages

theorem PageFrames.Turns.mem_iff (h : s.Turns pages) (hwf : s.Wf) :
    key ∈ pages.map Prod.fst ↔ ∃ f, s.content f = some key := by
  obtain ⟨state, _, _, rfl⟩ := h
  rw [state.circle_fst, List.mem_filterMap]
  constructor
  · rintro ⟨f, _, hf⟩
    exact ⟨f, hf⟩
  · rintro ⟨f, hf⟩
    exact ⟨f, ClockState.mem_slots.mpr (hwf.lt hf), hf⟩

theorem PageFrames.Turns.resident (h : s.Turns pages) (hwf : s.Wf) :
    s.resident = (pages.map Prod.fst).toFinset := by
  ext key
  rw [hwf.mem_resident, List.mem_toFinset, h.mem_iff hwf]

/-- The pages in slots at which nothing changes. -/
theorem filterMap_page {slots : List Nat} {content' : Nat → Option (Nat × Nat)}
    (hcontent : ∀ g ∈ slots, content' g = content g)
    (hbits : ∀ g ∈ slots, state'.referenced g = state.referenced g) :
    slots.filterMap (state'.page content') = slots.filterMap (state.page content) := by
  refine List.filterMap_congr fun g hg => ?_
  rw [ClockState.page, ClockState.page, hcontent g hg, hbits g hg]

/-- The bit of a page in memory is set. -/
theorem circle_hit (hf : content f = some key)
    (hapart : ∀ f g key, content f = some key → content g = some key → f = g) :
    ClockState.circle n content { state with referenced := Function.update state.referenced f true } =
      mark key (state.circle n content) := by
  show (state.slots n).filterMap _ = _
  rw [ClockState.circle, mark, List.map_filterMap]
  refine List.filterMap_congr fun g _ => ?_
  by_cases e : g = f
  · simp [ClockState.page, e, hf]
  · cases hg : content g with
    | none => simp [ClockState.page, hg]
    | some key' =>
      have hne : key' ≠ key := by
        rintro rfl
        exact e (hapart g f key' hg hf)
      simp [ClockState.page, hg, e, hne]

/-- The page that is loaded while the memory fills up is the last one of the
circle. -/
theorem circle_load (hfill : Filling n content state) (hlt : f < n) (hnone : content f = none)
    (hhand : state'.hand = state.hand)
    (hbits : state'.referenced = Function.update state.referenced f true) :
    state'.circle n (Function.update content f (some key)) =
      state.circle n content ++ [(key, true)] := by
  obtain ⟨hzero, hbehind⟩ := hfill f hlt hnone
  obtain ⟨m, rfl⟩ := Nat.exists_eq_add_of_lt hlt
  have hslots : state.slots (f + m + 1) =
      List.range f ++ f :: (List.range m).map fun i => f + (i + 1) := by
    rw [ClockState.slots, hzero, List.rotate_zero, Nat.add_assoc, List.range_add,
      List.range_succ_eq_map]
    simp [Function.comp_def]
  have hslots' : state'.slots (f + m + 1) = state.slots (f + m + 1) := by
    rw [ClockState.slots, hhand]
    rfl
  have hsame : ∀ slots : List Nat, (∀ g ∈ slots, g ≠ f) →
      slots.filterMap (state'.page (Function.update content f (some key))) =
        slots.filterMap (state.page content) := by
    intro slots hne
    refine filterMap_page (fun g hg => Function.update_of_ne (hne g hg) _ _) fun g hg => ?_
    rw [hbits, Function.update_of_ne (hne g hg)]
  have hempty : ((List.range m).map fun i => f + (i + 1)).filterMap (state.page content) = [] := by
    refine List.filterMap_eq_nil_iff.mpr fun g hg => ?_
    obtain ⟨i, _, rfl⟩ := List.mem_map.mp hg
    simp [ClockState.page, hbehind (f + (i + 1)) (Nat.le_add_right f _)]
  have hold : state.page content f = none := by simp [ClockState.page, hnone]
  have hnew : state'.page (Function.update content f (some key)) f = some (key, true) := by
    simp [ClockState.page, hbits]
  rw [ClockState.circle, ClockState.circle, hslots', hslots, List.filterMap_append,
    List.filterMap_append, List.filterMap_cons_some hnew, List.filterMap_cons_none hold,
    hsame _ fun g hg => Nat.ne_of_lt (List.mem_range.mp hg), hsame _ fun g hg => ?_, hempty]
  · simp
  · obtain ⟨i, _, rfl⟩ := List.mem_map.mp hg
    omega

/-! ## A page is replaced -/

theorem ClockState.mem_take_slots :
    g ∈ (state.slots n).take d ↔ ∃ k < d, state.Ahead n k g := by
  rw [List.mem_take_iff_getElem]
  constructor
  · rintro ⟨k, hk, hg⟩
    rw [ClockState.slots_getElem] at hg
    rw [state.slots_length] at hk
    exact ⟨k, by omega, by omega, hg⟩
  · rintro ⟨k, hk, hlt, hg⟩
    refine ⟨k, by rw [state.slots_length]; omega, ?_⟩
    rw [ClockState.slots_getElem, hg]

/-- The pages whose bits the hand has cleared. -/
theorem filterMap_cleared {slots : List Nat} (hne : ∀ g ∈ slots, g ≠ f)
    (hbits : ∀ g ∈ slots, state'.referenced g = false) :
    slots.filterMap (state'.page (Function.update content f (some key))) =
      unmark (slots.filterMap (state.page content)) := by
  rw [unmark, List.map_filterMap]
  refine List.filterMap_congr fun g hg => ?_
  rw [ClockState.page, Function.update_of_ne (hne g hg), hbits g hg]
  cases hkey : content g <;> simp [ClockState.page, hkey]

/-- What the search for a victim finds in a full memory: the first frame
whose bit is not set, or else the frame under the hand. -/
inductive ClockState.Found (n : Nat) (state : ClockState) (f : Nat) (state' : ClockState) : Prop where
  | stop {d : Nat} (hahead : state.Ahead n d f) (hbit : state.referenced f = false)
      (hpassed : ∀ g, (∃ k < d, state.Ahead n k g) →
        state.referenced g = true ∧ state'.referenced g = false)
      (hkept : ∀ g, (¬ ∃ k < d, state.Ahead n k g) → state'.referenced g = state.referenced g)
  | round (hahead : state.Ahead n 0 f) (hbits : ∀ g < n, state.referenced g = true)
      (hcleared : ∀ g < n, state'.referenced g = false)

theorem ClockState.Wf.found (h : state.Wf n) (hn : n < 2 ^ 32)
    (hfull : ∀ g < n, state.loaded g = true)
    (hchoose : clockChooseVictim n state = some (f, state')) :
    state.Found n f state' ∧ state'.hand = (f + 1) % n ∧ state'.loaded = state.loaded := by
  have hhand := h.hand_lt
  rw [clockChooseVictim_some hhand (hfull _ hhand)] at hchoose
  by_cases hall : ∀ g, state.loaded g = true → state.referenced g = true
  · have hfirst : state.FirstAhead n (fun g => state.loaded g = true) 0 state.hand :=
      ⟨⟨Nat.zero_lt_of_lt hhand, Nat.mod_eq_of_lt hhand⟩, hfull _ hhand,
        fun k hk => absurd hk (Nat.not_lt_zero k)⟩
    obtain ⟨state₁, hsweep, hswept⟩ := h.sweep_referenced hall hfirst
    rw [hsweep _ (by omega), toUint32_of_lt (Nat.lt_trans hhand hn)] at hchoose
    cases hchoose
    exact ⟨.round hfirst.ahead (fun g hg => hall g (hfull g hg))
      (fun g hg => hswept.clears g (hfull g hg)), hswept.hand, hswept.loaded⟩
  · obtain ⟨g, hg, hbit⟩ : ∃ g, state.loaded g = true ∧ state.referenced g = false := by
      simpa using hall
    obtain ⟨d, victim, hfirst⟩ := ClockState.exists_firstAhead hhand (h.lt g hg)
      (p := fun g => state.loaded g = true ∧ state.referenced g = false) ⟨hg, hbit⟩
    obtain ⟨state₁, hsweep, hswept⟩ := h.sweep_unreferenced hfirst
    have hd : d < n := hfirst.ahead.1
    rw [hsweep _ (by omega), toUint32_of_lt (Nat.lt_trans (h.lt _ hfirst.holds.1) hn)] at hchoose
    cases hchoose
    refine ⟨.stop hfirst.ahead hfirst.holds.2 (fun g hg => ?_) fun g hg => ?_, hswept.hand,
      hswept.loaded⟩
    · obtain ⟨k, hk, hahead⟩ := hg
      have hl : state.loaded g = true := hfull g (hahead.2 ▸ Nat.mod_lt _ (Nat.zero_lt_of_lt hd))
      refine ⟨?_, hswept.clears g ⟨hl, k, hk, hahead⟩⟩
      cases hbit : state.referenced g with
      | true => rfl
      | false => exact absurd ⟨hl, hbit⟩ (hfirst.first k hk g hahead)
    · exact hswept.keeps g fun hcleared => hg hcleared.2

/-- The hand stops at a frame whose bit is not set. -/
theorem circle_stop (hahead : state.Ahead n d f) (hhand : state'.hand = (f + 1) % n)
    (hpage : state.page content f = some (old, false))
    (hnew : state'.page (Function.update content f (some key)) f = some (key, true))
    (hset : ∀ g, (∃ k < d, state.Ahead n k g) → state.referenced g = true)
    (hcleared : ∀ g, g ≠ f → (∃ k < d, state.Ahead n k g) → state'.referenced g = false)
    (hkept : ∀ g, g ≠ f → (¬ ∃ k < d, state.Ahead n k g) →
      state'.referenced g = state.referenced g) :
    state'.circle n (Function.update content f (some key)) =
      sweep (state.circle n content) ++ [(key, true)] := by
  obtain ⟨hslots, hslots'⟩ := hahead.slots hhand
  obtain ⟨hnot, hnodup⟩ := List.nodup_cons.mp (List.nodup_middle.mp (hslots ▸ state.slots_nodup n))
  have hbefore : ∀ g ∈ (state.slots n).take d, g ≠ f := by
    rintro g hg rfl
    exact hnot (List.mem_append_left _ hg)
  have hbehind : ∀ g ∈ (state.slots n).drop (d + 1), g ≠ f := by
    rintro g hg rfl
    exact hnot (List.mem_append_right _ hg)
  have hall : ∀ e ∈ ((state.slots n).take d).filterMap (state.page content), e.2 = true := by
    intro e he
    obtain ⟨g, hg, hkey⟩ := List.mem_filterMap.mp he
    obtain ⟨_, _, rfl⟩ := Option.map_eq_some_iff.mp hkey
    exact hset g (ClockState.mem_take_slots.mp hg)
  rw [ClockState.circle, hslots', ClockState.circle]
  conv_rhs => rw [hslots]
  rw [List.filterMap_append, List.filterMap_append, List.filterMap_cons_some hnew,
    List.filterMap_append, List.filterMap_cons_some hpage, sweep_stop hall,
    List.append_assoc, filterMap_cleared hbefore fun g hg => ?_,
    filterMap_page (fun g hg => Function.update_of_ne (hbehind g hg) _ _) fun g hg => ?_]
  · rfl
  · refine hkept g (hbehind g hg) fun hpass => ?_
    exact (List.nodup_append.mp hnodup).2.2 g (ClockState.mem_take_slots.mpr hpass) g hg rfl
  · exact hcleared g (hbefore g hg) (ClockState.mem_take_slots.mp hg)

/-- The hand goes round once, and stops where it started. -/
theorem circle_round (hahead : state.Ahead n 0 f) (hhand : state'.hand = (f + 1) % n)
    (hpage : state.page content f = some (old, true))
    (hnew : state'.page (Function.update content f (some key)) f = some (key, true))
    (hset : ∀ g < n, state.referenced g = true)
    (hcleared : ∀ g, g ≠ f → g < n → state'.referenced g = false) :
    state'.circle n (Function.update content f (some key)) =
      sweep (state.circle n content) ++ [(key, true)] := by
  obtain ⟨hslots, hslots'⟩ := hahead.slots hhand
  rw [List.take_zero, List.nil_append] at hslots hslots'
  have hbehind : ∀ g ∈ (state.slots n).drop 1, g < n ∧ g ≠ f := by
    intro g hg
    refine ⟨ClockState.mem_slots.mp (List.mem_of_mem_drop hg), ?_⟩
    rintro rfl
    exact (List.nodup_cons.mp (hslots ▸ state.slots_nodup n)).1 hg
  have hall : ∀ e ∈ state.circle n content, e.2 = true := by
    intro e he
    obtain ⟨g, hg, hkey⟩ := List.mem_filterMap.mp he
    obtain ⟨_, _, rfl⟩ := Option.map_eq_some_iff.mp hkey
    exact hset g (ClockState.mem_slots.mp hg)
  rw [sweep_round hall, ClockState.circle, hslots', ClockState.circle]
  conv_rhs => rw [hslots]
  rw [List.filterMap_append, List.filterMap_cons_some hnew, List.filterMap_cons_some hpage,
    filterMap_cleared (fun g hg => (hbehind g hg).2) fun g hg => ?_]
  · rfl
  · exact hcleared g (hbehind g hg).2 (hbehind g hg).1

theorem circle_replace {found : ClockState} (hfound : state.Found n f found)
    (hhand : state'.hand = (f + 1) % n)
    (hbits : state'.referenced = Function.update found.referenced f true)
    (hold : content f = some old) :
    state'.circle n (Function.update content f (some key)) =
      sweep (state.circle n content) ++ [(key, true)] := by
  have hnew : state'.page (Function.update content f (some key)) f = some (key, true) := by
    simp [ClockState.page, hbits]
  have hother : ∀ g, g ≠ f → state'.referenced g = found.referenced g := by
    intro g hg
    rw [hbits, Function.update_of_ne hg]
  have hpage : ∀ bit, state.referenced f = bit → state.page content f = some (old, bit) := by
    intro bit hbit
    simp [ClockState.page, hold, hbit]
  cases hfound with
  | stop hahead hbit hpassed hkept =>
    exact circle_stop hahead hhand (hpage false hbit) hnew (fun g hg => (hpassed g hg).1)
      (fun g hgf hg => (hother g hgf).trans (hpassed g hg).2)
      fun g hgf hg => (hother g hgf).trans (hkept g hg)
  | round hahead hset hcleared =>
    have hlt : f < n := hahead.2 ▸ Nat.mod_lt _ hahead.1
    exact circle_round hahead hhand (hpage true (hset f hlt)) hnew hset
      fun g hgf hg => (hother g hgf).trans (hcleared g hg)

/-! ## Requests -/

theorem PageFrames.Turns.load (h : s.Turns pages) (hwf : s.Wf) (hfree : s.free = some f) :
    (s.put key f s.policy).Turns (pages ++ [(key, true)]) := by
  obtain ⟨hlt, hnone, hfirst⟩ := PageFrames.free_some hfree
  have hlt' : f < s.policy.frameCount := hwf.count ▸ hlt
  obtain ⟨state, hstate, hfill, rfl⟩ := h
  refine ⟨(clockOnLoad state f).2, ?_, fun g hg hempty => ?_,
    circle_load hfill hlt hnone rfl rfl⟩
  · simp [PageFrames.put, replacementPolicyOnLoad, hlt', hstate, ReplacementPolicy.wrap,
      replacementPolicyTick]
  · have hgf : g ≠ f := by
      rintro rfl
      simp [PageFrames.put] at hempty
    have hempty' : s.content g = none := by simpa [PageFrames.put, hgf] using hempty
    obtain ⟨hzero, hbehind⟩ := hfill g hg hempty'
    have hle : f < g := Nat.lt_of_le_of_ne (Nat.le_of_not_lt fun hlt => hfirst g hlt hempty') hgf.symm
    refine ⟨hzero, fun g' hg' => ?_⟩
    have hne : g' ≠ f := Nat.ne_of_gt (Nat.lt_of_lt_of_le hle hg')
    simpa [PageFrames.put, hne] using hbehind g' hg'

theorem PageFrames.Turns.replace {old : Nat × Nat} (h : s.Turns pages) (hwf : s.Wf)
    (hfull : s.free = none) (hchoose : replacementPolicyChooseVictim s.policy = some (f, policy))
    (hold : s.content f = some old) :
    (s.put key f (replacementPolicyOnEvict policy f).2).Turns (sweep pages ++ [(key, true)]) := by
  have hall := PageFrames.free_none hfull
  obtain ⟨state, hstate, hfill, rfl⟩ := h
  obtain ⟨frameCount, content, ⟨count, _⟩, _, _⟩ := s
  cases hstate
  obtain rfl : count = frameCount := hwf.count
  have hclock : state.Wf count := hwf.policy.state
  have hloaded : ∀ g, state.loaded g = (content g).isSome := hwf.loaded
  obtain ⟨⟨victim, found⟩, hsearch, heq⟩ := Option.map_eq_some_iff.mp hchoose
  obtain ⟨hvictim, rfl⟩ := Prod.mk.inj heq
  obtain rfl : f = victim := hvictim.symm
  have hl : ∀ g < count, state.loaded g = true := fun g hg => by
    rw [hloaded]
    exact Option.isSome_iff_ne_none.mpr (hall g hg)
  obtain ⟨hfound, hhand, hsame⟩ := hclock.found hwf.policy.count_lt hl hsearch
  have hlf : found.loaded f = true := by
    rw [hsame, hloaded, show content f = some old from hold]
    rfl
  have hlt : f < count := hwf.lt hold
  refine ⟨(clockOnLoad (clockOnEvict found f).2 f).2, ?_, fun g hg hempty => ?_,
    circle_replace hfound ?_ ?_ hold⟩
  · simp [PageFrames.put, replacementPolicyOnEvict, replacementPolicyOnLoad, hlt,
      ReplacementPolicy.wrap, replacementPolicyTick]
  · by_cases e : g = f
    · simp [PageFrames.put, e] at hempty
    · exact absurd (by simpa [PageFrames.put, e] using hempty) (hall g hg)
  · simp only [clockOnLoad, clockOnEvict, hlf, Bool.not_true, Bool.false_eq_true, if_false]
    exact hhand
  · simp [clockOnLoad, clockOnEvict, hlf]

theorem PageFrames.Turns.hit (h : s.Turns pages) (hwf : s.Wf) (hf : s.content f = some key) :
    PageFrames.Turns { s with
      policy := replacementPolicyTick (replacementPolicyOnAccess s.policy f).2 } (mark key pages) := by
  have hlt : f < s.policy.frameCount := hwf.count ▸ hwf.lt hf
  have hl : s.policy.loaded f = true := by
    rw [hwf.loaded, hf]
    rfl
  obtain ⟨state, hstate, hfill, rfl⟩ := h
  have hlf : state.loaded f = true := by
    rw [ReplacementPolicy.loaded, hstate] at hl
    exact hl
  refine ⟨{ state with referenced := Function.update state.referenced f true }, ?_, hfill,
    circle_hit hf hwf.apart⟩
  simp [replacementPolicyOnAccess, hlt, hstate, ReplacementPolicy.wrap, replacementPolicyTick,
    clockOnAccess, hlf]

theorem PageFrames.Ends.clock (hend : s.Ends key s') (hwf : s.Wf) (hcount : s.frameCount = n)
    (h : s.Turns (clock n keys)) : s'.Turns (clock n (key :: keys)) := by
  have hcard := congrArg Finset.card (h.resident hwf)
  rw [List.toFinset_card_of_nodup (clock_nodup n keys), List.length_map] at hcard
  cases hend with
  | hit hf =>
    rw [clock_hit ((h.mem_iff hwf).mpr ⟨_, hf⟩)]
    exact h.hit hwf hf
  | load habsent hfree =>
    have hroom := hwf.resident_room hfree
    rw [clock_load (fun hin => ((h.mem_iff hwf).mp hin).elim habsent) (by omega)]
    exact h.load hwf hfree
  | replace habsent hfull hchoose hold =>
    have hfullCard := hwf.resident_full hfull
    rw [clock_replace (fun hin => ((h.mem_iff hwf).mp hin).elim habsent) (by omega)]
    exact h.replace hwf hfull hchoose hold

/-! ## Runs -/

theorem replacementPolicyCreate_turns (h : replacementPolicyCreate .clock n = some policy) :
    (PageFrames.fresh policy).Turns [] := by
  unfold replacementPolicyCreate at h
  split at h
  · cases h
  · cases h
    exact ⟨clockCreate, rfl, fun _ _ _ => ⟨rfl, fun _ _ => rfl⟩, by
      simp [ClockState.circle, ClockState.page, PageFrames.fresh]⟩

theorem PageFrames.served_clock (hn : n < 2 ^ 32)
    (hcreate : replacementPolicyCreate .clock n = some policy) (hlt : keys.length < wordSize) :
    ((PageFrames.fresh policy).serve keys).Turns (Lib.clock n keys) := by
  induction keys with
  | nil => exact replacementPolicyCreate_turns hcreate
  | cons key keys ih =>
    obtain ⟨hwf, hfresh, hcount⟩ := PageFrames.served hn hcreate (Nat.lt_of_succ_lt hlt)
    exact (hwf.ends hfresh hlt key).clock hwf hcount (ih (Nat.lt_of_succ_lt hlt))

theorem PageFrames.clock_resident (hn : n < 2 ^ 32)
    (hcreate : replacementPolicyCreate .clock n = some policy) (hlt : keys.length < wordSize) :
    ((PageFrames.fresh policy).serve keys).resident = clockPages n keys :=
  (PageFrames.served_clock hn hcreate hlt).resident (PageFrames.served hn hcreate hlt).1

end VmSim
