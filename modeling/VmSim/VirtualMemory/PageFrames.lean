/-
VmSim.VirtualMemory.PageFrames — which page is in which frame.

`PageFrames` is a virtual memory of which only the pages in its frames
and the replacement policy are known. It serves requests for pages; what
they hold, and whether they are read or written, does not matter to it.
As long as no access fails and nothing is forked or released, the virtual
memory is such a machine (`VmSim.VirtualMemory.ReferenceString`).

Whatever the policy, the machine is a demand paging memory
(`PageFrames.served_paged`).
-/
import VmSim.Lib.Paging
import VmSim.Replacement.Victim
import VmSim.VirtualMemory.Basic

namespace VmSim

open Lib

/-- The pages of the processes in the frames of a memory. -/
@[ext]
structure PageFrames where
  frameCount : Nat
  content : Nat → Option (Nat × Nat)
  policy : ReplacementPolicy
  faults : Nat
  replacements : Nat

def PageFrames.fresh (policy : ReplacementPolicy) : PageFrames :=
  ⟨policy.frameCount, fun _ => none, policy, 0, 0⟩

/-- The frame of a page. -/
def PageFrames.find (s : PageFrames) (key : Nat × Nat) : Option Nat :=
  (List.range s.frameCount).find? fun f => decide (s.content f = some key)

/-- The first frame without a page. -/
def PageFrames.free (s : PageFrames) : Option Nat :=
  (List.range s.frameCount).find? fun f => (s.content f).isNone

/-- A page is loaded into a frame. -/
def PageFrames.put (s : PageFrames) (key : Nat × Nat) (f : Nat) (policy : ReplacementPolicy) :
    PageFrames :=
  { s with
    content := Function.update s.content f (some key)
    policy := replacementPolicyTick (replacementPolicyOnLoad policy f).2
    faults := increment s.faults }

def PageFrames.access (s : PageFrames) (key : Nat × Nat) : PageFrames :=
  match s.find key with
  | some f => { s with policy := replacementPolicyTick (replacementPolicyOnAccess s.policy f).2 }
  | none =>
    match s.free with
    | some f => s.put key f s.policy
    | none =>
      match replacementPolicyChooseVictim s.policy with
      | none => s
      | some (f, policy) =>
        { s.put key f (replacementPolicyOnEvict policy f).2 with
          replacements := increment s.replacements }

/-- The machine after some requests, the last one first. -/
def PageFrames.serve (s : PageFrames) : List (Nat × Nat) → PageFrames
  | [] => s
  | key :: keys => (s.serve keys).access key

variable {s s' : PageFrames} {key : Nat × Nat} {keys : List (Nat × Nat)} {f k n : Nat}
  {policy : ReplacementPolicy}

/-! ## The invariant -/

structure PageFrames.Wf (s : PageFrames) : Prop where
  pos : 0 < s.frameCount
  policy : s.policy.Wf
  count : s.policy.frameCount = s.frameCount
  loaded : ∀ f, s.policy.loaded f = (s.content f).isSome
  apart : ∀ f g key, s.content f = some key → s.content g = some key → f = g

theorem PageFrames.Wf.lt (h : s.Wf) (hf : s.content f = some key) : f < s.frameCount := by
  rw [← h.count]
  refine h.policy.lt ?_
  rw [h.loaded, hf]
  rfl

theorem PageFrames.free_some (hf : s.free = some f) :
    f < s.frameCount ∧ s.content f = none ∧ ∀ g < f, s.content g ≠ none := by
  have hfind := List.find?_range_eq_some.mp hf
  refine ⟨List.mem_range.mp hfind.2.1, Option.isNone_iff_eq_none.mp hfind.1, fun g hg hnone => ?_⟩
  have hbefore := hfind.2.2 g hg
  simp [hnone] at hbefore

theorem PageFrames.free_none (hfull : s.free = none) : ∀ f < s.frameCount, s.content f ≠ none := by
  intro f hf hnone
  have hall := List.find?_eq_none.mp hfull f (List.mem_range.mpr hf)
  simp [hnone] at hall

theorem PageFrames.Wf.find_some (h : s.Wf) (hf : s.content f = some key) : s.find key = some f := by
  refine List.find?_range_eq_some.mpr ⟨by simp [hf], List.mem_range.mpr (h.lt hf), fun g hg => ?_⟩
  have hne : s.content g ≠ some key := fun hsame => absurd (h.apart g f key hsame hf) (by omega)
  simp [hne]

theorem PageFrames.find_none (habsent : ∀ g, s.content g ≠ some key) : s.find key = none :=
  List.find?_eq_none.mpr fun g _ => by simp [habsent g]

/-! ## Requests -/

/-- What a request leaves: the page is there, or a frame was free, or a page
made room. -/
inductive PageFrames.Ends (s : PageFrames) (key : Nat × Nat) : PageFrames → Prop where
  | hit {f : Nat} (hf : s.content f = some key) :
      Ends s key { s with
        policy := replacementPolicyTick (replacementPolicyOnAccess s.policy f).2 }
  | load {f : Nat} (habsent : ∀ g, s.content g ≠ some key) (hfree : s.free = some f) :
      Ends s key (s.put key f s.policy)
  | replace {f : Nat} {old : Nat × Nat} {policy : ReplacementPolicy}
      (habsent : ∀ g, s.content g ≠ some key) (hfull : s.free = none)
      (hchoose : replacementPolicyChooseVictim s.policy = some (f, policy))
      (hold : s.content f = some old) :
      Ends s key { s.put key f (replacementPolicyOnEvict policy f).2 with
        replacements := increment s.replacements }

/-- A full memory has a page to replace. -/
theorem PageFrames.Wf.victim (h : s.Wf) (hfresh : s.policy.Fresh k) (hk : k + 1 < wordSize)
    (hfull : s.free = none) : ∃ f old policy,
      replacementPolicyChooseVictim s.policy = some (f, policy) ∧ s.content f = some old := by
  obtain ⟨f, policy, hchoose, hvictim, _⟩ := replacementPolicyChooseVictim_spec h.policy
  have hzero : s.policy.loaded 0 = true := by
    rw [h.loaded]
    exact Option.isSome_iff_ne_none.mpr (PageFrames.free_none hfull 0 h.pos)
  have hloaded := hvictim.resolve_left (h.policy.victim hfresh hk hzero hchoose)
  rw [h.loaded] at hloaded
  obtain ⟨old, hold⟩ := Option.isSome_iff_exists.mp hloaded
  exact ⟨f, old, policy, hchoose, hold⟩

theorem PageFrames.Wf.ends (h : s.Wf) (hfresh : s.policy.Fresh k) (hk : k + 1 < wordSize)
    (key : Nat × Nat) : s.Ends key (s.access key) := by
  unfold PageFrames.access
  by_cases hin : ∃ f, s.content f = some key
  · obtain ⟨f, hf⟩ := hin
    rw [h.find_some hf]
    exact .hit hf
  · have habsent : ∀ g, s.content g ≠ some key := fun g hg => hin ⟨g, hg⟩
    rw [PageFrames.find_none habsent]
    dsimp only
    cases hfree : s.free with
    | some f => exact .load habsent hfree
    | none =>
      obtain ⟨f, old, policy, hchoose, hold⟩ := h.victim hfresh hk hfree
      rw [hchoose]
      exact .replace habsent hfree hchoose hold

/-- The end of a request is what the machine computes. -/
theorem PageFrames.Ends.eq_access (hend : s.Ends key s') (h : s.Wf) : s' = s.access key := by
  unfold PageFrames.access
  cases hend with
  | hit hf => rw [h.find_some hf]
  | load habsent hfree => rw [PageFrames.find_none habsent, hfree]
  | replace habsent hfull hchoose hold => rw [PageFrames.find_none habsent, hfull, hchoose]

/-- A page that was absent is put into a frame that is not loaded. -/
theorem PageFrames.Wf.put (h : s.Wf) (hpolicy : policy.Wf)
    (hcount : policy.frameCount = s.frameCount) (hf : f < s.frameCount)
    (hloaded : policy.loaded = Function.update s.policy.loaded f false)
    (habsent : ∀ g, s.content g ≠ some key) : (s.put key f policy).Wf := by
  have hunloaded : policy.loaded f = false := by rw [hloaded, Function.update_self]
  have hload := replacementPolicyOnLoad_spec hpolicy (hcount ▸ hf) hunloaded
  have htick := replacementPolicyTick_spec hload.wf
  refine ⟨h.pos, htick.wf, htick.frameCount.trans (hload.frameCount.trans hcount), fun g => ?_, ?_⟩
  · show (replacementPolicyTick _).loaded g = (Function.update s.content f (some key) g).isSome
    rw [show (replacementPolicyTick _).loaded = _ from htick.loaded_eq, hload.loaded_eq, hloaded]
    by_cases e : g = f
    · simp [e]
    · rw [Function.update_of_ne e, Function.update_of_ne e, Function.update_of_ne e, h.loaded]
  · intro g g' key' hg hg'
    change Function.update s.content f (some key) g = some key' at hg
    change Function.update s.content f (some key) g' = some key' at hg'
    by_cases e : g = f <;> by_cases e' : g' = f
    · rw [e, e']
    · rw [e, Function.update_self] at hg
      rw [Function.update_of_ne e', ← hg] at hg'
      exact absurd hg' (habsent g')
    · rw [e', Function.update_self] at hg'
      rw [Function.update_of_ne e, ← hg'] at hg
      exact absurd hg (habsent g)
    · rw [Function.update_of_ne e] at hg
      rw [Function.update_of_ne e'] at hg'
      exact h.apart g g' key' hg hg'

theorem PageFrames.Wf.chosen (h : s.Wf)
    (hchoose : replacementPolicyChooseVictim s.policy = some (f, policy)) :
    s.policy.Did s.policy.loaded (0, policy) := by
  obtain ⟨f', policy', hchoose', _, hdid⟩ := replacementPolicyChooseVictim_spec h.policy
  rw [hchoose] at hchoose'
  cases hchoose'
  exact hdid

/-- The policy after the victim was told to go. -/
theorem PageFrames.Wf.evicted (h : s.Wf) {old : Nat × Nat}
    (hchoose : replacementPolicyChooseVictim s.policy = some (f, policy))
    (hold : s.content f = some old) :
    policy.Did (Function.update s.policy.loaded f false) (replacementPolicyOnEvict policy f) := by
  have hdid := h.chosen hchoose
  have hloaded : policy.loaded f = true := by
    rw [show policy.loaded = _ from hdid.loaded_eq, h.loaded, hold]
    rfl
  have hevict := replacementPolicyOnEvict_spec hdid.wf hloaded
  rwa [show policy.loaded = _ from hdid.loaded_eq] at hevict

theorem PageFrames.Ends.wf (hend : s.Ends key s') (h : s.Wf) : s'.Wf := by
  cases hend with
  | @hit f hf =>
    have hloaded : s.policy.loaded f = true := by
      rw [h.loaded, hf]
      rfl
    have haccess := replacementPolicyOnAccess_spec h.policy hloaded
    have htick := replacementPolicyTick_spec haccess.wf
    refine ⟨h.pos, htick.wf, htick.frameCount.trans (haccess.frameCount.trans h.count),
      fun g => ?_, h.apart⟩
    show (replacementPolicyTick _).loaded g = _
    rw [show (replacementPolicyTick _).loaded = _ from htick.loaded_eq, haccess.loaded_eq, h.loaded]
  | @load f habsent hfree =>
    obtain ⟨hlt, hnone, _⟩ := PageFrames.free_some hfree
    refine h.put h.policy h.count hlt ?_ habsent
    have hunloaded : s.policy.loaded f = false := by
      rw [h.loaded, hnone]
      rfl
    rw [← hunloaded, Function.update_eq_self]
  | replace habsent hfull hchoose hold =>
    have hevict := h.evicted hchoose hold
    have hput := h.put hevict.wf
      (hevict.frameCount.trans ((h.chosen hchoose).frameCount.trans h.count)) (h.lt hold)
      hevict.loaded_eq habsent
    exact ⟨hput.pos, hput.policy, hput.count, hput.loaded, hput.apart⟩

theorem PageFrames.Ends.fresh (hend : s.Ends key s') (hfresh : s.policy.Fresh k)
    (hk : k + 1 < wordSize) : s'.policy.Fresh (k + 1) := by
  cases hend with
  | hit hf => exact (hfresh.onAccess hk _).tick
  | load habsent hfree => exact (hfresh.onLoad hk _).tick
  | replace habsent hfull hchoose hold =>
    exact (((hfresh.chooseVictim hchoose).onEvict _).onLoad hk _).tick

theorem PageFrames.Ends.frameCount (hend : s.Ends key s') : s'.frameCount = s.frameCount := by
  cases hend <;> rfl

/-! ## Runs -/

theorem PageFrames.fresh_wf {type : ReplacementPolicyType} (hn : n < 2 ^ 32)
    (hcreate : replacementPolicyCreate type n = some policy) : (PageFrames.fresh policy).Wf := by
  obtain ⟨hwf, hcount, hloaded⟩ := replacementPolicyCreate_spec hcreate hn
  refine ⟨?_, hwf, rfl, fun f => ?_, fun f g key hf => by cases hf⟩
  · unfold replacementPolicyCreate at hcreate
    split at hcreate
    · cases hcreate
    · rename_i hpos
      show 0 < policy.frameCount
      rw [hcount]
      exact Nat.pos_of_ne_zero hpos
  · show policy.loaded f = _
    rw [hloaded]
    rfl

/-- The machine after requests that the clock of the policy can count. -/
theorem PageFrames.served {type : ReplacementPolicyType} (hn : n < 2 ^ 32)
    (hcreate : replacementPolicyCreate type n = some policy) (hlt : keys.length < wordSize) :
    ((PageFrames.fresh policy).serve keys).Wf ∧
      ((PageFrames.fresh policy).serve keys).policy.Fresh keys.length ∧
      ((PageFrames.fresh policy).serve keys).frameCount = n := by
  induction keys with
  | nil =>
    exact ⟨PageFrames.fresh_wf hn hcreate, replacementPolicyCreate_fresh hcreate,
      (replacementPolicyCreate_spec hcreate hn).2.1⟩
  | cons key keys ih =>
    obtain ⟨hwf, hfresh, hcount⟩ := ih (Nat.lt_of_succ_lt hlt)
    have hend := hwf.ends hfresh hlt key
    exact ⟨hend.wf hwf, hend.fresh hfresh hlt, hend.frameCount.trans hcount⟩

/-! ## Demand paging -/

/-- The pages in memory. -/
def PageFrames.resident (s : PageFrames) : Finset (Nat × Nat) :=
  ((List.range s.frameCount).filterMap s.content).toFinset

theorem PageFrames.Wf.mem_resident (h : s.Wf) : key ∈ s.resident ↔ ∃ f, s.content f = some key := by
  rw [PageFrames.resident, List.mem_toFinset, List.mem_filterMap]
  constructor
  · rintro ⟨f, _, hf⟩
    exact ⟨f, hf⟩
  · rintro ⟨f, hf⟩
    exact ⟨f, List.mem_range.mpr (h.lt hf), hf⟩

theorem PageFrames.Wf.card_resident (h : s.Wf) :
    s.resident.card = (List.range s.frameCount).countP fun f => (s.content f).isSome := by
  have hnodup : ((List.range s.frameCount).filterMap s.content).Nodup :=
    List.Nodup.filterMap (fun f g key hf hg => h.apart f g key hf hg) List.nodup_range
  rw [PageFrames.resident, List.toFinset_card_of_nodup hnodup, List.length_filterMap_eq_countP]

theorem PageFrames.Wf.resident_full (h : s.Wf) (hfull : s.free = none) :
    s.resident.card = s.frameCount := by
  rw [h.card_resident, List.countP_eq_length.mpr, List.length_range]
  intro f hf
  exact Option.isSome_iff_ne_none.mpr (PageFrames.free_none hfull f (List.mem_range.mp hf))

theorem PageFrames.Wf.resident_room (h : s.Wf) (hfree : s.free = some f) :
    s.resident.card < s.frameCount := by
  obtain ⟨hlt, hnone, _⟩ := PageFrames.free_some hfree
  have hle := List.countP_le_length (p := fun f => (s.content f).isSome)
    (l := List.range s.frameCount)
  rw [h.card_resident]
  rw [List.length_range] at hle
  refine Nat.lt_of_le_of_ne hle fun heq => ?_
  have hall := List.countP_eq_length.mp (heq.trans List.length_range.symm) f (List.mem_range.mpr hlt)
  rw [hnone] at hall
  cases hall

/-- A page is put into a frame. -/
theorem PageFrames.Wf.mem_resident_put (h' : s'.Wf)
    (hcontent : s'.content = Function.update s.content f (some key)) {key' : Nat × Nat} :
    key' ∈ s'.resident ↔ key' = key ∨ ∃ g, g ≠ f ∧ s.content g = some key' := by
  rw [h'.mem_resident, hcontent]
  constructor
  · rintro ⟨g, hg⟩
    by_cases e : g = f
    · rw [e, Function.update_self] at hg
      exact .inl (Option.some.inj hg).symm
    · rw [Function.update_of_ne e] at hg
      exact .inr ⟨g, e, hg⟩
  · rintro (rfl | ⟨g, e, hg⟩)
    · exact ⟨f, Function.update_self _ _ _⟩
    · exact ⟨g, (Function.update_of_ne e _ _).trans hg⟩

theorem PageFrames.Wf.resident_load (h : s.Wf) (h' : s'.Wf) (hnone : s.content f = none)
    (hcontent : s'.content = Function.update s.content f (some key)) :
    s'.resident = insert key s.resident := by
  ext key'
  rw [h'.mem_resident_put hcontent, Finset.mem_insert, h.mem_resident]
  refine or_congr_right ⟨fun ⟨g, _, hg⟩ => ⟨g, hg⟩, fun ⟨g, hg⟩ => ⟨g, ?_, hg⟩⟩
  rintro rfl
  rw [hnone] at hg
  cases hg

theorem PageFrames.Wf.resident_replace (h : s.Wf) (h' : s'.Wf) {old : Nat × Nat}
    (hold : s.content f = some old)
    (hcontent : s'.content = Function.update s.content f (some key)) :
    s'.resident = insert key (s.resident.erase old) := by
  ext key'
  rw [h'.mem_resident_put hcontent, Finset.mem_insert, Finset.mem_erase, h.mem_resident]
  refine or_congr_right ⟨fun ⟨g, e, hg⟩ => ⟨?_, g, hg⟩, fun ⟨hne, g, hg⟩ => ⟨g, ?_, hg⟩⟩
  · rintro rfl
    exact e (h.apart g f _ hg hold)
  · rintro rfl
    rw [hold] at hg
    exact hne (Option.some.inj hg).symm

/-- A request, as demand paging sees it. -/
theorem PageFrames.Ends.paged (hend : s.Ends key s') (h : s.Wf) (hcount : s.frameCount = n)
    (hp : Paged n keys s.resident s.faults) (hfaults : s.faults = s.replacements + s.resident.card)
    (hlt : s.faults + 1 < wordSize) : Paged n (key :: keys) s'.resident s'.faults ∧
      s'.faults = s'.replacements + s'.resident.card := by
  have hwf := hend.wf h
  have hone : increment s.faults = s.faults + 1 := Nat.mod_eq_of_lt hlt
  cases hend with
  | hit hf => exact ⟨hp.hit (h.mem_resident.mpr ⟨_, hf⟩), hfaults⟩
  | @load f habsent hfree =>
    have hnot : key ∉ s.resident := fun hin => (h.mem_resident.mp hin).elim habsent
    have hroom := h.resident_room hfree
    obtain ⟨_, hnone, _⟩ := PageFrames.free_some hfree
    rw [h.resident_load hwf hnone rfl]
    show Paged n (key :: keys) (insert key s.resident) (increment s.faults) ∧
      increment s.faults = s.replacements + (insert key s.resident).card
    rw [hone, Finset.card_insert_of_notMem hnot]
    exact ⟨hp.load hnot (hcount ▸ hroom), by omega⟩
  | @replace f old policy habsent hfull hchoose hold =>
    have hnot : key ∉ s.resident := fun hin => (h.mem_resident.mp hin).elim habsent
    have hcard := h.resident_full hfull
    have hmem : old ∈ s.resident := h.mem_resident.mpr ⟨f, hold⟩
    have htwo : increment s.replacements = s.replacements + 1 := Nat.mod_eq_of_lt (by omega)
    rw [h.resident_replace hwf hold rfl]
    show Paged n (key :: keys) (insert key (s.resident.erase old)) (increment s.faults) ∧
      increment s.faults = increment s.replacements + (insert key (s.resident.erase old)).card
    rw [hone, htwo, card_insert_erase hnot hmem]
    exact ⟨hp.replace hnot (hcard.trans hcount) hmem, by omega⟩

/-- **Demand paging**: the machine loads a page only when it is requested,
and gives up a page only when all frames are taken. -/
theorem PageFrames.served_paged {type : ReplacementPolicyType} (hn : n < 2 ^ 32)
    (hcreate : replacementPolicyCreate type n = some policy) (hlt : keys.length < wordSize) :
    Paged n keys ((PageFrames.fresh policy).serve keys).resident
        ((PageFrames.fresh policy).serve keys).faults ∧
      ((PageFrames.fresh policy).serve keys).faults =
        ((PageFrames.fresh policy).serve keys).replacements +
          ((PageFrames.fresh policy).serve keys).resident.card := by
  induction keys with
  | nil =>
    have hempty : (PageFrames.fresh policy).resident = ∅ := by
      simp [PageFrames.resident, PageFrames.fresh]
    show Paged n [] (PageFrames.fresh policy).resident 0 ∧
      0 = 0 + (PageFrames.fresh policy).resident.card
    rw [hempty]
    exact ⟨.start, rfl⟩
  | cons key keys ih =>
    obtain ⟨hp, hfaults⟩ := ih (Nat.lt_of_succ_lt hlt)
    obtain ⟨hwf, hfresh, hcount⟩ := PageFrames.served hn hcreate (Nat.lt_of_succ_lt hlt)
    have hend := hwf.ends hfresh hlt key
    have hle := hp.faults_le
    exact hend.paged hwf hcount hp hfaults (Nat.lt_of_le_of_lt (Nat.succ_le_succ hle) hlt)

/-- Only the requests for absent pages are faults. -/
theorem PageFrames.Ends.faults (hend : s.Ends key s') (h : s.Wf) :
    s'.faults = if key ∈ s.resident then s.faults else increment s.faults := by
  cases hend with
  | hit hf => exact (if_pos (h.mem_resident.mpr ⟨_, hf⟩)).symm
  | load habsent hfree => exact (if_neg fun hin => (h.mem_resident.mp hin).elim habsent).symm
  | replace habsent hfull hchoose hold =>
    exact (if_neg fun hin => (h.mem_resident.mp hin).elim habsent).symm

/-- The pages in memory determine the faults. -/
theorem PageFrames.served_faults {type : ReplacementPolicyType} (hn : n < 2 ^ 32)
    (hcreate : replacementPolicyCreate type n = some policy)
    {resident : List (Nat × Nat) → Finset (Nat × Nat)}
    (hresident : ∀ keys : List (Nat × Nat), keys.length < wordSize →
      ((PageFrames.fresh policy).serve keys).resident = resident keys)
    (hlt : keys.length < wordSize) :
    ((PageFrames.fresh policy).serve keys).faults = faultsOf resident keys := by
  induction keys with
  | nil => rfl
  | cons key keys ih =>
    have hlt' := Nat.lt_of_succ_lt hlt
    obtain ⟨hwf, hfresh, _⟩ := PageFrames.served hn hcreate hlt'
    have hle := (PageFrames.served_paged hn hcreate hlt').1.faults_le
    have hone : increment ((PageFrames.fresh policy).serve keys).faults =
        ((PageFrames.fresh policy).serve keys).faults + 1 :=
      Nat.mod_eq_of_lt (Nat.lt_of_le_of_lt (Nat.succ_le_succ hle) hlt)
    have hfaults := (hwf.ends hfresh hlt key).faults hwf
    rw [hone, hresident keys hlt', ih hlt'] at hfaults
    rw [PageFrames.serve, hfaults, faultsOf]
    split <;> rfl

end VmSim
