/-
VmSim.Replacement.FifoArray — the FIFO policy on its array
(`src/replacement/fifo.c`).

`FifoState` keeps the queue as a list. Here it is the array of the
source, searched and shifted slot by slot, and every operation on the
array is shown to be the one on the list (`FifoArray.Lists`). Over whole
runs the queue is the list of the loaded frames in the order in which
they were loaded.
-/
import VmSim.Replacement.Calls

namespace VmSim

open Lib

structure FifoArray where
  queue : Nat → Nat
  loaded : Nat → Bool
  size : Nat

def FifoArray.create : FifoArray := ⟨fun _ => 0, fun _ => false, 0⟩

def FifoArray.onLoad (frameCount : Nat) (state : FifoArray) (frameNumber : Nat) :
    Int × FifoArray :=
  if state.loaded frameNumber then (0, state)
  else if state.size ≥ frameCount then (-1, state)
  else (0, {
    queue := Function.update state.queue state.size frameNumber
    loaded := Function.update state.loaded frameNumber true
    size := state.size + 1 })

def FifoArray.onAccess (state : FifoArray) (frameNumber : Nat) : Int × FifoArray :=
  (if state.loaded frameNumber then 0 else -1, state)

/-- The loop that looks for the position of a frame; `size` if it is not
in the queue. -/
def FifoArray.position (state : FifoArray) (frameNumber : Nat) : Nat :=
  ((List.range state.size).find? fun index => state.queue index == frameNumber).getD state.size

/-- The loop that closes the gap at `position`. -/
def FifoArray.shifted (state : FifoArray) (position : Nat) : Nat → Nat :=
  (List.range' position (state.size - 1 - position)).foldl
    (fun queue index => Function.update queue index (queue (index + 1))) state.queue

def FifoArray.onEvict (state : FifoArray) (frameNumber : Nat) : Int × FifoArray :=
  if !state.loaded frameNumber then (-1, state)
  else if state.position frameNumber = state.size then (-1, state)
  else (0, {
    queue := state.shifted (state.position frameNumber)
    loaded := Function.update state.loaded frameNumber false
    size := state.size - 1 })

def FifoArray.chooseVictim (state : FifoArray) : Nat × FifoArray :=
  if state.size = 0 then (replacementInvalidFrame, state)
  else (state.queue 0, state)

/-- The calls of the interface, on valid frames. -/
def FifoArray.step (frameCount : Nat) (state : FifoArray) :
    PolicyCall → Option (PolicyReply × FifoArray)
  | .onLoad f => some (.code (state.onLoad frameCount f).1, (state.onLoad frameCount f).2)
  | .onAccess f => some (.code (state.onAccess f).1, (state.onAccess f).2)
  | .onEvict f => some (.code (state.onEvict f).1, (state.onEvict f).2)
  | .chooseVictim => some (.frame state.chooseVictim.1, state.chooseVictim.2)

/-! ## The array holds the list -/

structure FifoArray.Lists (state : FifoArray) (list : FifoState) : Prop where
  queue : (List.range state.size).map state.queue = list.queue
  loaded : state.loaded = list.loaded

variable {frameCount : Nat} {state : FifoArray} {list : FifoState}

theorem FifoArray.create_lists : FifoArray.create.Lists fifoCreate := ⟨rfl, rfl⟩

theorem FifoArray.Lists.length (h : state.Lists list) : list.queue.length = state.size := by
  rw [← h.queue, List.length_map, List.length_range]

theorem FifoArray.Lists.onLoad (h : state.Lists list) (f : Nat) :
    (state.onLoad frameCount f).1 = (fifoOnLoad frameCount list f).1 ∧
      (state.onLoad frameCount f).2.Lists (fifoOnLoad frameCount list f).2 := by
  unfold FifoArray.onLoad fifoOnLoad
  rw [h.loaded, h.length]
  split
  · exact ⟨rfl, h⟩
  split
  · exact ⟨rfl, h⟩
  refine ⟨rfl, ?_, rfl⟩
  show (List.range (state.size + 1)).map (Function.update state.queue state.size f) = _
  have hfront : (List.range state.size).map (Function.update state.queue state.size f) =
      list.queue := by
    rw [← h.queue]
    refine List.map_congr_left fun i hi => ?_
    exact Function.update_of_ne (Nat.ne_of_lt (List.mem_range.mp hi)) _ _
  rw [List.range_succ, List.map_append, hfront, List.map_singleton, Function.update_self]

theorem FifoArray.Lists.onAccess (h : state.Lists list) (f : Nat) :
    (state.onAccess f).1 = (fifoOnAccess list f).1 ∧
      (state.onAccess f).2.Lists (fifoOnAccess list f).2 := by
  unfold FifoArray.onAccess fifoOnAccess
  rw [h.loaded]
  exact ⟨rfl, h⟩

/-- What the shifting loop leaves in a slot: it reads a slot before it
writes it. -/
theorem FifoArray.shifted_fold (queue : Nat → Nat) (position n i : Nat) :
    (List.range' position n).foldl
      (fun queue index => Function.update queue index (queue (index + 1))) queue i =
        if position ≤ i ∧ i < position + n then queue (i + 1) else queue i := by
  induction n generalizing i with
  | zero => simp
  | succ n ih =>
    rw [List.range'_1_concat, List.foldl_append, List.foldl_cons, List.foldl_nil]
    by_cases e : i = position + n
    · subst e
      rw [Function.update_self, ih, if_neg (by omega), if_pos (by omega)]
    · rw [Function.update_of_ne e, ih]
      by_cases hi : position ≤ i ∧ i < position + n
      · rw [if_pos hi, if_pos (by omega)]
      · rw [if_neg hi, if_neg (by omega)]

/-- The searching loop finds what a search in the list finds. -/
theorem FifoArray.Lists.findIdx (h : state.Lists list) (f : Nat) :
    list.queue.findIdx? (· == f) =
      (List.range state.size).find? fun index => state.queue index == f := by
  refine Option.ext fun i => ?_
  rw [← h.queue, List.findIdx?_eq_some_iff_getElem, List.find?_range_eq_some]
  simp

theorem FifoArray.Lists.shifted (h : state.Lists list) {position : Nat}
    (hpos : position < state.size) :
    (List.range (state.size - 1)).map (state.shifted position) = list.queue.eraseIdx position := by
  have hlen := h.length
  refine List.ext_getElem ?_ fun i hi _ => ?_
  · rw [List.length_map, List.length_range, List.length_eraseIdx_of_lt (by omega), hlen]
  · simp only [List.length_map, List.length_range] at hi
    rw [List.getElem_map, List.getElem_range, List.getElem_eraseIdx, FifoArray.shifted,
      FifoArray.shifted_fold]
    simp only [← h.queue, List.getElem_map, List.getElem_range]
    by_cases hlt : i < position
    · rw [dif_pos hlt, if_neg (by omega)]
    · rw [dif_neg hlt, if_pos (by omega)]

theorem FifoArray.Lists.onEvict (h : state.Lists list) (f : Nat) :
    (state.onEvict f).1 = (fifoOnEvict list f).1 ∧
      (state.onEvict f).2.Lists (fifoOnEvict list f).2 := by
  unfold FifoArray.onEvict fifoOnEvict FifoArray.position
  rw [h.loaded, h.findIdx]
  split
  · exact ⟨rfl, h⟩
  cases hfind : (List.range state.size).find? fun index => state.queue index == f with
  | none =>
    rw [Option.getD_none, if_pos rfl]
    exact ⟨rfl, h⟩
  | some position =>
    have hlt : position < state.size := by
      have hmem := List.mem_of_find?_eq_some hfind
      exact List.mem_range.mp hmem
    rw [Option.getD_some, if_neg (Nat.ne_of_lt hlt)]
    exact ⟨rfl, h.shifted hlt, rfl⟩

theorem FifoArray.Lists.chooseVictim (h : state.Lists list) :
    state.chooseVictim.1 = (fifoChooseVictim list).1 ∧
      state.chooseVictim.2.Lists (fifoChooseVictim list).2 := by
  unfold FifoArray.chooseVictim fifoChooseVictim
  rw [← h.queue]
  split
  · rename_i hsize
    exact ⟨by rw [hsize]; rfl, h⟩
  · rename_i hsize
    obtain ⟨n, hn⟩ := Nat.exists_eq_succ_of_ne_zero hsize
    exact ⟨by rw [hn, List.range_succ_eq_map]; rfl, h⟩

/-! ## The order of the queue -/

/-- `f` came into memory before `g`, and both are there. -/
def Earlier (history : List (PolicyCall × PolicyReply)) (f g : Nat) : Prop :=
  ∃ time time', loadedAt f history = some time ∧ loadedAt g history = some time' ∧ time < time'

/-- The queue lists what the history has left in memory, in its order. -/
structure FifoState.InOrder (frameCount : Nat) (history : List (PolicyCall × PolicyReply))
    (list : FifoState) : Prop where
  wf : list.Wf frameCount
  loaded : ∀ f, list.loaded f = (loadedAt f history).isSome
  sorted : list.queue.Pairwise (Earlier history)

variable {history : List (PolicyCall × PolicyReply)}

theorem fifoCreate_inOrder (frameCount : Nat) : fifoCreate.InOrder frameCount [] :=
  ⟨fifoCreate_wf frameCount, fun _ => rfl, List.Pairwise.nil⟩

theorem Earlier.next {f g : Nat} (h : Earlier history f g) {entry : PolicyCall × PolicyReply}
    (hf : loadedAt f (entry :: history) = loadedAt f history)
    (hg : loadedAt g (entry :: history) = loadedAt g history) : Earlier (entry :: history) f g := by
  obtain ⟨time, time', htime, htime', hlt⟩ := h
  exact ⟨time, time', hf.trans htime, hg.trans htime', hlt⟩

/-- A call that changes neither the queue nor the times of its frames. -/
theorem FifoState.InOrder.same (h : list.InOrder frameCount history)
    {entry : PolicyCall × PolicyReply}
    (htime : ∀ f, loadedAt f (entry :: history) = loadedAt f history) :
    list.InOrder frameCount (entry :: history) := by
  refine ⟨h.wf, fun f => ?_, h.sorted.imp fun hearlier => hearlier.next (htime _) (htime _)⟩
  rw [htime, h.loaded]

theorem FifoState.InOrder.time_none (h : list.InOrder frameCount history) {f : Nat}
    (hl : list.loaded f = false) : loadedAt f history = none := by
  rw [h.loaded f] at hl
  exact Option.not_isSome_iff_eq_none.mp (Bool.eq_false_iff.mp hl)

theorem FifoState.InOrder.time_some (h : list.InOrder frameCount history) {f : Nat}
    (hl : list.loaded f = true) : ∃ time, loadedAt f history = some time := by
  rw [h.loaded f] at hl
  exact Option.isSome_iff_exists.mp hl

theorem FifoState.InOrder.ne_of_mem (h : list.InOrder frameCount history) {f g : Nat}
    (hl : list.loaded f = false) (hg : g ∈ list.queue) : f ≠ g := by
  rintro rfl
  rw [(h.wf.mem_iff f).mp hg] at hl
  cases hl

theorem FifoState.InOrder.onLoad (h : list.InOrder frameCount history) {f : Nat}
    (hf : f < frameCount) (reply : PolicyReply) :
    (fifoOnLoad frameCount list f).2.InOrder frameCount ((.onLoad f, reply) :: history) := by
  have hother : ∀ g, f ≠ g → loadedAt g ((.onLoad f, reply) :: history) = loadedAt g history := by
    intro g hne
    simp [loadedAt, hne]
  cases hl : list.loaded f with
  | true =>
    obtain ⟨time, htime⟩ := h.time_some hl
    simp only [fifoOnLoad, hl, if_true]
    refine h.same fun g => ?_
    by_cases e : f = g
    · simp [loadedAt, ← e, htime]
    · exact hother g e
  | false =>
    obtain ⟨_, hwf, hloaded⟩ := fifoOnLoad_spec h.wf hf hl
    have hnew : loadedAt f ((.onLoad f, reply) :: history) = some history.length := by
      simp [loadedAt, h.time_none hl]
    have hroom : ¬ list.queue.length ≥ frameCount := Nat.not_le.mpr (h.wf.length_lt hf hl)
    have hqueue : (fifoOnLoad frameCount list f).2.queue = list.queue ++ [f] := by
      simp [fifoOnLoad, hl, hroom]
    refine ⟨hwf, fun g => ?_, ?_⟩
    · rw [hloaded]
      by_cases e : f = g
      · rw [← e, hnew, Function.update_self]
        rfl
      · rw [hother g e, Function.update_of_ne (Ne.symm e), h.loaded]
    · rw [hqueue, List.pairwise_append]
      refine ⟨?_, List.pairwise_singleton _ f, fun g hg g' hg' => ?_⟩
      · refine h.sorted.imp_of_mem fun hg hg' hearlier => ?_
        exact hearlier.next (hother _ (h.ne_of_mem hl hg)) (hother _ (h.ne_of_mem hl hg'))
      · rw [List.mem_singleton.mp hg']
        obtain ⟨time, htime⟩ := h.time_some ((h.wf.mem_iff g).mp hg)
        refine ⟨time, history.length, ?_, hnew, loadedAt_lt htime⟩
        rw [hother g (h.ne_of_mem hl hg), htime]

theorem FifoState.InOrder.onEvict (h : list.InOrder frameCount history) (f : Nat)
    (reply : PolicyReply) :
    (fifoOnEvict list f).2.InOrder frameCount ((.onEvict f, reply) :: history) := by
  have hother : ∀ g, f ≠ g → loadedAt g ((.onEvict f, reply) :: history) = loadedAt g history := by
    intro g hne
    simp [loadedAt, hne]
  have hgone : loadedAt f ((.onEvict f, reply) :: history) = none := by
    simp [loadedAt]
  cases hl : list.loaded f with
  | false =>
    simp only [fifoOnEvict, hl, Bool.not_false, if_true]
    refine h.same fun g => ?_
    by_cases e : f = g
    · rw [← e, hgone, h.time_none hl]
    · exact hother g e
  | true =>
    obtain ⟨_, hwf, hloaded⟩ := fifoOnEvict_spec h.wf hl
    have hsub : (fifoOnEvict list f).2.queue.Sublist list.queue := by
      simp only [fifoOnEvict, hl, Bool.not_true, Bool.false_eq_true, if_false]
      split
      · exact List.Sublist.refl _
      · exact List.eraseIdx_sublist _ _
    have hnew : (fifoOnEvict list f).2.loaded f = false := by
      rw [hloaded, Function.update_self]
    have hne : ∀ {g}, g ∈ (fifoOnEvict list f).2.queue → f ≠ g := by
      rintro g hg rfl
      rw [(hwf.mem_iff f).mp hg] at hnew
      cases hnew
    refine ⟨hwf, fun g => ?_, ?_⟩
    · rw [hloaded]
      by_cases e : f = g
      · rw [← e, hgone, Function.update_self]
        rfl
      · rw [hother g e, Function.update_of_ne (Ne.symm e), h.loaded]
    · refine (h.sorted.sublist hsub).imp_of_mem fun hg hg' hearlier => ?_
      exact hearlier.next (hother _ (hne hg)) (hother _ (hne hg'))

/-! ## Runs on the array -/

/-- The array holds a queue in the order of the history. -/
def FifoArray.InOrder (frameCount : Nat) (history : List (PolicyCall × PolicyReply))
    (state : FifoArray) : Prop :=
  ∃ list, state.Lists list ∧ list.InOrder frameCount history

/-- The array answers the calls of the interface as the list does. -/
theorem FifoArray.Lists.step (h : state.Lists list) {call : PolicyCall}
    (hvalid : call.Valid frameCount) {reply : PolicyReply} {state' : FifoArray}
    (hstep : FifoArray.step frameCount state call = some (reply, state')) :
    ∃ list', ReplacementPolicy.step ⟨frameCount, .fifo list⟩ call =
      some (reply, ⟨frameCount, .fifo list'⟩) ∧ state'.Lists list' := by
  cases call with
  | onLoad f =>
    have hf : f < frameCount := hvalid
    cases hstep
    refine ⟨_, ?_, (h.onLoad f).2⟩
    simp only [ReplacementPolicy.step, replacementPolicyOnLoad, if_pos hf, (h.onLoad f).1,
      ReplacementPolicy.wrap]
  | onAccess f =>
    have hf : f < frameCount := hvalid
    obtain ⟨hcode, hlists⟩ := h.onAccess f
    cases hstep
    refine ⟨_, ?_, hlists⟩
    simp only [ReplacementPolicy.step, replacementPolicyOnAccess, if_pos hf, hcode,
      ReplacementPolicy.wrap]
  | onEvict f =>
    have hf : f < frameCount := hvalid
    obtain ⟨hcode, hlists⟩ := h.onEvict f
    cases hstep
    refine ⟨_, ?_, hlists⟩
    simp only [ReplacementPolicy.step, replacementPolicyOnEvict, if_pos hf, hcode,
      ReplacementPolicy.wrap]
  | chooseVictim =>
    obtain ⟨hvictim, hlists⟩ := h.chooseVictim
    cases hstep
    refine ⟨_, ?_, hlists⟩
    simp only [ReplacementPolicy.step, replacementPolicyChooseVictim, Option.map_some, hvictim]
    rfl

/-- What a call of the interface does to the order of the queue. -/
theorem FifoState.InOrder.step (h : list.InOrder frameCount history) {call : PolicyCall}
    (hvalid : call.Valid frameCount) {reply : PolicyReply} {list' : FifoState}
    (hstep : ReplacementPolicy.step ⟨frameCount, .fifo list⟩ call =
      some (reply, ⟨frameCount, .fifo list'⟩)) :
    list'.InOrder frameCount ((call, reply) :: history) := by
  cases call with
  | onLoad f =>
    have hf : f < frameCount := hvalid
    simp only [ReplacementPolicy.step, replacementPolicyOnLoad, if_pos hf] at hstep
    cases hstep
    exact h.onLoad hvalid _
  | onAccess f =>
    have hf : f < frameCount := hvalid
    simp only [ReplacementPolicy.step, replacementPolicyOnAccess, if_pos hf] at hstep
    cases hstep
    exact h.same fun _ => rfl
  | onEvict f =>
    have hf : f < frameCount := hvalid
    simp only [ReplacementPolicy.step, replacementPolicyOnEvict, if_pos hf] at hstep
    cases hstep
    exact h.onEvict f _
  | chooseVictim =>
    cases hstep
    exact h.same fun _ => rfl

theorem FifoArray.InOrder.step (h : state.InOrder frameCount history) {call : PolicyCall}
    (hvalid : call.Valid frameCount) {reply : PolicyReply} {state' : FifoArray}
    (hstep : FifoArray.step frameCount state call = some (reply, state')) :
    state'.InOrder frameCount ((call, reply) :: history) := by
  obtain ⟨list, hlists, horder⟩ := h
  obtain ⟨list', hstep', hlists'⟩ := hlists.step hvalid hstep
  exact ⟨list', hlists', horder.step hvalid hstep'⟩

theorem fifoArray_run (hrun : Run (FifoArray.step frameCount)
    (fun _ call => call.Valid frameCount) .create history state) :
    state.InOrder frameCount history := by
  refine Run.invariant (fun history state => state.InOrder frameCount history) ?_ ?_ hrun
  · exact ⟨_, FifoArray.create_lists, fifoCreate_inOrder frameCount⟩
  · intro history state call reply state' h hvalid hstep
    exact h.step hvalid hstep

theorem FifoArray.Lists.mem_iff (h : state.Lists list) (f : Nat) :
    f ∈ list.queue ↔ ∃ i < state.size, state.queue i = f := by
  rw [← h.queue]
  simp

theorem FifoArray.InOrder.loaded (h : state.InOrder frameCount history) (f : Nat) :
    state.loaded f = (loadedAt f history).isSome := by
  obtain ⟨list, hlists, horder⟩ := h
  rw [hlists.loaded, horder.loaded]

theorem FifoArray.InOrder.loaded_iff (h : state.InOrder frameCount history) (f : Nat) :
    state.loaded f = true ↔ ∃ i < state.size, state.queue i = f := by
  obtain ⟨list, hlists, horder⟩ := h
  rw [hlists.loaded, ← horder.wf.mem_iff, hlists.mem_iff]

theorem FifoArray.InOrder.lt (h : state.InOrder frameCount history) {f : Nat}
    (hl : state.loaded f = true) : f < frameCount := by
  obtain ⟨list, hlists, horder⟩ := h
  rw [hlists.loaded] at hl
  exact horder.wf.lt f hl

theorem FifoArray.InOrder.earlier (h : state.InOrder frameCount history) {i j : Nat} (hij : i < j)
    (hj : j < state.size) : Earlier history (state.queue i) (state.queue j) := by
  obtain ⟨list, hlists, horder⟩ := h
  have hlen := hlists.length
  have hi : i < state.size := by omega
  have hpair := List.pairwise_iff_getElem.mp horder.sorted i j (by omega) (by omega) hij
  simpa only [← hlists.queue, List.getElem_map, List.getElem_range] using hpair

theorem FifoArray.InOrder.injective (h : state.InOrder frameCount history) {i j : Nat}
    (hi : i < state.size) (hj : j < state.size) (he : state.queue i = state.queue j) : i = j := by
  have hirrefl : ∀ f, ¬ Earlier history f f := by
    rintro f ⟨time, time', htime, htime', hlt⟩
    rw [htime] at htime'
    cases htime'
    exact Nat.lt_irrefl _ hlt
  rcases Nat.lt_trichotomy i j with hlt | heq | hlt
  · exact absurd (he ▸ h.earlier hlt hj) (hirrefl _)
  · exact heq
  · exact absurd (he ▸ h.earlier hlt hi) (hirrefl _)

theorem FifoArray.InOrder.size_le (h : state.InOrder frameCount history) :
    state.size ≤ frameCount := by
  obtain ⟨list, hlists, horder⟩ := h
  have hsub : list.queue ⊆ List.range frameCount := by
    intro f hf
    exact List.mem_range.mpr (horder.wf.lt f ((horder.wf.mem_iff f).mp hf))
  have hlen := (List.subperm_of_subset horder.wf.nodup hsub).length_le
  rw [hlists.length, List.length_range] at hlen
  exact hlen

theorem FifoArray.InOrder.size_lt (h : state.InOrder frameCount history) {f : Nat}
    (hf : f < frameCount) (hl : state.loaded f = false) : state.size < frameCount := by
  obtain ⟨list, hlists, horder⟩ := h
  rw [← hlists.length]
  exact horder.wf.length_lt hf (hlists.loaded ▸ hl)

theorem FifoArray.InOrder.onEvict_code (h : state.InOrder frameCount history) {f : Nat}
    (hl : state.loaded f = true) : (state.onEvict f).1 = 0 := by
  obtain ⟨list, hlists, horder⟩ := h
  rw [(hlists.onEvict f).1]
  exact (fifoOnEvict_spec horder.wf (hlists.loaded ▸ hl)).1

theorem FifoArray.onLoad_loaded {f : Nat} (hl : state.loaded f = true) :
    state.onLoad frameCount f = (0, state) := by
  simp [FifoArray.onLoad, hl]

theorem FifoArray.onEvict_unloaded {f : Nat} (hl : state.loaded f = false) :
    state.onEvict f = (-1, state) := by
  simp [FifoArray.onEvict, hl]

theorem FifoArray.chooseVictim_same : state.chooseVictim.2 = state := by
  unfold FifoArray.chooseVictim
  split <;> rfl

theorem FifoArray.chooseVictim_head (h : 0 < state.size) :
    state.chooseVictim.1 = state.queue 0 := by
  rw [FifoArray.chooseVictim, if_neg (Nat.ne_of_gt h)]

/-- The head of the queue is the victim, and the rest came later. -/
theorem FifoArray.InOrder.chooseVictim_first (h : state.InOrder frameCount history) {f : Nat}
    (hl : state.loaded f = true) : state.loaded state.chooseVictim.1 = true ∧
      (state.chooseVictim.1 = f ∨ Earlier history state.chooseVictim.1 f) := by
  obtain ⟨i, hi, hslot⟩ := (h.loaded_iff f).mp hl
  have hpos : 0 < state.size := by omega
  rw [FifoArray.chooseVictim_head hpos]
  refine ⟨(h.loaded_iff _).mpr ⟨0, hpos, rfl⟩, ?_⟩
  rcases Nat.eq_zero_or_pos i with hzero | hi'
  · rw [hzero] at hslot
    exact Or.inl hslot
  · rw [← hslot]
    exact Or.inr (h.earlier hi' hi)

theorem FifoArray.InOrder.chooseVictim_invalid (h : state.InOrder frameCount history)
    (hn : frameCount < 2 ^ 32) :
    state.chooseVictim.1 = replacementInvalidFrame ↔ ∀ f, state.loaded f = false := by
  constructor
  · intro hinvalid f
    cases hl : state.loaded f with
    | false => rfl
    | true =>
      have hvictim := h.lt (h.chooseVictim_first hl).1
      rw [hinvalid, replacementInvalidFrame] at hvictim
      omega
  · intro hnone
    unfold FifoArray.chooseVictim
    split
    · rfl
    · rename_i hsize
      have hhead := (h.loaded_iff (state.queue 0)).mpr ⟨0, Nat.pos_of_ne_zero hsize, rfl⟩
      rw [hnone] at hhead
      cases hhead

end VmSim
