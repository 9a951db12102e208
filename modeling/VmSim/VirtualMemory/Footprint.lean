/-
VmSim.VirtualMemory.Footprint — the pages that a history touches.

`footprint` collects the pairs of a process and a page that were accessed,
or inherited by a fork. A memory with a frame for every pair has no use
for its victims: once it is full, every page of the footprint has a frame
to itself (`Pager.Consistent.crowded`).
-/
import VmSim.VirtualMemory.ForkFree
import VmSim.VirtualMemory.Memory

namespace VmSim

open Lib

variable {s : Pager} {p q page v a : Nat} {call : Call} {reply : Reply}
  {history : List (Call × Reply)} {pairs : Finset (Nat × Nat)}

/-! ## Histories -/

/-- The pages that processes accessed or inherited. The last call of a
history comes first. -/
def footprint : List (Call × Reply) → Finset (Nat × Nat)
  | [] => ∅
  | (.access p a _, _) :: history => insert (p, addressPageNumber a) (footprint history)
  | (.readByte p a, _) :: history => insert (p, addressPageNumber a) (footprint history)
  | (.writeByte p a _, _) :: history => insert (p, addressPageNumber a) (footprint history)
  | (.fork parent _, .process (some child)) :: history =>
    footprint history ∪
      ((footprint history).filter (·.1 = parent)).image fun pair => (child, pair.2)
  | _ :: history => footprint history

theorem footprint_target (ht : call.target = some (p, page)) (reply : Reply)
    (history : List (Call × Reply)) :
    footprint ((call, reply) :: history) = insert (p, page) (footprint history) := by
  cases call with
  | access p' a t => cases ht; rfl
  | readByte p' a => cases ht; rfl
  | writeByte p' a value => cases ht; rfl
  | _ => cases ht

theorem mem_footprint_fork {child : Nat} {childPid : Int} :
    (q, v) ∈ footprint ((.fork p childPid, .process (some child)) :: history) ↔
      (q, v) ∈ footprint history ∨ q = child ∧ (p, v) ∈ footprint history := by
  simp only [footprint, Finset.mem_union, Finset.mem_image, Finset.mem_filter, Prod.exists,
    Prod.mk.injEq]
  constructor
  · rintro (h | ⟨parent, u, ⟨hu, rfl⟩, rfl, rfl⟩)
    · exact Or.inl h
    · exact Or.inr ⟨rfl, hu⟩
  · rintro (h | ⟨rfl, h⟩)
    · exact Or.inl h
    · exact Or.inr ⟨p, v, ⟨h, rfl⟩, rfl, rfl⟩

/-- A footprint only grows. -/
theorem footprint_subset (event : Call × Reply) (history : List (Call × Reply)) :
    footprint history ⊆ footprint (event :: history) := by
  obtain ⟨call, reply⟩ := event
  cases call with
  | fork parent childPid =>
    cases reply with
    | process pointer =>
      cases pointer with
      | some child => exact Finset.subset_union_left
      | none => exact Finset.Subset.refl _
    | _ => exact Finset.Subset.refl _
  | access p a t => exact Finset.subset_insert _ _
  | readByte p a => exact Finset.subset_insert _ _
  | writeByte p a value => exact Finset.subset_insert _ _
  | _ => exact Finset.Subset.refl _

/-- What was never touched was never written. -/
theorem recalled_untouched (history : List (Call × Reply)) :
    ∀ p, (p, addressPageNumber a) ∉ footprint history → recalled history p a = 0 := by
  induction history with
  | nil => exact fun p _ => rfl
  | cons event history ih =>
    intro p hp
    have hold : (p, addressPageNumber a) ∉ footprint history := fun hin =>
      hp (footprint_subset event history hin)
    obtain ⟨call, reply⟩ := event
    cases call with
    | writeByte q b value =>
      have hne : ¬(p = q ∧ a = b) := by
        rintro ⟨rfl, rfl⟩
        exact hp (Finset.mem_insert_self _ _)
      cases reply with
      | status succeeded =>
        cases succeeded with
        | true => exact (if_neg hne).trans (ih p hold)
        | false => exact ih p hold
      | _ => exact ih p hold
    | fork parent childPid =>
      cases reply with
      | process pointer =>
        cases pointer with
        | some child =>
          show recalled history (if p = child then parent else p) a = 0
          split
          · rename_i hchild
            exact ih parent fun hin => hp (mem_footprint_fork.mpr (Or.inr ⟨hchild, hin⟩))
          · exact ih p hold
        | none => exact ih p hold
      | _ => exact ih p hold
    | _ => exact ih p hold

/-! ## Frames for all -/

/-- In a full memory with no more pairs than frames, every pair has a
frame, and no frame has two. -/
theorem Pager.Consistent.crowded (h : s.Consistent)
    (husers : ∀ f, ∀ m ∈ s.cow.frames f, (m.process, m.virtualPage) ∈ pairs)
    (hroom : pairs.card ≤ s.physical.frameCount) (hfull : s.physical.firstFree = none) :
    s.Unforked ∧ ∀ p v, (p, v) ∈ pairs → ∃ f, ⟨p, v⟩ ∈ s.cow.frames f := by
  have howner : ∀ f, ∃ o, f < s.physical.frameCount →
      ⟨o, (s.physical.frames f).virtualPage⟩ ∈ s.cow.frames f := by
    intro f
    by_cases hf : f < s.physical.frameCount
    · obtain ⟨o, _, _, ho⟩ := (h.frame f hf).owner (PhysicalMemory.firstFree_none hfull hf)
      exact ⟨o, fun _ => ho⟩
    · exact ⟨0, fun hlt => absurd hlt hf⟩
  choose owner howner using howner
  -- each frame stands for the pair of its owner, and these are all pairs
  have hinj : Set.InjOn (fun f => (owner f, (s.physical.frames f).virtualPage))
      (Finset.range s.physical.frameCount) := by
    intro f hf g hg heq
    obtain ⟨ho, hv⟩ := Prod.mk.inj heq
    have hf' := howner f (Finset.mem_range.mp hf)
    have hg' := howner g (Finset.mem_range.mp hg)
    rw [← ho, ← hv] at hg'
    exact h.frame_unique hf' hg' rfl
  have hall : (Finset.range s.physical.frameCount).image
      (fun f => (owner f, (s.physical.frames f).virtualPage)) = pairs := by
    refine Finset.eq_of_subset_of_card_le (fun pair hpair => ?_) ?_
    · obtain ⟨f, hf, rfl⟩ := Finset.mem_image.mp hpair
      exact husers f _ (howner f (Finset.mem_range.mp hf))
    · rw [Finset.card_image_of_injOn hinj, Finset.card_range]
      exact hroom
  have hframe : ∀ p v, (p, v) ∈ pairs → ∃ f < s.physical.frameCount,
      owner f = p ∧ (s.physical.frames f).virtualPage = v := by
    intro p v hpair
    rw [← hall] at hpair
    obtain ⟨f, hf, heq⟩ := Finset.mem_image.mp hpair
    exact ⟨f, Finset.mem_range.mp hf, (Prod.mk.inj heq).1, (Prod.mk.inj heq).2⟩
  refine ⟨fun f => ?_, fun p v hpair => ?_⟩
  · have hsole : ∀ m ∈ s.cow.frames f, m = ⟨owner f, (s.physical.frames f).virtualPage⟩ := by
      intro m hm
      obtain ⟨g, hg, ho, hv⟩ := hframe _ _ (husers f m hm)
      have hown := howner g hg
      rw [ho, hv] at hown
      have hsame : g = f := h.frame_unique hown hm rfl
      rw [← hsame, ho, hv]
    by_cases hf : f < s.physical.frameCount
    · have hsub : s.cow.frames f ⊆ [⟨owner f, (s.physical.frames f).virtualPage⟩] :=
        fun m hm => List.mem_singleton.mpr (hsole m hm)
      exact ((h.frame f hf).nodup.subperm hsub).length_le
    · rw [h.beyond f (Nat.le_of_not_lt hf)]
      exact Nat.zero_le 1
  · obtain ⟨f, hf, ho, hv⟩ := hframe p v hpair
    refine ⟨f, ?_⟩
    rw [← ho, ← hv]
    exact howner f hf

end VmSim
