/-
VmSim.VirtualMemory.Memory — what the processes remember.

`recalled` is the memory that a history of calls gives each process: flat,
with a byte for every address, and inherited by a fork. A process has it
in view on a page (`Pager.Recalls`) as long as the accesses change no view
and the bytes written go to frames with one user (`Pager.Recalls.step`).
-/
import VmSim.VirtualMemory.Views

namespace VmSim

open Lib

variable {s s' : Pager} {p q page f v a : Nat} {answers : TlbAnswers} {call : Call} {reply : Reply}
  {history history' : List (Call × Reply)} {value : UInt8}

/-! ## Histories -/

/-- The byte a process last wrote at an address, or else inherited; 0 if
there is none. The last call of a history comes first. -/
def recalled : List (Call × Reply) → Nat → Nat → UInt8
  | [], _, _ => 0
  | (.writeByte q b value, .status true) :: history, p, a =>
    if p = q ∧ a = b then value else recalled history p a
  | (.fork parent _, .process (some child)) :: history, p, a =>
    recalled history (if p = child then parent else p) a
  | _ :: history, p, a => recalled history p a

/-- An access changes what its own process remembers only. -/
theorem recalled_of_ne (ht : call.target = some (p, page)) (hq : q ≠ p) (a : Nat) :
    recalled ((call, reply) :: history) q a = recalled history q a := by
  cases call with
  | writeByte p' b value =>
    cases ht
    cases reply with
    | status succeeded =>
      cases succeeded with
      | true => exact if_neg fun hsame => hq hsame.1
      | false => rfl
    | _ => rfl
  | access p' b t => rfl
  | readByte p' b => rfl
  | _ => cases ht

/-- Every byte that was read is what its process remembered. -/
def Remembered : List (Call × Reply) → Prop
  | [] => True
  | (.readByte p a, .byte (some value)) :: history =>
    value = recalled history p a ∧ Remembered history
  | _ :: history => Remembered history

theorem Remembered.cons (h : Remembered history)
    (hread : ∀ p a value, call = .readByte p a → reply = .byte (some value) →
      value = recalled history p a) : Remembered ((call, reply) :: history) := by
  unfold Remembered
  split
  · trivial
  · rename_i heq
    cases heq
    exact ⟨hread _ _ _ rfl rfl, h⟩
  · rename_i heq
    cases heq
    exact h

/-! ## Pages -/

/-- The process sees on the page what it remembers. -/
def Pager.Recalls (s : Pager) (history : List (Call × Reply)) (q v : Nat) : Prop :=
  ∀ a, addressPageNumber a = v → s.view q v (pageOffset a) = recalled history q a

theorem Pager.Recalls.of_view (h : s.Recalls history q v) (hview : s'.view q v = s.view q v)
    (hsame : ∀ a, recalled history' q a = recalled history q a) : s'.Recalls history' q v := by
  intro a ha
  rw [hview, hsame]
  exact h a ha

/-- A byte stored in a frame with one user is seen by this user, on this
page. -/
theorem Pager.Owns.view_setByte (h : s.Owns p page f) (hc : s.Consistent)
    (hkey : q = p → Apart v page) (offset : Fin pageSize) (value : UInt8) :
    (s.setByte f offset value).view q v =
      if q = p ∧ v = page then Function.update (s.view q v) offset value else s.view q v := by
  split
  · rename_i hself
    rw [hself.1, hself.2, Pager.view_resident h.mapped]
    have hm : (s.setByte f offset value).mapped p page = some f := h.mapped
    rw [Pager.view_resident hm]
    exact Function.update_self _ _ _
  · rename_i hother
    refine Pager.view_congr rfl (fun g hg => ?_) fun _ => rfl
    refine Function.update_of_ne ?_ _ _
    rintro rfl
    obtain ⟨huser, hk⟩ := hc.user_of_mapped hg
    rw [h.users, List.mem_singleton] at huser
    have hq : q = p := congrArg CowMapping.process huser
    have hpage : (s.physical.frames g).virtualPage = page := congrArg CowMapping.virtualPage huser
    rw [hpage] at hk
    exact hother ⟨hq, hkey hq hk.symm⟩

/-! ## Accesses -/

theorem Pager.Recalls.read (h : s.Recalls history p (addressPageNumber a))
    (hview : (s.access answers p (addressPageNumber a) false).2.view p (addressPageNumber a) =
      s.view p (addressPageNumber a))
    (hread : (s.readByte answers p a).1 = some value) : value = recalled history p a := by
  unfold Pager.readByte at hread
  dsimp only at hread
  split at hread
  · cases hread
  · obtain ⟨f, hf, hvalue⟩ := Option.map_eq_some_iff.mp hread
    rw [← hvalue, ← h a rfl, ← hview, Pager.view_resident hf]

/-- A write that succeeds is remembered. -/
theorem Pager.Recalls.write (h : s.Recalls history q v)
    (hview : (s.access answers p (addressPageNumber a) true).2.view q v = s.view q v)
    (hc : (s.access answers p (addressPageNumber a) true).2.Consistent)
    (hkey : q = p → Apart v (addressPageNumber a))
    (howns : (s.access answers p (addressPageNumber a) true).1.isError = false → ∀ f,
      (s.access answers p (addressPageNumber a) true).2.mapped p (addressPageNumber a) = some f →
      (s.access answers p (addressPageNumber a) true).2.Owns p (addressPageNumber a) f) :
    (s.writeByte answers p a value).2.Recalls
      ((.writeByte p a value, .status (s.writeByte answers p a value).1) :: history) q v := by
  unfold Pager.writeByte
  dsimp only
  split
  · exact h.of_view hview fun _ => rfl
  · rename_i hok
    split
    · exact h.of_view hview fun _ => rfl
    · rename_i f hf
      have hf' := howns (by simpa using hok) f hf
      intro b hb
      rw [hf'.view_setByte hc hkey, hview]
      show _ = if q = p ∧ b = a then value else recalled history q b
      by_cases hsame : q = p ∧ b = a
      · rw [if_pos hsame, if_pos ⟨hsame.1, by rw [← hb, hsame.2]⟩, hsame.2, Function.update_self]
      · rw [if_neg hsame]
        split
        · rename_i hself
          rw [Function.update_of_ne, h b hb]
          intro hoffset
          exact hsame ⟨hself.1, address_eq (hb.trans hself.2) (congrArg Fin.val hoffset)⟩
        · exact h b hb

theorem Pager.Recalls.step (h : s.Recalls history q v) (ht : call.target = some (p, page))
    (hview : (s.access answers p page call.writes).2.view q v = s.view q v)
    (hc : (s.access answers p page call.writes).2.Consistent) (hkey : q = p → Apart v page)
    (howns : call.writes = true → (s.access answers p page call.writes).1.isError = false → ∀ f,
      (s.access answers p page call.writes).2.mapped p page = some f →
      (s.access answers p page call.writes).2.Owns p page f) :
    (s.step answers call).2.Recalls ((call, (s.step answers call).1) :: history) q v := by
  cases call with
  | access p' a t =>
    cases ht
    exact h.of_view hview fun _ => rfl
  | readByte p' a =>
    cases ht
    refine h.of_view ?_ fun _ => rfl
    show (s.readByte answers p a).2.view q v = _
    rw [Pager.readByte_state]
    exact hview
  | writeByte p' a value =>
    cases ht
    exact h.write hview hc hkey (howns rfl)
  | _ => cases ht

end VmSim
