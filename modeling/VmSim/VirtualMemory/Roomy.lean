/-
VmSim.VirtualMemory.Roomy — a virtual memory that never has to evict.

`Pager.Roomy` is the invariant of a history whose footprint fits into the
frames and whose pages the trie tells apart, process by process. It asks
nothing of the pids. An access then only adds to what is in memory
(`Pager.Gains`), and every process sees what it remembers.
-/
import VmSim.VirtualMemory.Footprint

namespace VmSim

open Lib

variable {s s' s'' : Pager} {p q page f g v a n : Nat} {isWrite : Bool} {answers : TlbAnswers}
  {call : Call} {reply : Reply} {history : List (Call × Reply)}

/-! ## What an access adds -/

/-- Frames stay in use, no page gets a user but this one, and no slot is
filled. -/
structure Pager.Gains (s : Pager) (p page : Nat) (s' : Pager) : Prop where
  occupied : ∀ f, (s.physical.frames f).occupied = true → (s'.physical.frames f).occupied = true
  users : ∀ f, ∀ m ∈ s'.cow.frames f, m ∈ s.cow.frames f ∨ m = ⟨p, page⟩
  slots : ∀ pid v, s.slot pid v = none → s'.slot pid v = none

theorem Pager.Gains.trans (h : s.Gains p page s') (h' : s'.Gains p page s'') :
    s.Gains p page s'' := by
  refine ⟨fun f hf => h'.occupied f (h.occupied f hf), fun f m hm => ?_,
    fun pid v hv => h'.slots pid v (h.slots pid v hv)⟩
  rcases h'.users f m hm with hold | hnew
  · exact h.users f m hold
  · exact Or.inr hnew

/-- An operation that frees no frame and leaves users and slots alone. -/
theorem Pager.gains_of (hocc : ∀ f, (s.physical.frames f).occupied = true →
      (s'.physical.frames f).occupied = true)
    (hcow : ∀ f, ∀ m ∈ s'.cow.frames f, m ∈ s.cow.frames f) (hswap : s'.swap = s.swap) :
    s.Gains p page s' :=
  ⟨hocc, fun f m hm => Or.inl (hcow f m hm), fun pid v hv => by rwa [Pager.slot_congr hswap]⟩

theorem Pager.gains_refl (s : Pager) (p page : Nat) : s.Gains p page s :=
  Pager.gains_of (fun _ hf => hf) (fun _ _ hm => hm) rfl

theorem Pager.gains_touch (s : Pager) (f : Nat) (isWrite : Bool) (p page : Nat) :
    s.Gains p page (s.touch f isWrite) := by
  refine Pager.gains_of (fun g hg => ?_) (fun _ _ hm => hm) rfl
  show (Function.update s.physical.frames f ((s.physical.frames f).touch isWrite) g).occupied = true
  by_cases e : g = f
  · subst e
    rw [Function.update_self]
    exact hg
  · rw [Function.update_of_ne e]
    exact hg

theorem Pager.gains_notify (s : Pager) (f : Nat) (isWrite : Bool) (p page : Nat) :
    s.Gains p page (s.notify f isWrite) :=
  (s.gains_touch f isWrite p page).trans
    (Pager.gains_of (fun _ hf => hf) (fun _ _ hm => hm) rfl)

theorem Pager.gains_place (s : Pager) (p page f : Nat) : s.Gains p page (s.place p page f) := by
  refine ⟨fun g hg => ?_, fun g m hm => ?_, fun pid v hv => hv⟩
  · rw [Pager.place_frames]
    by_cases e : g = f
    · rw [e, Function.update_self]
      rfl
    · rw [Function.update_of_ne e]
      exact hg
  · by_cases e : g = f
    · subst e
      simp only [Pager.place, cowManagerInsert, Function.update_self, List.mem_cons] at hm
      exact hm.symm
    · simp only [Pager.place, cowManagerInsert, Function.update_of_ne e] at hm
      exact Or.inl hm

/-- A page that is in no slot is loaded. -/
theorem Pager.gains_load (hslot : s.slot (s.pid p) page = none) (f : Nat) (isWrite : Bool) :
    s.Gains p page (s.load p page f isWrite) := by
  have hrestore : (s.place p page f).restore p page f = s.place p page f :=
    Pager.restore_none (fun swap hswap => by rw [← Pager.slot_some hswap]; exact hslot) f
  rw [Pager.load, hrestore]
  exact (s.gains_place p page f).trans (Pager.gains_touch _ f isWrite p page)

/-- A page is accessed where it was found; in a full memory its frame is
not shared. -/
theorem Pager.Consistent.gains_resident (h : s.Consistent)
    (hw : isWrite = true → s.Writable p page f)
    (hshared : s.physical.firstFree = none → (s.cow.frames f).length ≤ 1) (moved recorded : Bool) :
    s.Gains p page (s.resident p page f isWrite moved recorded).2 := by
  have hcow : isWrite = true → s.Gains p page (s.cowWrite p page f moved).2 := by
    intro hwrite
    unfold Pager.cowWrite
    split
    · exact s.gains_refl p page
    · rename_i hlen
      have hm := (hw hwrite).resolve_left hlen
      split
      · rename_i g hg
        have hcopied := h.copy_spec hm (Nat.lt_of_not_le hlen) (h.firstFree hg).2.2
          (s.physical.data f)
        exact ⟨hcopied.occupied, fun k m hk => (hcopied.users k m hk).symm.imp And.right And.right,
          fun pid u hu => by rwa [Pager.slot_congr hcopied.swap]⟩
      · rename_i hfull
        exact absurd (hshared hfull) hlen
  exact Pager.resident_rule recorded (fun _ => s.gains_refl p page) hcow
    fun s' g h' => h'.trans (s'.gains_notify g isWrite p page)

/-- A page is loaded into a free frame. -/
theorem Pager.gains_fault (hslot : s.slot (s.pid p) page = none)
    (hf : s.physical.firstFree = some f) (isWrite recorded : Bool) :
    s.Gains p page (s.fault p page isWrite recorded).2 := by
  have hcounted : s.Gains p page s.countFault :=
    Pager.gains_of (fun _ hf => hf) (fun _ _ hm => hm) rfl
  have hload := hcounted.trans (Pager.gains_load (s := s.countFault) hslot f isWrite)
  unfold Pager.fault
  rw [hf]
  dsimp only
  split
  · exact hload.trans (Pager.gains_of (fun _ hf => hf) (fun _ _ hm => hm) rfl)
  · exact hload

/-! ## The invariant -/

structure Pager.Roomy (s : Pager) (n : Nat) (history : List (Call × Reply)) : Prop where
  frames : s.physical.frameCount = n
  room : (footprint history).card ≤ n
  apart : ∀ p, KeysApart fun v => (p, v) ∈ footprint history
  empty : ∀ pid v, s.slot pid v = none
  users : ∀ f, ∀ m ∈ s.cow.frames f, (m.process, m.virtualPage) ∈ footprint history
  born : ∀ q v, (q, v) ∈ footprint history → q < s.nextProcess
  recalls : ∀ q v, (∀ u, (q, u) ∈ footprint history → Apart v u) → s.Recalls history q v

/-- In a full memory the page to be accessed is there, and nothing is
shared. -/
theorem Pager.Roomy.full (h : s.Roomy n history) (hc : s.Consistent)
    (hroom : (insert (p, page) (footprint history)).card ≤ n)
    (hfull : s.physical.firstFree = none) : s.Unforked ∧ ∃ f, s.mapped p page = some f := by
  obtain ⟨hunforked, hframes⟩ := hc.crowded
    (fun f m hm => Finset.mem_insert_of_mem (h.users f m hm)) (by rw [h.frames]; exact hroom) hfull
  obtain ⟨f, hf⟩ := hframes p page (Finset.mem_insert_self _ _)
  exact ⟨hunforked, f, hc.mapped_frame hf⟩

theorem Pager.Roomy.gains_access (h : s.Roomy n history) (hc : s.Consistent) (hp : 0 ≤ s.pid p)
    (had : s.Admits answers p page isWrite)
    (hroom : (insert (p, page) (footprint history)).card ≤ n) :
    s.Gains p page (s.access answers p page isWrite).2 := by
  have hc₁ : ((s.register p).count isWrite).Consistent := (hc.register hp).setStats _
  obtain ⟨processes, stats, heq⟩ := s.counted_eq p isWrite
  have hcounted : s.Gains p page { s with processes := processes, stats := stats } :=
    Pager.gains_of (fun _ hf => hf) (fun _ _ hm => hm) rfl
  rw [heq] at hc₁
  refine hcounted.trans ?_
  rcases s.access_cases answers p page isWrite with ⟨f, recorded, hf, haccess⟩ |
    ⟨_, hm, haccess⟩
  · rw [haccess, heq]
    exact hc₁.gains_resident (had f hf).2 (fun hfull => (h.full hc hroom hfull).1 f) _ _
  · rw [haccess, heq]
    cases hfree : s.physical.firstFree with
    | some f =>
      have hslot : Pager.slot { s with processes := processes, stats := stats } (s.pid p) page =
          none := h.empty _ _
      exact Pager.gains_fault hslot hfree isWrite _
    | none =>
      obtain ⟨_, f, hf⟩ := h.full hc hroom hfree
      rw [hf] at hm
      cases hm

/-- An access changes no view. -/
theorem Pager.Roomy.view_access (h : s.Roomy n history) (hc : s.Consistent) (hp : 0 ≤ s.pid p)
    (hpage : page < 2 ^ 52) (had : s.Admits answers p page isWrite)
    (hroom : (insert (p, page) (footprint history)).card ≤ n)
    (hkey : q = p → Apart v page) :
    (s.access answers p page isWrite).2.view q v = s.view q v := by
  cases hfree : s.physical.firstFree with
  | some g =>
    have hsome : s.physical.firstFree ≠ none := by rw [hfree]; exact Option.some_ne_none g
    exact hc.view_access hp hpage had (fun e => e.elim hkey fun hnone => absurd hnone hsome)
      (fun _ => Or.inr (h.empty _ _)) fun hnone => absurd hnone hsome
  | none =>
    obtain ⟨hunforked, f, hm⟩ := h.full hc hroom hfree
    obtain ⟨processes, stats, heq⟩ := s.counted_eq p isWrite
    have hcounted : Pager.Unforked { s with processes := processes, stats := stats } := hunforked
    rcases s.access_cases answers p page isWrite with ⟨f', recorded, _, haccess⟩ |
      ⟨_, hnone, _⟩
    · rw [haccess, heq, hcounted.resident]
      split
      · exact Pager.view_same rfl rfl rfl rfl q v
      · exact Pager.view_same rfl rfl rfl rfl q v
    · rw [hm] at hnone
      cases hnone

/-! ## Writes -/

/-- What the TLB found is the frame of the page, or else neither frame has
two users. -/
def Pager.HitsOwn (s : Pager) (hit : Option Nat) (p page : Nat) : Prop :=
  ∀ f, hit = some f → s.mapped p page = some f ∨
    (s.cow.frames f).length ≤ 1 ∧ ∀ g, s.mapped p page = some g → (s.cow.frames g).length ≤ 1

theorem Pager.Roomy.apart_frame (h : s.Roomy n history) (hc : s.Consistent)
    (hapart : KeysApart fun v => (p, v) ∈ insert (p, page) (footprint history))
    (hm : s.mapped p page = some f) : (s.physical.frames f).virtualPage = page := by
  obtain ⟨huser, hk⟩ := hc.user_of_mapped hm
  exact hapart _ _ (Finset.mem_insert_of_mem (h.users f _ huser)) (Finset.mem_insert_self _ _) hk

/-- A write that succeeds has a frame of its own to store to. -/
theorem Pager.Roomy.access_owns (h : s.Roomy n history) (hc : s.Consistent) (hp : 0 ≤ s.pid p)
    (had : s.Admits answers p page true) (hown : s.HitsOwn answers.hit p page)
    (hapart : KeysApart fun v => (p, v) ∈ insert (p, page) (footprint history))
    (hok : (s.access answers p page true).1.isError = false)
    (hg : (s.access answers p page true).2.mapped p page = some g) :
    (s.access answers p page true).2.Owns p page g := by
  have hpages : ∀ f, s.mapped p page = some f → Apart (s.physical.frames f).virtualPage page :=
    fun f hm _ => h.apart_frame hc hapart hm
  by_cases hhit : ∀ f, answers.hit = some f → s.mapped p page = some f
  · obtain ⟨k, howns, _⟩ := hc.access_owns hp had hhit hpages hok
    rw [howns.mapped] at hg
    cases hg
    exact howns
  · -- the TLB answered with a frame of another process: no copy is made
    push Not at hhit
    obtain ⟨f, hf, hne⟩ := hhit
    obtain ⟨hlen, hmine⟩ := (hown f hf).resolve_left hne
    obtain ⟨processes, stats, heq⟩ := s.counted_eq p true
    have hcow : Pager.cowWrite { s with processes := processes, stats := stats } p page f
        answers.moved = (some f, { s with processes := processes, stats := stats }) := by
      rw [Pager.cowWrite, if_pos hlen]
    have hstate : (s.access answers p page true).2 =
        Pager.notify { s with processes := processes, stats := stats } f true := by
      rw [Pager.access_hit hf, heq, Pager.resident_some (g := f) (by rw [Pager.writable, if_pos rfl,
        hcow]), if_pos rfl, Pager.writable, if_pos rfl, hcow]
    rw [hstate] at hg ⊢
    have hm : s.mapped p page = some g := hg
    have howns := hc.owns hm (hmine g hm) (hpages g hm)
    exact ⟨howns.mapped, howns.users⟩

/-! ## Steps -/

/-- The rest of a call that accesses a page is a byte stored. -/
theorem Pager.gains_step (s : Pager) (ht : call.target = some (p, page))
    (h : s.Gains p page (s.access answers p page call.writes).2) :
    s.Gains p page (s.step answers call).2 :=
  s.step_rule answers ht h fun _ _ _ _ h' =>
    h'.trans (Pager.gains_of (fun _ hf => hf) (fun _ _ hm => hm) rfl)

theorem Pager.Roomy.access (h : s.Roomy n history) (hc : s.Consistent)
    (ht : call.target = some (p, page)) (hp : 0 ≤ s.pid p) (hpage : page < 2 ^ 52)
    (had : s.Admits answers p page call.writes)
    (hown : call.writes = true → s.HitsOwn answers.hit p page)
    (hroom : (insert (p, page) (footprint history)).card ≤ n)
    (hapart : ∀ q, KeysApart fun v => (q, v) ∈ insert (p, page) (footprint history)) :
    (s.step answers call).2.Roomy n ((call, (s.step answers call).1) :: history) := by
  have hgains := s.gains_step ht (h.gains_access hc hp had hroom)
  have hevolves := s.evolves_step answers ht
  have hfootprint := footprint_target ht (s.step answers call).1 history
  rw [Pager.register_eq] at hevolves
  refine ⟨hevolves.frameCount.trans h.frames, ?_, ?_,
    fun pid v => hgains.slots pid v (h.empty pid v), fun f m hm => ?_, fun q v hv => ?_,
    fun q v hv => ?_⟩
  · rw [hfootprint]
    exact hroom
  · rw [hfootprint]
    exact hapart
  · rw [hfootprint]
    rcases hgains.users f m hm with hold | rfl
    · exact Finset.mem_insert_of_mem (h.users f m hold)
    · exact Finset.mem_insert_self _ _
  · rw [hevolves.nextProcess]
    rw [hfootprint] at hv
    rcases Finset.mem_insert.mp hv with hnew | hold
    · rw [(Prod.mk.inj hnew).1]
      exact hc.pid_lt p hp
    · exact h.born q v hold
  · rw [hfootprint] at hv
    have hkey : q = p → Apart v page := fun e => hv page (e ▸ Finset.mem_insert_self _ _)
    refine (h.recalls q v fun u hu => hv u (Finset.mem_insert_of_mem hu)).step ht
      (h.view_access hc hp hpage had hroom hkey) (hc.access hp hpage had) hkey
      fun hwrites hok f hf => ?_
    rw [hwrites] at had hok hf ⊢
    exact h.access_owns hc hp had (hown hwrites) (hapart p) hok hf

theorem Pager.Roomy.register (h : s.Roomy n history) (p : Nat) : (s.register p).Roomy n history := by
  rw [Pager.register_eq]
  exact ⟨h.frames, h.room, h.apart, h.empty, h.users, h.born, fun q v hv =>
    (h.recalls q v hv).of_view (Pager.view_same rfl rfl rfl rfl q v) fun _ => rfl⟩

/-- A page in no slot and no frame is zero. -/
theorem Pager.Roomy.swapped (h : s.Roomy n history) (pid : Int) (v : Nat) :
    s.swapped pid v = zeroPage := by
  rw [Pager.swapped, h.empty, Option.getD_none]

/-- A process that does not exist remembers nothing. -/
theorem Pager.Roomy.unborn (h : s.Roomy n history) (a : Nat) :
    recalled history s.nextProcess a = 0 :=
  recalled_untouched history s.nextProcess fun hin => Nat.lt_irrefl _ (h.born _ _ hin)

theorem Pager.Roomy.create (h : s.Roomy n history) (pid : Int) :
    (s.create pid).2.Roomy n ((.createProcess pid, .process (s.create pid).1) :: history) := by
  unfold Pager.create
  split
  · exact ⟨h.frames, h.room, h.apart, h.empty, h.users, h.born, fun q v hv => h.recalls q v hv⟩
  · refine ⟨h.frames, h.room, h.apart, h.empty, h.users,
      fun q v hv => Nat.lt_succ_of_lt (h.born q v hv), fun q v hv => ?_⟩
    by_cases e : q = s.nextProcess
    · intro a _
      subst e
      rw [Pager.view_absent (by simp)]
      exact (congrFun (h.swapped _ v) _).trans (h.unborn a).symm
    · refine (h.recalls q v hv).of_view (Pager.view_congr ?_ (fun _ _ => rfl) fun _ => ?_)
        fun _ => rfl
      · exact congrFun (Function.update_of_ne e _ _) v
      · exact (h.empty _ v).trans (h.empty _ v).symm

/-- A child remembers what its parent does, and sees it. -/
theorem Pager.Roomy.spawn (h : s.Roomy n history) {childPid : Int}
    (hroom : (footprint ((.fork p childPid, .process (some s.nextProcess)) :: history)).card ≤ n)
    (hapart : ∀ q, KeysApart fun v =>
      (q, v) ∈ footprint ((.fork p childPid, .process (some s.nextProcess)) :: history)) :
    (s.spawn p childPid).Roomy n
      ((.fork p childPid, .process (some s.nextProcess)) :: history) := by
  refine ⟨h.frames, hroom, hapart, h.empty, fun f m hm => ?_, fun q v hv => ?_, fun q v hv => ?_⟩
  · rcases Pager.mem_joined.mp hm with hold | ⟨rfl, hparent⟩
    · exact mem_footprint_fork.mpr (Or.inl (h.users f m hold))
    · exact mem_footprint_fork.mpr (Or.inr ⟨rfl, h.users f _ hparent⟩)
  · rcases mem_footprint_fork.mp hv with hold | ⟨rfl, _⟩
    · exact Nat.lt_succ_of_lt (h.born q v hold)
    · exact Nat.lt_succ_self _
  · have hview : ∀ a, recalled ((.fork p childPid, .process (some s.nextProcess)) :: history) q a =
        recalled history (if q = s.nextProcess then p else q) a := fun _ => rfl
    by_cases e : q = s.nextProcess
    · subst e
      have hparent := h.recalls p v fun u hu => hv u (mem_footprint_fork.mpr (Or.inr ⟨rfl, hu⟩))
      have hsame : (s.spawn p childPid).view s.nextProcess v = s.view p v := by
        cases hm : s.mapped p v with
        | some f =>
          rw [Pager.view_child, hm]
          exact (Pager.view_resident hm).symm
        | none =>
          rw [Pager.view_child, hm, Pager.view_absent hm, h.swapped, h.swapped]
      intro a ha
      rw [hsame, hview, if_pos rfl]
      exact hparent a ha
    · refine (h.recalls q v fun u hu => hv u (mem_footprint_fork.mpr (Or.inl hu))).of_view
        (Pager.view_spawn e p childPid v) fun a => ?_
      rw [hview, if_neg e]

end VmSim
