/-
VmSim.VirtualMemory.TranslationCache — the TLB of a virtual memory as an
LRU cache.

The TLB calls of one call of the virtual memory name pids of processes
that exist and advance the clock by at most three, so an LRU cache can
stand for the TLB throughout (`World.Caches.stepped`). Two caches of
different sizes that start one within the other stay so: the calls differ
only where the larger one alone knows the translation, and then the last
translation recorded is the one the larger cache already has at its front.
-/
import VmSim.VirtualMemory.Lockstep
import VmSim.TlbOrder

namespace VmSim

open Lib

variable {w w' : World} {s s' : Pager} {p q page f g a n : Nat} {isWrite : Bool} {call : Call}
  {answers : TlbAnswers} {reply : Reply} {calls calls' : List TlbCall}

/-! ## Pids -/

/-- The calls name no negative pid. -/
def TlbCall.AllAccepted (calls : List TlbCall) : Prop := ∀ call ∈ calls, call.Accepted

theorem TlbCall.allAccepted_nil : TlbCall.AllAccepted [] := fun _ h => absurd h List.not_mem_nil

theorem TlbCall.allAccepted_cons {call : TlbCall} (h : call.Accepted)
    (hs : TlbCall.AllAccepted calls) : TlbCall.AllAccepted (call :: calls) :=
  List.forall_mem_cons.mpr ⟨h, hs⟩

theorem TlbCall.allAccepted_append (h : TlbCall.AllAccepted calls)
    (h' : TlbCall.AllAccepted calls') : TlbCall.AllAccepted (calls ++ calls') :=
  List.forall_mem_append.mpr ⟨h, h'⟩

theorem TlbCall.allAccepted_one {call : TlbCall} (h : call.Accepted) :
    TlbCall.AllAccepted [call] := TlbCall.allAccepted_cons h TlbCall.allAccepted_nil

theorem Pager.moveCalls_accepted (hp : 0 ≤ s.pid p) (page f : Nat) :
    TlbCall.AllAccepted (s.moveCalls p page f) :=
  TlbCall.allAccepted_cons hp (TlbCall.allAccepted_one hp)

/-- The readers of a frame are registered. -/
theorem Pager.Consistent.readerCalls_accepted (h : s.Consistent) (writer : CowMapping) (f : Nat) :
    TlbCall.AllAccepted (s.readerCalls writer (s.cow.frames f)) := by
  intro call hcall
  obtain ⟨reader, hreader, rfl⟩ := List.mem_map.mp hcall
  have huser := (List.mem_filter.mp hreader).1
  exact h.live _ (h.registered huser)

theorem Pager.Consistent.writableCalls_accepted (h : s.Consistent) (hp : 0 ≤ s.pid p)
    (page f : Nat) (isWrite : Bool) :
    TlbCall.AllAccepted (s.writableCalls p page f isWrite) := by
  unfold Pager.writableCalls Pager.cowCalls
  split
  · split
    · exact TlbCall.allAccepted_nil
    · split
      · exact Pager.moveCalls_accepted hp page _
      · split
        · exact TlbCall.allAccepted_nil
        · split
          · exact TlbCall.allAccepted_append (h.readerCalls_accepted _ f)
              (Pager.moveCalls_accepted hp page f)
          · exact TlbCall.allAccepted_nil
  · exact TlbCall.allAccepted_nil

theorem Pager.Consistent.walkedCalls_accepted (h : s.Consistent) (hp : 0 ≤ s.pid p)
    (page f : Nat) (isWrite moved : Bool) :
    TlbCall.AllAccepted (s.walkedCalls p page f isWrite moved) := by
  refine TlbCall.allAccepted_append (h.writableCalls_accepted hp page f isWrite) ?_
  split
  · exact TlbCall.allAccepted_one hp
  · exact TlbCall.allAccepted_nil

/-- The owner of a victim is registered. -/
theorem Pager.Consistent.replaceCalls_accepted (h : s.Consistent) (hp : 0 ≤ s.pid p)
    (page : Nat) : TlbCall.AllAccepted (s.replaceCalls p page) := by
  obtain ⟨f, policy, hchoose, hvictim, _⟩ := h.chooseVictim
  unfold Pager.replaceCalls
  rw [hchoose]
  dsimp only
  split
  · exact TlbCall.allAccepted_nil
  · rename_i hok
    have hocc := hvictim.resolve_left fun e => hok (Or.inl e)
    split
    · exact TlbCall.allAccepted_cons (h.owner_live hocc) (TlbCall.allAccepted_one hp)
    · exact TlbCall.allAccepted_nil

theorem Pager.Consistent.faultCalls_accepted (h : s.Consistent) (hp : 0 ≤ s.pid p)
    (page : Nat) : TlbCall.AllAccepted (s.faultCalls p page) := by
  unfold Pager.faultCalls
  split
  · exact TlbCall.allAccepted_one hp
  · have hcounted : s.countFault.Consistent := h.setStats _
    exact hcounted.replaceCalls_accepted hp page

theorem Pager.Consistent.accessCalls_accepted (h : s.Consistent) (hp : 0 ≤ s.pid p)
    (answers : TlbAnswers) (page : Nat) (isWrite : Bool) :
    TlbCall.AllAccepted (s.accessCalls answers p page isWrite) := by
  have hcounted : ((s.register p).count isWrite).Consistent := (h.register hp).setStats _
  have hp' : 0 ≤ ((s.register p).count isWrite).pid p := by
    rw [Pager.register_eq]
    exact hp
  refine TlbCall.allAccepted_cons hp ?_
  unfold Pager.answeredCalls
  split
  · exact hcounted.writableCalls_accepted hp' page _ isWrite
  · split
    · exact hcounted.walkedCalls_accepted hp' page _ isWrite answers.moved
    · exact hcounted.faultCalls_accepted hp' page

/-- Releases name the pid of the released process only. -/
theorem Pager.Consistent.releaseCalls_accepted (frames : List Nat) :
    ∀ {s : Pager}, s.Consistent → 0 ≤ s.pid p → TlbCall.AllAccepted (s.releaseCalls p frames) := by
  induction frames with
  | nil => exact fun _ _ => TlbCall.allAccepted_nil
  | cons f frames ih =>
    intro s h hp
    have hr := h.releaseFrame p f
    refine TlbCall.allAccepted_append ?_ (ih hr.consistent (by rw [hr.pid]; exact hp))
    split
    · exact TlbCall.allAccepted_one hp
    · exact TlbCall.allAccepted_nil

theorem Pager.Consistent.tlbCalls_accepted (h : s.Consistent) (hv : s.Valid call)
    (answers : TlbAnswers) : TlbCall.AllAccepted (s.tlbCalls answers call) := by
  cases call with
  | createProcess pid => exact TlbCall.allAccepted_nil
  | access p a t => exact h.accessCalls_accepted hv.1 answers _ _
  | readByte p a => exact h.accessCalls_accepted hv.1 answers _ _
  | writeByte p a value => exact h.accessCalls_accepted hv.1 answers _ _
  | fork p childPid =>
    simp only [Pager.tlbCalls]
    split
    · exact TlbCall.allAccepted_nil
    · exact TlbCall.allAccepted_one hv
  | release p =>
    exact TlbCall.allAccepted_append (Pager.Consistent.releaseCalls_accepted _ h hv)
      (TlbCall.allAccepted_one hv)

/-! ## The cache -/

/-- The TLB of a young virtual memory and the LRU cache it stands for. -/
structure World.Caches (w : World) (k : Nat) (cache : TlbCache n) : Prop where
  young : w.Young k
  represents : w.memory.tlb.Represents cache

theorem World.Caches.pos {cache : TlbCache n} {k : Nat} (h : w.Caches k cache) : 0 < n :=
  h.represents.capacity ▸ h.young.capacity

/-- A step of the virtual memory, seen by the cache. -/
theorem World.Caches.stepped {cache : TlbCache n} {k : Nat} (h : w.Caches k cache)
    (hk : k + 3 < wordSize) (ha : w.Allows call) :
    ∃ answers reply w', w.Stepped call answers reply w' ∧ w.pager.Faithful call answers ∧
      w'.Caches (k + 3) (cache.perform (w.pager.tlbCalls answers call)) := by
  obtain ⟨answers, reply, w', hs, hyoung, hfaithful⟩ := h.young.stepped hk ha
  have hticks := w.pager.tlbCalls_ticks answers call
  have haccepted := h.young.coherent.wf.consistent.tlbCalls_accepted ha.pager.valid answers
  refine ⟨answers, reply, w', hs, hfaithful, hyoung, ?_⟩
  rw [hs.performed]
  exact h.represents.perform _ h.young.fresh h.pos (by omega) haccepted

/-- A lookup of the virtual memory is a lookup of the cache. -/
theorem World.Caches.hit {cache : TlbCache n} {k : Nat} (h : w.Caches k cache)
    (hk : k + 1 < wordSize) (ha : w.Allows call) (ht : call.target = some (p, page)) :
    w.hit call = cache.find (w.pager.pid p, page) := by
  have hclock := h.young.fresh.clock
  rw [World.hit, ht]
  exact (h.represents.lookup (by omega) (ha.pager.target ht).1 page).1

/-! ## A larger cache -/

theorem Pager.answeredCalls_congr {answers' : TlbAnswers} (hhit : answers.hit = answers'.hit)
    (hmoved : answers.moved = answers'.moved) (s : Pager) (p page : Nat) (isWrite : Bool) :
    s.answeredCalls answers p page isWrite = s.answeredCalls answers' p page isWrite := by
  unfold Pager.answeredCalls
  rw [hhit, hmoved]

/-- A write that found its frame has recorded it, unless the frame did not
change. -/
theorem Pager.writableCalls_recorded (hg : (s.writable p page f isWrite true).1 = some g) :
    (s.writableCalls p page f isWrite = [] ∧ g = f) ∨
      ∃ calls, s.writableCalls p page f isWrite = calls ++ [.insert (s.pid p) page g] := by
  unfold Pager.writable Pager.cowWrite at hg
  unfold Pager.writableCalls Pager.cowCalls
  split at hg
  · rename_i hwrite
    rw [if_pos hwrite]
    split at hg
    · rename_i hlen
      cases hg
      exact Or.inl ⟨if_pos hlen, rfl⟩
    · rename_i hlen
      rw [if_neg hlen]
      cases hfree : s.physical.firstFree with
      | some free =>
        rw [hfree] at hg
        cases hg
        exact Or.inr ⟨[.invalidate (s.pid p) page], rfl⟩
      | none =>
        rw [hfree] at hg
        dsimp only at hg ⊢
        split at hg
        · cases hg
        · rename_i hswap
          rw [if_neg hswap]
          split at hg
          · cases hg
          · rename_i s₁ hsaved
            cases hg
            rw [if_pos (by rw [hsaved])]
            exact Or.inr ⟨s.readerCalls ⟨p, page⟩ (s.cow.frames f) ++ [.invalidate (s.pid p) page],
              by rw [List.append_assoc]; rfl⟩
  · rename_i hread
    cases hg
    exact Or.inl ⟨if_neg hread, rfl⟩

section Larger

variable {n₁ n₂ : Nat} {cache₁ : TlbCache n₁} {cache₂ : TlbCache n₂} {answers₁ answers₂ : TlbAnswers}

/-- Only the larger cache knows the page: what the walk records for the
smaller one is at the front of the larger one already. -/
theorem TlbCache.within_walked (h : cache₁.Within cache₂) (hpos : 0 < n₂)
    (hfound : cache₂.find (s.pid p, page) = some f) (isWrite : Bool) :
    LruCache.Within
      (TlbCache.perform (cache₁.refresh (s.pid p, page)) (s.walkedCalls p page f isWrite true))
      (TlbCache.perform (cache₂.refresh (s.pid p, page)) (s.writableCalls p page f isWrite)) := by
  have hrefreshed := h.refresh (s.pid p, page)
  unfold Pager.walkedCalls
  cases hg : (s.writable p page f isWrite true).1 with
  | none =>
    rw [List.append_nil]
    exact within_perform _ hrefreshed
  | some g =>
    have hfront : TlbCache.perform (cache₂.refresh (s.pid p, page))
          (s.writableCalls p page f isWrite ++ [.insert (s.pid p) page g]) =
        TlbCache.perform (cache₂.refresh (s.pid p, page)) (s.writableCalls p page f isWrite) := by
      rcases Pager.writableCalls_recorded hg with ⟨hnone, rfl⟩ | ⟨calls, hcalls⟩
      · have hinserted : cache₂.refresh (s.pid p, page) = cache₂.insert (s.pid p, page) g := by
          rw [LruCache.refresh, hfound]
        rw [hnone, hinserted]
        exact LruCache.insert_insert hpos cache₂ _ g
      · rw [hcalls, List.append_assoc]
        exact insert_last hpos _ calls _ _ g
    rw [← hfront]
    exact within_perform _ hrefreshed

/-- An access keeps one cache within the other. -/
theorem TlbCache.within_access (h : cache₁.Within cache₂) (hpos : 0 < n₂)
    (hhit₁ : answers₁.hit = cache₁.find (s.pid p, page))
    (hhit₂ : answers₂.hit = cache₂.find (s.pid p, page))
    (hmoved₁ : answers₁.moved = true) (hmoved₂ : answers₂.moved = true)
    (hmapped : ∀ f, answers₂.hit = some f → s.mapped p page = some f) (isWrite : Bool) :
    (cache₁.perform (s.accessCalls answers₁ p page isWrite)).Within
      (cache₂.perform (s.accessCalls answers₂ p page isWrite)) := by
  have hrefreshed := h.refresh (s.pid p, page)
  have hmoved : answers₁.moved = answers₂.moved := hmoved₁.trans hmoved₂.symm
  have hlike : answers₁.hit = answers₂.hit →
      (cache₁.perform (s.accessCalls answers₁ p page isWrite)).Within
        (cache₂.perform (s.accessCalls answers₂ p page isWrite)) := by
    intro hhit
    rw [Pager.accessCalls, Pager.answeredCalls_congr hhit hmoved]
    exact within_perform _ h
  cases hfind₁ : cache₁.find (s.pid p, page) with
  | some f => exact hlike (by rw [hhit₁, hhit₂, hfind₁, h.find hfind₁])
  | none =>
    cases hfind₂ : cache₂.find (s.pid p, page) with
    | none => exact hlike (by rw [hhit₁, hhit₂, hfind₁, hfind₂])
    | some f =>
      rw [hfind₁] at hhit₁
      rw [hfind₂] at hhit₂
      have hm := hmapped f hhit₂
      unfold Pager.accessCalls Pager.answeredCalls
      rw [hhit₁, hhit₂, hmoved₁]
      have hpid : ((s.register p).count isWrite).pid p = s.pid p := by rw [Pager.register_eq]; rfl
      have hmap : ((s.register p).count isWrite).mapped p page = some f := by
        rw [Pager.register_eq]
        exact hm
      dsimp only
      rw [hmap]
      have hwalked := within_walked (s := (s.register p).count isWrite) h hpos
        (by rw [hpid]; exact hfind₂) isWrite
      rw [hpid] at hwalked
      exact hwalked

end Larger

end VmSim
