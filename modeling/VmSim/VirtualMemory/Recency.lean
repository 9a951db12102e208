/-
VmSim.VirtualMemory.Recency — under the LRU policy the memory is an LRU
cache.

`Pager.Ranks` reads the frames as a cache from pages of processes to
frames: its entries are the resident pages in the order of their last
access. An access that succeeds inserts its page (`Pager.Ranks.outcome`),
whether it finds the page resident, a free frame or a victim. So the
resident pages are those that were accessed most recently
(`World.Recent`), as many as there are frames.
-/
import VmSim.Lib.Recency
import VmSim.Replacement.LruOrder
import VmSim.VirtualMemory.ForkFreeRuns
import VmSim.VirtualMemory.Metrics

namespace VmSim

open Lib

variable {w w' : World} {s s' saved : Pager} {p q page f k n : Nat} {isWrite : Bool} {call : Call}
  {answers : TlbAnswers} {reply : Reply} {slots : Option Nat} {tlbEntries : Nat}
  {result : VirtualMemoryAccessResult} {c : LruCache (Nat × Nat) Nat n} {keys : List (Nat × Nat)}

/-! ## The memory as a cache -/

structure Pager.Ranks (s : Pager) (c : LruCache (Nat × Nat) Nat n) : Prop where
  count : s.physical.frameCount = n
  users : ∀ p page f, ((p, page), f) ∈ c.entries ↔ ⟨p, page⟩ ∈ s.cow.frames f
  order : s.policy.Orders (c.entries.map Prod.snd)

theorem Pager.Ranks.congr (h : s.Ranks c) (hcount : s'.physical.frameCount = s.physical.frameCount)
    (hcow : s'.cow.frames = s.cow.frames) (hpolicy : s'.policy = s.policy) : s'.Ranks c :=
  ⟨hcount.trans h.count, fun p page f => by rw [hcow]; exact h.users p page f,
    by rw [hpolicy]; exact h.order⟩

/-- A page has one frame, and an unshared frame one page. -/
theorem Pager.Ranks.same (h : s.Ranks c) (hc : s.Consistent) (hu : s.Unforked)
    (hf : ⟨p, page⟩ ∈ s.cow.frames f) {e : (Nat × Nat) × Nat} (he : e ∈ c.entries) :
    e.1 = (p, page) ↔ e.2 = f := by
  obtain ⟨⟨q, v⟩, g⟩ := e
  have hg : ⟨q, v⟩ ∈ s.cow.frames g := (h.users q v g).mp he
  constructor
  · intro hkey
    cases hkey
    exact hc.frame_unique hg hf rfl
  · intro hframe
    have hgf : g = f := hframe
    rw [hgf] at hg
    have hone : (s.cow.frames f).length = 1 :=
      Nat.le_antisymm (hu f) (List.length_pos_of_mem hf)
    obtain ⟨m, hm⟩ := List.length_eq_one_iff.mp hone
    rw [hm, List.mem_singleton] at hf hg
    rw [← hf] at hg
    cases hg
    rfl

/-- To remove a page is to remove its frame. -/
theorem Pager.Ranks.removed (h : s.Ranks c) (hc : s.Consistent) (hu : s.Unforked)
    (hf : ⟨p, page⟩ ∈ s.cow.frames f) :
    (c.remove (p, page)).entries.map Prod.snd = (c.entries.map Prod.snd).filter (· ≠ f) := by
  rw [LruCache.remove_entries, List.filter_map]
  congr 1
  refine List.filter_congr fun e he => ?_
  have hsame := h.same hc hu hf he
  simp [hsame]

theorem Pager.Ranks.frames_lt (h : s.Ranks c) (hc : s.Consistent) :
    ∀ f ∈ c.entries.map Prod.snd, f < n := by
  intro f hf
  rw [h.order.loaded, hc.loaded] at hf
  rw [← h.count]
  exact hc.frame_lt hf

/-- There is room in the cache as long as there is a free frame. -/
theorem Pager.Ranks.room (h : s.Ranks c) (hc : s.Consistent) (hf : f < s.physical.frameCount)
    (hfree : (s.physical.frames f).occupied = false) : c.entries.length < n := by
  have hnot : f ∉ c.entries.map Prod.snd := by
    rw [h.order.loaded, hc.loaded, hfree]
    exact Bool.false_ne_true
  have hsub : f :: c.entries.map Prod.snd ⊆ List.range n := by
    intro g hg
    rcases List.mem_cons.mp hg with rfl | hg'
    · exact List.mem_range.mpr (h.count ▸ hf)
    · exact List.mem_range.mpr (h.frames_lt hc g hg')
  have hlen := ((List.nodup_cons.mpr ⟨hnot, h.order.nodup⟩).subperm hsub).length_le
  rwa [List.length_cons, List.length_map, List.length_range] at hlen

theorem Pager.Ranks.full (h : s.Ranks c) (hc : s.Consistent) (hfull : s.physical.firstFree = none) :
    c.entries.length = n := by
  have hall : ∀ f < n, f ∈ c.entries.map Prod.snd := by
    intro f hf
    rw [h.order.loaded, hc.loaded]
    unfold PhysicalMemory.firstFree at hfull
    simpa using List.find?_eq_none.mp hfull f (List.mem_range.mpr (h.count.symm ▸ hf))
  have hsub : List.range n ⊆ c.entries.map Prod.snd := fun f hf => hall f (List.mem_range.mp hf)
  have hlen := (List.nodup_range.subperm hsub).length_le
  rw [List.length_range, List.length_map] at hlen
  exact Nat.le_antisymm c.bounded hlen

/-- A page that is not mapped is not in the cache. -/
theorem Pager.Ranks.absent (h : s.Ranks c) (hc : s.Consistent) (hm : s.mapped p page = none) :
    (p, page) ∉ c.entries.map Prod.fst := by
  intro hkey
  obtain ⟨⟨_, f⟩, he, rfl⟩ := List.mem_map.mp hkey
  rw [hc.mapped_frame ((h.users p page f).mp he)] at hm
  cases hm

/-! ## Accesses are insertions -/

theorem Pager.Ranks.notify (h : s.Ranks c) (hc : s.Consistent) (hu : s.Unforked)
    (hfresh : s.policy.Fresh k) (hk : k + 1 < wordSize) (hf : ⟨p, page⟩ ∈ s.cow.frames f)
    (isWrite : Bool) : (s.notify f isWrite).Ranks (c.insert (p, page) f) := by
  have hin : ((p, page), f) ∈ c.entries := (h.users p page f).mpr hf
  have hentries := LruCache.insert_present (List.mem_map_of_mem (f := Prod.fst) hin) f
  have hocc := hc.occupied_of_user hf
  have hloaded : s.policy.loaded f = true := by rw [hc.loaded, hocc]
  refine ⟨h.count, fun q v g => ?_, ?_⟩
  · rw [hentries, LruCache.remove_entries, List.mem_cons, List.mem_filter]
    show _ ↔ ⟨q, v⟩ ∈ s.cow.frames g
    rw [← h.users]
    constructor
    · rintro (he | he)
      · rw [he]
        exact hin
      · exact he.1
    · intro he
      by_cases hkey : ((q, v) : Nat × Nat) = (p, page)
      · have hframe : g = f := (h.same hc hu hf he).mp hkey
        exact Or.inl (by rw [hkey, hframe])
      · exact Or.inr ⟨he, decide_eq_true hkey⟩
  · rw [hentries, List.map_cons, h.removed hc hu hf]
    have ho := h.order.onAccess hfresh hk (hc.policy.lt hloaded) hloaded
    show (replacementPolicyTick (replacementPolicyOnAccess s.policy f).2).Orders _
    rw [ho.tick]
    exact ho

theorem Pager.Ranks.load (h : s.Ranks c) (hc : s.Consistent) (hfresh : s.policy.Fresh k)
    (hk : k + 1 < wordSize) (hf : f < s.physical.frameCount)
    (hfree : (s.physical.frames f).occupied = false) (hm : s.mapped p page = none)
    (isWrite : Bool) : (s.load p page f isWrite).Ranks (c.insert (p, page) f) := by
  have hentries := LruCache.insert_absent (h.absent hc hm) (h.room hc hf hfree) f
  have hnone : s.cow.frames f = [] := hc.no_user hf hfree
  obtain ⟨data, swap, stats, heq⟩ := (s.place p page f).restore_eq p page f
  refine ⟨?_, fun q v g => ?_, ?_⟩
  · rw [Pager.load, heq]
    exact h.count
  · rw [hentries, hc.load_users hf hfree, List.mem_cons, h.users]
    by_cases e : g = f
    · rw [e, Function.update_self, hnone]
      simp
    · rw [Function.update_of_ne e]
      simp [e]
  · have hnot : f ∉ c.entries.map Prod.snd := by
      rw [h.order.loaded, hc.loaded, hfree]
      exact Bool.false_ne_true
    have hsame : (c.entries.map Prod.snd).filter (· ≠ f) = c.entries.map Prod.snd := by
      refine List.filter_eq_self.mpr fun g hg => ?_
      have hne : g ≠ f := fun e => hnot (e ▸ hg)
      simpa using hne
    have ho := h.order.onLoad hfresh hk (hc.policy_count ▸ hf)
    rw [hsame] at ho
    rw [hentries, (s.load_eq p page f isWrite).2.2.2.2.1]
    exact ho

theorem Pager.Ranks.evict (h : s.Ranks c) (hc : s.Consistent) (hu : s.Unforked)
    (hf : ⟨p, page⟩ ∈ s.cow.frames f) : (s.evict f).Ranks (c.remove (p, page)) := by
  have hocc := hc.occupied_of_user hf
  have hloaded : s.policy.loaded f = true := by rw [hc.loaded, hocc]
  refine ⟨h.count, fun q v g => ?_, ?_⟩
  · rw [hc.evict_users hocc (hu f), LruCache.remove_entries, List.mem_filter]
    by_cases e : g = f
    · rw [e, Function.update_self]
      refine iff_of_false (fun ⟨he, hkey⟩ => ?_) List.not_mem_nil
      have hsame : ((q, v) : Nat × Nat) = (p, page) := (h.same hc hu hf he).mpr rfl
      simp [hsame] at hkey
    · rw [Function.update_of_ne e, ← h.users]
      refine ⟨And.left, fun he => ⟨he, ?_⟩⟩
      exact decide_eq_true fun hkey => e ((h.same hc hu hf he).mp hkey)
  · rw [h.removed hc hu hf]
    exact h.order.onEvict (hc.policy.lt hloaded) hloaded

/-- An access that succeeds inserts its page. -/
theorem Pager.Ranks.outcome (h : s.Ranks c) (hc : s.Consistent) (hs : s.Solitary slots k)
    (hin : s.PagesIn (· < 2 ^ 36)) (hk : k + 1 < wordSize) (hpage : page < 2 ^ 36)
    (hend : s.Outcome p page isWrite result s') (hok : result.isError = false) :
    ∃ f, s'.Ranks (c.insert (p, page) f) := by
  have hcounted : s.countFault.Consistent := hc.setStats _
  have hranked : s.countFault.Ranks c := h.congr rfl rfl rfl
  cases hend with
  | resident hm =>
    obtain ⟨huser, hkey⟩ := hc.user_of_mapped hm
    rw [keysApart_lt _ page (hin _ (hc.occupied_of_mapped hm)) hpage hkey] at huser
    exact ⟨_, h.notify hc hs.unforked hs.policy hk huser isWrite⟩
  | placed hm hf =>
    obtain ⟨hlt, hfree, _⟩ := hc.firstFree hf
    have hloaded := hranked.load hcounted hs.policy hk hlt hfree hm isWrite
    exact ⟨_, hloaded.congr rfl rfl hloaded.order.tick⟩
  | replaced hm hfull hchoose hocc hsaved =>
    rename_i f policy saved
    have hfilled := h.full hc hfull
    have hne : c.entries ≠ [] := by
      intro hnil
      rw [hnil, List.length_nil, ← h.count] at hfilled
      exact absurd hc.pos (hfilled ▸ Nat.lt_irrefl 0)
    obtain ⟨rfl, hlast⟩ := h.order.chooseVictim hc.policy hs.policy hk (by simpa using hne) hchoose
    rw [List.getLast_map] at hlast
    have hinsert := LruCache.insert_remove_last (h.absent hc hm) hfilled hne f
    have hmem := List.getLast_mem hne
    generalize c.entries.getLast hne = last at hlast hinsert hmem
    obtain ⟨⟨q, v⟩, g⟩ := last
    cases hlast
    have huser := (h.users q v g).mp hmem
    have hc₂ := (hcounted.chosen hchoose).saveVictim hocc hsaved
    obtain ⟨swap, stats, rfl⟩ := Pager.saveVictim_eq hsaved
    have hranked₂ : Pager.Ranks { s.countFault with swap := swap, stats := stats } c :=
      hranked.congr rfl rfl rfl
    have hevicted := hranked₂.evict hc₂ hs.unforked huser
    obtain ⟨hc₃, _, hnone, hfree, hcount⟩ := hc₂.evicted hocc (hs.unforked g) hm
    have hloaded := hevicted.load hc₃ (hs.policy.onEvict g) hk (hcount ▸ hc.frame_lt hocc) hfree
      hnone isWrite
    rw [hinsert] at hloaded
    exact ⟨g, hloaded.congr rfl rfl hloaded.order.tick⟩
  | refused hm hfull hchoose hocc hsaved =>
    rw [s.faultError_isError] at hok
    cases hok

/-- An access that succeeds, and what it adds to the page faults. -/
theorem Pager.Ranks.access (h : s.Ranks c) (hc : s.Consistent) (hs : s.Solitary slots k)
    (hin : s.PagesIn (· < 2 ^ 36)) (hk : k + 1 < wordSize) (hp : 0 ≤ s.pid p)
    (hpage : page < 2 ^ 36) (hhit : ∀ f, answers.hit = some f → s.mapped p page = some f)
    (hrecorded : answers.recorded = true)
    (hok : (s.access answers p page isWrite).1.isError = false) :
    (∃ f, (s.access answers p page isWrite).2.Ranks (c.insert (p, page) f)) ∧
      (s.access answers p page isWrite).2.stats.pageFaults =
        if s.mapped p page = none then increment s.stats.pageFaults else s.stats.pageFaults := by
  have hend := hc.outcome hs.unforked hs.policy hk hp hhit hrecorded isWrite
  have hc₁ : ((s.register p).count isWrite).Consistent := (hc.register hp).setStats _
  have hfaults : ((s.register p).count isWrite).stats.pageFaults = s.stats.pageFaults := by
    rw [Pager.register_eq]
    rfl
  obtain ⟨processes, stats, heq⟩ := s.counted_eq p isWrite
  rw [heq] at hend hc₁ hfaults
  have h₁ : Pager.Ranks { s with processes := processes, stats := stats } c := h.congr rfl rfl rfl
  have hs₁ : Pager.Solitary { s with processes := processes, stats := stats } slots k :=
    hs.congr rfl rfl rfl hs.policy
  refine ⟨h₁.outcome hc₁ hs₁ hin hk hpage hend hok, ?_⟩
  rw [hend.counters.2, hfaults]

/-- The access of a call that succeeds succeeds. -/
theorem Pager.step_succeeded (ht : call.target = some (p, page))
    (hok : (s.step answers call).1.succeeded = true) :
    (s.access answers p page call.writes).1.isError = false := by
  cases call with
  | access p' a t =>
    cases ht
    show (s.access answers p (addressPageNumber a) (decide (t = .write))).1.isError = false
    simpa [Pager.step, Reply.succeeded] using hok
  | readByte p' a =>
    cases ht
    show (s.access answers p (addressPageNumber a) false).1.isError = false
    by_contra herror
    rw [Bool.not_eq_false] at herror
    simp [Pager.step, Pager.readByte, Reply.succeeded, herror] at hok
  | writeByte p' a value =>
    cases ht
    show (s.access answers p (addressPageNumber a) true).1.isError = false
    by_contra herror
    rw [Bool.not_eq_false] at herror
    simp [Pager.step, Pager.writeByte, Reply.succeeded, herror] at hok
  | _ => cases ht

/-! ## Runs -/

/-- The calls that keep what is in memory there: a process is created, or
a page accessed. -/
def Call.refers : Call → Bool
  | .fork _ _ => false
  | .release _ => false
  | _ => true

/-- The pages that calls accessed, the last one first. -/
def accessed (history : List (Call × Reply)) : List (Nat × Nat) :=
  history.filterMap fun event => event.1.target

/-- The state after successful accesses to `keys`. -/
structure World.Recent (w : World) (n : Nat) (slots : Option Nat) (keys : List (Nat × Nat)) :
    Prop where
  forkFree : w.ForkFree slots keys.length
  ranked : ∃ c : LruCache (Nat × Nat) Nat n, w.pager.Ranks c ∧ c.keys = (recency keys).take n
  faults : w.pager.stats.pageFaults = misses n keys

theorem Pager.Ranks.mapped (h : s.Ranks c) (hc : s.Consistent) (hin : s.PagesIn (· < 2 ^ 36))
    (hpage : page < 2 ^ 36) : s.mapped p page ≠ none ↔ (p, page) ∈ c.keys := by
  constructor
  · intro hm
    obtain ⟨f, hf⟩ := Option.ne_none_iff_exists'.mp hm
    obtain ⟨huser, hkey⟩ := hc.user_of_mapped hf
    rw [keysApart_lt _ page (hin _ (hc.occupied_of_mapped hf)) hpage hkey] at huser
    exact List.mem_map.mpr ⟨_, (h.users p page f).mpr huser, rfl⟩
  · exact fun hkey hm => h.absent hc hm hkey

/-- **The resident pages** are those accessed most recently. -/
theorem World.Recent.resident (h : w.Recent n slots keys) (hpage : page < 2 ^ 36) :
    w.pager.mapped p page ≠ none ↔ (p, page) ∈ (recency keys).take n := by
  obtain ⟨c, hc, hkeys⟩ := h.ranked
  rw [hc.mapped h.forkFree.coherent.wf.consistent h.forkFree.coherent.resident hpage, hkeys]

theorem World.Recent.step (h : w.Recent n slots keys)
    (hk : keys.length + call.accesses < wordSize) (ha : w.Allows call)
    (hrefers : call.refers = true) (hrun : w.step call = some (reply, w'))
    (hok : reply.succeeded = true) : w'.Recent n slots (call.target.toList ++ keys) := by
  have hfork : call.isFork = false := by
    cases call with
    | fork p childPid => cases hrefers
    | _ => rfl
  obtain ⟨answers, reply₁, w₁, hs, hf, hfree⟩ := h.forkFree.stepped hk ha hfork
  obtain ⟨rfl, rfl⟩ := hs.unique hrun
  have hstate : (w.pager.step answers call).2 = w'.pager := by rw [hs.pager]
  have hreply : (w.pager.step answers call).1 = reply := by rw [hs.pager]
  have hc := h.forkFree.coherent.wf.consistent
  obtain ⟨c, hranks, hkeys⟩ := h.ranked
  cases ht : call.target with
  | none =>
    rw [call.accesses_untargeted ht] at hfree
    have hsame : w'.pager.physical = w.pager.physical ∧ w'.pager.cow = w.pager.cow ∧
        w'.pager.policy = w.pager.policy ∧ w'.pager.stats = w.pager.stats := by
      cases call with
      | createProcess pid =>
        rw [← hstate]
        simp only [Pager.step, Pager.create]
        split <;> exact ⟨rfl, rfl, rfl, rfl⟩
      | fork p childPid => cases hrefers
      | release p => cases hrefers
      | _ => cases ht
    obtain ⟨hphysical, hcow, hpolicy, hstats⟩ := hsame
    exact ⟨hfree, ⟨c, hranks.congr (by rw [hphysical]) (by rw [hcow]) hpolicy, hkeys⟩,
      by rw [hstats]; exact h.faults⟩
  | some target =>
    obtain ⟨p, page⟩ := target
    obtain ⟨hp, _, hpage⟩ := ha.pager.target ht
    rw [call.accesses_of_target ht] at hk hfree
    rw [← hreply] at hok
    obtain ⟨⟨f, hinserted⟩, hfaults⟩ := hranks.access hc h.forkFree.solitary
      h.forkFree.coherent.resident hk hp hpage (fun f => hf.hit p page f ht) hf.recorded
      (Pager.step_succeeded ht hok)
    have hlast : w'.pager.Ranks (c.insert (p, page) f) ∧ w'.pager.stats.pageFaults =
        (w.pager.access answers p page call.writes).2.stats.pageFaults := by
      rw [← hstate]
      rcases w.pager.step_state answers ht with hsame | ⟨g, offset, value, hset⟩
      · rw [hsame]
        exact ⟨hinserted, rfl⟩
      · rw [hset]
        exact ⟨hinserted.congr rfl rfl rfl, rfl⟩
    show w'.Recent n slots ((p, page) :: keys)
    refine ⟨hfree, ⟨_, hlast.1, LruCache.keys_insert_recency hkeys (p, page) f⟩, ?_⟩
    have hresident := h.resident (p := p) hpage
    have hmisses := misses_le_length n keys
    rw [hlast.2, hfaults, h.faults, misses]
    by_cases hm : w.pager.mapped p page = none
    · rw [if_pos hm, if_neg fun hin => hresident.mpr hin hm, increment_lt (by omega)]
    · rw [if_neg hm, if_pos (hresident.mp hm), Nat.add_zero]

theorem World.boot_recent {memory : VirtualMemory}
    (h : virtualMemoryCreateInternal n .lru tlbEntries slots = some memory) (hn : n < 2 ^ 32) :
    (World.boot memory).Recent n slots [] := by
  obtain ⟨hphysical, hpolicy, _, _, _, _, hstats⟩ := virtualMemoryCreateInternal_some h
  obtain ⟨_, _, _, _, hcount, _⟩ := physicalMemoryCreate_spec hphysical hn
  refine ⟨World.boot_forkFree h hn, ⟨.empty, ⟨hcount, fun p page f => ?_, ?_⟩, ?_⟩, ?_⟩
  · rw [World.boot_users h]
    exact iff_of_false List.not_mem_nil List.not_mem_nil
  · exact replacementPolicyCreate_orders hpolicy
  · rw [recency, List.take_nil]
    rfl
  · show memory.stats.pageFaults = 0
    rw [hstats]
    rfl

end VmSim
