/-
VmSim.Contract.Metrics — the metrics are conserved.

The runs create processes and access pages, and no counter comes to the
end of its 64 bits (`World.Counts`). Accesses may fail for the lack of a
slot.
-/
import VmSim.VirtualMemory.Metrics

namespace VmSim

open Lib

variable {w w' : World} {n tlbEntries : Nat} {type : ReplacementPolicyType} {slots : Option Nat}
  {history : List (Call × Reply)} {call : Call} {reply : Reply}

/-! ## Runs of accesses -/

/-- The calls of a run: a process is created, or a page accessed. -/
def Call.Plain : Call → Prop
  | .createProcess _ => True
  | .access _ _ _ => True
  | _ => False

/-- The counters that grow fastest do not wrap around. -/
def World.Counts (w : World) (call : Call) : Prop :=
  w.memory.stats.totalAccesses + call.accesses < wordSize ∧
    ∀ r ∈ w.step call, w.memory.stats.pageWalkLevels ≤ r.2.memory.stats.pageWalkLevels

instance : (call : Call) → Decidable call.Plain
  | .createProcess _ | .access _ _ _ => .isTrue trivial
  | .readByte _ _ | .writeByte _ _ _ | .fork _ _ | .release _ => .isFalse id

instance (w : World) (call : Call) : Decidable (w.Counts call) :=
  decidable_of_iff (w.memory.stats.totalAccesses + call.accesses < wordSize ∧
    (w.step call).all fun r =>
      decide (w.memory.stats.pageWalkLevels ≤ r.2.memory.stats.pageWalkLevels)) <| by
    unfold World.Counts
    cases w.step call <;> simp

/-- The states that accesses reach while the counters last. -/
def World.Measured (n : Nat) (type : ReplacementPolicyType) (tlbEntries : Nat)
    (slots : Option Nat) (history : List (Call × Reply)) (w : World) : Prop :=
  ∃ memory, virtualMemoryCreateInternal n type tlbEntries slots = some memory ∧
    Run World.step (fun w call => w.Allows call ∧ call.Plain ∧ w.Counts call)
      (World.boot memory) history w

/-- How many accesses of a run returned `VM_ACCESS_PAGE_FAULT`. -/
def faulted (history : List (Call × Reply)) : Nat :=
  history.countP fun event => decide (event.2 = .result .pageFault)

/-! ## The equations -/

def PhysicalMemory.occupiedFrames (memory : PhysicalMemory) : Finset Nat :=
  (Finset.range memory.frameCount).filter fun f => (memory.frames f).occupied = true

structure World.Conserved (w : World) (history : List (Call × Reply)) : Prop where
  accesses : w.memory.stats.totalAccesses =
    w.memory.stats.readAccesses + w.memory.stats.writeAccesses
  lookups : w.memory.stats.totalAccesses = w.memory.stats.tlbHits + w.memory.stats.tlbMisses
  walks : w.memory.stats.pageWalks = w.memory.stats.tlbMisses
  levels : w.memory.stats.pageWalks ≤ w.memory.stats.pageWalkLevels ∧
    w.memory.stats.pageWalkLevels ≤ 4 * w.memory.stats.pageWalks
  faults : w.memory.stats.pageFaults ≤ w.memory.stats.tlbMisses
  loads : faulted history =
    w.memory.stats.replacements + w.memory.physicalMemory.occupiedFrames.card
  evictions : w.memory.stats.dirtyEvictions ≤ w.memory.stats.replacements
  saved : ∀ swap, w.memory.swap = some swap →
    w.memory.stats.swapWrites = w.memory.stats.dirtyEvictions ∧
      swap.usedSlotCount = w.memory.stats.swapWrites - w.memory.stats.swapReads ∧
      w.memory.stats.swapReads ≤ w.memory.stats.swapWrites
  unsaved : w.memory.swap = none →
    w.memory.stats.swapReads = 0 ∧ w.memory.stats.swapWrites = 0

theorem PhysicalMemory.card_occupiedFrames (memory : PhysicalMemory) :
    memory.occupiedFrames.card + (freeFrames memory.frames memory.frameCount).card =
      memory.frameCount := by
  have hsplit := Finset.card_filter_add_card_filter_not (s := Finset.range memory.frameCount)
    fun f => (memory.frames f).occupied = true
  simp only [Bool.not_eq_true, Finset.card_range] at hsplit
  exact hsplit

/-! ## Steps -/

/-- What the steps keep, after a run that counted `stats.totalAccesses`
accesses. -/
structure World.Balanced (w : World) (slots : Option Nat) (history : List (Call × Reply)) :
    Prop where
  forkFree : w.ForkFree slots w.memory.stats.totalAccesses
  metered : w.pager.Metered (faulted history)
  translated : w.memory.stats.translation.Balanced w.memory.stats.totalAccesses
  faults : w.memory.stats.pageFaults ≤ w.memory.stats.tlbMisses

theorem World.Balanced.conserved (h : w.Balanced slots history) : w.Conserved history := by
  have hfree := h.forkFree.coherent.wf.consistent.freeCount
  have hframes := w.memory.physicalMemory.card_occupiedFrames
  have hloads := h.metered.loads
  rw [hfree] at hloads
  refine ⟨h.metered.accesses, h.translated.lookups, h.translated.walks, h.translated.levels,
    h.faults, ?_, h.metered.evictions,
    fun swap hswap => ?_, h.metered.unsaved⟩
  · change faulted history + (freeFrames w.memory.physicalMemory.frames
      w.memory.physicalMemory.frameCount).card =
      w.memory.stats.replacements + w.memory.physicalMemory.frameCount at hloads
    omega
  · have hsome : w.pager.swap ≠ none := by
      rw [show w.pager.swap = some swap from hswap]
      exact Option.some_ne_none swap
    obtain ⟨hwrites, hreads⟩ := h.metered.saved hsome
    rw [Pager.used_some hswap] at hreads
    change swap.usedSlotCount + w.memory.stats.swapReads = w.memory.stats.swapWrites at hreads
    exact ⟨hwrites, by omega, by omega⟩

theorem faulted_cons (call : Call) (reply : Reply) (history : List (Call × Reply)) :
    faulted ((call, reply) :: history) =
      faulted history + if reply = .result .pageFault then 1 else 0 := by
  rw [faulted, List.countP_cons]
  simp only [decide_eq_true_eq]
  rfl

theorem World.Balanced.step (h : w.Balanced slots history) (ha : w.Allows call)
    (hplain : call.Plain) (hcounts : w.Counts call) (hrun : w.step call = some (reply, w')) :
    w'.Balanced slots ((call, reply) :: history) := by
  obtain ⟨hlt, hlevels⟩ := hcounts
  have hfork : call.isFork = false := by
    cases call with
    | fork p childPid => cases hplain
    | _ => rfl
  obtain ⟨answers, reply₁, w₁, hs, hf, hfree⟩ := h.forkFree.stepped hlt ha hfork
  obtain ⟨rfl, rfl⟩ := hs.unique hrun
  obtain ⟨levels, hbounds, htranslation⟩ := hs.translations
  have htotal : ∀ w : World, w.pager.stats.totalAccesses = w.memory.stats.totalAccesses :=
    fun _ => rfl
  have hpages : ∀ w : World, w.pager.stats.pageFaults = w.memory.stats.pageFaults := fun _ => rfl
  have hmisses : ∀ w : World, w.memory.stats.translation.tlbMisses = w.memory.stats.tlbMisses :=
    fun _ => rfl
  cases call with
  | createProcess pid =>
    have hend : (Reply.process (w.pager.create pid).1, (w.pager.create pid).2) =
        (reply, w'.pager) := hs.pager
    obtain ⟨hreply, hstate⟩ := Prod.mk.inj hend
    obtain ⟨hstats, hphysical, hswap⟩ : w'.pager.stats = w.pager.stats ∧
        w'.pager.physical = w.pager.physical ∧ w'.pager.swap = w.pager.swap := by
      rw [← hstate]
      unfold Pager.create
      split <;> exact ⟨rfl, rfl, rfl⟩
    have hsame : w'.memory.stats.translation = w.memory.stats.translation := htranslation
    have hcount : w'.memory.stats.totalAccesses = w.memory.stats.totalAccesses := by
      rw [← htotal, ← htotal, hstats]
    refine ⟨hcount ▸ hfree, ?_, by rw [hsame, hcount]; exact h.translated, ?_⟩
    · rw [faulted_cons, ← hreply]
      exact h.metered.congr hstats hphysical hswap
    · rw [← hpages, hstats, ← hmisses, hsame, hpages, hmisses]
      exact h.faults
  | access p a t =>
    obtain ⟨hp, _, _⟩ := ha.pager.target rfl
    have hend : (Reply.result (w.pager.access answers p (addressPageNumber a)
        (decide (t = .write))).1, (w.pager.access answers p (addressPageNumber a)
        (decide (t = .write))).2) = (reply, w'.pager) := hs.pager
    obtain ⟨hreply, hstate⟩ := Prod.mk.inj hend
    obtain ⟨hmetered, hcount, hfaults⟩ := h.metered.access h.forkFree.coherent.wf.consistent
      h.forkFree.solitary hlt hlt hp (fun f => hf.hit p _ f rfl) hf.recorded (decide (t = .write))
    rw [hstate, htotal] at hcount
    rw [hstate, hpages] at hfaults
    have hlooked : w'.memory.stats.translation =
        w.memory.stats.translation.looked answers.hit levels := htranslation
    obtain ⟨hbalanced, hmissed⟩ := h.translated.looked hlt hbounds answers.hit
      (by rw [← hlooked]; exact hlevels _ hrun)
    rw [← hlooked] at hbalanced hmissed
    rw [hmisses, hmisses] at hmissed
    change w'.memory.stats.totalAccesses = w.memory.stats.totalAccesses + 1 at hcount
    refine ⟨hcount ▸ hfree, ?_, hcount ▸ hbalanced, ?_⟩
    · rw [faulted_cons, ← hreply, ← hstate]
      simp only [Reply.result.injEq]
      exact hmetered
    · have hle := h.faults
      rw [hfaults, hmissed, hpages]
      cases hfound : answers.hit with
      | none =>
        rw [if_pos rfl]
        split <;> omega
      | some f =>
        have hm := hf.hit p _ f rfl hfound
        rw [if_neg (by rw [hm]; exact Option.some_ne_none f), if_neg (Option.some_ne_none f)]
        exact hle
  | _ => cases hplain

theorem World.boot_balanced {memory : VirtualMemory}
    (h : virtualMemoryCreateInternal n type tlbEntries slots = some memory) (hn : n < 2 ^ 32) :
    (World.boot memory).Balanced slots [] := by
  obtain ⟨hphysical, _, _, _, hswap, _, hstats⟩ := virtualMemoryCreateInternal_some h
  obtain ⟨_, _, _, _, hcount, hfree, _⟩ := physicalMemoryCreate_spec hphysical hn
  have hzero : (World.boot memory).memory.stats = .zero := hstats
  have hpager : (World.boot memory).pager.stats = .zero := by
    rw [show (World.boot memory).pager.stats = memory.stats.untranslated from rfl, hstats]
    rfl
  refine ⟨by rw [hzero]; exact World.boot_forkFree h hn, ?_, ?_, ?_⟩
  · constructor <;> rw [hpager]
    · rfl
    · exact Nat.le_refl 0
    · exact Nat.le_refl 0
    · exact Nat.le_refl 0
    · show 0 + memory.physicalMemory.freeFrameCount = 0 + memory.physicalMemory.frameCount
      rw [hfree, hcount]
    · intro hsome
      obtain ⟨swap, hsome⟩ := Option.ne_none_iff_exists'.mp hsome
      obtain ⟨count, _, _, hcreate⟩ := hswap swap hsome
      have hused : swap.usedSlotCount = 0 := (swapCreate_represents hcreate).card
      rw [Pager.used_some hsome, hused]
      exact ⟨rfl, rfl⟩
    · exact fun _ => ⟨rfl, rfl⟩
  · rw [hzero]
    exact ⟨rfl, rfl, ⟨Nat.le_refl 0, Nat.le_refl 0⟩, by decide⟩
  · rw [hzero]
    exact Nat.le_refl 0

/-- **The metrics are conserved** after every access of a run. -/
theorem virtualMemory_metrics (hn : n < 2 ^ 32)
    (h : World.Measured n type tlbEntries slots history w) : w.Conserved history := by
  obtain ⟨memory, hcreate, hrun⟩ := h
  have hbalanced : w.Balanced slots history :=
    Run.invariant (fun history w => w.Balanced slots history) (World.boot_balanced hcreate hn)
      (fun history w call reply w' ih ⟨ha, hplain, hcounts⟩ hs => ih.step ha hplain hcounts hs) hrun
  exact hbalanced.conserved

/-- One frame and one slot for three pages that are written: the last
access is refused. -/
theorem virtualMemory_metrics_full : ∃ history w, World.Measured 1 .lru 1 (some 1) history w ∧
    (history.map Prod.snd).head? = some (.result .swapError) ∧ w.Conserved history := by
  have hrun : ((virtualMemoryCreateInternal 1 .lru 1 (some 1)).bind fun memory =>
      runChecked World.step (fun w call => w.Allows call ∧ call.Plain ∧ w.Counts call) []
        (World.boot memory) [.createProcess 1, .access 0 0x1000 .write, .access 0 0x2000 .write,
          .access 0 0x3000 .write]).any (fun r => decide ((r.1.map Prod.snd).head? =
            some (.result .swapError))) = true := by decide +kernel
  obtain ⟨⟨history, w⟩, hafter, hcheck⟩ := (Option.any_eq_true _ _).mp hrun
  obtain ⟨memory, hcreate, hchecked⟩ := Option.bind_eq_some_iff.mp hafter
  have hmeasured : World.Measured 1 .lru 1 (some 1) history w :=
    ⟨memory, hcreate, Run.of_runChecked _ .start hchecked⟩
  exact ⟨history, w, hmeasured, of_decide_eq_true hcheck,
    virtualMemory_metrics (by decide) hmeasured⟩

end VmSim
