/-
VmSim.Lib.Paging — demand paging.

A memory of `n` frames serves requests for pages, which are given newest
first. A request for a resident page costs nothing. Any other is a fault:
the page is loaded, and where the memory is full one page makes room for
it. `Paged n requests resident faults` leaves open which one, so it
covers every replacement policy.

`phase` cuts a sequence into phases of `n` distinct pages. Every memory
has a fault in each phase (`Paged.lower_bound`), and one that keeps what
it loaded in a phase until the phase ends (`Conservative`) has at most
`n` of them (`Conservative.faults_le`). `Conservative.competitive` compares
the two.
-/
import Mathlib.Data.Finset.Card
import Mathlib.Data.List.Basic
import Mathlib.Tactic.Ring

namespace VmSim.Lib

variable {κ : Type} [DecidableEq κ] {n h m : Nat} {k v : κ} {ks : List κ} {R : Finset κ}

/-! ## Demand paging -/

inductive Paged (n : Nat) : List κ → Finset κ → Nat → Prop where
  | start : Paged n [] ∅ 0
  | hit {ks : List κ} {R : Finset κ} {m : Nat} {k : κ} :
      Paged n ks R m → k ∈ R → Paged n (k :: ks) R m
  | load {ks : List κ} {R : Finset κ} {m : Nat} {k : κ} :
      Paged n ks R m → k ∉ R → R.card < n → Paged n (k :: ks) (insert k R) (m + 1)
  | replace {ks : List κ} {R : Finset κ} {m : Nat} {k v : κ} :
      Paged n ks R m → k ∉ R → R.card = n → v ∈ R →
      Paged n (k :: ks) (insert k (R.erase v)) (m + 1)

theorem card_insert_erase (hk : k ∉ R) (hv : v ∈ R) : (insert k (R.erase v)).card = R.card := by
  have hpos := Finset.card_pos.mpr ⟨v, hv⟩
  rw [Finset.card_insert_of_notMem fun hmem => hk (Finset.mem_of_mem_erase hmem),
    Finset.card_erase_of_mem hv]
  omega

theorem Paged.card_le (hp : Paged n ks R m) : R.card ≤ n := by
  induction hp with
  | start => simp
  | hit _ _ ih => exact ih
  | load _ hk hlt _ => rwa [Finset.card_insert_of_notMem hk]
  | replace _ hk hfull hv _ => rw [card_insert_erase hk hv, hfull]

/-- Only pages that were requested are resident. -/
theorem Paged.subset (hp : Paged n ks R m) : R ⊆ ks.toFinset := by
  induction hp with
  | start => simp
  | hit _ _ ih =>
    intro x hx
    simp [List.mem_toFinset.mp (ih hx)]
  | load _ _ _ ih =>
    rw [List.toFinset_cons]
    exact Finset.insert_subset_insert _ ih
  | replace _ _ _ _ ih =>
    rw [List.toFinset_cons]
    exact Finset.insert_subset_insert _ ((Finset.erase_subset _ _).trans ih)

/-- A page is not given up as long as there is room. -/
theorem Paged.all (hp : Paged n ks R m) (hlt : R.card < n) :
    R = ks.toFinset ∧ m = ks.toFinset.card := by
  induction hp with
  | start => simp
  | hit _ hk ih =>
    obtain ⟨hall, hm⟩ := ih hlt
    rw [List.toFinset_cons, Finset.insert_eq_of_mem (hall ▸ hk)]
    exact ⟨hall, hm⟩
  | load _ hk hroom ih =>
    obtain ⟨hall, hm⟩ := ih hroom
    rw [List.toFinset_cons, ← hall, Finset.card_insert_of_notMem hk, hm, ← hall]
    exact ⟨rfl, rfl⟩
  | replace _ hk hfull hv _ =>
    rw [card_insert_erase hk hv, hfull] at hlt
    exact absurd hlt (Nat.lt_irrefl _)

/-- Every page that was requested was loaded once at least. -/
theorem Paged.distinct_le (hp : Paged n ks R m) : ks.toFinset.card ≤ m := by
  induction hp with
  | start => simp
  | hit hp' hk ih =>
    rw [List.toFinset_cons, Finset.insert_eq_of_mem (hp'.subset hk)]
    exact ih
  | load _ _ _ ih =>
    rw [List.toFinset_cons]
    exact (Finset.card_insert_le _ _).trans (Nat.succ_le_succ ih)
  | replace _ _ _ _ ih =>
    rw [List.toFinset_cons]
    exact (Finset.card_insert_le _ _).trans (Nat.succ_le_succ ih)

/-- The memory fills up before it gives up a page. -/
theorem Paged.card_eq (hp : Paged n ks R m) : R.card = min n ks.toFinset.card := by
  have hsub := Finset.card_le_card hp.subset
  rcases Nat.lt_or_ge R.card n with hlt | hge
  · have hall : R.card = ks.toFinset.card := congrArg Finset.card (hp.all hlt).1
    omega
  · have hle := hp.card_le
    omega

theorem Paged.faults_le (hp : Paged n ks R m) : m ≤ ks.length := by
  induction hp with
  | start => exact Nat.le_refl 0
  | hit _ _ ih => exact Nat.le_succ_of_le ih
  | load _ _ _ ih => exact Nat.succ_le_succ ih
  | replace _ _ _ _ ih => exact Nat.succ_le_succ ih

/-- With a frame for every page, each is loaded once. -/
theorem Paged.roomy (hp : Paged n ks R m) (hroom : ks.toFinset.card ≤ n) :
    R = ks.toFinset ∧ m = ks.toFinset.card := by
  induction hp with
  | start => simp
  | hit hp' hk ih =>
    rw [List.toFinset_cons, Finset.insert_eq_of_mem (hp'.subset hk)] at hroom ⊢
    exact ih hroom
  | load hp' hk hlt ih =>
    obtain ⟨hall, hm⟩ := hp'.all hlt
    rw [List.toFinset_cons, ← hall, Finset.card_insert_of_notMem hk, hm, ← hall]
    exact ⟨rfl, rfl⟩
  | replace hp' hk hfull _ ih =>
    rw [List.toFinset_cons] at hroom
    obtain ⟨hall, _⟩ := ih ((Finset.card_le_card (Finset.subset_insert _ _)).trans hroom)
    rw [← hall, Finset.card_insert_of_notMem hk, hfull] at hroom
    exact absurd hroom (Nat.not_succ_le_self _)

/-! ## Phases -/

/-- How many phases are over, and the pages requested in the current one. -/
structure Phase (κ : Type) where
  completed : Nat
  pages : Finset κ

/-- A phase ends where it would get one page more than `n`. -/
def phase (n : Nat) : List κ → Phase κ
  | [] => ⟨0, ∅⟩
  | k :: ks =>
    if k ∈ (phase n ks).pages then phase n ks
    else if (phase n ks).pages.card < n then
      { phase n ks with pages := insert k (phase n ks).pages }
    else ⟨(phase n ks).completed + 1, {k}⟩

theorem phase_old (hk : k ∈ (phase n ks).pages) : phase n (k :: ks) = phase n ks := if_pos hk

theorem phase_grow (hk : k ∉ (phase n ks).pages) (hlt : (phase n ks).pages.card < n) :
    phase n (k :: ks) = { phase n ks with pages := insert k (phase n ks).pages } :=
  (if_neg hk).trans (if_pos hlt)

theorem phase_next (hk : k ∉ (phase n ks).pages) (hfull : n ≤ (phase n ks).pages.card) :
    phase n (k :: ks) = ⟨(phase n ks).completed + 1, {k}⟩ :=
  (if_neg hk).trans (if_neg (Nat.not_lt.mpr hfull))

theorem phase_card_le (hn : 0 < n) (ks : List κ) : (phase n ks).pages.card ≤ n := by
  induction ks with
  | nil => simp [phase]
  | cons k ks ih =>
    unfold phase
    split
    · exact ih
    · rename_i hk
      split
      · rename_i hlt
        rw [Finset.card_insert_of_notMem hk]
        exact hlt
      · rw [Finset.card_singleton]
        exact hn

/-! ## A lower bound for every memory -/

/-- What a memory of `h` frames did in the current phase: `before` is what
it held after the first request of the phase, and `paid` its faults up to
that request. -/
structure PhaseCost (n h : Nat) (now : Phase κ) (R : Finset κ) (m : Nat) (before : Finset κ)
    (paid : Nat) : Prop where
  card : before.card ≤ h
  first : (now.pages ∩ before).Nonempty
  held : R ⊆ before ∪ now.pages
  loaded : paid + (now.pages \ before).card ≤ m
  paid : 1 + now.completed * (n + 1 - h) ≤ paid

/-- A request that is served, and the pages that may be new in memory. -/
theorem PhaseCost.request {now : Phase κ} {R' before : Finset κ} {m' paid : Nat}
    (hc : PhaseCost n h now R m before paid) (hk : k ∈ R ∧ m' = m ∨ m' = m + 1)
    (hheld : R' ⊆ insert k R) :
    PhaseCost n h { now with pages := insert k now.pages } R' m' before paid := by
  refine ⟨hc.card, ?_, fun x hx => ?_, ?_, hc.paid⟩
  · obtain ⟨x, hx⟩ := hc.first
    obtain ⟨hnow, hbefore⟩ := Finset.mem_inter.mp hx
    exact ⟨x, by simp [hnow, hbefore]⟩
  · rcases Finset.mem_insert.mp (hheld hx) with rfl | hx'
    · simp
    · rcases Finset.mem_union.mp (hc.held hx') with hb | hnow
      · simp [hb]
      · simp [hnow]
  · have hloaded := hc.loaded
    rcases hk with ⟨hk, rfl⟩ | rfl
    · -- a resident page is one of the phase already, or was there before it
      have hsub : insert k now.pages \ before ⊆ now.pages \ before := by
        intro x hx
        obtain ⟨hin, hnot⟩ := Finset.mem_sdiff.mp hx
        rcases Finset.mem_insert.mp hin with rfl | hin'
        · exact Finset.mem_sdiff.mpr
            ⟨(Finset.mem_union.mp (hc.held hk)).resolve_left hnot, hnot⟩
        · exact Finset.mem_sdiff.mpr ⟨hin', hnot⟩
      have hcard := Finset.card_le_card hsub
      dsimp only
      omega
    · have hsub : insert k now.pages \ before ⊆ insert k (now.pages \ before) := by
        intro x hx
        obtain ⟨hin, hnot⟩ := Finset.mem_sdiff.mp hx
        rcases Finset.mem_insert.mp hin with rfl | hin'
        · simp
        · simp [hin', hnot]
      have hcard := (Finset.card_le_card hsub).trans (Finset.card_insert_le _ _)
      dsimp only
      omega

/-- The first request of a phase closes the phase before it. -/
theorem PhaseCost.next {now : Phase κ} {R before : Finset κ} {m paid : Nat}
    (hc : PhaseCost n h { now with pages := insert k now.pages } R m before paid)
    (hk : k ∉ now.pages) (hfull : n ≤ now.pages.card) (hR : R.card ≤ h) (hin : k ∈ R) :
    PhaseCost n h ⟨now.completed + 1, {k}⟩ R m R m := by
  refine ⟨hR, ⟨k, by simp [hin]⟩, Finset.subset_union_left, ?_, ?_⟩
  · have hempty : ({k} : Finset κ) \ R = ∅ := by simpa using hin
    simp [hempty]
  · have hloaded := hc.loaded
    have hpaid := hc.paid
    have hcard := hc.card
    have hsplit := Finset.card_sdiff_add_card_inter (insert k now.pages) before
    have hinter : (insert k now.pages ∩ before).card ≤ h :=
      (Finset.card_le_card Finset.inter_subset_right).trans hcard
    have hsize : (insert k now.pages).card = now.pages.card + 1 :=
      Finset.card_insert_of_notMem hk
    dsimp only at hloaded hpaid ⊢
    rw [Nat.succ_mul]
    omega

theorem Paged.head_mem (hp : Paged n (k :: ks) R m) : k ∈ R := by
  cases hp with
  | hit _ hk => exact hk
  | load _ _ _ => simp
  | replace _ _ _ _ => simp

/-- A request, as `PhaseCost` sees it. -/
theorem Paged.before (hp : Paged h (k :: ks) R m) :
    ∃ R' m', Paged h ks R' m' ∧ (k ∈ R' ∧ m = m' ∨ m = m' + 1) ∧ R ⊆ insert k R' := by
  cases hp with
  | hit hp' hk => exact ⟨_, _, hp', .inl ⟨hk, rfl⟩, Finset.subset_insert _ _⟩
  | load hp' _ _ => exact ⟨_, _, hp', .inr rfl, Finset.Subset.refl _⟩
  | replace hp' _ _ _ =>
    exact ⟨_, _, hp', .inr rfl, Finset.insert_subset_insert _ (Finset.erase_subset _ _)⟩

theorem Paged.phaseCost (hn : 0 < n) (hne : ks ≠ []) :
    ∀ {R : Finset κ} {m : Nat}, Paged h ks R m →
      ∃ before paid, PhaseCost n h (phase n ks) R m before paid := by
  induction ks with
  | nil => exact absurd rfl hne
  | cons k ks ih =>
    intro R m hp
    have hin := hp.head_mem
    have hcard := hp.card_le
    obtain ⟨R', m', hp', hk, hheld⟩ := hp.before
    by_cases hfirst : ks = []
    · subst hfirst
      cases hp'
      have hm : m = 1 := by simpa using hk
      subst hm
      refine ⟨R, 1, hcard, ⟨k, ?_⟩, Finset.subset_union_left, ?_, ?_⟩
      · simp [phase, hn, hin]
      · simp [phase, hn, hin]
      · simp [phase, hn]
    · obtain ⟨before, paid, hc⟩ := ih hfirst hp'
      have hc' := hc.request hk hheld
      by_cases hold : k ∈ (phase n ks).pages
      · rw [phase_old hold]
        rw [Finset.insert_eq_of_mem hold] at hc'
        exact ⟨before, paid, hc'⟩
      · rcases Nat.lt_or_ge (phase n ks).pages.card n with hlt | hge
        · rw [phase_grow hold hlt]
          exact ⟨before, paid, hc'⟩
        · rw [phase_next hold hge]
          exact ⟨R, m, hc'.next hold hge hcard hin⟩

/-- A memory of `h` frames has `n + 1 - h` faults for every phase that is
over, and one for the first request. -/
theorem Paged.lower_bound (hp : Paged h ks R m) (hn : 0 < n) (hne : ks ≠ []) :
    1 + (phase n ks).completed * (n + 1 - h) ≤ m := by
  obtain ⟨before, paid, hc⟩ := hp.phaseCost hn hne
  exact hc.paid.trans ((Nat.le_add_right _ _).trans hc.loaded)

/-! ## Conservative memories -/

/-- The faults of a memory that holds `resident ks` after the requests
`ks`. -/
def faultsOf (resident : List κ → Finset κ) : List κ → Nat
  | [] => 0
  | k :: ks => faultsOf resident ks + if k ∈ resident ks then 0 else 1

/-- The pages it loaded in the current phase. -/
def loadedIn (n : Nat) (resident : List κ → Finset κ) : List κ → Finset κ
  | [] => ∅
  | k :: ks =>
    let kept := if (phase n (k :: ks)).completed = (phase n ks).completed then
      loadedIn n resident ks else ∅
    if k ∈ resident ks then kept else insert k kept

/-- What is loaded in a phase stays until the phase is over. -/
def Conservative (n : Nat) (resident : List κ → Finset κ) : Prop :=
  ∀ ks, loadedIn n resident ks ⊆ resident ks

theorem phase_completed_cases (n : Nat) (k : κ) (ks : List κ) :
    ((phase n (k :: ks)).completed = (phase n ks).completed ∧
      (phase n (k :: ks)).pages = insert k (phase n ks).pages) ∨
    ((phase n (k :: ks)).completed = (phase n ks).completed + 1 ∧
      (phase n (k :: ks)).pages = {k} ∧ n ≤ (phase n ks).pages.card ∧
      k ∉ (phase n ks).pages) := by
  by_cases hold : k ∈ (phase n ks).pages
  · rw [phase_old hold, Finset.insert_eq_of_mem hold]
    exact .inl ⟨rfl, rfl⟩
  · rcases Nat.lt_or_ge (phase n ks).pages.card n with hlt | hge
    · rw [phase_grow hold hlt]
      exact .inl ⟨rfl, rfl⟩
    · rw [phase_next hold hge]
      exact .inr ⟨rfl, rfl, hge, hold⟩

variable {resident : List κ → Finset κ}

theorem loadedIn_subset (n : Nat) (resident : List κ → Finset κ) (ks : List κ) :
    loadedIn n resident ks ⊆ (phase n ks).pages := by
  induction ks with
  | nil => simp [loadedIn]
  | cons k ks ih =>
    rw [loadedIn]
    rcases phase_completed_cases n k ks with ⟨hsame, hpages⟩ | ⟨hnext, hpages, _⟩
    · have hkept := ih.trans (Finset.subset_insert k _)
      simp only [hsame, if_true, hpages]
      split
      · exact hkept
      · exact Finset.insert_subset (Finset.mem_insert_self _ _) hkept
    · simp only [hnext, Nat.succ_ne_self, if_false, hpages]
      split <;> simp

/-- At most `n` faults in a phase. -/
theorem Conservative.faults_le (hc : Conservative n resident) (hn : 0 < n) (ks : List κ) :
    faultsOf resident ks ≤ n * (phase n ks).completed + (loadedIn n resident ks).card := by
  induction ks with
  | nil => simp [faultsOf]
  | cons k ks ih =>
    have hcard := (Finset.card_le_card (loadedIn_subset n resident ks)).trans
      (phase_card_le hn ks)
    rw [faultsOf, loadedIn]
    rcases phase_completed_cases n k ks with ⟨hsame, _⟩ | ⟨hnext, _⟩
    · simp only [hsame, if_true]
      split
      · exact ih
      · rename_i hk
        rw [Finset.card_insert_of_notMem fun hin => hk (hc ks hin)]
        omega
    · simp only [hnext, Nat.succ_ne_self, if_false, Nat.mul_succ]
      split
      · omega
      · simp only [Finset.card_insert_of_notMem (Finset.notMem_empty k), Finset.card_empty]
        omega

/-- **The competitive bound**: a conservative memory of `n` frames against
any memory of `h ≤ n` frames. -/
theorem Conservative.competitive (hc : Conservative n resident) (hn : 0 < n) (hh : h ≤ n)
    (hp : Paged h ks R m) :
    (n + 1 - h) * faultsOf resident ks ≤ n * m + n * (n - h) := by
  by_cases hne : ks = []
  · simp [hne, faultsOf]
  · have hlower := hp.lower_bound hn hne
    have hupper := hc.faults_le hn ks
    have hcard := (Finset.card_le_card (loadedIn_subset n resident ks)).trans
      (phase_card_le hn ks)
    obtain ⟨d, rfl⟩ := Nat.exists_eq_add_of_le hh
    have hone : h + d + 1 - h = d + 1 := by omega
    have hdiff : h + d - h = d := Nat.add_sub_cancel_left h d
    rw [hone] at hlower ⊢
    rw [hdiff]
    calc (d + 1) * faultsOf resident ks
        ≤ (d + 1) * ((h + d) * (phase (h + d) ks).completed + (h + d)) :=
          Nat.mul_le_mul_left _ (hupper.trans (Nat.add_le_add_left hcard _))
      _ = (h + d) * (1 + (phase (h + d) ks).completed * (d + 1)) + (h + d) * d := by ring
      _ ≤ (h + d) * m + (h + d) * d :=
          Nat.add_le_add_right (Nat.mul_le_mul_left _ hlower) _

end VmSim.Lib
