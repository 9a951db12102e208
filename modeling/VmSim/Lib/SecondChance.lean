/-
VmSim.Lib.SecondChance — memories with a bit for each page.

The pages stand in a circle, listed from the hand on. A request sets the
bit of its page. For a new page the hand passes the pages whose bit is set,
clears the bits, and replaces the first page whose bit is not set
(`sweep`); if all are set, that is the page where it began.

Such a memory is conservative as well (`clockPages_conservative`). Before
the hand comes back to a page loaded in the current phase, it has passed
all others, and each of those was requested in the phase or replaced.
-/
import VmSim.Lib.Paging
import Mathlib.Data.Finset.Dedup
import Mathlib.Data.List.TakeWhile

namespace VmSim.Lib

variable {κ : Type} [DecidableEq κ] {n : Nat} {k x : κ} {ks : List κ} {c X Y Z : List (κ × Bool)}
  {S L : Finset κ}

/-! ## The circle -/

/-- The bit of a page is set. -/
def mark (k : κ) (c : List (κ × Bool)) : List (κ × Bool) :=
  c.map fun e => if e.1 = k then (e.1, true) else e

/-- The bits of all pages are cleared. -/
def unmark (c : List (κ × Bool)) : List (κ × Bool) := c.map fun e => (e.1, false)

/-- What is left when the hand has found a page to replace. -/
def sweep (c : List (κ × Bool)) : List (κ × Bool) :=
  match c.dropWhile Prod.snd with
  | [] => (unmark c).tail
  | _ :: ahead => ahead ++ unmark (c.takeWhile Prod.snd)

def clock (n : Nat) : List κ → List (κ × Bool)
  | [] => []
  | k :: ks =>
    if k ∈ (clock n ks).map Prod.fst then mark k (clock n ks)
    else if (clock n ks).length < n then clock n ks ++ [(k, true)]
    else sweep (clock n ks) ++ [(k, true)]

def clockPages (n : Nat) (ks : List κ) : Finset κ := ((clock n ks).map Prod.fst).toFinset

@[simp] theorem mem_clockPages : x ∈ clockPages n ks ↔ x ∈ (clock n ks).map Prod.fst :=
  List.mem_toFinset

@[simp] theorem map_fst_mark (k : κ) (c : List (κ × Bool)) :
    (mark k c).map Prod.fst = c.map Prod.fst := by
  rw [mark, List.map_map]
  refine List.map_congr_left fun e _ => ?_
  dsimp only [Function.comp]
  split <;> rfl

omit [DecidableEq κ] in
@[simp] theorem map_fst_unmark (c : List (κ × Bool)) : (unmark c).map Prod.fst = c.map Prod.fst := by
  rw [unmark, List.map_map]
  rfl

@[simp] theorem mark_append (k : κ) (c d : List (κ × Bool)) :
    mark k (c ++ d) = mark k c ++ mark k d := List.map_append

omit [DecidableEq κ] in
@[simp] theorem unmark_append (c d : List (κ × Bool)) :
    unmark (c ++ d) = unmark c ++ unmark d := List.map_append

theorem clock_hit (hk : k ∈ (clock n ks).map Prod.fst) : clock n (k :: ks) = mark k (clock n ks) :=
  if_pos hk

theorem clock_load (hk : k ∉ (clock n ks).map Prod.fst) (hlt : (clock n ks).length < n) :
    clock n (k :: ks) = clock n ks ++ [(k, true)] := (if_neg hk).trans (if_pos hlt)

theorem clock_replace (hk : k ∉ (clock n ks).map Prod.fst) (hfull : n ≤ (clock n ks).length) :
    clock n (k :: ks) = sweep (clock n ks) ++ [(k, true)] :=
  (if_neg hk).trans (if_neg (Nat.not_lt.mpr hfull))

/-! ## The sweep -/

omit [DecidableEq κ] in
/-- The hand stops at the first bit that is not set. -/
theorem sweep_stop {passed ahead : List (κ × Bool)} {v : κ}
    (hpassed : ∀ e ∈ passed, e.2 = true) :
    sweep (passed ++ (v, false) :: ahead) = ahead ++ unmark passed := by
  have hdrop : (passed ++ (v, false) :: ahead).dropWhile Prod.snd = (v, false) :: ahead := by
    rw [List.dropWhile_append_of_pos hpassed]
    simp
  have htake : (passed ++ (v, false) :: ahead).takeWhile Prod.snd = passed := by
    rw [List.takeWhile_append_of_pos hpassed]
    simp
  rw [sweep, hdrop, htake]

omit [DecidableEq κ] in
/-- If all bits are set it comes back to where it began. -/
theorem sweep_round (hall : ∀ e ∈ c, e.2 = true) : sweep c = (unmark c).tail := by
  have hdrop : c.dropWhile Prod.snd = [] := List.dropWhile_eq_nil_iff.mpr hall
  rw [sweep, hdrop]

omit [DecidableEq κ] in
theorem sweep_cases (c : List (κ × Bool)) :
    (∀ e ∈ c, e.2 = true) ∨ ∃ passed v ahead, c = passed ++ (v, false) :: ahead ∧
      ∀ e ∈ passed, e.2 = true := by
  induction c with
  | nil => simp
  | cons e c ih =>
    obtain ⟨v, bit⟩ := e
    cases bit with
    | false => exact .inr ⟨[], v, c, rfl, by simp⟩
    | true =>
      rcases ih with hall | ⟨passed, v', ahead, rfl, hpassed⟩
      · exact .inl (by simpa using hall)
      · exact .inr ⟨(v, true) :: passed, v', ahead, rfl, by simpa using hpassed⟩

omit [DecidableEq κ] in
/-- One page goes, and no other. -/
theorem sweep_perm (hne : c ≠ []) : ∃ v, (v :: (sweep c).map Prod.fst).Perm (c.map Prod.fst) := by
  rcases sweep_cases c with hall | ⟨passed, v, ahead, rfl, hpassed⟩
  · obtain ⟨e, c', rfl⟩ := List.exists_cons_of_ne_nil hne
    refine ⟨e.1, ?_⟩
    rw [sweep_round hall]
    simp [unmark, Function.comp_def]
  · refine ⟨v, ?_⟩
    rw [sweep_stop hpassed]
    simp only [List.map_append, map_fst_unmark, List.map_cons]
    exact (List.perm_append_comm.cons v).trans List.perm_middle.symm

theorem clock_nodup (n : Nat) (ks : List κ) : ((clock n ks).map Prod.fst).Nodup := by
  induction ks with
  | nil => exact List.nodup_nil
  | cons k ks ih =>
    by_cases hk : k ∈ (clock n ks).map Prod.fst
    · rw [clock_hit hk, map_fst_mark]
      exact ih
    · rcases Nat.lt_or_ge (clock n ks).length n with hlt | hge
      · rw [clock_load hk hlt, List.map_append]
        exact (List.perm_append_singleton k _).nodup_iff.mpr (List.nodup_cons.mpr ⟨hk, ih⟩)
      · rw [clock_replace hk hge, List.map_append]
        refine (List.perm_append_singleton k _).nodup_iff.mpr ?_
        by_cases hne : clock n ks = []
        · simp [hne, sweep, unmark]
        · obtain ⟨v, hperm⟩ := sweep_perm hne
          have hsub := (List.sublist_cons_self v ((sweep (clock n ks)).map Prod.fst)).subset
          refine List.nodup_cons.mpr ⟨fun h => hk (hperm.subset (hsub h)), ?_⟩
          exact (List.nodup_cons.mp (hperm.nodup_iff.mpr ih)).2

theorem clock_length_le (hn : 0 < n) (ks : List κ) : (clock n ks).length ≤ n := by
  induction ks with
  | nil => exact Nat.zero_le n
  | cons k ks ih =>
    by_cases hk : k ∈ (clock n ks).map Prod.fst
    · rw [clock_hit hk, mark, List.length_map]
      exact ih
    · rcases Nat.lt_or_ge (clock n ks).length n with hlt | hge
      · rw [clock_load hk hlt, List.length_append]
        exact hlt
      · rw [clock_replace hk hge, List.length_append]
        have hne : clock n ks ≠ [] := by
          intro hnil
          rw [hnil] at hge
          exact absurd hge (Nat.not_le.mpr hn)
        obtain ⟨v, hperm⟩ := sweep_perm hne
        have hlen := hperm.length_eq
        simp only [List.length_cons, List.length_map, List.length_nil] at hlen ⊢
        omega

/-! ## Rounds -/

/-- All pages of the list belong to `S`. -/
def Within (S : Finset κ) (c : List (κ × Bool)) : Prop := ∀ e ∈ c, e.1 ∈ S

/-- So do those whose bit is set. -/
def Touched (S : Finset κ) (c : List (κ × Bool)) : Prop := ∀ e ∈ c, e.2 = true → e.1 ∈ S

/-- What the circle is in a phase, when the pages `S` were requested in it
and the pages `L` loaded. In its first round the hand leaves behind what
it loads or passes; in the second it leaves only pages of the phase. -/
inductive Rounds (S L : Finset κ) : List (κ × Bool) → Prop where
  | first {X Y : List (κ × Bool)} (hY : Touched S Y) (hL : ∀ x ∈ L, (x, true) ∈ Y) :
      Rounds S L (X ++ Y)
  | second {Y Z : List (κ × Bool)} (hY : Touched S Y) (hZ : Within S Z)
      (hL : ∀ x ∈ L, (x, true) ∈ Y ∨ x ∈ Z.map Prod.fst) : Rounds S L (Y ++ Z)

omit [DecidableEq κ] in
theorem Rounds.start (c : List (κ × Bool)) : Rounds (∅ : Finset κ) ∅ c := by
  have h : Rounds (∅ : Finset κ) ∅ (c ++ []) := .first (by simp [Touched]) (by simp)
  rwa [List.append_nil] at h

omit [DecidableEq κ] in
/-- The pages loaded in the phase are in the circle. -/
theorem Rounds.loaded (h : Rounds S L c) (hx : x ∈ L) : x ∈ c.map Prod.fst := by
  cases h with
  | first _ hL => exact List.mem_map.mpr ⟨_, List.mem_append_right _ (hL x hx), rfl⟩
  | second _ _ hL =>
    rw [List.map_append]
    rcases hL x hx with hin | hin
    · exact List.mem_append_left _ (List.mem_map.mpr ⟨_, hin, rfl⟩)
    · exact List.mem_append_right _ hin

theorem Touched.mark (h : Touched S c) (k : κ) : Touched (insert k S) (mark k c) := by
  intro e he hbit
  obtain ⟨d, hd, rfl⟩ := List.mem_map.mp he
  by_cases hk : d.1 = k
  · simp [hk]
  · rw [if_neg hk] at hbit ⊢
    exact Finset.mem_insert_of_mem (h d hd hbit)

theorem Touched.mono (h : Touched S c) (k : κ) : Touched (insert k S) c :=
  fun e he hbit => Finset.mem_insert_of_mem (h e he hbit)

theorem Within.mono (h : Within S c) (k : κ) : Within (insert k S) c :=
  fun e he => Finset.mem_insert_of_mem (h e he)

omit [DecidableEq κ] in
theorem touched_unmark (S : Finset κ) (c : List (κ × Bool)) : Touched S (unmark c) := by
  intro e he hbit
  obtain ⟨d, _, rfl⟩ := List.mem_map.mp he
  cases hbit

omit [DecidableEq κ] in
theorem Touched.append (hX : Touched S X) (hY : Touched S Y) : Touched S (X ++ Y) :=
  List.forall_mem_append.mpr ⟨hX, hY⟩

omit [DecidableEq κ] in
theorem Within.append (hX : Within S X) (hY : Within S Y) : Within S (X ++ Y) :=
  List.forall_mem_append.mpr ⟨hX, hY⟩

omit [DecidableEq κ] in
/-- Passed with their bits set, the pages are pages of the phase. -/
theorem Touched.within (h : Touched S c) (hall : ∀ e ∈ c, e.2 = true) : Within S (unmark c) := by
  intro e he
  obtain ⟨d, hd, rfl⟩ := List.mem_map.mp he
  exact h d hd (hall d hd)

theorem mem_mark (h : (x, true) ∈ c) (k : κ) : (x, true) ∈ mark k c := by
  refine List.mem_map.mpr ⟨_, h, ?_⟩
  split <;> rfl

/-- A request for a resident page. -/
theorem Rounds.hit (h : Rounds S L c) (k : κ) : Rounds (insert k S) L (mark k c) := by
  cases h with
  | first hY hL =>
    rw [mark_append]
    exact .first (hY.mark k) fun x hx => mem_mark (hL x hx) k
  | second hY hZ hL =>
    rw [mark_append]
    refine .second (hY.mark k) (fun e he => ?_) fun x hx => ?_
    · obtain ⟨d, hd, rfl⟩ := List.mem_map.mp he
      have hin := Finset.mem_insert_of_mem (b := k) (hZ d hd)
      split <;> exact hin
    · rw [map_fst_mark]
      exact (hL x hx).imp_left fun hin => mem_mark hin k

theorem Rounds.load (h : Rounds S L c) (k : κ) :
    Rounds (insert k S) (insert k L) (c ++ [(k, true)]) := by
  cases h with
  | first hY hL =>
    rw [List.append_assoc]
    refine .first ((hY.mono k).append (by simp [Touched])) fun x hx => ?_
    rcases Finset.mem_insert.mp hx with rfl | hx'
    · simp
    · exact List.mem_append_left _ (hL x hx')
  | second hY hZ hL =>
    rw [List.append_assoc]
    refine .second (hY.mono k) ((hZ.mono k).append (by simp [Within])) fun x hx => ?_
    rcases Finset.mem_insert.mp hx with rfl | hx'
    · simp
    · refine (hL x hx').imp_right fun hin => ?_
      rw [List.map_append]
      exact List.mem_append_left _ hin

/-- The circle cannot be full of pages of the phase when one more comes. -/
theorem crowded (hnodup : (c.map Prod.fst).Nodup) (hk : k ∉ c.map Prod.fst) (hin : Within S c)
    (hcard : (insert k S).card ≤ n) (hfull : n ≤ c.length) : False := by
  have hsub : (k :: c.map Prod.fst).toFinset ⊆ insert k S := by
    intro x hx
    rcases List.mem_cons.mp (List.mem_toFinset.mp hx) with rfl | hx'
    · simp
    · obtain ⟨e, he, rfl⟩ := List.mem_map.mp hx'
      exact Finset.mem_insert_of_mem (hin e he)
  have hle := Finset.card_le_card hsub
  rw [List.toFinset_card_of_nodup (List.nodup_cons.mpr ⟨hk, hnodup⟩), List.length_cons,
    List.length_map] at hle
  omega

omit [DecidableEq κ] in
/-- The place where the hand stops is in the one part or in the other. -/
theorem split_at {passed ahead : List (κ × Bool)} {e : κ × Bool}
    (heq : passed ++ e :: ahead = X ++ Y) :
    (∃ rest, X = passed ++ e :: rest ∧ ahead = rest ++ Y) ∨
      ∃ rest, passed = X ++ rest ∧ Y = rest ++ e :: ahead := by
  rcases List.append_eq_append_iff.mp heq with ⟨rest, hX, hahead⟩ | ⟨rest, hpassed, hY⟩
  · cases rest with
    | nil => exact .inr ⟨[], by simpa using hX.symm, by simpa using hahead.symm⟩
    | cons d rest =>
      obtain ⟨rfl, rfl⟩ := List.cons.inj hahead
      exact .inl ⟨rest, hX, rfl⟩
  · exact .inr ⟨rest, hpassed, hY⟩

omit [DecidableEq κ] in
theorem mem_unmark_fst (h : (x, true) ∈ c) : x ∈ (unmark c).map Prod.fst := by
  rw [map_fst_unmark]
  exact List.mem_map.mpr ⟨_, h, rfl⟩

omit [DecidableEq κ] in
theorem mem_loaded (c : List (κ × Bool)) (k : κ) : k ∈ (c ++ [(k, true)]).map Prod.fst := by
  simp

/-- A page is replaced before the hand has been everywhere: it stops in
front, or behind, or goes round. -/
theorem Rounds.replace_first (hY : Touched S Y) (hL : ∀ x ∈ L, (x, true) ∈ Y)
    (hnodup : ((X ++ Y).map Prod.fst).Nodup) (hk : k ∉ (X ++ Y).map Prod.fst)
    (hcard : (insert k S).card ≤ n) (hfull : n ≤ (X ++ Y).length) :
    Rounds (insert k S) (insert k L) (sweep (X ++ Y) ++ [(k, true)]) := by
  rcases sweep_cases (X ++ Y) with hall | ⟨passed, v, ahead, heq, hpassed⟩
  · obtain ⟨hallX, hallY⟩ := List.forall_mem_append.mp hall
    cases X with
    | nil =>
      have hin : Within S Y := fun e he => hY e he (hallY e he)
      exact absurd hfull fun hfull => crowded hnodup hk hin hcard hfull
    | cons e X =>
      rw [sweep_round hall, unmark_append, unmark, List.map_cons, List.cons_append,
        List.tail_cons, List.append_assoc]
      refine .second (touched_unmark _ X) (((hY.within hallY).mono k).append
        (by simp [Within])) fun x hx => .inr ?_
      rcases Finset.mem_insert.mp hx with rfl | hx'
      · exact mem_loaded _ _
      · rw [List.map_append]
        exact List.mem_append_left _ (mem_unmark_fst (hL x hx'))
  · rw [heq, sweep_stop hpassed]
    rcases split_at heq.symm with ⟨rest, _, rfl⟩ | ⟨rest, rfl, rfl⟩
    · rw [List.append_assoc, List.append_assoc]
      refine .first ((hY.mono k).append ((touched_unmark _ passed).append
        (by simp [Touched]))) fun x hx => ?_
      rcases Finset.mem_insert.mp hx with rfl | hx'
      · simp
      · exact List.mem_append_left _ (hL x hx')
    · rw [unmark_append, ← List.append_assoc, List.append_assoc]
      obtain ⟨hrest, hahead⟩ := List.forall_mem_append.mp hY
      have hwithin : Within S (unmark rest) :=
        Touched.within hrest (List.forall_mem_append.mp hpassed).2
      refine .second ((Touched.mono (List.forall_mem_cons.mp hahead).2 k).append
        (touched_unmark _ X)) ((hwithin.mono k).append (by simp [Within])) fun x hx => ?_
      rcases Finset.mem_insert.mp hx with rfl | hx'
      · exact .inr (mem_loaded _ _)
      · rcases List.mem_append.mp (hL x hx') with hin | hin
        · rw [List.map_append]
          exact .inr (List.mem_append_left _ (mem_unmark_fst hin))
        · exact .inl (List.mem_append_left _ (by simpa using hin))

/-- A page is replaced in the second round: the hand stops in front, as
not all pages there can be of the phase. -/
theorem Rounds.replace_second (hY : Touched S Y) (hZ : Within S Z)
    (hL : ∀ x ∈ L, (x, true) ∈ Y ∨ x ∈ Z.map Prod.fst)
    (hnodup : ((Y ++ Z).map Prod.fst).Nodup) (hk : k ∉ (Y ++ Z).map Prod.fst)
    (hcard : (insert k S).card ≤ n) (hfull : n ≤ (Y ++ Z).length) :
    Rounds (insert k S) (insert k L) (sweep (Y ++ Z) ++ [(k, true)]) := by
  have hfullY : (∀ e ∈ Y, e.2 = true) → False := fun hall =>
    crowded hnodup hk (Within.append (fun e he => hY e he (hall e he)) hZ) hcard hfull
  rcases sweep_cases (Y ++ Z) with hall | ⟨passed, v, ahead, heq, hpassed⟩
  · exact absurd (List.forall_mem_append.mp hall).1 hfullY
  · rw [heq, sweep_stop hpassed]
    rcases split_at heq.symm with ⟨rest, rfl, rfl⟩ | ⟨rest, rfl, rfl⟩
    · obtain ⟨hfront, hbehind⟩ := List.forall_mem_append.mp hY
      have hwithin : Within S (unmark passed) := Touched.within hfront hpassed
      rw [List.append_assoc, List.append_assoc]
      refine .second (Touched.mono (List.forall_mem_cons.mp hbehind).2 k)
        ((hZ.mono k).append ((hwithin.mono k).append (by simp [Within]))) fun x hx => ?_
      simp only [List.map_append, List.mem_append]
      rcases Finset.mem_insert.mp hx with rfl | hx'
      · simp
      · rcases hL x hx' with hin | hin
        · rcases List.mem_append.mp hin with hin' | hin'
          · exact .inr (.inr (.inl (mem_unmark_fst hin')))
          · exact .inl (by simpa using hin')
        · exact .inr (.inl hin)
    · exact absurd (List.forall_mem_append.mp hpassed).1 hfullY

theorem Rounds.replace (h : Rounds S L c) (hnodup : (c.map Prod.fst).Nodup)
    (hk : k ∉ c.map Prod.fst) (hcard : (insert k S).card ≤ n) (hfull : n ≤ c.length) :
    Rounds (insert k S) (insert k L) (sweep c ++ [(k, true)]) := by
  cases h with
  | first hY hL => exact replace_first hY hL hnodup hk hcard hfull
  | second hY hZ hL => exact replace_second hY hZ hL hnodup hk hcard hfull

/-! ## Phases -/

theorem clock_rounds (hn : 0 < n) (ks : List κ) :
    Rounds (phase n ks).pages (loadedIn n (clockPages n) ks) (clock n ks) := by
  induction ks with
  | nil => exact Rounds.start []
  | cons k ks ih =>
    -- what the phase has seen so far: nothing, if the request begins a new one
    obtain ⟨S, L, h, hpages, hL⟩ : ∃ S L, Rounds S L (clock n ks) ∧
        (phase n (k :: ks)).pages = insert k S ∧ loadedIn n (clockPages n) (k :: ks) =
          if k ∈ clockPages n ks then L else insert k L := by
      rw [loadedIn]
      rcases phase_completed_cases n k ks with ⟨hsame, hpages⟩ | ⟨hnext, hpages, _⟩
      · exact ⟨_, _, ih, hpages, by rw [if_pos hsame]⟩
      · have hdiff : ¬(phase n (k :: ks)).completed = (phase n ks).completed := by
          rw [hnext]
          exact Nat.succ_ne_self _
        exact ⟨∅, ∅, Rounds.start _, by simp [hpages], by simp only [if_neg hdiff]⟩
    have hcard := phase_card_le hn (k :: ks)
    rw [hpages] at hcard ⊢
    rw [hL]
    by_cases hk : k ∈ (clock n ks).map Prod.fst
    · rw [if_pos (mem_clockPages.mpr hk), clock_hit hk]
      exact h.hit k
    · rw [if_neg fun hin => hk (mem_clockPages.mp hin)]
      rcases Nat.lt_or_ge (clock n ks).length n with hlt | hge
      · rw [clock_load hk hlt]
        exact h.load k
      · rw [clock_replace hk hge]
        exact h.replace (clock_nodup n ks) hk hcard hge

/-- To give every page a second chance is conservative. -/
theorem clockPages_conservative (hn : 0 < n) :
    Conservative n (clockPages n : List κ → Finset κ) := fun ks _ hx =>
  mem_clockPages.mpr ((clock_rounds hn ks).loaded hx)

end VmSim.Lib
