/-
VmSim.Contract.TraceRandom — which pages the random pattern reaches.

The page of an access is an odd-numbered draw modulo the number of pages.
The draws alternate between even and odd numbers, so with an even number
of pages half of them are never chosen (`not_touches_of_even`); with an
odd number of pages each of them is (`touches_of_odd`).
-/
import VmSim.Trace.Random
import VmSim.Contract.TraceRoundTrip

namespace VmSim

open Lib

namespace TraceGeneratorOptions

/-- The options are accepted, with any positive number of accesses. -/
structure Accepted (options : TraceGeneratorOptions) : Prop where
  path : options.outputPath.isSome = true
  pages : options.pageCount ≠ 0
  rate : options.writePercentage ≤ 100
  range : traceAddressRangeIsValid options = true

/-- With some number of accesses, the trace has one to the page, as the
reader delivers it. -/
def Touches (options : TraceGeneratorOptions) (page : UInt64) : Prop :=
  ∃ (accessCount : UInt64) (text : List Char) (type : TraceAccessType),
    traceGeneratorGenerate { options with accessCount := accessCount } = some text ∧
      .entry ⟨type, options.baseAddress.toNat + page.toNat * pageSize, 1⟩ ∈
        traceReaderResults (accessCount.toNat + 1) (traceReaderOpen text)

variable {options : TraceGeneratorOptions}

theorem Accepted.generate (h : options.Accepted) {accessCount : UInt64} (hcount : accessCount ≠ 0) :
    traceGeneratorGenerate { options with accessCount := accessCount } =
      some (traceGenerateFrom { options with accessCount := accessCount } accessCount.toNat 0
        options.seed) := by
  have hpath : options.outputPath.isNone = false := by
    obtain ⟨path, hpath⟩ := Option.isSome_iff_exists.mp h.path
    rw [hpath]
    rfl
  have hrange : traceAddressRangeIsValid { options with accessCount := accessCount } = true :=
    h.range
  rw [traceGeneratorGenerate, if_neg]
  simp [hpath, h.pages, hcount, hrange, UInt32.not_lt.mpr h.rate]

/-- The results of reading the trace are the accesses that were chosen. -/
theorem Accepted.results (h : options.Accepted) (accessCount : UInt64) :
    traceReaderResults (accessCount.toNat + 1) (traceReaderOpen
      (traceGenerateFrom { options with accessCount := accessCount } accessCount.toNat 0
        options.seed)) =
    (traceChoices { options with accessCount := accessCount } accessCount.toNat 0
      options.seed).map (fun choice => .entry ⟨traceOperationType choice.2,
        (options.baseAddress + choice.1 * 4096).toNat, 1⟩) ++ [.endOfFile] := by
  have hpages : { options with accessCount := accessCount }.pageCount ≠ 0 := h.pages
  have hchosen := traceChoices_chosen hpages accessCount.toNat 0 options.seed
  have hlength := traceChoices_length { options with accessCount := accessCount }
    accessCount.toNat 0 options.seed
  have hlines := traceReaderResults_lines (fun choice => options.baseAddress + choice.1 * 4096)
    (traceChoices { options with accessCount := accessCount } accessCount.toNat 0 options.seed)
    (by
      intro choice hin
      obtain ⟨i, hi⟩ := List.mem_iff_getElem?.mp hin
      exact (hchosen i choice hi).operation)
  rw [hlength] at hlines
  rw [traceGenerateFrom_choices]
  exact hlines

theorem Accepted.address_inj (h : options.Accepted) {page page' : UInt64}
    (hpage : page < options.pageCount)
    (heq : (options.baseAddress + page * 4096).toNat =
      options.baseAddress.toNat + page'.toNat * pageSize) : page = page' := by
  rw [(traceAddress_toNat h.range hpage).2] at heq
  apply UInt64.toNat.inj
  simp only [pageSize] at heq
  omega

/-- A page is reached when it is the remainder of an odd number of
draws. -/
theorem Accepted.touches_iff (h : options.Accepted) (hpattern : options.pattern = .random)
    {page : UInt64} (hpage : page < options.pageCount) :
    options.Touches page ↔
      ∃ i < 2 ^ 64 - 1, traceRandomNext^[2 * i + 1] options.seed % options.pageCount = page := by
  constructor
  · rintro ⟨accessCount, text, type, htext, hentry⟩
    have hcount : accessCount ≠ 0 := by
      rintro rfl
      rw [traceGeneratorGenerate, if_pos (.inr (.inr (.inl rfl)))] at htext
      cases htext
    rw [h.generate hcount] at htext
    cases htext
    rw [h.results, List.mem_append, List.mem_map] at hentry
    rcases hentry with ⟨choice, hin, hentry⟩ | hend
    · obtain ⟨i, hi⟩ := List.mem_iff_getElem?.mp hin
      have hlt : i < accessCount.toNat := by
        rw [← traceChoices_length { options with accessCount := accessCount } accessCount.toNat 0
          options.seed]
        exact (List.getElem?_eq_some_iff.mp hi).1
      have hdraw := traceChoices_random
        (show { options with accessCount := accessCount }.pattern = .random from hpattern)
        accessCount.toNat 0 options.seed i hlt
      rw [hi] at hdraw
      have hchoice : choice.1 = traceRandomNext^[2 * i + 1] options.seed % options.pageCount :=
        Option.some.inj hdraw
      injection hentry with hentry
      injection hentry with _ haddress _
      have hchosen : choice.1 < options.pageCount := by
        rw [hchoice]
        exact UInt64.mod_lt _ (UInt64.pos_iff_ne_zero.mpr h.pages)
      have hwhole := accessCount.toNat_lt
      exact ⟨i, by omega, hchoice.symm.trans (h.address_inj hchosen haddress)⟩
    · rw [List.mem_singleton] at hend
      cases hend
  · rintro ⟨i, hi, hdraw⟩
    have hword : (UInt64.ofNat (i + 1)).toNat = i + 1 :=
      UInt64.toNat_ofNat_of_lt' (show i + 1 < 2 ^ 64 by omega)
    have hcount : UInt64.ofNat (i + 1) ≠ 0 := by
      intro hzero
      rw [hzero] at hword
      cases hword
    have hchoice := traceChoices_random
      (show { options with accessCount := UInt64.ofNat (i + 1) }.pattern = .random from hpattern)
      (i + 1) 0 options.seed i (Nat.lt_succ_self i)
    obtain ⟨choice, hget, hpage'⟩ := Option.map_eq_some_iff.mp hchoice
    refine ⟨UInt64.ofNat (i + 1), _, traceOperationType choice.2, h.generate hcount, ?_⟩
    rw [h.results, hword, List.mem_append, List.mem_map]
    refine .inl ⟨choice, List.mem_of_getElem? hget, ?_⟩
    have hfirst : choice.1 = page := hpage'.trans hdraw
    rw [hfirst, (traceAddress_toNat h.range hpage).2]

/-- The range check leaves room above the pages. -/
theorem Accepted.pageCount_le (h : options.Accepted) : options.pageCount.toNat ≤ 2 ^ 52 := by
  have hpos : 0 < options.pageCount.toNat := by
    have := UInt64.pos_iff_ne_zero.mpr h.pages
    rwa [UInt64.lt_iff_toNat_lt] at this
  have hlast : (options.pageCount - 1).toNat = options.pageCount.toNat - 1 :=
    UInt64.toNat_sub_of_le _ _ (UInt64.le_iff_toNat_le.mpr hpos)
  have hlt : options.pageCount - 1 < options.pageCount := by
    rw [UInt64.lt_iff_toNat_lt, hlast]
    omega
  have hfits := (traceAddress_toNat h.range hlt).1
  rw [hlast] at hfits
  simp only [pageSize, wordSize] at hfits
  omega

/-- With an even number of pages, the pages of the parity of the seed are
never chosen. -/
theorem Accepted.not_touches_of_even (h : options.Accepted) (hpattern : options.pattern = .random)
    (heven : options.pageCount.toNat % 2 = 0) {page : UInt64} (hpage : page < options.pageCount)
    (hparity : page.toNat % 2 = options.seed.toNat % 2) : ¬options.Touches page := by
  rw [h.touches_iff hpattern hpage]
  rintro ⟨i, _, hdraw⟩
  have hflip := traceRandomNext_parity (2 * i + 1) options.seed
  have hmod : (traceRandomNext^[2 * i + 1] options.seed).toNat % options.pageCount.toNat % 2 =
      (traceRandomNext^[2 * i + 1] options.seed).toNat % 2 :=
    Nat.mod_mod_of_dvd _ (Nat.dvd_of_mod_eq_zero heven)
  rw [← UInt64.toNat_mod, hdraw] at hmod
  omega

/-- With an odd number of pages, a page and the number of pages above it
have both parities. -/
theorem Accepted.touches_of_odd (h : options.Accepted) (hpattern : options.pattern = .random)
    (hodd : options.pageCount.toNat % 2 = 1) {page : UInt64} (hpage : page < options.pageCount) :
    options.Touches page := by
  have hle := h.pageCount_le
  have hlt := UInt64.lt_iff_toNat_lt.mp hpage
  obtain ⟨value, hvalue, hparity⟩ : ∃ value : UInt64, value % options.pageCount = page ∧
      value.toNat % 2 ≠ options.seed.toNat % 2 := by
    by_cases hp : page.toNat % 2 = options.seed.toNat % 2
    · have hsum : (page + options.pageCount).toNat = page.toNat + options.pageCount.toNat := by
        rw [UInt64.toNat_add, Nat.mod_eq_of_lt (by omega)]
      refine ⟨page + options.pageCount, UInt64.toNat.inj ?_, by omega⟩
      rw [UInt64.toNat_mod, hsum, Nat.add_mod_right, Nat.mod_eq_of_lt hlt]
    · refine ⟨page, UInt64.toNat.inj ?_, hp⟩
      rw [UInt64.toNat_mod, Nat.mod_eq_of_lt hlt]
  obtain ⟨n, hn, hreached⟩ := traceRandomNext_reaches options.seed value
  have hflip := traceRandomNext_parity n options.seed
  rw [hreached] at hflip
  rw [h.touches_iff hpattern hpage]
  have hsteps : 2 * (n / 2) + 1 = n := by omega
  exact ⟨n / 2, by omega, by rw [hsteps, hreached, hvalue]⟩

end TraceGeneratorOptions

/-- **Random traces.** Every page of the range is in the trace of some
number of accesses exactly when the number of pages is odd. -/
theorem randomTrace_reaches {options : TraceGeneratorOptions} (h : options.Accepted)
    (hpattern : options.pattern = .random) :
    (∀ page < options.pageCount, options.Touches page) ↔ options.pageCount.toNat % 2 = 1 := by
  constructor
  · intro hall
    by_contra hodd
    have heven : options.pageCount.toNat % 2 = 0 := by omega
    have hpos : 0 < options.pageCount.toNat :=
      UInt64.lt_iff_toNat_lt.mp (UInt64.pos_iff_ne_zero.mpr h.pages)
    have hword : (UInt64.ofNat (options.seed.toNat % 2)).toNat = options.seed.toNat % 2 :=
      UInt64.toNat_ofNat_of_lt' (show options.seed.toNat % 2 < 2 ^ 64 by omega)
    have hpage : UInt64.ofNat (options.seed.toNat % 2) < options.pageCount := by
      rw [UInt64.lt_iff_toNat_lt, hword]
      omega
    exact h.not_touches_of_even hpattern heven hpage (by rw [hword]; omega) (hall _ hpage)
  · intro hodd page hpage
    exact h.touches_of_odd hpattern hodd hpage

/-- Three pages are all reached. -/
theorem randomTrace_reaches_three :
    TraceGeneratorOptions.Accepted ⟨some "trace.txt", .random, 3, 1, 1, 0x1000, 20⟩ ∧
      ∀ page < 3, TraceGeneratorOptions.Touches
        ⟨some "trace.txt", .random, 3, 1, 1, 0x1000, 20⟩ page := by
  have haccepted : TraceGeneratorOptions.Accepted
      ⟨some "trace.txt", .random, 3, 1, 1, 0x1000, 20⟩ :=
    ⟨rfl, by decide, by decide, by decide⟩
  exact ⟨haccepted, (randomTrace_reaches haccepted rfl).mpr rfl⟩

/-- Of two pages the second is never reached from the seed 1. -/
theorem randomTrace_misses :
    TraceGeneratorOptions.Accepted ⟨some "trace.txt", .random, 2, 1, 1, 0x1000, 20⟩ ∧
      ¬TraceGeneratorOptions.Touches ⟨some "trace.txt", .random, 2, 1, 1, 0x1000, 20⟩ 1 := by
  have haccepted : TraceGeneratorOptions.Accepted
      ⟨some "trace.txt", .random, 2, 1, 1, 0x1000, 20⟩ :=
    ⟨rfl, by decide, by decide, by decide⟩
  exact ⟨haccepted, haccepted.not_touches_of_even rfl rfl (by decide) rfl⟩

end VmSim
