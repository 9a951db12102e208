/-
VmSim.Lib.CommandLine — command lines made of options.

A word of a command line asks for help, is a setting by itself, or says
how the word behind it is read as one. `parseWords` goes through the
words and puts the settings into effect as it meets them; it stops at the
first word that it does not know, that needs another one and has none, or
whose argument cannot be read.

`Spells` is the grammar of such command lines. What is accepted is what
it spells (`parseWords_accepts`), and of the settings of one kind only
the last one counts (`applyAll_congr`).
-/
import Mathlib.Data.List.Induction

namespace VmSim.Lib

variable {σ τ : Type}

/-- What a word of the command line is. -/
inductive CommandOption (τ : Type) where
  | help
  | flag (setting : τ)
  | value (read : List Char → Option τ)

/-- How the words end: all were settings, help was asked for, or a word
was wrong. -/
inductive Parsed where
  | accepted
  | help
  | refused
  deriving DecidableEq

/-- The meaning of a word is `none` if the word is unknown. -/
def parseWords (meaning : List Char → Option (CommandOption τ)) (apply : τ → σ → σ) :
    List (List Char) → σ → Parsed × σ
  | [], s => (.accepted, s)
  | word :: words, s =>
    match meaning word with
    | none => (.refused, s)
    | some .help => (.help, s)
    | some (.flag setting) => parseWords meaning apply words (apply setting s)
    | some (.value read) =>
      match words with
      | [] => (.refused, s)
      | text :: words =>
        match read text with
        | none => (.refused, s)
        | some setting => parseWords meaning apply words (apply setting s)

/-! ## The grammar -/

/-- The words spell the settings, in this order. -/
inductive Spells (meaning : List Char → Option (CommandOption τ)) :
    List (List Char) → List τ → Prop where
  | nil : Spells meaning [] []
  | flag {word : List Char} {setting : τ} {words : List (List Char)} {settings : List τ}
      (hword : meaning word = some (.flag setting)) (hwords : Spells meaning words settings) :
      Spells meaning (word :: words) (setting :: settings)
  | value {word text : List Char} {read : List Char → Option τ} {setting : τ}
      {words : List (List Char)} {settings : List τ} (hword : meaning word = some (.value read))
      (htext : read text = some setting) (hwords : Spells meaning words settings) :
      Spells meaning (word :: text :: words) (setting :: settings)

/-- The settings in effect, one after the other. -/
def applyAll (apply : τ → σ → σ) (settings : List τ) (s : σ) : σ :=
  settings.foldl (fun s setting => apply setting s) s

variable {meaning : List Char → Option (CommandOption τ)} {apply : τ → σ → σ}
  {words words' : List (List Char)} {settings settings' : List τ} {s s' : σ}

@[simp] theorem applyAll_nil : applyAll apply [] s = s := rfl

@[simp] theorem applyAll_cons (setting : τ) :
    applyAll apply (setting :: settings) s = applyAll apply settings (apply setting s) := rfl

@[simp] theorem applyAll_append :
    applyAll apply (settings ++ settings') s =
      applyAll apply settings' (applyAll apply settings s) := List.foldl_append

theorem Spells.append (h : Spells meaning words settings) (h' : Spells meaning words' settings') :
    Spells meaning (words ++ words') (settings ++ settings') := by
  induction h with
  | nil => exact h'
  | flag hword _ ih => exact .flag hword ih
  | value hword htext _ ih => exact .value hword htext ih

/-- What words spell before others is put into effect before them. -/
theorem Spells.parseWords (h : Spells meaning words settings) (rest : List (List Char)) (s : σ) :
    parseWords meaning apply (words ++ rest) s =
      Lib.parseWords meaning apply rest (applyAll apply settings s) := by
  induction h generalizing s with
  | nil => rfl
  | flag hword _ ih =>
    rw [List.cons_append, Lib.parseWords, hword]
    exact ih _
  | value hword htext _ ih =>
    rw [List.cons_append, List.cons_append, Lib.parseWords, hword]
    simp only [htext]
    exact ih _

/-- What is accepted is what the grammar spells. -/
theorem parseWords_accepts : parseWords meaning apply words s = (.accepted, s') ↔
    ∃ settings, Spells meaning words settings ∧ s' = applyAll apply settings s := by
  constructor
  · intro h
    fun_induction parseWords meaning apply words s with
    | case1 s =>
      cases h
      exact ⟨[], .nil, rfl⟩
    | case4 s word words setting hword ih =>
      obtain ⟨settings, hwords, rfl⟩ := ih h
      exact ⟨setting :: settings, .flag hword hwords, rfl⟩
    | case7 s word read hword text words setting htext ih =>
      obtain ⟨settings, hwords, rfl⟩ := ih h
      exact ⟨setting :: settings, .value hword htext hwords, rfl⟩
    | _ => cases h
  · rintro ⟨settings, hwords, rfl⟩
    rw [← List.append_nil words, hwords.parseWords]
    rfl

/-! ## Programs

A program takes its words from the second on, starts from its defaults and
returns 0 with settings that are complete, 1 where help is asked for, and
-1 otherwise. -/

def parseCommandLine (meaning : List Char → Option (CommandOption τ)) (apply : τ → σ → σ)
    (defaults : σ) (showHelp : σ → σ) (complete : σ → Bool) (argv : List (List Char)) (s : σ) :
    Int × σ :=
  match argv with
  | [] => (-1, s)
  | _ :: words =>
    match parseWords meaning apply words defaults with
    | (.help, s) => (1, showHelp s)
    | (.refused, s) => (-1, s)
    | (.accepted, s) => if complete s then (0, s) else (-1, s)

section Programs

variable {defaults : σ} {showHelp : σ → σ} {complete : σ → Bool} {name : List Char}

theorem parseCommandLine_zero :
    parseCommandLine meaning apply defaults showHelp complete (name :: words) s = (0, s') ↔
      ∃ settings, Spells meaning words settings ∧ s' = applyAll apply settings defaults ∧
        complete s' = true := by
  have haccepts : ∀ s', Lib.parseWords meaning apply words defaults = (.accepted, s') ↔
      ∃ settings, Spells meaning words settings ∧ s' = applyAll apply settings defaults :=
    fun _ => parseWords_accepts
  simp only [parseCommandLine]
  generalize Lib.parseWords meaning apply words defaults = result at haccepts
  obtain ⟨ending, parsed⟩ := result
  cases ending with
  | accepted =>
    constructor
    · intro h
      dsimp only at h
      split at h
      · rename_i hcomplete
        cases h
        obtain ⟨settings, hwords, hparsed⟩ := (haccepts _).mp rfl
        exact ⟨settings, hwords, hparsed, hcomplete⟩
      · cases h
    · rintro ⟨settings, hwords, hparsed, hcomplete⟩
      obtain ⟨_, rfl⟩ := Prod.ext_iff.mp ((haccepts s').mpr ⟨settings, hwords, hparsed⟩)
      exact if_pos hcomplete
  | _ =>
    simp only [Prod.mk.injEq, reduceCtorEq, false_and, false_iff, not_exists] at haccepts
    simp
    intro settings hwords hparsed
    exact absurd ⟨hwords, hparsed⟩ (haccepts s' settings)

/-- Words that put the same settings into effect can replace each other. -/
theorem parseCommandLine_congr (h : Spells meaning words settings)
    (h' : Spells meaning words' settings')
    (hsame : applyAll apply settings defaults = applyAll apply settings' defaults)
    (rest : List (List Char)) :
    parseCommandLine meaning apply defaults showHelp complete (name :: (words ++ rest)) s =
      parseCommandLine meaning apply defaults showHelp complete (name :: (words' ++ rest)) s := by
  simp only [parseCommandLine, h.parseWords, h'.parseWords, hsame]

end Programs

/-! ## What the settings can be -/

/-- All settings that a word can give satisfy `P`. -/
def CommandOption.Yields (P : τ → Prop) : CommandOption τ → Prop
  | .help => True
  | .flag setting => P setting
  | .value read => ∀ text setting, read text = some setting → P setting

/-- One test of a word, with the tests behind it. -/
theorem CommandOption.Yields.ite {P : τ → Prop} {c : Prop} [Decidable c]
    {option : CommandOption τ} {rest : Option (CommandOption τ)} (hoption : option.Yields P)
    (hrest : ∀ option, rest = some option → option.Yields P) :
    ∀ option', (if c then some option else rest) = some option' → option'.Yields P := by
  intro option' h
  split at h
  · cases h
    exact hoption
  · exact hrest option' h

theorem Spells.forall {P : τ → Prop} (h : Spells meaning words settings)
    (hyields : ∀ word option, meaning word = some option → option.Yields P) :
    ∀ setting ∈ settings, P setting := by
  induction h with
  | nil => simp
  | flag hword _ ih => exact List.forall_mem_cons.mpr ⟨hyields _ _ hword, ih⟩
  | value hword htext _ ih => exact List.forall_mem_cons.mpr ⟨hyields _ _ hword _ _ htext, ih⟩

/-- What every setting keeps is kept. -/
theorem applyAll_invariant {P : τ → Prop} {I : σ → Prop} (hall : ∀ setting ∈ settings, P setting)
    (hstep : ∀ setting s, P setting → I s → I (apply setting s)) :
    I s → I (applyAll apply settings s) := by
  induction settings generalizing s with
  | nil => exact id
  | cons setting settings ih =>
    intro hs
    obtain ⟨hsetting, hrest⟩ := List.forall_mem_cons.mp hall
    exact ih hrest (hstep setting s hsetting hs)

/-- Settings that can be spelled one by one can be spelled together. -/
theorem spells_flatMap {spell : τ → List (List Char)}
    (h : ∀ setting ∈ settings, Spells meaning (spell setting) [setting]) :
    Spells meaning (settings.flatMap spell) settings := by
  induction settings with
  | nil => exact .nil
  | cons setting settings ih =>
    obtain ⟨hsetting, hrest⟩ := List.forall_mem_cons.mp h
    exact hsetting.append (ih hrest)

/-- **What a program can be given** are the complete values that its valid
settings lead to, if each of these is reached by settings of its own. -/
theorem parseCommandLine_range {defaults : σ} {showHelp : σ → σ} {complete : σ → Bool}
    {name : List Char} {P : τ → Prop} {I : σ → Prop} {spell : τ → List (List Char)}
    {settingsOf : σ → List τ}
    (hyields : ∀ word option, meaning word = some option → option.Yields P)
    (hspell : ∀ setting, P setting → Spells meaning (spell setting) [setting])
    (hdefaults : I defaults) (hstep : ∀ setting s, P setting → I s → I (apply setting s))
    (hof : ∀ s, I s → ∀ setting ∈ settingsOf s, P setting)
    (hback : ∀ s, I s → applyAll apply (settingsOf s) defaults = s) :
    (∃ words, parseCommandLine meaning apply defaults showHelp complete (name :: words) s =
      (0, s')) ↔ I s' ∧ complete s' = true := by
  constructor
  · rintro ⟨words, h⟩
    obtain ⟨settings, hwords, rfl, hcomplete⟩ := parseCommandLine_zero.mp h
    exact ⟨applyAll_invariant (hwords.forall hyields) hstep hdefaults, hcomplete⟩
  · rintro ⟨hs, hcomplete⟩
    have hwords := spells_flatMap fun setting hmem => hspell setting (hof s' hs setting hmem)
    exact ⟨_, parseCommandLine_zero.mpr ⟨_, hwords, (hback s' hs).symm, hcomplete⟩⟩

/-- What a function that returns 0 on success has stored. -/
def stored {α : Type} (result : Int × Option α) : Option α :=
  if result.1 = 0 then result.2 else none

theorem stored_eq {α : Type} {result : Int × Option α} {a : α} :
    stored result = some a ↔ result = (0, some a) := by
  obtain ⟨code, value⟩ := result
  simp [stored, Prod.ext_iff]

theorem CommandOption.Yields.text {P : τ → Prop} {make : List Char → τ}
    (h : ∀ text, P (make text)) :
    (CommandOption.value fun text => some (make text)).Yields P := by
  intro text setting hread
  cases hread
  exact h text

theorem CommandOption.Yields.map {α : Type} {P : τ → Prop} {read : List Char → Option α}
    {make : α → τ} (h : ∀ text a, read text = some a → P (make a)) :
    (CommandOption.value fun text => (read text).map make).Yields P := by
  intro text setting hread
  obtain ⟨a, ha, rfl⟩ := Option.map_eq_some_iff.mp hread
  exact h text a ha

/-! ## The last setting of a kind -/

section LastOf

variable {κ : Type} [DecidableEq κ] {kind : τ → κ} {k : κ} {a b : τ}

/-- The last of the settings that is of the kind. -/
def lastOf (kind : τ → κ) (k : κ) (settings : List τ) : Option τ :=
  (settings.filter (kind · = k)).getLast?

theorem lastOf_concat : lastOf kind k (settings ++ [a]) =
    if kind a = k then some a else lastOf kind k settings := by
  unfold lastOf
  rw [List.filter_append]
  split <;> simp_all

/-- The settings of the other kinds. -/
def others (kind : τ → κ) (k : κ) (settings : List τ) : List τ := settings.filter (kind · ≠ k)

theorem others_concat : others kind k (settings ++ [a]) =
    if kind a = k then others kind k settings else others kind k settings ++ [a] := by
  unfold others
  rw [List.filter_append]
  split <;> simp_all

theorem lastOf_others (j : κ) : lastOf kind j (others kind k settings) =
    if j = k then none else lastOf kind j settings := by
  unfold lastOf others
  rw [List.filter_filter]
  split
  · subst j
    simp
  · rename_i hne
    congr 1
    refine List.filter_congr fun a _ => ?_
    by_cases hkind : kind a = j
    · simp [hkind, hne]
    · simp [hkind]

theorem others_of_lastOf (h : lastOf kind k settings = none) : others kind k settings = settings := by
  simp only [lastOf, List.getLast?_eq_none_iff, List.filter_eq_nil_iff, decide_eq_true_eq] at h
  exact List.filter_eq_self.mpr fun a ha => by simpa using h a ha

/-- The last setting of a kind may be put into effect last, and the others
of the kind left out. -/
theorem applyAll_lastOf
    (hcomm : ∀ a b, kind a ≠ kind b → ∀ s, apply a (apply b s) = apply b (apply a s))
    (hover : ∀ a b, kind a = kind b → ∀ s, apply a (apply b s) = apply a s)
    (h : lastOf kind k settings = some a) :
    applyAll apply settings s = apply a (applyAll apply (others kind k settings) s) := by
  induction settings using List.reverseRecOn generalizing a with
  | nil => cases h
  | append_singleton settings b ih =>
    rw [lastOf_concat] at h
    rw [others_concat, applyAll_append]
    by_cases hkind : kind b = k
    · rw [if_pos hkind] at h ⊢
      obtain rfl := Option.some.inj h
      cases hlast : lastOf kind k settings with
      | none => rw [others_of_lastOf hlast, applyAll_cons, applyAll_nil]
      | some c =>
        have hc : kind c = k := by
          have hmem := List.mem_filter.mp (List.mem_of_getLast? hlast)
          simpa using hmem.2
        rw [ih hlast, applyAll_cons, applyAll_nil, hover b c (hkind.trans hc.symm)]
    · rw [if_neg hkind] at h ⊢
      have ha : kind a = k := by
        have hmem := List.mem_filter.mp (List.mem_of_getLast? h)
        simpa using hmem.2
      rw [ih h, applyAll_append, applyAll_cons, applyAll_nil, applyAll_cons, applyAll_nil]
      exact hcomm b a (fun hsame => hkind (hsame.trans ha)) _

/-- Where settings of one kind replace each other and those of different
kinds do not interfere, only the last one of each kind counts. -/
theorem applyAll_congr
    (hcomm : ∀ a b, kind a ≠ kind b → ∀ s, apply a (apply b s) = apply b (apply a s))
    (hover : ∀ a b, kind a = kind b → ∀ s, apply a (apply b s) = apply a s)
    (h : ∀ k, lastOf kind k settings = lastOf kind k settings') :
    applyAll apply settings s = applyAll apply settings' s := by
  induction hlength : settings.length using Nat.strongRecOn
    generalizing settings settings' with
  | ind length ih =>
    rcases settings.eq_nil_or_concat with rfl | ⟨settings, a, rfl⟩
    · rcases settings'.eq_nil_or_concat with rfl | ⟨settings', b, rfl⟩
      · rfl
      · have hb := h (kind b)
        rw [List.concat_eq_append, lastOf_concat, if_pos rfl] at hb
        cases hb
    · rw [List.concat_eq_append] at h hlength ⊢
      have ha := h (kind a)
      rw [lastOf_concat, if_pos rfl] at ha
      rw [applyAll_lastOf hcomm hover (lastOf_concat.trans (if_pos rfl)),
        applyAll_lastOf hcomm hover ha.symm]
      congr 1
      have hshorter : (others kind (kind a) (settings ++ [a])).length < length := by
        rw [others_concat, if_pos rfl, ← hlength, List.length_append]
        have hle := List.length_filter_le (kind · ≠ kind a) settings
        exact Nat.lt_add_one_of_le hle
      refine ih _ hshorter (fun k => ?_) rfl
      rw [lastOf_others, lastOf_others, h k]

end LastOf

end VmSim.Lib
