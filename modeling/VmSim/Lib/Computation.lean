/-
VmSim.Lib.Computation — early-return computations over a state, the
shape of a C function that reports failure through its return code.

A `Comp σ α` run from a state ends in one of three ways:

* `ok value state` — the function returned normally;
* `failed state` — the function returned its error code; everything it
  changed before that point stays changed, so the state is kept;
* `fault` — the function dereferenced a pointer to storage that is not
  allocated, where C gives no meaning.

`Returns c s Q` is total correctness: `c` run from `s` returns normally
and the result satisfies `Q`. Its rules (`Returns.bind`, `Returns.mono`,
`Returns.forEach`) are the ones every proof about a computation uses;
`bind_ok` and its companions run a computation step by step instead,
where the intermediate states are known exactly.
-/
import Mathlib.Algebra.GroupWithZero.Nat
import Mathlib.Logic.Function.Basic

namespace VmSim.Lib

/-- How a computation ends. -/
inductive Outcome (σ α : Type) where
  | ok (value : α) (state : σ)
  | failed (state : σ)
  | fault

/-- What a caller sees: a reply that depends on the result, if there is
one, and the state. A fault leaves nothing to see. -/
def Outcome.reply {σ α R : Type} (outcome : Outcome σ α) (reply : Option α → R) :
    Option (R × σ) :=
  match outcome with
  | .ok a s => some (reply (some a), s)
  | .failed s => some (reply none, s)
  | .fault => none

theorem Outcome.reply_eq {σ α R : Type} {outcome : Outcome σ α} {reply : Option α → R} {r : R}
    {s : σ} (h : outcome.reply reply = some (r, s)) : ∃ result, r = reply result := by
  cases outcome with
  | ok a s' => cases h; exact ⟨some a, rfl⟩
  | failed s' => cases h; exact ⟨none, rfl⟩
  | fault => cases h

/-- A computation over the state `σ` with result `α`. -/
def Comp (σ α : Type) : Type := σ → Outcome σ α

namespace Comp

variable {σ τ α β : Type}

protected def pure (a : α) : Comp σ α := fun s => .ok a s

protected def bind (c : Comp σ α) (f : α → Comp σ β) : Comp σ β := fun s =>
  match c s with
  | .ok a s' => f a s'
  | .failed s' => .failed s'
  | .fault => .fault

instance : Monad (Comp σ) where
  pure := Comp.pure
  bind := Comp.bind

/-- `return -1;` -/
def fail : Comp σ α := fun s => .failed s

/-- An access to storage that is not allocated. -/
def fault : Comp σ α := fun _ => .fault

def get : Comp σ σ := fun s => .ok s s

def modify (f : σ → σ) : Comp σ Unit := fun s => .ok () (f s)

/-- Run `c` and report whether it returned normally, as the caller does
that tests the return code and goes on. -/
def attempt (c : Comp σ α) : Comp σ (Option α) := fun s =>
  match c s with
  | .ok a s' => .ok (some a) s'
  | .failed s' => .ok none s'
  | .fault => .fault

/-- Run `c`; when it fails, run `cleanup` from the state it left and fail.
The return code of `cleanup` is ignored. -/
def onFailure (c : Comp σ α) (cleanup : Comp σ β) : Comp σ α := fun s =>
  match c s with
  | .ok a s' => .ok a s'
  | .failed s' =>
    match cleanup s' with
    | .ok _ s'' => .failed s''
    | .failed s'' => .failed s''
    | .fault => .fault
  | .fault => .fault

/-- Run a computation on the part of the state that `part` reads and
`put` writes back. -/
def zoom (part : σ → τ) (put : σ → τ → σ) (c : Comp τ α) : Comp σ α := fun s =>
  match c (part s) with
  | .ok a t => .ok a (put s t)
  | .failed t => .failed (put s t)
  | .fault => .fault

/-- Run a function that returns a value and the new part of the state. -/
def update (part : σ → τ) (put : σ → τ → σ) (f : τ → α × τ) : Comp σ α := fun s =>
  .ok (f (part s)).1 (put s (f (part s)).2)

/-- The value of an option; a missing one is a failure. -/
def orFail : Option α → Comp σ α
  | some a => Comp.pure a
  | none => fail

/-- The value of an option; a missing one is a fault. -/
def orFault : Option α → Comp σ α
  | some a => Comp.pure a
  | none => fault

/-- `if (code != 0) return -1;` -/
def check (code : Int) : Comp σ Unit :=
  if code = 0 then Comp.pure () else fail

/-- `if (condition) return -1;` -/
def failIf (condition : Bool) : Comp σ Unit :=
  if condition then fail else Comp.pure ()

/-- A `for` loop over a list of indices. -/
def forEach (f : β → Comp σ Unit) : List β → Comp σ Unit
  | [] => Comp.pure ()
  | x :: xs => Comp.bind (f x) fun _ => forEach f xs

/-! ## Running a computation step by step -/

@[simp] theorem pure_run (a : α) (s : σ) : (pure a : Comp σ α) s = .ok a s := rfl

theorem bind_run (c : Comp σ α) (f : α → Comp σ β) (s : σ) :
    (c >>= f) s = match c s with
      | .ok a s' => f a s'
      | .failed s' => .failed s'
      | .fault => .fault := rfl

theorem bind_ok {c : Comp σ α} {f : α → Comp σ β} {s s' : σ} {a : α}
    (h : c s = .ok a s') : (c >>= f) s = f a s' := by
  rw [bind_run, h]

theorem bind_failed {c : Comp σ α} {f : α → Comp σ β} {s s' : σ}
    (h : c s = .failed s') : (c >>= f) s = .failed s' := by
  rw [bind_run, h]

/-- A sequence that returns: both of its parts do. -/
theorem bind_eq_ok {c : Comp σ α} {f : α → Comp σ β} {s t : σ} {b : β} :
    (c >>= f) s = .ok b t ↔ ∃ a s', c s = .ok a s' ∧ f a s' = .ok b t := by
  rw [bind_run]
  cases c s with
  | ok a s' =>
    constructor
    · intro h
      exact ⟨a, s', rfl, h⟩
    · rintro ⟨_, _, ⟨⟩, h⟩
      exact h
  | failed s' => simp
  | fault => simp

theorem bind_assoc {γ : Type} (c : Comp σ α) (f : α → Comp σ β) (g : β → Comp σ γ) :
    ((c >>= f) >>= g) = c >>= fun a => f a >>= g := by
  funext s
  rw [bind_run, bind_run, bind_run]
  cases c s <;> rfl

theorem pure_bind (a : α) (f : α → Comp σ β) : ((pure a : Comp σ α) >>= f) = f a := rfl

@[simp] theorem fail_run (s : σ) : (fail : Comp σ α) s = .failed s := rfl

@[simp] theorem fault_run (s : σ) : (fault : Comp σ α) s = .fault := rfl

@[simp] theorem get_run (s : σ) : (get : Comp σ σ) s = .ok s s := rfl

@[simp] theorem modify_run (f : σ → σ) (s : σ) : modify f s = .ok () (f s) := rfl

@[simp] theorem update_run (part : σ → τ) (put : σ → τ → σ) (f : τ → α × τ) (s : σ) :
    update part put f s = .ok (f (part s)).1 (put s (f (part s)).2) := rfl

@[simp] theorem orFail_some (a : α) (s : σ) : (orFail (some a) : Comp σ α) s = .ok a s := rfl

@[simp] theorem orFault_some (a : α) (s : σ) : (orFault (some a) : Comp σ α) s = .ok a s := rfl

@[simp] theorem check_zero (s : σ) : check 0 s = .ok () s := rfl

@[simp] theorem failIf_false (s : σ) : failIf false s = .ok () s := rfl

@[simp] theorem failIf_true (s : σ) : failIf true s = .failed s := rfl

theorem attempt_ok {c : Comp σ α} {s s' : σ} {a : α} (h : c s = .ok a s') :
    attempt c s = .ok (some a) s' := by
  simp only [attempt, h]

theorem attempt_failed {c : Comp σ α} {s s' : σ} (h : c s = .failed s') :
    attempt c s = .ok none s' := by
  simp only [attempt, h]

theorem onFailure_ok {c : Comp σ α} {cleanup : Comp σ β} {s s' : σ} {a : α}
    (h : c s = .ok a s') : onFailure c cleanup s = .ok a s' := by
  simp only [onFailure, h]

theorem onFailure_failed {c : Comp σ α} {cleanup : Comp σ β} {s s' s'' : σ} {b : β}
    (h : c s = .failed s') (hc : cleanup s' = .ok b s'') :
    onFailure c cleanup s = .failed s'' := by
  simp only [onFailure, h, hc]

theorem zoom_ok {part : σ → τ} {put : σ → τ → σ} {c : Comp τ α} {s : σ} {t : τ} {a : α}
    (h : c (part s) = .ok a t) : zoom part put c s = .ok a (put s t) := by
  simp only [zoom, h]

theorem zoom_failed {part : σ → τ} {put : σ → τ → σ} {c : Comp τ α} {s : σ} {t : τ}
    (h : c (part s) = .failed t) : zoom part put c s = .failed (put s t) := by
  simp only [zoom, h]

@[simp] theorem forEach_nil (f : β → Comp σ Unit) (s : σ) : forEach f [] s = .ok () s := rfl

theorem forEach_cons {f : β → Comp σ Unit} {x : β} {xs : List β} {s s' : σ}
    (h : f x s = .ok () s') : forEach f (x :: xs) s = forEach f xs s' :=
  bind_ok h

/-! ## Total correctness -/

/-- `c` run from `s` returns normally, in a state and with a value that
satisfy `Q`. -/
def Returns (c : Comp σ α) (s : σ) (Q : α → σ → Prop) : Prop :=
  ∃ a s', c s = .ok a s' ∧ Q a s'

theorem Returns.of_eq {c : Comp σ α} {s t : σ} {a : α} {Q : α → σ → Prop}
    (h : c s = .ok a t) (hq : Q a t) : Returns c s Q := ⟨a, t, h, hq⟩

theorem Returns.mono {c : Comp σ α} {s : σ} {Q R : α → σ → Prop} (h : Returns c s Q)
    (hqr : ∀ a s', Q a s' → R a s') : Returns c s R := by
  obtain ⟨a, s', hc, hq⟩ := h
  exact ⟨a, s', hc, hqr a s' hq⟩

theorem Returns.bind {c : Comp σ α} {f : α → Comp σ β} {s : σ} {P : α → σ → Prop}
    {Q : β → σ → Prop} (h : Returns c s P) (hf : ∀ a s', P a s' → Returns (f a) s' Q) :
    Returns (c >>= f) s Q := by
  obtain ⟨a, s', hc, hp⟩ := h
  obtain ⟨b, s'', hb, hq⟩ := hf a s' hp
  exact ⟨b, s'', by rw [bind_ok hc, hb], hq⟩

theorem Returns.reply {R : Type} {c : Comp σ α} {s : σ} {Q : α → σ → Prop} (h : Returns c s Q)
    (reply : Option α → R) :
    ∃ a s', (c s).reply reply = some (reply (some a), s') ∧ Q a s' := by
  obtain ⟨a, s', hc, hq⟩ := h
  exact ⟨a, s', by rw [hc]; rfl, hq⟩

/-- The loop rule: an invariant indexed by the indices still to come. -/
theorem Returns.forEach {f : β → Comp σ Unit} (I : List β → σ → Prop)
    (step : ∀ x xs s, I (x :: xs) s → Returns (f x) s fun _ s' => I xs s') :
    ∀ (xs : List β) (s : σ), I xs s → Returns (Comp.forEach f xs) s fun _ s' => I [] s'
  | [], s, h => ⟨(), s, rfl, h⟩
  | x :: xs, s, h => by
      obtain ⟨a, s', hf, hi⟩ := step x xs s h
      obtain ⟨b, s'', hb, hq⟩ := Returns.forEach I step xs s' hi
      exact ⟨b, s'', by rw [forEach_cons hf, hb], hq⟩

theorem Returns.pure {a : α} {s : σ} {Q : α → σ → Prop} (h : Q a s) :
    Returns (Pure.pure a : Comp σ α) s Q := ⟨a, s, rfl, h⟩

theorem Returns.get {s : σ} {Q : σ → σ → Prop} (h : Q s s) : Returns Comp.get s Q := ⟨s, s, rfl, h⟩

theorem Returns.check {code : Int} {s : σ} {Q : Unit → σ → Prop} (hc : code = 0) (h : Q () s) :
    Returns (Comp.check code) s Q := ⟨(), s, by rw [hc]; rfl, h⟩

theorem Returns.failIf {condition : Bool} {s : σ} {Q : Unit → σ → Prop} (hc : condition = false)
    (h : Q () s) : Returns (Comp.failIf condition) s Q := ⟨(), s, by rw [hc]; rfl, h⟩

theorem Returns.orFail {a : α} {value : Option α} {s : σ} {Q : α → σ → Prop}
    (hv : value = some a) (h : Q a s) : Returns (Comp.orFail value) s Q :=
  ⟨a, s, by rw [hv]; rfl, h⟩

theorem Returns.onFailure {c : Comp σ α} {cleanup : Comp σ β} {s : σ} {Q : α → σ → Prop}
    (h : Returns c s Q) : Returns (Comp.onFailure c cleanup) s Q := by
  obtain ⟨a, s', hc, hq⟩ := h
  exact ⟨a, s', onFailure_ok hc, hq⟩

/-- A return code that is tested and is 0. -/
theorem Returns.bindCheck {c : Comp σ Int} {k : Comp σ β} {s : σ} {P : Int → σ → Prop}
    {Q : β → σ → Prop} (h : Returns c s P) (hz : ∀ code s', P code s' → code = 0)
    (hk : ∀ code s', P code s' → Returns k s' Q) :
    Returns (c >>= fun code => Comp.check code >>= fun _ => k) s Q := by
  refine h.bind fun code s' hp => ?_
  rw [hz code s' hp]
  exact hk code s' hp

/-! ## Computations that may fail

`Ends c s Q`: `c` run from `s` does not fault, and what it returned, if
anything, satisfies `Q` together with the state it left. -/

def Ends (c : Comp σ α) (s : σ) (Q : Option α → σ → Prop) : Prop := Returns (Comp.attempt c) s Q

theorem Returns.ends {c : Comp σ α} {s : σ} {P : α → σ → Prop} {Q : Option α → σ → Prop}
    (h : Returns c s P) (hq : ∀ a s', P a s' → Q (some a) s') : Ends c s Q := by
  obtain ⟨a, s', hc, hp⟩ := h
  exact ⟨some a, s', attempt_ok hc, hq a s' hp⟩

theorem Ends.of_ok {c : Comp σ α} {s t : σ} {a : α} {Q : Option α → σ → Prop} (h : c s = .ok a t)
    (hq : Q (some a) t) : Ends c s Q := ⟨some a, t, attempt_ok h, hq⟩

theorem Ends.of_failed {c : Comp σ α} {s t : σ} {Q : Option α → σ → Prop} (h : c s = .failed t)
    (hq : Q none t) : Ends c s Q := ⟨none, t, attempt_failed h, hq⟩

theorem Ends.fail {s : σ} {Q : Option α → σ → Prop} (h : Q none s) :
    Ends (Comp.fail : Comp σ α) s Q := ⟨none, s, rfl, h⟩

theorem Ends.pure {a : α} {s : σ} {Q : Option α → σ → Prop} (h : Q (some a) s) :
    Ends (Pure.pure a : Comp σ α) s Q := ⟨some a, s, rfl, h⟩

theorem Ends.mono {c : Comp σ α} {s : σ} {P Q : Option α → σ → Prop} (h : Ends c s P)
    (hq : ∀ r s', P r s' → Q r s') : Ends c s Q := Returns.mono h hq

/-- A computation that ends has given a value or failed. -/
theorem Ends.outcome {c : Comp σ α} {s : σ} {Q : Option α → σ → Prop} (h : Ends c s Q) :
    (∃ a s', c s = .ok a s' ∧ Q (some a) s') ∨ ∃ s', c s = .failed s' ∧ Q none s' := by
  obtain ⟨r, s', hc, hq⟩ := h
  cases hrun : c s with
  | ok a t =>
    rw [attempt_ok hrun] at hc
    cases hc
    exact Or.inl ⟨a, s', rfl, hq⟩
  | failed t =>
    rw [attempt_failed hrun] at hc
    cases hc
    exact Or.inr ⟨s', rfl, hq⟩
  | fault => simp [attempt, hrun] at hc

theorem Ends.bind {c : Comp σ α} {f : α → Comp σ β} {s : σ} {P : Option α → σ → Prop}
    {Q : Option β → σ → Prop} (h : Ends c s P)
    (hsome : ∀ a s', P (some a) s' → Ends (f a) s' Q) (hnone : ∀ s', P none s' → Q none s') :
    Ends (c >>= f) s Q := by
  rcases h.outcome with ⟨a, s', hrun, hp⟩ | ⟨s', hrun, hp⟩
  · obtain ⟨r', s'', hf, hq⟩ := hsome a s' hp
    exact ⟨r', s'', by rw [← hf]; simp only [attempt, bind_ok hrun], hq⟩
  · exact ⟨none, s', attempt_failed (bind_failed hrun), hnone s' hp⟩

theorem Returns.bindEnds {c : Comp σ α} {f : α → Comp σ β} {s : σ} {P : α → σ → Prop}
    {Q : Option β → σ → Prop} (h : Returns c s P) (hf : ∀ a s', P a s' → Ends (f a) s' Q) :
    Ends (c >>= f) s Q := by
  obtain ⟨a, s', hc, hp⟩ := h
  obtain ⟨r, s'', hr, hq⟩ := hf a s' hp
  exact ⟨r, s'', by rw [← hr]; simp only [attempt, bind_ok hc], hq⟩

theorem Ends.next {c : Comp σ α} {f : α → Comp σ β} {s t : σ} {a : α} {Q : Option β → σ → Prop}
    (h : c s = .ok a t) (hf : Ends (f a) t Q) : Ends (c >>= f) s Q :=
  (Returns.of_eq h (Q := fun b u => b = a ∧ u = t) ⟨rfl, rfl⟩).bindEnds
    fun _ _ hend => by rw [hend.1, hend.2]; exact hf

/-- The cleanup runs where the computation failed. -/
theorem Ends.onFailure {c : Comp σ α} {cleanup : Comp σ β} {s : σ} {P Q : Option α → σ → Prop}
    (h : Ends c s P) (hsome : ∀ a s', P (some a) s' → Q (some a) s')
    (hnone : ∀ s', P none s' → Ends cleanup s' fun _ s'' => Q none s'') :
    Ends (Comp.onFailure c cleanup) s Q := by
  rcases h.outcome with ⟨a, s', hrun, hp⟩ | ⟨s', hrun, hp⟩
  · exact ⟨some a, s', attempt_ok (onFailure_ok hrun), hsome a s' hp⟩
  · rcases (hnone s' hp).outcome with ⟨b, s'', hend, hq⟩ | ⟨s'', hend, hq⟩
    · exact ⟨none, s'', attempt_failed (by simp only [Comp.onFailure, hrun, hend]), hq⟩
    · exact ⟨none, s'', attempt_failed (by simp only [Comp.onFailure, hrun, hend]), hq⟩

/-- A test that stops the function. -/
theorem Ends.stop {condition : Bool} {k : Unit → Comp σ α} {s : σ} {Q : Option α → σ → Prop}
    (h : condition = true) (hq : Q none s) : Ends (Comp.failIf condition >>= k) s Q := by
  rw [h]
  exact ⟨none, s, rfl, hq⟩

/-- A test that lets the function go on. -/
theorem Ends.pass {condition : Bool} {k : Unit → Comp σ α} {s : σ} {Q : Option α → σ → Prop}
    (h : condition = false) (hk : Ends (k ()) s Q) : Ends (Comp.failIf condition >>= k) s Q := by
  rw [h]
  exact hk

theorem Ends.found {value : Option β} {b : β} {k : β → Comp σ α} {s : σ}
    {Q : Option α → σ → Prop} (h : value = some b) (hk : Ends (k b) s Q) :
    Ends (Comp.orFail value >>= k) s Q := by
  rw [h]
  exact hk

theorem Ends.check {code : Int} {s : σ} {Q : Option Unit → σ → Prop} (hz : code = 0 → Q (some ()) s)
    (hn : code ≠ 0 → Q none s) : Ends (Comp.check code) s Q := by
  by_cases e : code = 0
  · exact (Returns.check e (hz e)).ends fun _ _ h => h
  · exact ⟨none, s, by simp only [attempt, Comp.check, if_neg e, Comp.fail], hn e⟩

theorem Ends.failIf {condition : Bool} {s : σ} {Q : Option Unit → σ → Prop}
    (hz : condition = false → Q (some ()) s) (hn : condition = true → Q none s) :
    Ends (Comp.failIf condition) s Q := by
  cases condition with
  | false => exact ⟨some (), s, rfl, hz rfl⟩
  | true => exact ⟨none, s, rfl, hn rfl⟩

theorem Ends.zoom {part : σ → τ} {put : σ → τ → σ} {c : Comp τ α} {s : σ}
    {Q : Option α → σ → Prop} (h : Ends c (part s) fun result t => Q result (put s t)) :
    Ends (Comp.zoom part put c) s Q := by
  obtain ⟨result, t, hrun, hq⟩ := h
  cases hc : c (part s) with
  | ok a t' =>
    rw [attempt_ok hc] at hrun
    cases hrun
    exact Ends.of_ok (zoom_ok hc) hq
  | failed t' =>
    rw [attempt_failed hc] at hrun
    cases hrun
    exact Ends.of_failed (zoom_failed hc) hq
  | fault => simp [attempt, hc] at hrun

/-- A return code that is tested and is 0, in a computation that may fail
later. -/
theorem Returns.bindCheckEnds {c : Comp σ Int} {k : Comp σ β} {s : σ} {P : Int → σ → Prop}
    {Q : Option β → σ → Prop} (h : Returns c s P) (hz : ∀ code s', P code s' → code = 0)
    (hk : ∀ code s', P code s' → Ends k s' Q) :
    Ends (c >>= fun code => Comp.check code >>= fun _ => k) s Q := by
  refine h.bindEnds fun code s' hp => ?_
  rw [hz code s' hp]
  exact hk code s' hp

/-- The reply of a computation that may fail. -/
theorem Ends.reply {R : Type} {c : Comp σ α} {s : σ} {Q : Option α → σ → Prop} (h : Ends c s Q)
    (reply : Option α → R) : ∃ r s', (c s).reply reply = some (reply r, s') ∧ Q r s' := by
  rcases h.outcome with ⟨a, s', hrun, hq⟩ | ⟨s', hrun, hq⟩
  · exact ⟨some a, s', by rw [hrun]; rfl, hq⟩
  · exact ⟨none, s', by rw [hrun]; rfl, hq⟩

/-! ## Computations that only read

`Alike c s s'`: run from `s` and from `s'`, `c` changes nothing and gives
the same value, or it faults in both. -/

def Alike (c : Comp σ α) (s s' : σ) : Prop :=
  (∃ a, c s = .ok a s ∧ c s' = .ok a s') ∨ (c s = .fault ∧ c s' = .fault)

theorem Alike.pure (a : α) (s s' : σ) : Alike (Pure.pure a : Comp σ α) s s' := Or.inl ⟨a, rfl, rfl⟩

theorem Alike.bind {c : Comp σ α} {f : α → Comp σ β} {s s' : σ} (h : Alike c s s')
    (hf : ∀ a, Alike (f a) s s') : Alike (c >>= f) s s' := by
  rcases h with ⟨a, hs, hs'⟩ | ⟨hs, hs'⟩
  · unfold Alike
    rw [bind_ok hs, bind_ok hs']
    exact hf a
  · exact Or.inr ⟨by rw [bind_run, hs], by rw [bind_run, hs']⟩

/-- A loop that adds up what it reads. -/
theorem foldlM_run {f : Nat → β → Comp σ Nat} {g : β → Nat} {s : σ} (xs : List β) :
    (∀ x ∈ xs, ∀ count, f count x s = .ok (count + g x) s) →
      ∀ count, xs.foldlM f count s = .ok (count + (xs.map g).sum) s := by
  induction xs with
  | nil => exact fun _ count => rfl
  | cons x xs ih =>
    intro h count
    obtain ⟨hx, hxs⟩ := List.forall_mem_cons.mp h
    rw [List.foldlM_cons, bind_ok (hx count), ih hxs, List.map_cons, List.sum_cons, Nat.add_assoc]

/-! ## Computations that only read

`ReadOnly c`: whatever `c` returns, the state is as it was. -/

def ReadOnly (c : Comp σ α) : Prop := ∀ s, (∃ a, c s = .ok a s) ∨ c s = .fault

theorem ReadOnly.state_eq {c : Comp σ α} (h : ReadOnly c) {s t : σ} {a : α}
    (hc : c s = .ok a t) : t = s := by
  rcases h s with ⟨b, hb⟩ | hb
  · rw [hb] at hc
    cases hc
    rfl
  · rw [hb] at hc
    cases hc

theorem ReadOnly.pure (a : α) : ReadOnly (Pure.pure a : Comp σ α) := fun _ => Or.inl ⟨a, rfl⟩

theorem ReadOnly.get : ReadOnly (Comp.get : Comp σ σ) := fun s => Or.inl ⟨s, rfl⟩

theorem ReadOnly.bind {c : Comp σ α} {f : α → Comp σ β} (hc : ReadOnly c)
    (hf : ∀ a, ReadOnly (f a)) : ReadOnly (c >>= f) := by
  intro s
  rcases hc s with ⟨a, ha⟩ | hfault
  · rw [bind_ok ha]
    exact hf a s
  · right
    rw [bind_run, hfault]

theorem ReadOnly.zoom {part : σ → τ} {put : σ → τ → σ} {c : Comp τ α} (hc : ReadOnly c)
    (hput : ∀ s, put s (part s) = s) : ReadOnly (Comp.zoom part put c) := by
  intro s
  rcases hc (part s) with ⟨a, ha⟩ | hfault
  · left
    exact ⟨a, by rw [zoom_ok ha, hput]⟩
  · right
    simp only [Comp.zoom, hfault]

end Comp

end VmSim.Lib
