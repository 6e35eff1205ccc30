import Mathlib.Data.List.Induction
import Mathlib.Logic.Relation

/-!
# Machines whose operations may fail

An object that is driven from outside by a sequence of operations, each of which either succeeds
and changes the state or fails and leaves it as it was. Two things are wanted of such an object:
that a predicate holds after every run, and that two objects driven by the same operations cannot
be told apart. Both are proved one operation at a time, and the inductions that lift them to
runs are here.

The last section treats operations that hand control to somebody else before they return. What
the other party does in the meantime is a parameter of the operation, and all that is known about
it is that it can touch the state only by running further operations.

## Reachable states and runs

There are two ways to speak about what operations lead to. `Reachable` is a set of states, closed
under operations that succeed; it is what invariants are about, and its condition `P` can look at
the operation and the state that it is started in. A `run` is a list of operations, some of which
may fail and leave the state alone, and it is what statements about histories need: which operation
it was that brought something about, how much was moved in total, and what the outcomes were.

Operations are data, so that such statements can quantify over them, and so are failures: a machine
that fails with the wrong error can be told apart from one that fails with the right one.

## Refinement

`Lockstep` relates the operations of two machines one at a time: related states, the same
operation, outcomes that match and states that are related again. Errors may be translated on the
way, along a function and not a relation, so that equal outcomes are equal as lists.

`Matches` is closed under sequencing and branching. A proof that two implementations match can
therefore follow their text, and come to the point at which they differ.

## Re-entrancy

An operation that calls somebody takes a `Callback`. A callback is a function from the state in
which the other party is given control to the state in which it returns it, and `Run` demands
nothing of it but that this is again a run. The induction is on runs, and so it covers callbacks
within callbacks; `Run.invariant` has as a premise for the callback exactly what it concludes.

## Main definitions

* `Machine`, `Machine.step`, `Machine.run`, `Machine.outcomes`
* `Machine.Reachable` — the states reached by successful operations that each meet a condition
* `Machine.Throughout` — what holds all through a run
* `Machine.total` — a total over the operations of a run that succeed
* `Matches` — computations that succeed and fail together
* `Machine.Lockstep` — a relation kept by two machines whose operations match
* `Reentrant.Run` — runs of operations that call back

## Main results

* `Machine.Reachable.invariant`, `Reentrant.Run.invariant` — the invariant rules
* `Machine.foldlM_refines` — operations that do what functions do to another state
* `Machine.exists_since` — the operation that brought something about
* `Machine.level_run` — a level is moved by what the operations gain and lose
* `Machine.Lockstep.run` — related machines have equal outcomes and stay related
-/

universe u v

theorem Except.toOption_eq_some {ε α : Type*} {x : Except ε α} {a : α} :
    x.toOption = some a ↔ x = .ok a := by
  cases x <;> simp [Except.toOption]

/-- An object with states `σ`, driven by operations `ι` that may fail with an `ε`. -/
structure Machine (σ ι ε : Type*) where
  /-- One operation in one state. -/
  exec : σ → ι → Except ε σ

namespace Machine

variable {σ τ ι ε δ : Type*}

/-- One operation, a failing one leaving the state as it was. -/
def step (M : Machine σ ι ε) (s : σ) (i : ι) : σ :=
  match M.exec s i with
  | .ok s' => s'
  | .error _ => s

/-- The state after a list of operations. -/
def run (M : Machine σ ι ε) (s : σ) (is : List ι) : σ := is.foldl M.step s

/-- Which operations of a list succeeded, and how the others failed. -/
def outcomes (M : Machine σ ι ε) : σ → List ι → List (Except ε Unit)
  | _, [] => []
  | s, i :: is => (M.exec s i).map (fun _ => ()) :: M.outcomes (M.step s i) is

variable {M : Machine σ ι ε} {N : Machine τ ι δ}

theorem step_of_ok {s s' : σ} {i : ι} (h : M.exec s i = .ok s') : M.step s i = s' := by
  rw [step, h]

theorem step_of_error {s : σ} {i : ι} {e : ε} (h : M.exec s i = .error e) : M.step s i = s := by
  rw [step, h]

/-- An operation succeeds, or the state is as it was. -/
theorem step_cases (M : Machine σ ι ε) (s : σ) (i : ι) :
    (∃ s', M.exec s i = .ok s' ∧ M.step s i = s') ∨ M.step s i = s := by
  cases h : M.exec s i with
  | error e => exact Or.inr (step_of_error h)
  | ok s' => exact Or.inl ⟨s', rfl, step_of_ok h⟩

@[simp] theorem run_nil (s : σ) : M.run s [] = s := rfl

@[simp] theorem run_cons (s : σ) (i : ι) (is : List ι) :
    M.run s (i :: is) = M.run (M.step s i) is := rfl

theorem run_append (s : σ) (is js : List ι) : M.run s (is ++ js) = M.run (M.run s is) js :=
  List.foldl_append

/-- A predicate that every successful operation of the list keeps holds after the run. -/
theorem run_invariant {Inv : σ → Prop} {is : List ι}
    (hstep : ∀ s s', ∀ i ∈ is, Inv s → M.exec s i = .ok s' → Inv s') :
    ∀ {s : σ}, Inv s → Inv (M.run s is) := by
  induction is with
  | nil => exact fun h => h
  | cons i is ih =>
    intro s hs
    refine ih (fun s s' j hj => hstep s s' j (List.mem_cons_of_mem _ hj)) ?_
    cases h : M.exec s i with
    | error e => rwa [step_of_error h]
    | ok s' => rw [step_of_ok h]; exact hstep s s' i (List.mem_cons_self ..) hs h

/-! ### Reachable states

The condition `P` is for operations that are excluded from a run, and may look at the state that
they would be made in. -/

/-- The states reached from `s₀` by successful operations, each meeting `P` in the state it is
started in. -/
inductive Reachable (M : Machine σ ι ε) (P : σ → ι → Prop) (s₀ : σ) : σ → Prop
  | refl : Reachable M P s₀ s₀
  | step {s s' : σ} {i : ι} : Reachable M P s₀ s → P s i → M.exec s i = .ok s' →
      Reachable M P s₀ s'

/-- **The invariant rule.** -/
theorem Reachable.invariant {P : σ → ι → Prop} {Inv : σ → Prop} {s₀ s : σ}
    (h : M.Reachable P s₀ s) (h₀ : Inv s₀)
    (hstep : ∀ s i s', Inv s → P s i → M.exec s i = .ok s' → Inv s') : Inv s := by
  induction h with
  | refl => exact h₀
  | step _ hP hexec ih => exact hstep _ _ _ ih hP hexec

/-- The state after a list of operations that all succeed is reachable. -/
theorem Reachable.of_foldlM {P : σ → ι → Prop} {is : List ι} (hP : ∀ i ∈ is, ∀ s, P s i) :
    ∀ {s₀ t s : σ}, M.Reachable P s₀ t → is.foldlM M.exec t = .ok s → M.Reachable P s₀ s := by
  induction is with
  | nil =>
    rintro s₀ t s ht hs
    obtain rfl := Except.ok.inj hs
    exact ht
  | cons i is ih =>
    rintro s₀ t s ht hs
    rw [List.foldlM_cons] at hs
    cases hexec : M.exec t i with
    | error e =>
      rw [hexec] at hs
      exact nomatch hs
    | ok t' =>
      rw [hexec] at hs
      have hi := hP i (List.mem_cons_self ..) t
      exact ih (fun j hj => hP j (List.mem_cons_of_mem _ hj)) (ht.step hi hexec) hs

/-- When successful operations do what a function does to a related state, so do lists of them. -/
theorem foldlM_refines {R : σ → τ → Prop} {f : τ → ι → τ}
    (hstep : ∀ s t i s', R s t → M.exec s i = .ok s' → R s' (f t i)) {is : List ι} :
    ∀ {s s' : σ} {t : τ}, R s t → is.foldlM M.exec s = .ok s' → R s' (is.foldl f t) := by
  induction is with
  | nil =>
    rintro s s' t hR hs
    obtain rfl := Except.ok.inj hs
    exact hR
  | cons i is ih =>
    rintro s s' t hR hs
    rw [List.foldlM_cons] at hs
    cases hexec : M.exec s i with
    | error e =>
      rw [hexec] at hs
      exact nomatch hs
    | ok u =>
      rw [hexec] at hs
      exact ih (hstep s t i u hR hexec) hs

/-- What is seen after a list of operations that all succeed is seen in a reachable state. -/
theorem exists_reachable {P : σ → ι → Prop} {β : Type*} (s₀ : σ) (is : List ι) (look : σ → β)
    (b : β) (hP : ∀ i ∈ is, ∀ s, P s i) (h : (is.foldlM M.exec s₀).toOption.map look = some b) :
    ∃ s, M.Reachable P s₀ s ∧ look s = b := by
  obtain ⟨s, hs, hlook⟩ := Option.map_eq_some_iff.mp h
  exact ⟨s, Reachable.of_foldlM hP .refl (Except.toOption_eq_some.mp hs), hlook⟩

/-! ### Since when

For statements of the form that something can have come about in one way only: it names the
operation, and says that nothing has undone it. -/

/-- `Q` holds in every state of a run. -/
def Throughout (M : Machine σ ι ε) (Q : σ → Prop) (s : σ) (is : List ι) : Prop :=
  ∀ mid, mid <+: is → Q (M.run s mid)

/-- What holds from a state on is kept by a run that keeps it in its last step. -/
theorem Throughout.concat {Q : σ → Prop} {s : σ} {is : List ι} {i : ι}
    (h : M.Throughout Q s is) (hlast : Q (M.run s (is ++ [i]))) : M.Throughout Q s (is ++ [i]) := by
  intro mid hmid
  rcases List.prefix_concat_iff.mp hmid with rfl | hmid
  · exact hlast
  · exact h mid hmid

/-- **What holds after a run and did not hold before it** was brought about by a successful
operation, and has held since. -/
theorem exists_since {Q : σ → Prop} {s : σ} {is : List ι} (hs : ¬Q s) (h : Q (M.run s is)) :
    ∃ pre i post s', is = pre ++ i :: post ∧ ¬Q (M.run s pre) ∧
      M.exec (M.run s pre) i = .ok s' ∧ M.Throughout Q s' post := by
  induction is using List.reverseRecOn with
  | nil => exact absurd h hs
  | append_singleton is i ih =>
    by_cases hprev : Q (M.run s is)
    · obtain ⟨pre, j, post, s', rfl, hpre, hexec, hpost⟩ := ih hprev
      refine ⟨pre, j, post ++ [i], s', by simp, hpre, hexec, hpost.concat ?_⟩
      rwa [List.append_assoc, run_append, List.cons_append, run_cons, step_of_ok hexec] at h
    · rw [run_append, run_cons, run_nil] at h
      rcases M.step_cases (M.run s is) i with ⟨s', hexec, hstep⟩ | hstep
      · refine ⟨is, i, [], s', rfl, hprev, hexec, fun mid hmid => ?_⟩
        rw [List.prefix_nil.mp hmid]
        exact hstep ▸ h
      · exact absurd (hstep ▸ h) hprev

/-! ### Totals

What was moved in a run is the sum over the operations that have succeeded. Whether one has
succeeded depends on the state before it, so a total is computed along the run. -/

/-- The total of `f` over the operations of a list that succeed. -/
def total (M : Machine σ ι ε) (f : ι → ℕ) : σ → List ι → ℕ
  | _, [] => 0
  | s, i :: is =>
    (match M.exec s i with
      | .ok _ => f i
      | .error _ => 0) + M.total f (M.step s i) is

theorem total_cons_of_ok {f : ι → ℕ} {s s' : σ} {i : ι} {is : List ι} (h : M.exec s i = .ok s') :
    M.total f s (i :: is) = f i + M.total f s' is := by
  rw [total, h, step_of_ok h]

theorem total_cons_of_error {f : ι → ℕ} {s : σ} {i : ι} {is : List ι} {e : ε}
    (h : M.exec s i = .error e) : M.total f s (i :: is) = M.total f s is := by
  rw [total, h, step_of_error h, Nat.zero_add]

/-- **A level that every successful operation moves by what it gains and loses** is moved by a run
by the totals of these. -/
theorem level_run {Inv : σ → Prop} (level : σ → ℕ) {gain loss : ι → ℕ}
    (hInv : ∀ s i s', Inv s → M.exec s i = .ok s' → Inv s')
    (hstep : ∀ s i s', Inv s → M.exec s i = .ok s' → level s' + loss i = level s + gain i)
    (is : List ι) : ∀ {s : σ}, Inv s →
      level (M.run s is) + M.total loss s is = level s + M.total gain s is := by
  induction is with
  | nil => exact fun _ => rfl
  | cons i is ih =>
    intro s hs
    cases h : M.exec s i with
    | error e =>
      rw [run_cons, step_of_error h, total_cons_of_error h, total_cons_of_error h]
      exact ih hs
    | ok s' =>
      have hlevel := hstep s i s' hs h
      have hrest := ih (hInv s i s' hs h)
      rw [run_cons, step_of_ok h, total_cons_of_ok h, total_cons_of_ok h]
      omega

/-! ### Lockstep

`Matches` compares two computations and `Lockstep` two machines. The first is what is proved about
the text of two functions; the second is what is lifted to runs. -/

end Machine

/-- Two computations that either both succeed, with results in `R`, or both fail, with errors that
correspond along `g`. -/
inductive Matches {α β δ ε : Type*} (g : δ → ε) (R : α → β → Prop) :
    Except ε α → Except δ β → Prop
  | ok {a : α} {b : β} (h : R a b) : Matches g R (.ok a) (.ok b)
  | error (e : δ) : Matches g R (.error (g e)) (.error e)

namespace Matches

variable {α γ : Type u} {β η : Type v} {δ ε : Type*} {g : δ → ε} {R : α → β → Prop}
  {x : Except ε α} {y : Except δ β}

/-- A computation matches itself. -/
theorem refl (x : Except ε α) : Matches id Eq x x := by
  cases x with
  | ok a => exact .ok rfl
  | error e => exact .error e

/-- The relation can be weakened. -/
theorem mono {S : α → β → Prop} (h : Matches g R x y) (himp : ∀ a b, R a b → S a b) :
    Matches g S x y := by
  cases h with
  | ok h => exact .ok (himp _ _ h)
  | error e => exact .error e

/-- The second computation succeeds when the first one does. -/
theorem exists_ok {a : α} (h : Matches g R (.ok a) y) : ∃ b, y = .ok b ∧ R a b := by
  cases h with
  | ok h => exact ⟨_, rfl, h⟩

/-- Sequences match when their parts do. -/
theorem bind {S : γ → η → Prop} {f : α → Except ε γ} {k : β → Except δ η} (h : Matches g R x y)
    (hf : ∀ a b, R a b → Matches g S (f a) (k b)) : Matches g S (x >>= f) (y >>= k) := by
  cases h with
  | ok h => exact hf _ _ h
  | error e => exact .error e

/-- Branches match when they are taken together. -/
theorem ite {c d : Prop} [Decidable c] [Decidable d] {x' : Except ε α} {y' : Except δ β}
    (hcd : c ↔ d) (h : d → Matches g R x y) (h' : ¬d → Matches g R x' y') :
    Matches g R (if c then x else x') (if d then y else y') := by
  by_cases hd : d
  · rw [if_pos hd, if_pos (hcd.mpr hd)]
    exact h hd
  · rw [if_neg hd, if_neg fun hc => hd (hcd.mp hc)]
    exact h' hd

/-- The translation of the errors can be made a part of the second computation. -/
theorem mapError (h : Matches g R x y) : Matches id R x (y.mapError g) := by
  cases h with
  | ok h => exact .ok h
  | error e => exact .error (g e)

/-- Computations with equal results. -/
theorem eq_mapError {y : Except δ α} (h : Matches g Eq x y) : x = y.mapError g := by
  cases h with
  | ok h => rw [h]; rfl
  | error e => rfl

end Matches

/-- Outcomes whose errors are not translated. -/
theorem map_mapError_id {α ε : Type*} (l : List (Except ε α)) : l.map (Except.mapError id) = l := by
  have hid : (Except.mapError id : Except ε α → Except ε α) = id := funext fun x => by
    cases x <;> rfl
  rw [hid, List.map_id]

namespace Machine

variable {σ τ ι ε δ : Type*} {M : Machine σ ι ε} {N : Machine τ ι δ}

/-- `R` is kept by two machines that succeed on the same operations among those in `P`, and whose
failures correspond along `g`. -/
def Lockstep (M : Machine σ ι ε) (N : Machine τ ι δ) (g : δ → ε) (P : ι → Prop)
    (R : σ → τ → Prop) : Prop :=
  ∀ s t i, P i → R s t → Matches g R (M.exec s i) (N.exec t i)

/-- A run that goes on from operations that match. -/
theorem run_of_matches {g : δ → ε} {R Q : σ → τ → Prop} {s : σ} {t : τ} {i : ι} {is : List ι}
    (h : Matches g R (M.exec s i) (N.exec t i)) (hfail : R s t)
    (hrest : ∀ s' t', R s' t' → M.outcomes s' is = (N.outcomes t' is).map (Except.mapError g) ∧
      Q (M.run s' is) (N.run t' is)) :
    M.outcomes s (i :: is) = (N.outcomes t (i :: is)).map (Except.mapError g) ∧
      Q (M.run s (i :: is)) (N.run t (i :: is)) := by
  rw [run_cons, run_cons, outcomes, outcomes, step, step, List.map_cons]
  revert h
  generalize M.exec s i = x
  generalize N.exec t i = y
  rintro (hR | e)
  · obtain ⟨hout, hrun⟩ := hrest _ _ hR
    exact ⟨congrArg (_ :: ·) hout, hrun⟩
  · obtain ⟨hout, hrun⟩ := hrest _ _ hfail
    exact ⟨congrArg (_ :: ·) hout, hrun⟩

/-- **Related machines cannot be told apart by a run**: they have the same outcomes, failure for
failure, and are related again afterwards. -/
theorem Lockstep.run {g : δ → ε} {P : ι → Prop} {R : σ → τ → Prop} (h : Lockstep M N g P R) :
    ∀ (is : List ι), (∀ i ∈ is, P i) → ∀ {s : σ} {t : τ}, R s t →
      M.outcomes s is = (N.outcomes t is).map (Except.mapError g) ∧
        R (M.run s is) (N.run t is) := by
  intro is
  induction is with
  | nil => exact fun _ _ _ hR => ⟨rfl, hR⟩
  | cons i is ih =>
    intro hP s t hR
    exact run_of_matches (h s t i (hP i (List.mem_cons_self ..)) hR) hR fun _ _ hR' =>
      ih (fun j hj => hP j (List.mem_cons_of_mem _ hj)) hR'

/-- The outcomes of two lists of operations, one after the other. -/
theorem outcomes_append (is js : List ι) : ∀ s : σ,
    M.outcomes s (is ++ js) = M.outcomes s is ++ M.outcomes (M.run s is) js := by
  induction is with
  | nil => exact fun _ => rfl
  | cons i is ih => exact fun s => congrArg (_ :: ·) (ih (M.step s i))

end Machine

/-! ### Operations that call back

The machine is a function here, since it takes the callback as an argument. A run has for each of
its operations a callback, of which it is known only that the states that it leads from and to are
connected by a run. -/

namespace Reentrant

variable {A σ ι ε β ρ : Type*}

/-- What the called parties do with the state while they are in control: called with an `A`, they
answer with a `β` or fail with a `ρ`. -/
abbrev Callback (A σ β ρ : Type*) := A → σ → Except ρ (β × σ)

/-- The runs of operations `exec` that hand control to a callback, each operation meeting `P` in
the state it is started in. A callback may do anything that is itself a run; what it attempted
without success is no part of the state it leaves. -/
inductive Run (exec : ι → Callback A σ β ρ → σ → Except ε σ) (P : σ → ι → Prop) : σ → σ → Prop
  | refl (s : σ) : Run exec P s s
  | call {s t v : σ} {i : ι} {cb : Callback A σ β ρ} : Run exec P s t → P t i →
      (∀ a u b u', cb a u = .ok (b, u') → Run exec P u u') → exec i cb t = .ok v → Run exec P s v

/-- **The invariant rule for operations that call back.** An operation has to keep the invariant
whatever it calls, given that the called parties keep it. -/
theorem Run.invariant {exec : ι → Callback A σ β ρ → σ → Except ε σ} {P : σ → ι → Prop}
    {Inv : σ → Prop} {s s' : σ} (h : Run exec P s s')
    (hstep : ∀ i cb t v, Inv t → P t i → (∀ a u b u', cb a u = .ok (b, u') → Inv u → Inv u') →
      exec i cb t = .ok v → Inv v) : Inv s → Inv s' := by
  induction h with
  | refl s => exact fun hs => hs
  | call _ hP _ hexec ih ihcb =>
    exact fun hs => hstep _ _ _ _ (ih hs) hP (fun a u b u' hu => ihcb a u b u' hu) hexec

/-- Callbacks that leave the state alone make a plain machine of the operations. -/
theorem Run.of_reachable {exec : ι → Callback A σ β ρ → σ → Except ε σ} {P : σ → ι → Prop}
    {cb : Callback A σ β ρ} (hcb : ∀ a u b u', cb a u = .ok (b, u') → u' = u) {s s' : σ}
    (h : (Machine.mk fun s i => exec i cb s).Reachable P s s') : Run exec P s s' := by
  induction h with
  | refl => exact .refl s
  | step _ hP hexec ih =>
    refine ih.call hP (fun a u b u' hu => ?_) hexec
    rw [hcb a u b u' hu]
    exact .refl u

end Reentrant
