import ContractsStylus.Library.Runs

/-!
# Parties that call each other

In a `Reentrant.Run` whoever is called may run every operation there is. Here an operation also
depends on the party that runs it, and a party that is called can do no more than run operations of
its own. The parties may be the frames of nested calls.

What a party may rely on when it is given control and what it guarantees when it gives control back
need each other: an operation keeps the guarantee if those that it calls do, and it has to see to
it that they find what they rely on. `Contract` states this for one operation at a time.

## What a called party may do

`Within exec a s t` is a run of the party `a`: operations of its own, one after the other, each of
which may call others. Whoever is called does in turn what is itself a run of the called party,
which is the premise of the constructor. So there is no bound on the depth of the calls, and no
fixed program for any of the parties.

An operation is a function of the callback that it is given. That it gives control to somebody in
a certain state cannot be read off such a function, and `Calls` defines it by its effect: there are
two callbacks that differ there and nowhere else, and the operation tells them apart.

## Rely and guarantee

`Contract` has one obligation about what an operation does, `exec_ok`, and one about whom it calls,
`exec_congr`: callbacks that agree wherever the reliance holds lead to the same result. The second
one is the reason why `Contract.rely` holds not only between operations but in the middle of them.

The guarantee is a relation between states, kept by transitivity, and not an invariant. A guarantee
that is `fun s t => I s → I t` makes it one, and others say that a counter does not decrease or that
a cell does not change.

## Main definitions

* `Reentrant.Within` — the runs of one party
* `Reentrant.Calls`, `Reentrant.Reaches` — who is given control, in which state
* `Reentrant.Contract` — what parties rely on and guarantee
* `Reentrant.restrict` — the operations that are allowed
* `Reentrant.scripted` — called parties that follow a list of operations

## Main results

* `Reentrant.Contract.guarantee` — a run keeps the guarantee
* `Reentrant.Contract.rely` — whoever is given control finds what he relies on
-/

namespace Reentrant

variable {A σ ι ε β ρ : Type*}

section Runs

variable (exec : A → ι → Callback A σ β ρ → σ → Except ε σ)

/-- The runs of the party `a`. A party that is called in the course of one does what is itself a
run of that party. -/
inductive Within : A → σ → σ → Prop
  | refl (a : A) (s : σ) : Within a s s
  | call {a : A} {s t v : σ} {i : ι} {cb : Callback A σ β ρ} : Within a s t →
      (∀ a' u b u', cb a' u = .ok (b, u') → Within a' u u') → exec a i cb t = .ok v → Within a s v

/-- What is called does what is a run of the called party. -/
def Legal (cb : Callback A σ β ρ) : Prop := ∀ a u b u', cb a u = .ok (b, u') → Within exec a u u'

/-- The operation `i` of the party `a` gives control to `a'` in the state `u`: what `a'` does there
can make a difference. -/
def Calls (a : A) (i : ι) (s : σ) (a' : A) (u : σ) : Prop :=
  ∃ cb cb' : Callback A σ β ρ, Legal exec cb ∧ Legal exec cb' ∧
    (∀ b v, ¬(b = a' ∧ v = u) → cb b v = cb' b v) ∧ exec a i cb s ≠ exec a i cb' s

/-- The situations in the course of the runs of `a` from `s`: who is in control, and the state. -/
inductive Reaches (a : A) (s : σ) : A → σ → Prop
  | refl : Reaches a s a s
  | run {b : A} {t u : σ} : Reaches a s b t → Within exec b t u → Reaches a s b u
  | call {b c : A} {t u : σ} {i : ι} : Reaches a s b t → Calls exec b i t c u → Reaches a s c u

/-- What the parties rely on, and what they guarantee. -/
structure Contract where
  Rely : A → σ → Prop
  Guarantee : σ → σ → Prop
  refl (s : σ) : Guarantee s s
  trans {s t u : σ} : Guarantee s t → Guarantee t u → Guarantee s u
  /-- What is guaranteed leaves a party what it relies on. -/
  stable {a : A} {s t : σ} : Rely a s → Guarantee s t → Rely a t
  /-- An operation keeps the guarantee if those that it calls keep it. -/
  exec_ok {a : A} {i : ι} {cb : Callback A σ β ρ} {s t : σ} : Rely a s →
    (∀ a' u b u', cb a' u = .ok (b, u') → Rely a' u → Guarantee u u') → exec a i cb s = .ok t →
    Guarantee s t
  /-- An operation calls those only that find what they rely on. -/
  exec_congr {a : A} {i : ι} {cb cb' : Callback A σ β ρ} {s : σ} : Rely a s →
    (∀ a' u b u', cb a' u = .ok (b, u') → Rely a' u → Guarantee u u') →
    (∀ a' u, Rely a' u → cb a' u = cb' a' u) → exec a i cb s = exec a i cb' s

end Runs

variable {exec : A → ι → Callback A σ β ρ → σ → Except ε σ} {a b : A} {s t u : σ}

/-- Runs of a party can be put one after the other. -/
theorem Within.trans (h : Within exec a s t) (h' : Within exec a t u) : Within exec a s u := by
  induction h' with
  | refl => exact h
  | call _ hcb hexec ih => exact (ih h).call hcb hexec

namespace Contract

variable (C : Contract exec)

/-- **A run keeps the guarantee.** -/
theorem guarantee (h : Within exec a s t) : C.Rely a s → C.Guarantee s t := by
  induction h with
  | refl a s => exact fun _ => C.refl s
  | call _ _ hexec ih ihcb =>
    exact fun hs => C.trans (ih hs) (C.exec_ok (C.stable hs (ih hs)) ihcb hexec)

/-- **Whoever is given control in the course of a run finds what he relies on.** -/
theorem rely (h : Reaches exec a s b t) (hs : C.Rely a s) : C.Rely b t := by
  induction h with
  | refl => exact hs
  | run _ hrun ih => exact C.stable ih (C.guarantee hrun ih)
  | call _ hcall ih =>
    obtain ⟨cb, cb', hcb, -, hagree, hne⟩ := hcall
    by_contra hrely
    refine hne (C.exec_congr ih (fun a' u b u' h => C.guarantee (hcb a' u b u' h)) ?_)
    intro a' u hu
    exact hagree a' u fun ⟨ha, hu'⟩ => hrely (ha ▸ hu' ▸ hu)

end Contract

/-! ### Runs without some of the operations

An operation that is left out fails with a given error. So what holds of runs holds of those without
it, and a condition on operations need not be a part of every definition. -/

/-- The operations that are `allowed`, the others failing with `e`. -/
def restrict (allowed : A → ι → σ → Bool) (e : ε) (exec : A → ι → Callback A σ β ρ → σ → Except ε σ)
    (a : A) (i : ι) (cb : Callback A σ β ρ) (s : σ) : Except ε σ :=
  if allowed a i s then exec a i cb s else .error e

theorem restrict_eq_ok {allowed : A → ι → σ → Bool} {e : ε} {i : ι} {cb : Callback A σ β ρ} :
    restrict allowed e exec a i cb s = .ok t ↔ allowed a i s ∧ exec a i cb s = .ok t := by
  rw [restrict]
  split <;> simp [*]

theorem restrict_congr {allowed : A → ι → σ → Bool} {e : ε} {i : ι} {cb cb' : Callback A σ β ρ}
    (h : exec a i cb s = exec a i cb' s) :
    restrict allowed e exec a i cb s = restrict allowed e exec a i cb' s := by
  rw [restrict, restrict, h]

/-- When everything is allowed nothing is left out. -/
theorem restrict_true {e : ε} : restrict (fun _ _ _ => true) e exec = exec := by
  funext a i cb s
  exact if_pos rfl

/-- A run in which some operations are not allowed is a run. -/
theorem Within.of_restrict {allowed : A → ι → σ → Bool} {e : ε}
    (h : Within (restrict allowed e exec) a s t) : Within exec a s t := by
  induction h with
  | refl a s => exact .refl a s
  | call _ _ hexec ih ihcb => exact ih.call ihcb (restrict_eq_ok.mp hexec).2

/-! ### Scripts

Callbacks that follow a list of operations, to have runs in examples. -/

/-- A called party that runs a list of operations and answers with a `b`, those that it calls
being `cb`. -/
def scripted (exec : A → ι → Callback A σ β ρ → σ → Except ρ σ) (script : A → List ι) (b : β)
    (cb : Callback A σ β ρ) : Callback A σ β ρ :=
  fun a s => ((script a).foldlM (fun s i => exec a i cb s) s).map fun t => (b, t)

/-- Nobody who is called succeeds. -/
theorem legal_error {exec : A → ι → Callback A σ β ρ → σ → Except ε σ} (e : ρ) :
    Legal exec fun _ _ => .error e := nofun

theorem within_of_foldlM {cb : Callback A σ β ρ} (hcb : Legal exec cb) {is : List ι} :
    ∀ {s t : σ}, is.foldlM (fun s i => exec a i cb s) s = .ok t → Within exec a s t := by
  induction is with
  | nil =>
    intro s t h
    obtain rfl := Except.ok.inj h
    exact .refl a s
  | cons i is ih =>
    intro s t h
    rw [List.foldlM_cons] at h
    cases hexec : exec a i cb s with
    | error e =>
      rw [hexec] at h
      exact nomatch h
    | ok u =>
      rw [hexec] at h
      exact ((Within.refl a s).call hcb hexec).trans (ih h)

/-- A script is a run of the party that follows it. -/
theorem legal_scripted {exec : A → ι → Callback A σ β ρ → σ → Except ρ σ} {script : A → List ι}
    {b : β} {cb : Callback A σ β ρ} (hcb : Legal exec cb) :
    Legal exec (scripted exec script b cb) := by
  intro a u b' u' h
  rw [scripted] at h
  cases hrun : (script a).foldlM (fun s i => exec a i cb s) u with
  | error e =>
    rw [hrun] at h
    exact nomatch h
  | ok t =>
    rw [hrun] at h
    obtain ⟨-, rfl⟩ := Prod.mk.inj (Except.ok.inj h)
    exact within_of_foldlM hcb hrun

end Reentrant
