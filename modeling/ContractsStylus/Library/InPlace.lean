import Mathlib.Data.List.Basic

/-!
# Computations that write in place

A computation that changes its state as it goes leaves what it has written when it fails. Where
it runs in a transaction, a failure restores the state that the transaction started in; so all that
can be seen of such a computation is a function that gives the new state or fails. That function is
put together from those of the parts, and the rules for it are here.

A computation that goes on after one of its parts has failed does see what that part has written.
For these there are rules about the state that is left in any case: an invariant of the parts is one
of the whole, and a computation on a larger state does what the one on a part of it does when its
parts do.

## Two ways to read one computation

Where a failure is passed on, up to a transaction that undoes everything, what was written before
the failure is never seen. Then `result` is all that there is to know: it is a function from states
to states that may fail, it turns sequences into sequences and loops into folds, and whoever models
such code as a function of this kind from the beginning has lost nothing. The lemmas of "What can be
seen" justify that choice, and `transact_eq` is their point.

Where a failure is looked at, `result` is not enough, and `exec` says what is left in any case.

## Projections

A computation on a large state that does, on one part of it, what a computation on a small state
does can be reasoned about on the small one. `Projects` says that outcomes agree and that the part
of the state does, also after failures, and it is closed under everything that computations are put
together from.

## Main definitions

* `InPlace` — computations that write in place
* `InPlace.result` — the function that is seen from outside
* `InPlace.transact` — a computation run in a transaction
* `InPlace.attempt` — a computation whose failure is looked at
* `InPlace.Keeps` — what is true of the state stays true
* `InPlace.Projects` — a computation on a larger state

## Main results

* `InPlace.result_bind`, `InPlace.result_forM` — sequences and loops
* `InPlace.transact_eq` — a transaction does what the function says, or nothing
* `InPlace.Keeps.bind`, `InPlace.Projects.bind` — sequences, with what they leave when they fail
-/

/-- A computation with a state `σ` that is written in place, and that may fail with an `ε`. -/
abbrev InPlace (σ ε α : Type) := ExceptT ε (StateM σ) α

namespace InPlace

variable {σ σ' ε α β : Type}

/-- The outcome of a computation, and the state that it leaves, also when it fails. -/
def exec (m : InPlace σ ε α) (s : σ) : Except ε α × σ := m.run.run s

/-- The new state, of a computation that succeeds. -/
def result (m : InPlace σ ε Unit) (s : σ) : Except ε σ := (m.exec s).1.map fun _ => (m.exec s).2

/-- A computation in a transaction, which restores the state when the computation fails. -/
def transact (m : InPlace σ ε Unit) (s : σ) : Except ε Unit × σ :=
  match m.exec s with
  | (.ok u, s') => (.ok u, s')
  | (.error e, _) => (.error e, s)

/-- A computation that may fail, and leaves the state alone. -/
def ofExcept (x : Except ε α) : InPlace σ ε α := ExceptT.mk (pure x)

/-- A computation whose failure is looked at; what it has written stays. -/
def attempt (m : InPlace σ ε α) : InPlace σ ε (Except ε α) := ExceptT.mk (Except.ok <$> m.run)

/-! ### What is left in any case

`exec` is the whole truth about a computation. Attempts, reads and sequences have equations for it,
so it can be computed along the text. -/

@[simp] theorem exec_attempt (m : InPlace σ ε α) (s : σ) :
    m.attempt.exec s = (.ok (m.exec s).1, (m.exec s).2) := rfl

/-- What is read is the state as it is written so far. -/
@[simp] theorem exec_get_bind (k : σ → InPlace σ ε α) (s : σ) :
    (get >>= k).exec s = (k s).exec s := rfl

/-- **Sequences**: the second part starts in the state that the first one leaves. -/
theorem exec_bind (m : InPlace σ ε α) (k : α → InPlace σ ε β) (s : σ) :
    (m >>= k).exec s =
      match m.exec s with
      | (.ok a, s') => (k a).exec s'
      | (.error e, s') => (.error e, s') := by
  simp only [exec, ExceptT.run_bind, StateT.run_bind]
  rcases m.run.run s with ⟨e | a, s'⟩ <;> rfl

theorem exec_bind_of_ok {m : InPlace σ ε α} {k : α → InPlace σ ε β} {s s' : σ} {a : α}
    (h : m.exec s = (.ok a, s')) : (m >>= k).exec s = (k a).exec s' := by
  rw [exec_bind, h]

theorem ok_ne_error {m : InPlace σ ε α} {s s' t : σ} {a : α} {e : ε}
    (h : m.exec s = (.ok a, s')) : m.exec s ≠ (.error e, t) := by
  intro herror
  exact nomatch congrArg Prod.fst (h.symm.trans herror)

/-- A sequence that succeeds has parts that do. -/
theorem exec_bind_eq_ok {m : InPlace σ ε α} {k : α → InPlace σ ε β} {s s' : σ} {b : β}
    (h : (m >>= k).exec s = (.ok b, s')) :
    ∃ a t, m.exec s = (.ok a, t) ∧ (k a).exec t = (.ok b, s') := by
  rw [exec_bind] at h
  generalize m.exec s = left at h
  rcases left with ⟨e | a, t⟩
  · exact absurd (congrArg Prod.fst h) nofun
  · exact ⟨a, t, rfl, h⟩

/-- A sequence that fails has a part that does. -/
theorem exec_bind_eq_error {m : InPlace σ ε α} {k : α → InPlace σ ε β} {s : σ} {e : ε}
    (h : ((m >>= k).exec s).1 = .error e) :
    (m.exec s).1 = .error e ∨ ∃ a t, ((k a).exec t).1 = .error e := by
  rw [exec_bind] at h
  generalize m.exec s = left at h ⊢
  rcases left with ⟨e' | a, t⟩
  · exact .inl (by simpa using h)
  · exact .inr ⟨a, t, h⟩

/-! ### What can be seen

`result` forgets the state that a failure leaves. Sequences, branches and loops still have equations
for it, but attempts do not. -/

/-- What is read is the state as it is written so far. -/
@[simp] theorem result_get_bind (k : σ → InPlace σ ε Unit) (s : σ) :
    (get >>= k).result s = (k s).result s := rfl

@[simp] theorem result_ofExcept_bind (x : Except ε α) (k : α → InPlace σ ε Unit) (s : σ) :
    (ofExcept x >>= k).result s = x >>= fun a => (k a).result s := by
  cases x <;> rfl

theorem result_ite {c : Prop} [Decidable c] (m n : InPlace σ ε Unit) (s : σ) :
    (if c then m else n).result s = if c then m.result s else n.result s :=
  apply_ite (fun m : InPlace σ ε Unit => m.result s) c m n

/-- What is seen of a success is where it ends. -/
theorem result_eq_ok {m : InPlace σ ε Unit} {s s' : σ} :
    m.result s = .ok s' ↔ m.exec s = (.ok (), s') := by
  rw [result]
  rcases m.exec s with ⟨e | u, t⟩ <;> simp [Except.map]

/-- Sequences, as they are seen. -/
theorem result_bind (m : InPlace σ ε Unit) (k : Unit → InPlace σ ε Unit) (s : σ) :
    (m >>= k).result s = m.result s >>= (k ()).result := by
  rw [result, result, exec_bind]
  rcases m.exec s with ⟨e | u, s'⟩ <;> rfl

/-- **Loops** over a list. -/
theorem result_forM {ι : Type} (f : ι → InPlace σ ε Unit) (l : List ι) :
    ∀ s : σ, (forM l f).result s = l.foldlM (fun s i => (f i).result s) s := by
  induction l with
  | nil => exact fun _ => rfl
  | cons i l ih =>
    intro s
    rw [List.forM_cons, result_bind, List.foldlM_cons]
    exact congrArg _ (funext ih)

/-- **A transaction** does what the function says, or nothing. -/
theorem transact_eq (m : InPlace σ ε Unit) (s : σ) :
    (∀ s', m.result s = .ok s' → m.transact s = (.ok (), s')) ∧
    ∀ e, m.result s = .error e → m.transact s = (.error e, s) := by
  rw [result, transact]
  rcases m.exec s with ⟨e | u, s'⟩
  · constructor
    · rintro t ⟨⟩
    · rintro e' ⟨⟩
      rfl
  · constructor
    · rintro t ⟨⟩
      rfl
    · rintro e' ⟨⟩

/-! ### Invariants

What a computation keeps it keeps when it fails too, so an attempt keeps it as well. -/

/-- What is true of the state stays true, also when the computation fails. -/
def Keeps (Inv : σ → Prop) (m : InPlace σ ε α) : Prop := ∀ s, Inv s → Inv (m.exec s).2

namespace Keeps

variable {Inv : σ → Prop} {m : InPlace σ ε α} {k : α → InPlace σ ε β}

/-- A computation that only reads keeps everything. -/
theorem of_reads (h : ∀ s, (m.exec s).2 = s) : Keeps Inv m := fun s hs => (h s).symm ▸ hs

theorem attempt (hm : Keeps Inv m) : Keeps Inv m.attempt := hm

theorem bind (hm : Keeps Inv m) (hk : ∀ a, Keeps Inv (k a)) : Keeps Inv (m >>= k) := by
  intro s hs
  have hstate := hm s hs
  rw [exec_bind]
  generalize m.exec s = left at hstate ⊢
  rcases left with ⟨e | a, s'⟩
  · exact hstate
  · exact hk a s' hstate

end Keeps

/-! ### Larger states

For a computation that is run with a record beside its state, or as a part of a larger program. -/

/-- On the part `π` of its state, `m'` does what `m` does, with the same outcome. -/
def Projects (π : σ' → σ) (m' : InPlace σ' ε α) (m : InPlace σ ε α) : Prop :=
  ∀ s, Prod.map id π (m'.exec s) = m.exec (π s)

namespace Projects

variable {π : σ' → σ} {m' : InPlace σ' ε α} {m : InPlace σ ε α}
  {k' : α → InPlace σ' ε β} {k : α → InPlace σ ε β}

theorem refl_ofExcept (x : Except ε α) : Projects π (ofExcept x) (ofExcept x) := fun _ => rfl

theorem attempt (hm : Projects π m' m) : Projects π m'.attempt m.attempt := by
  intro s
  rw [exec_attempt, exec_attempt, ← hm s]
  rfl

theorem bind (hm : Projects π m' m) (hk : ∀ a, Projects π (k' a) (k a)) :
    Projects π (m' >>= k') (m >>= k) := by
  intro s
  rw [exec_bind, exec_bind, ← hm s]
  rcases m'.exec s with ⟨e | a, s'⟩
  · rfl
  · exact hk a s'

end Projects

end InPlace
