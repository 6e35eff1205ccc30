import ContractsStylus.Library.Words
import Mathlib.Logic.Function.Basic

/-!
# Values, results and storage

What every contract of the repository is written in terms of: the fixed-width integers of
`alloy_primitives`, results that revert with an error of the contract or with a panic, and the
storage types of the SDK.

## Results

A contract function returns `Result<T, Error>` and may panic. Either way the call it runs in is
reverted, so a function that changes storage returns the new storage only when it succeeds:
a `Result ε σ` with `σ` the contract. Storage is passed explicitly and `self` is rebound.

## Integers

`+` and `-` of an `alloy_primitives::Uint` wrap, as those of a `BitVec` do. `checked_add`,
`checked_mul` and `checked_pow` answer `None` instead.

## Storage

A `StorageMap` reads as zero where nothing was written, and is a function here; a map of
maps is a function of two arguments.

The length of a `StorageVec` is kept in one storage word and counted in a `usize`, and a vector
whose length is the largest there is cannot grow. How large that is depends on the target, and what
is proved about vectors is proved for every `Capacity` that a word can hold.

## Failing

An error and a panic are kept apart. Whether a call fails with one or the other decides what a
caller can do about it, and some results are about that alone: `Result.NoErr` is for functions that
fail only by panicking, `Result.Returns` for functions that never panic. Both are closed under
sequencing and loops, so that a proof goes through the text of a function once.

A function that succeeds is taken apart by `bind_eq_ok` and the lemmas for the guards, from the
first statement to the last. This is the shape of most proofs about contracts: what has succeeded
is read off as a list of facts, and what the function computes is the last of them.
-/

namespace ContractsStylus

abbrev U8 := BitVec 8
abbrev U32 := BitVec 32
abbrev U64 := BitVec 64
abbrev U96 := BitVec 96
abbrev U128 := BitVec 128
abbrev U256 := BitVec 256
abbrev U512 := BitVec 512

/-- An account, `Address::ZERO` being `0`. -/
abbrev Address := BitVec 160

/-- Four bytes, the type of a function selector. -/
abbrev B32 := BitVec 32

/-- Thirty-two bytes: a role, a digest, a storage slot. -/
abbrev B256 := BitVec 256

abbrev Bytes := List U8

/-- The largest word, `Uint::MAX`. -/
abbrev MAX (w : ℕ) : BitVec w := BitVec.allOnes w

/-! ### Results

A result is an `Except`, so that `do` notation follows the text of a function: `?` is a bind, and
`expect` and `ok_or` are functions. The lemmas take a result that is `ok` apart, one for each thing
that a function can be made of. -/

/-- How a call is reverted. -/
inductive Revert (ε : Type)
  /-- The function returned `Err(e)`. -/
  | err (e : ε)
  /-- The function panicked. -/
  | panic (msg : String)
  deriving DecidableEq, Repr

/-- The result of a contract function with errors `ε`. -/
abbrev Result (ε α : Type) := Except (Revert ε) α

namespace Result

variable {ε ε' α β : Type}

/-- `Err(e)`. -/
def err (e : ε) : Result ε α := .error (.err e)

/-- `panic!(msg)`. -/
def panic (msg : String) : Result ε α := .error (.panic msg)

end Result

/-- An error of another contract, turned into one's own by `?`. -/
def Revert.map {ε ε' : Type} (f : ε → ε') : Revert ε → Revert ε'
  | .err e => .err (f e)
  | .panic msg => .panic msg

/-- `result.map_err(f)?`, with panics passing through. -/
def Result.mapErr {ε ε' α : Type} (f : ε → ε') (r : Result ε α) : Result ε' α :=
  r.mapError (Revert.map f)

/-- `option.expect(msg)`. -/
def expect {ε α : Type} (o : Option α) (msg : String) : Result ε α :=
  match o with
  | some a => .ok a
  | none => .panic msg

/-- `option.ok_or(e)?`. -/
def okOr {ε α : Type} (o : Option α) (e : ε) : Result ε α :=
  match o with
  | some a => .ok a
  | none => .err e

/-- `slice[i]`, which panics outside of the slice. -/
def index {ε α : Type} (l : List α) (i : ℕ) : Result ε α := expect l[i]? "index out of bounds"

section Inversion

variable {ε ε' α β : Type} {c : Prop} [Decidable c]

/-- A sequence succeeds when both of its parts do. -/
@[simp] theorem bind_eq_ok {x : Result ε α} {f : α → Result ε β} {b : β} :
    (x >>= f) = .ok b ↔ ∃ a, x = .ok a ∧ f a = .ok b := by
  cases x <;> simp [bind, Except.bind]

@[simp] theorem ok_bind {a : α} {f : α → Result ε β} : ((.ok a : Result ε α) >>= f) = f a := rfl

@[simp] theorem err_bind {e : ε} {f : α → Result ε β} : (Result.err e >>= f) = .err e := rfl

@[simp] theorem panic_bind {msg : String} {f : α → Result ε β} :
    (Result.panic msg >>= f) = .panic msg := rfl

@[simp] theorem pure_eq_ok {a b : α} : (pure a : Result ε α) = .ok b ↔ a = b := by
  simp [pure, Except.pure]

@[simp] theorem err_ne_ok {e : ε} {a : α} : (Result.err e : Result ε α) ≠ .ok a := nofun

@[simp] theorem panic_ne_ok {msg : String} {a : α} : (Result.panic msg : Result ε α) ≠ .ok a :=
  nofun

theorem ok_ne_panic {a : α} {msg : String} : (.ok a : Result ε α) ≠ Result.panic msg := nofun

theorem err_ne_panic {e : ε} {msg : String} : (Result.err e : Result ε α) ≠ Result.panic msg :=
  nofun

/-- A guarded function succeeds when the guard does not fire. -/
@[simp] theorem guard_eq_ok {e : ε} {x : Result ε α} {a : α} :
    (if c then Result.err e else x) = .ok a ↔ ¬c ∧ x = .ok a := by
  by_cases h : c <;> simp [h]

@[simp] theorem guard_not_eq_ok {e : ε} {x : Result ε α} {a : α} :
    (if c then x else Result.err e) = .ok a ↔ c ∧ x = .ok a := by
  by_cases h : c <;> simp [h]

@[simp] theorem mapErr_eq_ok {f : ε → ε'} {r : Result ε α} {a : α} :
    r.mapErr f = .ok a ↔ r = .ok a := by
  cases r <;> simp [Result.mapErr, Except.mapError]

/-- A sequence returns `Err` when its first part does, or its second one. -/
theorem bind_eq_err {x : Result ε α} {f : α → Result ε β} {e : ε} :
    (x >>= f) = Result.err e ↔ x = Result.err e ∨ ∃ a, x = .ok a ∧ f a = Result.err e := by
  rcases x with (_ | _) | a <;> simp [Result.err, bind, Except.bind]

/-- What is done with a result that is `Ok` does not fail. -/
theorem bind_pure_eq_err {x : Result ε α} {f : α → β} {e : ε} :
    (x >>= fun a => pure (f a)) = (Result.err e : Result ε β) ↔ x = Result.err e := by
  rcases x with (_ | _) | a <;> simp [Result.err, bind, Except.bind, pure, Except.pure]

theorem mapErr_eq_err {f : ε → ε'} {r : Result ε α} {e : ε'} :
    r.mapErr f = Result.err e ↔ ∃ e', r = Result.err e' ∧ f e' = e := by
  rcases r with (_ | _) | a <;> simp [Result.err, Result.mapErr, Except.mapError, Revert.map]

/-- Only the second half of a result is kept. -/
theorem snd_map_eq_ok {r : Result ε (α × β)} {b : β} :
    Prod.snd <$> r = .ok b ↔ ∃ a, r = .ok (a, b) := by
  rcases r with _ | ⟨a, b'⟩ <;> simp [Functor.map, Except.map]

@[simp] theorem expect_eq_ok {o : Option α} {msg : String} {a : α} :
    (expect o msg : Result ε α) = .ok a ↔ o = some a := by
  cases o <;> simp [expect]

@[simp] theorem okOr_eq_ok {o : Option α} {e : ε} {a : α} :
    okOr o e = .ok a ↔ o = some a := by
  cases o <;> simp [okOr]

/-- A loop over a list none of whose rounds fails. -/
theorem mapM_eq_ok {f : α → Result ε β} {g : α → β} {l : List α} (h : ∀ a ∈ l, f a = .ok (g a)) :
    l.mapM f = .ok (l.map g) := by
  induction l with
  | nil => rfl
  | cons a l ih =>
    rw [List.mapM_cons, h a (List.mem_cons_self ..), ih fun b hb => h b (List.mem_cons_of_mem _ hb)]
    rfl

/-- A loop with a state, none of whose rounds fails. -/
theorem foldlM_eq_ok {f : β → α → Result ε β} {g : β → α → β} {l : List α}
    (h : ∀ a ∈ l, ∀ b, f b a = .ok (g b a)) (b : β) : l.foldlM f b = .ok (l.foldl g b) := by
  induction l generalizing b with
  | nil => rfl
  | cons a l ih =>
    rw [List.foldlM_cons, h a (List.mem_cons_self ..), ok_bind, List.foldl_cons]
    exact ih (fun c hc => h c (List.mem_cons_of_mem _ hc)) (g b a)

@[simp] theorem index_eq_ok {l : List α} {i : ℕ} {a : α} :
    (index l i : Result ε α) = .ok a ↔ l[i]? = some a :=
  expect_eq_ok

end Inversion

section Except

variable {α β ε δ : Type}

theorem map_eq_ok {x : Except ε α} {f : α → β} {b : β} :
    x.map f = .ok b ↔ ∃ a, x = .ok a ∧ b = f a := by
  cases x <;> simp [Except.map, eq_comm]

theorem map_snd_eq_ok {x : Except ε (α × β)} {b : β} :
    x.map Prod.snd = .ok b ↔ ∃ a, x = .ok (a, b) := by
  rcases x with e | ⟨a, b'⟩ <;> simp [Except.map]

theorem mapError_eq_ok {x : Except ε α} {g : ε → δ} {a : α} :
    x.mapError g = .ok a ↔ x = .ok a := by
  cases x <;> simp [Except.mapError]

end Except

/-! ### Functions that fail only by a panic -/

/-- The function does not return `Err`. -/
def Result.NoErr {ε α : Type} (x : Result ε α) : Prop := ∀ e, x ≠ Result.err e

namespace Result.NoErr

variable {ε α β : Type}

theorem of_ok (a : α) : NoErr (.ok a : Result ε α) := nofun

theorem expect (o : Option α) (msg : String) : NoErr (expect o msg : Result ε α) := by
  cases o <;> exact nofun

theorem bind {x : Result ε α} {f : α → Result ε β} (hx : NoErr x) (hf : ∀ a, NoErr (f a)) :
    NoErr (x >>= f) := by
  cases x with
  | ok a => exact hf a
  | error r =>
    rintro e ⟨⟩
    exact hx e rfl

theorem foldlM {f : β → α → Result ε β} (hf : ∀ b a, NoErr (f b a)) (l : List α) :
    ∀ b, NoErr (l.foldlM f b) := by
  induction l with
  | nil => exact of_ok
  | cons a l ih => exact fun b => bind (hf b a) ih

/-- What does not return `Err` returns something or panics. -/
theorem ok_or_panic {x : Result ε α} (hx : NoErr x) : (∃ a, x = .ok a) ∨ ∃ msg, x = .panic msg := by
  match x with
  | .ok a => exact Or.inl ⟨a, rfl⟩
  | .error (.err e) => exact absurd rfl (hx e)
  | .error (.panic msg) => exact Or.inr ⟨msg, rfl⟩

end Result.NoErr

/-! ### Functions that do not panic

What such a function returns is described by a predicate, which a loop may use as its invariant. -/

/-- The function returns something with `Q`, or `Err`. -/
def Result.Returns {ε α : Type} (Q : α → Prop) (x : Result ε α) : Prop :=
  (∃ a, x = .ok a ∧ Q a) ∨ ∃ e, x = Result.err e

namespace Result.Returns

variable {ε α β : Type} {Q : α → Prop}

theorem okOr {o : Option α} {e : ε} (h : ∀ a, o = some a → Q a) : Returns Q (okOr o e) := by
  cases o with
  | none => exact Or.inr ⟨e, rfl⟩
  | some a => exact Or.inl ⟨a, rfl, h a rfl⟩

theorem bind {Q' : β → Prop} {x : Result ε α} {f : α → Result ε β} (hx : Returns Q x)
    (hf : ∀ a, Q a → Returns Q' (f a)) : Returns Q' (x >>= f) := by
  rcases hx with ⟨a, rfl, ha⟩ | ⟨e, rfl⟩
  · exact hf a ha
  · exact Or.inr ⟨e, rfl⟩

/-- A loop keeps what holds of the part of the list that it has passed. -/
theorem foldlM {f : β → α → Result ε β} {Inv : List α → β → Prop} {b : β} (h0 : Inv [] b)
    (hf : ∀ done a b, Inv done b → Returns (Inv (done ++ [a])) (f b a)) (l : List α) :
    Returns (Inv l) (l.foldlM f b) := by
  suffices h : ∀ rest done b, Inv done b → Returns (Inv (done ++ rest)) (rest.foldlM f b) from
    h l [] b h0
  intro rest
  induction rest with
  | nil =>
    intro done b hb
    rw [List.append_nil]
    exact Or.inl ⟨b, rfl, hb⟩
  | cons a rest ih =>
    intro done b hb
    rw [List.foldlM_cons, List.append_cons]
    exact bind (hf done a b hb) fun b' => ih (done ++ [a]) b'

end Result.Returns

/-- How a call of another contract fails. -/
inductive CallError
  /-- The callee reverted, with this data. -/
  | Revert (data : Bytes)
  /-- The callee's answer could not be decoded. -/
  | AbiDecodingFailed
  deriving DecidableEq, Repr

/-! ### Checked arithmetic

Each operation is `some` exactly when the result as a number fits, and the number is then that
result. -/

section Checked

variable {w : ℕ}

/-- `Uint::checked_add`. -/
def checkedAdd (x y : BitVec w) : Option (BitVec w) :=
  if x.toNat + y.toNat < 2 ^ w then some (x + y) else none

/-- `Uint::checked_sub`. -/
def checkedSub (x y : BitVec w) : Option (BitVec w) := if y ≤ x then some (x - y) else none

/-- `Uint::checked_mul`. -/
def checkedMul (x y : BitVec w) : Option (BitVec w) :=
  if x.toNat * y.toNat < 2 ^ w then some (x * y) else none

/-- `Uint::checked_div`. -/
def checkedDiv (x y : BitVec w) : Option (BitVec w) :=
  if y = 0 then none else some (x / y)

/-- `Uint::checked_pow`. -/
def checkedPow (x : BitVec w) (e : ℕ) : Option (BitVec w) :=
  if x.toNat ^ e < 2 ^ w then some (BitVec.ofNat w (x.toNat ^ e)) else none

/-- A checked sum is exact. -/
theorem checkedAdd_eq_some {x y z : BitVec w} :
    checkedAdd x y = some z ↔ z.toNat = x.toNat + y.toNat := by
  rw [checkedAdd]
  split
  · rename_i h
    rw [Option.some_inj, ← BitVec.toNat_inj, BitVec.toNat_add_of_lt h]
    exact eq_comm
  · rename_i h
    have := z.isLt
    simp only [reduceCtorEq, false_iff]
    omega

theorem checkedSub_eq_some {x y z : BitVec w} :
    checkedSub x y = some z ↔ z.toNat + y.toNat = x.toNat := by
  rw [checkedSub]
  split
  · rename_i h
    have hcancel := BitVec.toNat_sub_add_cancel (BitVec.le_def.mp h)
    rw [Option.some_inj, ← BitVec.toNat_inj]
    omega
  · rename_i h
    rw [BitVec.le_def] at h
    simp only [reduceCtorEq, false_iff]
    omega

theorem checkedMul_eq_some {x y z : BitVec w} :
    checkedMul x y = some z ↔ z.toNat = x.toNat * y.toNat := by
  rw [checkedMul]
  split
  · rename_i h
    rw [Option.some_inj, ← BitVec.toNat_inj, BitVec.toNat_mul, Nat.mod_eq_of_lt h]
    exact eq_comm
  · rename_i h
    have := z.isLt
    simp only [reduceCtorEq, false_iff]
    omega

theorem checkedPow_eq_some {x z : BitVec w} {e : ℕ} :
    checkedPow x e = some z ↔ z.toNat = x.toNat ^ e := by
  rw [checkedPow]
  split
  · rename_i h
    rw [Option.some_inj, ← BitVec.toNat_inj, BitVec.toNat_ofNat, Nat.mod_eq_of_lt h]
    exact eq_comm
  · rename_i h
    have := z.isLt
    simp only [reduceCtorEq, false_iff]
    omega

/-- `x.add_assign_checked(rhs, msg)`, as the new value of `x`. -/
def addAssignChecked {ε : Type} (x rhs : BitVec w) (msg : String) : Result ε (BitVec w) :=
  expect (checkedAdd x rhs) msg

theorem addAssignChecked_eq_ok {ε : Type} {x rhs y : BitVec w} {msg : String} :
    (addAssignChecked x rhs msg : Result ε _) = .ok y ↔ y.toNat = x.toNat + rhs.toNat := by
  rw [addAssignChecked, expect_eq_ok, checkedAdd_eq_some]

end Checked

/-! ### Storage

Writing an entry of a map is `Function.update`. -/

/-- A mapping in storage; what was never written reads as the zero of its type. -/
abbrev StorageMap (κ α : Type) := κ → α

/-- An entry of a map of maps after another one was written. -/
theorem update_update_apply {κ ι α : Type} [DecidableEq κ] [DecidableEq ι]
    (m : StorageMap κ (StorageMap ι α)) (k x : κ) (i y : ι) (a : α) :
    Function.update m k (Function.update (m k) i a) x y = if x = k ∧ y = i then a else m x y := by
  rcases eq_or_ne x k with rfl | hx
  · simp [Function.update_apply]
  · simp [hx]

/-- How long a vector can get: its length is a number of `bits` bits. -/
structure Capacity where
  bits : ℕ
  /-- The length is stored in one word. -/
  bits_le : bits ≤ 256

namespace Capacity

/-- Lengths are counted in a `usize` of the target that contracts are compiled for. -/
def wasm32 : Capacity := ⟨32, by decide⟩

/-- Lengths are counted in a whole word. -/
def word : Capacity := ⟨256, le_rfl⟩

end Capacity

/-- A growable array in storage. -/
structure StorageVec (C : Capacity) (α : Type) where
  /-- The elements, first to last. -/
  toList : List α
  /-- The length can be counted. -/
  fits : toList.length < 2 ^ C.bits

namespace StorageVec

variable {C : Capacity} {α ε : Type}

/-- The length fits its word. -/
theorem length_lt (v : StorageVec C α) : v.toList.length < 2 ^ 256 :=
  v.fits.trans_le (Nat.pow_le_pow_right Nat.two_pos C.bits_le)

theorem length_nil_lt : ([] : List α).length < 2 ^ C.bits := Nat.two_pow_pos C.bits

/-- The vector nothing was pushed to. -/
def empty : StorageVec C α := ⟨[], length_nil_lt⟩

/-- `U256::from(vec.len())`. -/
def len (v : StorageVec C α) : U256 := BitVec.ofNat 256 v.toList.length

/-- `vec.get(index)`. -/
def get (v : StorageVec C α) (index : U256) : Option α := v.toList[index.toNat]?

/-- `vec.push(value)`; the length overflows when the vector is full. -/
def push (v : StorageVec C α) (value : α) : Result ε (StorageVec C α) :=
  if h : v.toList.length + 1 < 2 ^ C.bits then
    .ok ⟨v.toList ++ [value], by simpa using h⟩
  else .panic "length overflow in `StorageVec`"

/-- `vec.setter(index)`, if there is such a slot, with `set(value)`. -/
def set (v : StorageVec C α) (index : U256) (value : α) : Option (StorageVec C α) :=
  if index.toNat < v.toList.length then
    some ⟨v.toList.set index.toNat value, by simpa using v.fits⟩
  else none

/-- `vec.pop()`. -/
def pop (v : StorageVec C α) : StorageVec C α :=
  ⟨v.toList.dropLast, by have := v.fits; simp; omega⟩

@[simp] theorem len_toNat (v : StorageVec C α) : v.len.toNat = v.toList.length := by
  rw [len, BitVec.toNat_ofNat, Nat.mod_eq_of_lt v.length_lt]

theorem set_eq_some {v v' : StorageVec C α} {index : U256} {value : α}
    (h : v.set index value = some v') :
    index.toNat < v.toList.length ∧ v'.toList = v.toList.set index.toNat value := by
  rw [set] at h
  split at h
  · cases h; exact ⟨‹_›, rfl⟩
  · exact absurd h nofun

theorem exists_set {v : StorageVec C α} {index : U256} (h : index.toNat < v.toList.length)
    (value : α) : ∃ v', v.set index value = some v' := by
  rw [set, if_pos h]
  exact ⟨_, rfl⟩

theorem push_eq_ok {v v' : StorageVec C α} {value : α}
    (h : (v.push value : Result ε _) = .ok v') : v'.toList = v.toList ++ [value] := by
  rw [push] at h
  split at h
  · cases h; rfl
  · exact absurd h panic_ne_ok

/-- A push succeeds exactly where the vector is not full. -/
theorem exists_push_iff {v : StorageVec C α} {value : α} :
    (∃ v', (v.push value : Result ε _) = .ok v') ↔ v.toList.length + 1 < 2 ^ C.bits := by
  constructor
  · rintro ⟨v', h⟩
    have hfits := v'.fits
    rwa [push_eq_ok h, List.length_append, List.length_singleton] at hfits
  · intro h
    rw [push, dif_pos h]
    exact ⟨_, rfl⟩

theorem push_of_full {v : StorageVec C α} (h : ¬v.toList.length + 1 < 2 ^ C.bits) (value : α) :
    (v.push value : Result ε _) = .panic "length overflow in `StorageVec`" := by
  rw [push, dif_neg h]

end StorageVec

end ContractsStylus
