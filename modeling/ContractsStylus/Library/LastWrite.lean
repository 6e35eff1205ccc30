import Mathlib.Logic.Function.Basic
import Mathlib.Data.List.Basic

/-!
# The last write wins

A table to which a list of writes is applied, one after another. What an entry holds afterwards
is what the last write to it wrote, or what it held before when there was none. How the table is
stored does not matter: all that is asked of a store is that each of its operations writes one
entry of the table that it is read as.

## A specification by position

One could define the table after a list of writes by the list of its updates, and then prove that
reading and updating commute. The statement of interest would still be missing: which write is it
that one reads? `lastWrite` is that write, as a fold over the list, and `lastWrite_eq_some` says
what the fold means: there is a place in the list at which the entry is written, and no write to the
entry comes after it.

`Writes` is the only thing that a store has to prove, and it is a statement about one operation. A
store that packs many entries into one cell has its difficulties there, and none later.

## Main definitions

* `LastWrite.lastWrite` — the last write to an entry
* `LastWrite.Writes` — a store each of whose operations writes one entry

## Main results

* `LastWrite.lastWrite_eq_some` — the last write, as a place in the list
* `LastWrite.Writes.read_foldl` — what is read after a list of operations
-/

namespace LastWrite

variable {σ ι κ α : Type*} [DecidableEq κ] {key : ι → κ} {value : ι → α}

/-- What the last of the writes to `k` writes. -/
def lastWrite (key : ι → κ) (value : ι → α) (k : κ) : List ι → Option α
  | [] => none
  | i :: is => (lastWrite key value k is).or (if key i = k then some (value i) else none)

/-- There is no last write exactly when there is no write. -/
theorem lastWrite_eq_none {k : κ} {is : List ι} :
    lastWrite key value k is = none ↔ ∀ i ∈ is, key i ≠ k := by
  induction is with
  | nil => simp [lastWrite]
  | cons i is ih =>
    rw [lastWrite, Option.or_eq_none_iff, ih, List.forall_mem_cons, and_comm]
    simp

/-- **The last write is one after which there is none.** -/
theorem lastWrite_eq_some {k : κ} {a : α} {is : List ι} :
    lastWrite key value k is = some a ↔
      ∃ before i after, is = before ++ i :: after ∧ key i = k ∧ value i = a ∧
        ∀ j ∈ after, key j ≠ k := by
  induction is with
  | nil => simp [lastWrite]
  | cons i is ih =>
    rw [lastWrite, Option.or_eq_some_iff, ih, lastWrite_eq_none]
    constructor
    · rintro (⟨before, j, after, rfl, h⟩ | ⟨hnone, hi⟩)
      · exact ⟨i :: before, j, after, rfl, h⟩
      · obtain ⟨hkey, rfl⟩ := by simpa using hi
        exact ⟨[], i, is, rfl, hkey, rfl, hnone⟩
    · rintro ⟨_ | ⟨i', before⟩, j, after, heq, hkey, hvalue, hafter⟩
      · obtain ⟨rfl, rfl⟩ := List.cons.inj heq
        exact Or.inr ⟨hafter, by rw [if_pos hkey, hvalue]⟩
      · obtain ⟨rfl, rfl⟩ := List.cons.inj heq
        exact Or.inl ⟨before, j, after, rfl, hkey, hvalue, hafter⟩

/-- Each operation `i` of a store that is read as a table writes `value i` to the entry `key i`. -/
def Writes (exec : σ → ι → σ) (read : σ → κ → α) (key : ι → κ) (value : ι → α) : Prop :=
  ∀ s i, read (exec s i) = Function.update (read s) (key i) (value i)

namespace Writes

variable {exec : σ → ι → σ} {read : σ → κ → α}

/-- The other entries are as they were. -/
theorem read_of_ne (h : Writes exec read key value) {i : ι} {k : κ} (hne : k ≠ key i) (s : σ) :
    read (exec s i) k = read s k := by
  rw [h, Function.update_of_ne hne]

/-- **The last write wins.** -/
theorem read_foldl (h : Writes exec read key value) (k : κ) (is : List ι) :
    ∀ s, read (is.foldl exec s) k = (lastWrite key value k is).getD (read s k) := by
  induction is with
  | nil => exact fun _ => rfl
  | cons i is ih =>
    intro s
    rw [List.foldl_cons, ih, lastWrite, h, Function.update_apply]
    cases lastWrite key value k is with
    | some a => rfl
    | none => by_cases hk : k = key i <;> simp [hk, eq_comm (a := key i)]

end Writes

end LastWrite
