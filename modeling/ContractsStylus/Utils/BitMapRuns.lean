import ContractsStylus.Library.LastWrite
import ContractsStylus.Utils.BitMap
import Mathlib.Data.Set.Insert

/-!
# Runs of a bit map

A bit map is a table of booleans at all words, packed so that 256 of them share one word of
storage. None of the packing can be seen from outside: each operation writes the one boolean that
it names, also when other indices share its bucket or its place in another bucket.

## Last writes

Whatever sequence of operations has been run, a bit is what the last operation that named it wrote,
or what it was before if there is none. That is a general fact about tables that are written one
entry at a time, and all that is proved of a bit map is that each of its operations is such a write.
The set that a bit map stands for then follows the operations on sets.

## Main definitions

* `BitMap.Op`, `BitMap.exec`, `BitMap.run` — sequences of operations
* `BitMap.members` — the set a bit map stands for
* `BitMap.Op.onSet` — what an operation is meant to do to a set

## Main results

* `BitMap.writes_exec` — an operation writes the one bit that it names
* `BitMap.get_run` — what is read after any run, and the set it comes from
-/

namespace ContractsStylus

namespace BitMap

/-- A call that changes a bit map. -/
inductive Op
  | set (index : U256)
  | unset (index : U256)
  | setTo (index : U256) (value : Bool)
  deriving DecidableEq, Repr

/-- The index that an operation names. -/
def Op.index : Op → U256
  | set index => index
  | unset index => index
  | setTo index _ => index

/-- Whether an operation sets its index. -/
def Op.value : Op → Bool
  | set _ => true
  | unset _ => false
  | setTo _ value => value

/-- One operation. -/
def exec (self : BitMap) : Op → BitMap
  | .set index => self.set index
  | .unset index => self.unset index
  | .setTo index value => self.setTo index value

/-- A sequence of operations. -/
def run (self : BitMap) (ops : List Op) : BitMap := ops.foldl exec self

/-- The set a bit map stands for. -/
def members (self : BitMap) : Set U256 := {i | self.get i = true}

/-- What an operation is meant to do to a set. -/
def Op.onSet (S : Set U256) (op : Op) : Set U256 :=
  if op.value then insert op.index S else S \ {op.index}

/-! ### One operation -/

theorem get_setTo (self : BitMap) (i j : U256) (value : Bool) :
    (self.setTo i value).get j = if j = i then value else self.get j := by
  by_cases hj : j = i <;> cases value <;> simp [setTo, get_set, get_unset, hj]

/-- Setting and unsetting are special cases of `setTo`. -/
theorem exec_eq_setTo (self : BitMap) (op : Op) : self.exec op = self.setTo op.index op.value := by
  cases op with
  | set index => rfl
  | unset index => rfl
  | setTo index value => rfl

/-- **An operation writes the one bit that it names.** -/
theorem writes_exec : LastWrite.Writes exec get Op.index Op.value := by
  intro self op
  funext j
  rw [exec_eq_setTo, get_setTo, Function.update_apply]

theorem members_exec (self : BitMap) (op : Op) :
    (self.exec op).members = op.onSet self.members := by
  ext j
  change (self.exec op).get j = true ↔ _
  rw [exec_eq_setTo, get_setTo, Op.onSet]
  by_cases hj : j = op.index <;> cases op.value <;> simp [hj, members]

/-! ### Runs -/

/-- The set after a run is what the operations make of the set before it. -/
theorem members_run (ops : List Op) :
    ∀ self : BitMap, (self.run ops).members = ops.foldl Op.onSet self.members := by
  induction ops with
  | nil => exact fun _ => rfl
  | cons op ops ih =>
    intro self
    rw [List.foldl_cons, ← members_exec]
    exact ih (self.exec op)

/-- The last operation on an index decides, or the bit is as it was. -/
theorem get_run_eq_true (self : BitMap) (ops : List Op) (i : U256) :
    (self.run ops).get i = true ↔
      (∃ before op after, ops = before ++ op :: after ∧ op.index = i ∧ op.value = true ∧
        ∀ later ∈ after, later.index ≠ i) ∨
      (self.get i = true ∧ ∀ op ∈ ops, op.index ≠ i) := by
  rw [run, writes_exec.read_foldl, ← LastWrite.lastWrite_eq_some, ← LastWrite.lastWrite_eq_none]
  cases LastWrite.lastWrite Op.index Op.value i ops with
  | none => simp
  | some value => simp

/-- **A bit map refines a set of words.** After any sequence of operations on an empty map, an
index is in the map exactly when the last operation on it set it; from any other map on, an index
that no operation names is in the map when it was before. In all of this the map does what the
operations do to the set it stands for, and an operation changes no answer but that for its own
index. -/
theorem get_run (ops : List Op) :
    (∀ i, (empty.run ops).get i = true ↔
      ∃ before op after, ops = before ++ op :: after ∧ op.index = i ∧ op.value = true ∧
        ∀ later ∈ after, later.index ≠ i) ∧
    ∀ self : BitMap,
      (∀ i, (self.run ops).get i = true ↔
        (∃ before op after, ops = before ++ op :: after ∧ op.index = i ∧ op.value = true ∧
          ∀ later ∈ after, later.index ≠ i) ∨
        (self.get i = true ∧ ∀ op ∈ ops, op.index ≠ i)) ∧
      (self.run ops).members = ops.foldl Op.onSet self.members ∧
      ∀ op j, j ≠ op.index → (self.exec op).get j = self.get j := by
  refine ⟨fun i => ?_, fun self => ⟨get_run_eq_true self ops, members_run ops self, ?_⟩⟩
  · rw [get_run_eq_true, get_empty]
    simp
  · intro op j hj
    exact writes_exec.read_of_ne hj self

end BitMap

end ContractsStylus
