import ContractsStylus.Primitives

/-!
# BitMap

A set of words, packed into words of 256 bits each.

## Buckets

An index names a bucket by its upper bits and a bit of it by the lower eight. The two determine the
index, and that is the whole argument: an operation on one index changes another one only if both
have the same bucket and the same mask. Masks are brought to the form `BitVec.twoPow`, for which the
library has the bits of a conjunction and a disjunction.

## Main definitions

* `BitMap.get`, `BitMap.set`, `BitMap.unset`, `BitMap.setTo` — the operations

## Main results

* `BitMap.get_set`, `BitMap.get_unset` — setting or unsetting one bit leaves the others alone
-/

namespace ContractsStylus

/-- State of a bit map. -/
structure BitMap where
  data : StorageMap U256 U256

namespace BitMap

/-- The map in which no bit is set. -/
def empty : BitMap := ⟨fun _ => 0⟩

def HEX_FF : U256 := 0xff

/-- Mask of a value in its bucket. -/
def getMask (index : U256) : U256 := (1 : U256) <<< (index &&& HEX_FF)

/-- Bucket of an index. -/
def getBucket (index : U256) : U256 := index >>> 8

def get (self : BitMap) (index : U256) : Bool := self.data (getBucket index) &&& getMask index ≠ 0

def set (self : BitMap) (index : U256) : BitMap :=
  ⟨Function.update self.data (getBucket index) (self.data (getBucket index) ||| getMask index)⟩

def unset (self : BitMap) (index : U256) : BitMap :=
  ⟨Function.update self.data (getBucket index) (self.data (getBucket index) &&& ~~~getMask index)⟩

def setTo (self : BitMap) (index : U256) (value : Bool) : BitMap :=
  if value then self.set index else self.unset index

/-- The mask of an index has the one bit that is left of it outside its bucket. -/
theorem getMask_eq (index : U256) : getMask index = BitVec.twoPow 256 (index.toNat % 256) := by
  have hmod : (index &&& HEX_FF).toNat = index.toNat % 256 := by
    rw [BitVec.toNat_and]
    exact Nat.and_two_pow_sub_one_eq_mod index.toNat 8
  rw [getMask, BitVec.shiftLeft_eq', hmod]
  rfl

theorem get_eq (self : BitMap) (index : U256) :
    self.get index = (self.data (getBucket index)).getLsbD (index.toNat % 256) := by
  have hlt : index.toNat % 256 < 256 := Nat.mod_lt _ (by decide)
  rw [get, getMask_eq, BitVec.and_twoPow]
  split
  · rename_i h
    rw [h, decide_eq_true_iff, ne_eq, ← BitVec.toNat_inj, BitVec.toNat_twoPow_of_lt hlt]
    exact (Nat.two_pow_pos _).ne'
  · rename_i h
    rw [Bool.eq_false_iff.mpr h]
    simp

/-- An index is its bucket and its place in there. -/
theorem eq_of_getBucket {i j : U256} (hbucket : getBucket i = getBucket j)
    (hmod : i.toNat % 256 = j.toNat % 256) : i = j := by
  have hdiv := congrArg BitVec.toNat hbucket
  simp only [getBucket, BitVec.toNat_ushiftRight, Nat.shiftRight_eq_div_pow] at hdiv
  exact BitVec.eq_of_toNat_eq (by omega)

@[simp] theorem get_empty (index : U256) : empty.get index = false := by
  simp [get, empty]

/-- Within a bucket, the mask of an index has a bit at that index only. -/
theorem getLsbD_getMask {i j : U256} (hbucket : getBucket j = getBucket i) :
    (getMask i).getLsbD (j.toNat % 256) = decide (j = i) := by
  have hiff : i.toNat % 256 = j.toNat % 256 ↔ j = i :=
    ⟨fun hmod => eq_of_getBucket hbucket hmod.symm, fun h => by rw [h]⟩
  rw [getMask_eq, BitVec.getLsbD_twoPow, decide_eq_decide.mpr hiff,
    decide_eq_true (Nat.mod_lt i.toNat (by decide)), Bool.true_and]

/-- **Setting one bit leaves the others alone.** -/
theorem get_set (self : BitMap) (i j : U256) : (self.set i).get j = (self.get j || j = i) := by
  simp only [get_eq, set, Function.update_apply]
  split
  · rename_i hbucket
    rw [BitVec.getLsbD_or, getLsbD_getMask hbucket, hbucket]
  · rename_i hbucket
    have hne : j ≠ i := fun h => hbucket (congrArg getBucket h)
    simp [hne]

/-- **Unsetting one bit leaves the others alone.** -/
theorem get_unset (self : BitMap) (i j : U256) :
    (self.unset i).get j = (self.get j && j ≠ i) := by
  simp only [get_eq, unset, Function.update_apply]
  split
  · rename_i hbucket
    rw [BitVec.getLsbD_and, BitVec.getLsbD_not, getLsbD_getMask hbucket, hbucket,
      decide_eq_true (Nat.mod_lt j.toNat (by decide)), Bool.true_and, decide_not]
  · rename_i hbucket
    have hne : j ≠ i := fun h => hbucket (congrArg getBucket h)
    simp [hne]

end BitMap

end ContractsStylus
