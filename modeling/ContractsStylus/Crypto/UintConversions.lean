import ContractsStylus.Crypto.UintLaws
import ContractsStylus.Library.Ladder
import ContractsStylus.Primitives

/-!
# Conversions of big integers

Big integers from and to bytes, from integers of other sizes and from literals, and their bits. A
conversion keeps the number or panics.

## Lengths

Bytes are taken as a list and their number is checked against the limbs, as in the source; what does
not fit is a panic and not cut off. Integers of primitive types need one limb, and those of 128 bits
two, unless the upper half is zero.

`leValue` and `ofBitsBe` read bytes and bits as numbers. They are folds that know nothing of limbs,
and the laws of all conversions are stated with them.

## Main definitions

* `Uint.fromLeSlice`, `Uint.intoBytesLe` — little endian bytes
* `Uint.fromUint` — integers of a different size
* `Uint.fromNum` — integers of literals
* `Uint.fromU64`, `Uint.fromU128` and the others — integers of primitive types
* `Uint.bitBeIter` — bits, the most significant first
* `leValue` — the number that little endian bytes stand for

## Main results

* `Uint.fromUint_eq` — a conversion between sizes fails when the number does not fit
* `Uint.toNat_fromLeSlice`, `Uint.leValue_intoBytesLe` — bytes
* `Uint.ofBitsBe_bitBeIter` — the bits are those of the number
-/

namespace ContractsStylus

/-- The number that little endian bytes stand for. -/
def leValue (bytes : Bytes) : ℕ := Nat.ofDigits 256 (bytes.map BitVec.toNat)

namespace Limb

/-- `u64::from_le_bytes`. -/
def fromLeBytes (bytes : Vector U8 8) : Limb := BitVec.ofNat 64 (leValue bytes.toList)

/-- `u64::to_le_bytes`. -/
def toLeBytes (limb : Limb) : Bytes := (List.range 8).map fun j => (limb >>> (8 * j)).setWidth 8

/-- `bit_be_iter`. -/
def bitBeIter (limb : Limb) : List Bool :=
  (List.range 64).reverse.map fun i => limb &&& 1#64 <<< i ≠ 0

/-- `bit_be_iter` of a slice of limbs. -/
def sliceBitBeIter (limbs : List Limb) : List Bool := limbs.reverse.flatMap Limb.bitBeIter

end Limb

/-- `bit_be_iter` of a primitive integer. -/
def primitiveBitBeIter {w : ℕ} (self : BitVec w) : List Bool :=
  (List.range w).reverse.map fun i => self &&& 1#w <<< i ≠ 0

namespace Uint

variable {N : ℕ}

/-- Create a new integer from the provided little endian bytes. Any other number of bytes than the
expected one panics. -/
def fromLeSlice (bytes : Bytes) : Option (Uint N) :=
  if h : bytes.length = 8 * N then
    some ⟨.ofFn fun i => Limb.fromLeBytes (.ofFn fun j =>
      have : i.val * 8 + j.val < bytes.length := by omega
      bytes[i.val * 8 + j.val])⟩
  else none

/-- `from_bytes_le`. -/
def fromBytesLe (bytes : Bytes) : Option (Uint N) := fromLeSlice bytes

def intoBytesLe (self : Uint N) : Bytes := self.limbs.toList.flatMap Limb.toLeBytes

/-- Construct an integer from one of a different size, which panics when it is too large. -/
def fromUint {M : ℕ} (value : Uint M) : Option (Uint N) :=
  M.fold (fun i _ res => res.bind fun res =>
    if h : i < N then some ⟨res.limbs.set i value.limbs[i]⟩
    else if value.limbs[i] ≠ 0 then none
    else some res) (some ZERO)

/-- `from_num!`, of the number that the literal denotes. -/
def fromNum (n : ℕ) : Uint N := ⟨.ofFn fun i => BitVec.ofNat 64 (n / (2 ^ 64) ^ i.val)⟩

/-- An integer of a type that a limb holds. -/
def fromPrimitive {w : ℕ} (hN : 0 < N) (val : BitVec w) : Uint N :=
  ⟨(ZERO : Uint N).limbs.set 0 (val.setWidth 64)⟩

def fromU8 (hN : 0 < N) (val : BitVec 8) : Uint N := fromPrimitive hN val

def fromU16 (hN : 0 < N) (val : BitVec 16) : Uint N := fromPrimitive hN val

def fromU32 (hN : 0 < N) (val : BitVec 32) : Uint N := fromPrimitive hN val

def fromU64 (hN : 0 < N) (val : BitVec 64) : Uint N := fromPrimitive hN val

/-- Create an integer from a `u128`, in two limbs when there are two. -/
def fromU128 (hN : 0 < N) (val : BitVec 128) : Result Empty (Uint N) :=
  let lo : Limb := val.setWidth 64
  let hi : Limb := (val >>> 64).setWidth 64
  if _h : N ≥ 2 then .ok ⟨((ZERO : Uint N).limbs.set 0 lo).set 1 hi⟩
  else if hi = 0 then .ok ⟨(ZERO : Uint N).limbs.set 0 lo⟩
  else .panic "u128 is too large to fit"

/-- `bit_be_iter`. -/
def bitBeIter (self : Uint N) : List Bool := self.limbs.toList.reverse.flatMap Limb.bitBeIter

end Uint

/-! ### Bytes and bits of a limb

The bits of a limb go from the highest to the lowest, as those of any integer; its bytes go the
other way. -/

theorem leValue_append (low high : Bytes) :
    leValue (low ++ high) = leValue low + 256 ^ low.length * leValue high := by
  rw [leValue, List.map_append, Nat.ofDigits_append, List.length_map]
  rfl

theorem leValue_lt (bytes : Bytes) : leValue bytes < 256 ^ bytes.length := by
  rw [← List.length_map BitVec.toNat]
  refine Nat.ofDigits_lt_base_pow_length (by norm_num) fun x hx => ?_
  obtain ⟨byte, -, rfl⟩ := List.mem_map.mp hx
  exact byte.isLt

/-- Bytes as digits of a positional number. -/
theorem leValue_eq (bytes : Bytes) :
    leValue bytes = positional 256 (fun i => (bytes.getD i 0).toNat) bytes.length := by
  rw [leValue, ofDigits_eq_positional, List.length_map]
  refine positional_congr fun i hi => ?_
  rw [List.getD_eq_getElem _ _ (by simpa using hi), List.getElem_map, List.getD_eq_getElem _ _ hi]

theorem primitiveBitBeIter_eq {w : ℕ} (n : BitVec w) :
    primitiveBitBeIter n = bitsBe w n.toNat := by
  refine List.map_congr_left fun i hi => ?_
  rw [List.mem_reverse, List.mem_range] at hi
  rw [Uint.and_mask_ne_zero n hi, BitVec.testBit_toNat]

/-- **The bits of a primitive integer.** -/
theorem ofBitsBe_primitiveBitBeIter {w : ℕ} (n : BitVec w) :
    ofBitsBe (primitiveBitBeIter n) = n.toNat := by
  rw [primitiveBitBeIter_eq, ofBitsBe_bitsBe, Nat.mod_eq_of_lt n.isLt]

namespace Limb

theorem toNat_fromLeBytes (bytes : Vector U8 8) :
    (fromLeBytes bytes).toNat = leValue bytes.toList := by
  have hlt := leValue_lt bytes.toList
  rw [Vector.length_toList] at hlt
  exact Nat.mod_eq_of_lt hlt

@[simp] theorem length_toLeBytes (limb : Limb) : limb.toLeBytes.length = 8 := by simp [toLeBytes]

theorem leValue_toLeBytes (limb : Limb) : leValue limb.toLeBytes = limb.toNat := by
  have hdigits : leValue limb.toLeBytes =
      positional 256 (fun i => limb.toNat / 256 ^ i % 256) 8 := by
    rw [leValue_eq, length_toLeBytes]
    refine positional_congr fun i hi => ?_
    rw [List.getD_eq_getElem _ _ (by simpa using hi)]
    simp only [toLeBytes, List.getElem_map, List.getElem_range, BitVec.toNat_setWidth,
      BitVec.toNat_ushiftRight, Nat.shiftRight_eq_div_pow, pow_mul]
    norm_num
  rw [hdigits, positional_div_pow]
  exact Nat.mod_eq_of_lt limb.isLt

/-- The bits of a limb. -/
theorem bitBeIter_eq (limb : Limb) : limb.bitBeIter = bitsBe 64 limb.toNat :=
  primitiveBitBeIter_eq limb

/-- **The bits of limbs** are those of their number. -/
theorem ofBitsBe_sliceBitBeIter (limbs : List Limb) :
    ofBitsBe (sliceBitBeIter limbs) = Nat.ofDigits (2 ^ 64) (limbs.map BitVec.toNat) := by
  rw [sliceBitBeIter]
  induction limbs with
  | nil => rfl
  | cons limb limbs ih =>
    rw [List.reverse_cons, List.flatMap_append, List.flatMap_singleton, ofBitsBe_append, ih,
      Limb.bitBeIter_eq, length_bitsBe, ofBitsBe_bitsBe, Nat.mod_eq_of_lt limb.isLt,
      List.map_cons, Nat.ofDigits_cons]
    ring

end Limb

namespace Uint

open Limbs

variable {N : ℕ}

/-! ### Bytes and bits of an integer

Bytes and limbs are both digits of the number, eight bytes to a limb. -/

/-- The limbs as a list of digits. -/
theorem toNat_eq_ofDigits (a : Uint N) :
    a.toNat = Nat.ofDigits (2 ^ 64) (a.limbs.toList.map BitVec.toNat) := by
  rw [ofDigits_eq_positional, List.length_map, Vector.length_toList, Uint.toNat]
  refine positional_congr fun i hi => ?_
  rw [digit_of_lt hi, List.getD_eq_getElem _ _ (by simpa using hi), List.getElem_map,
    Vector.getElem_toList]

/-- **From bytes.** The bytes are the digits of the number. -/
theorem toNat_fromLeSlice {bytes : Bytes} (h : bytes.length = 8 * N) :
    ∃ a : Uint N, fromLeSlice bytes = some a ∧ a.toNat = leValue bytes := by
  have hvalue := leValue_eq bytes
  rw [h, mul_comm 8, positional_blocks] at hvalue
  refine ⟨_, dif_pos h, ?_⟩
  rw [hvalue, Uint.toNat]
  refine positional_congr fun i hi => ?_
  rw [digit_of_lt hi, Vector.getElem_ofFn, Limb.toNat_fromLeBytes, leValue_eq,
    Vector.length_toList]
  refine positional_congr fun j hj => ?_
  have hlt : i * 8 + j < bytes.length := by omega
  rw [List.getD_eq_getElem _ _ (by simpa using hj), List.getD_eq_getElem _ _ hlt,
    Vector.getElem_toList, Vector.getElem_ofFn]

theorem exists_fromBytesLe {M : ℕ} (bytes : Vector U8 M) (h : M = 8 * N) :
    ∃ a : Uint N, fromBytesLe bytes.toList = some a ∧ a.toNat = leValue bytes.toList :=
  toNat_fromLeSlice (Vector.length_toList.trans h)

@[simp] theorem length_intoBytesLe (a : Uint N) : a.intoBytesLe.length = 8 * N := by
  simp [intoBytesLe, mul_comm]

/-- **To bytes.** -/
theorem leValue_intoBytesLe (a : Uint N) : leValue a.intoBytesLe = a.toNat := by
  rw [toNat_eq_ofDigits, intoBytesLe]
  induction a.limbs.toList with
  | nil => rfl
  | cons limb limbs ih =>
    rw [List.flatMap_cons, leValue_append, Limb.leValue_toLeBytes, Limb.length_toLeBytes, ih]
    rfl

/-- **The bits** are those of the number. -/
theorem ofBitsBe_bitBeIter (a : Uint N) : ofBitsBe a.bitBeIter = a.toNat := by
  rw [toNat_eq_ofDigits]
  exact Limb.ofBitsBe_sliceBitBeIter _

/-! ### Literals and other sizes

A literal is converted by the compiler and is any number here; integers of other sizes are converted
when they fit. -/

theorem toNat_fromNum {n : ℕ} (h : n < 2 ^ (64 * N)) : (fromNum n : Uint N).toNat = n := by
  have hdigits : (fromNum n : Uint N).toNat =
      positional (2 ^ 64) (fun i => n / (2 ^ 64) ^ i % 2 ^ 64) N := by
    refine positional_congr fun i hi => ?_
    rw [digit_of_lt hi, fromNum, Vector.getElem_ofFn, BitVec.toNat_ofNat]
  rw [hdigits, positional_div_pow, pow_base, Nat.mod_eq_of_lt h]

/-- A limb put above all others. -/
theorem toNat_set_high {a : Uint N} {i : ℕ} (hi : i < N) (ha : a.toNat < (2 ^ 64) ^ i)
    (limb : Limb) :
    (⟨a.limbs.set i limb⟩ : Uint N).toNat = a.toNat + limb.toNat * (2 ^ 64) ^ i := by
  have hzero : digit a.limbs i = 0 := by
    have hdiv := a.toNat_div_mod hi
    rw [pow_mul, Nat.div_eq_of_lt ha, Nat.zero_mod] at hdiv
    rw [digit_of_lt hi, ← hdiv]
  have hupdate := positional_update (b := 2 ^ 64) (d := digit a.limbs) (r := limb.toNat) hi
  rwa [hzero, zero_mul, add_zero, ← digit_set hi] at hupdate

theorem toNat_fromPrimitive {w : ℕ} (hN : 0 < N) (hw : w ≤ 64) (val : BitVec w) :
    (fromPrimitive hN val).toNat = val.toNat := by
  have hlt : val.toNat < 2 ^ 64 := val.isLt.trans_le (Nat.pow_le_pow_right two_pos hw)
  rw [fromPrimitive, toNat_set_high hN (by simp), toNat_ZERO, pow_zero, mul_one, zero_add,
    BitVec.toNat_setWidth, Nat.mod_eq_of_lt hlt]

/-- **From two limbs**: with one limb only, a number that needs two panics. -/
theorem fromU128_eq (hN : 0 < N) (val : BitVec 128) :
    (N = 1 ∧ 2 ^ 64 ≤ val.toNat → fromU128 hN val = .panic "u128 is too large to fit") ∧
      (¬(N = 1 ∧ 2 ^ 64 ≤ val.toNat) →
        ∃ x, fromU128 hN val = .ok x ∧ x.toNat = val.toNat) := by
  have hval := val.isLt
  have hlo : (val.setWidth 64).toNat = val.toNat % 2 ^ 64 := BitVec.toNat_setWidth ..
  have hhi : ((val >>> 64).setWidth 64).toNat = val.toNat / 2 ^ 64 := by
    rw [BitVec.toNat_setWidth, BitVec.toNat_ushiftRight, Nat.shiftRight_eq_div_pow]
    omega
  have hlow : (⟨(ZERO : Uint N).limbs.set 0 (val.setWidth 64)⟩ : Uint N).toNat =
      val.toNat % 2 ^ 64 := by
    rw [toNat_set_high hN (by simp), toNat_ZERO, hlo, pow_zero, mul_one, zero_add]
  rw [fromU128]
  by_cases htwo : N ≥ 2
  · rw [dif_pos htwo]
    refine ⟨fun h => absurd h.1 (by omega), fun _ => ⟨_, rfl, ?_⟩⟩
    have hpair := toNat_set_high (i := 1) htwo (by rw [hlow]; omega) ((val >>> 64).setWidth 64)
    rw [hpair, hlow, hhi]
    omega
  · have hzero : (val >>> 64).setWidth 64 = (0 : Limb) ↔ val.toNat < 2 ^ 64 := by
      rw [← BitVec.toNat_inj, hhi]
      exact Nat.div_eq_zero_iff_lt (by norm_num)
    rw [dif_neg htwo]
    refine ⟨fun h => if_neg (hzero.not.mpr (not_lt.mpr h.2)), fun h => ?_⟩
    have hlt : val.toNat < 2 ^ 64 := by
      by_contra hge
      exact h ⟨by omega, not_lt.mp hge⟩
    refine ⟨_, if_pos (hzero.mpr hlt), ?_⟩
    rw [hlow, Nat.mod_eq_of_lt hlt]

/-- A limb past the end is too large by itself. -/
theorem pow_le_high_limb {limb : Limb} {i : ℕ} (hN : N ≤ i) (hlimb : limb ≠ 0) :
    (2 ^ 64) ^ N ≤ limb.toNat * (2 ^ 64) ^ i := by
  have hpos : 0 < limb.toNat := BitVec.toNat_pos_of_ne_zero hlimb
  exact (Nat.pow_le_pow_right (by positivity) hN).trans (Nat.le_mul_of_pos_left _ hpos)

/-- **From another size**: the number is kept, and the conversion fails when it does not fit. -/
theorem fromUint_eq {M : ℕ} (value : Uint M) :
    (fromUint value : Option (Uint N)).map toNat =
      if value.toNat < 2 ^ (64 * N) then some value.toNat else none := by
  have hinv := fold_induction
    (fun i (res : Option (Uint N)) => res.map toNat =
      if positional (2 ^ 64) (digit value.limbs) i < (2 ^ 64) ^ N
        then some (positional (2 ^ 64) (digit value.limbs) i) else none)
    (n := M) (s := some ZERO) (f := fun i _ res => res.bind fun res =>
      if h : i < N then some ⟨res.limbs.set i value.limbs[i]⟩
      else if value.limbs[i] ≠ 0 then none
      else some res) ?_ ?_
  · rw [pow_base] at hinv
    exact hinv
  · rw [positional_zero, if_pos (by positivity), Option.map_some, toNat_ZERO]
  · intro i hi res hres
    have hlow : positional (2 ^ 64) (digit value.limbs) i < (2 ^ 64) ^ i :=
      positional_lt fun _ _ => digit_lt
    rw [positional_succ, digit_of_lt hi]
    generalize positional (2 ^ 64) (digit value.limbs) i = v at hres hlow ⊢
    by_cases hv : v < (2 ^ 64) ^ N
    · rw [if_pos hv] at hres
      obtain ⟨r, rfl, rfl⟩ := Option.map_eq_some_iff.mp hres
      rw [Option.bind_some]
      by_cases hN : i < N
      · have hfit := (⟨r.limbs.set i value.limbs[i]⟩ : Uint N).toNat_lt
        rw [← pow_base, toNat_set_high hN hlow] at hfit
        rw [dif_pos hN, Option.map_some, toNat_set_high hN hlow, if_pos hfit]
      · rw [dif_neg hN]
        by_cases hlimb : value.limbs[i] = 0
        · rw [if_neg (not_not.mpr hlimb), hlimb]
          simpa using hv
        · have hle := pow_le_high_limb (not_lt.mp hN) hlimb
          rw [if_pos hlimb, if_neg (by omega)]
          rfl
    · rw [if_neg hv] at hres
      rw [Option.map_eq_none_iff.mp hres, Option.bind_none, if_neg (by omega)]
      rfl

/-- More limbs fit every number of fewer. -/
theorem toNat_lt_of_le {M : ℕ} (h : M ≤ N) (a : Uint M) : a.toNat < 2 ^ (64 * N) :=
  a.toNat_lt.trans_le (Nat.pow_le_pow_right two_pos (Nat.mul_le_mul_left 64 h))

/-- A number that fits is converted. -/
theorem exists_fromUint {M : ℕ} {value : Uint M} (h : value.toNat < 2 ^ (64 * N)) :
    ∃ a : Uint N, fromUint value = some a ∧ a.toNat = value.toNat := by
  have hmap := fromUint_eq (N := N) value
  rw [if_pos h] at hmap
  exact Option.map_eq_some_iff.mp hmap

theorem isSome_fromUint {M : ℕ} {value : Uint M} (h : value.toNat < 2 ^ (64 * N)) :
    (fromUint value : Option (Uint N)).isSome = true := by
  obtain ⟨a, ha, -⟩ := exists_fromUint h
  rw [ha, Option.isSome_some]

theorem toNat_get_fromUint {M : ℕ} {value : Uint M} (h : value.toNat < 2 ^ (64 * N)) :
    ((fromUint value : Option (Uint N)).get (isSome_fromUint h)).toNat = value.toNat := by
  obtain ⟨a, ha, hvalue⟩ := exists_fromUint h
  simp only [ha, Option.get_some, hvalue]

end Uint

end ContractsStylus
