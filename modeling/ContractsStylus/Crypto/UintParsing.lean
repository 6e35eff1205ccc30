import ContractsStylus.Crypto.UintConversions
import Mathlib.Data.List.Forall2
import Mathlib.Data.Nat.Digits.Lemmas

/-!
# Parsing big integers

Strings of digits, the highest first, as big integers. `from_str_radix` multiplies each digit by its
order and adds it up, with every overflow a panic; `from_str_hex` writes the digits into the limbs,
four bits each. Both start at the end of the string, so a loop over the string is one over its
bytes in reverse.

What a parser accepts is said in terms of the digits: the string is not empty, all of its bytes are
digits, and the order of the highest one fits. That order is the only thing that can be too large
when the number is not, and only when the string starts with zeroes. For sixteen it fits exactly
when there are no more digits than the limbs have room for, so the two parsers agree.

## Panics

Both parsers are `const` in the source, so they fail by panicking, which stops the compiler or the
program. The order of the tests is kept, since it decides which panic there is.

The radix of digits is a machine integer, and so it is turned into limbs, which takes one limb. That
there is one is asserted by the source where it does so.

## Main definitions

* `Uint.mul`, `Uint.add` — arithmetic that panics on overflow
* `Uint.fromStrRadix`, `Uint.fromStrHex` — the parsers
* `Uint.upperHex` — the hexadecimal digits of an integer
* `Uint.IsDigits` — the digits that a string is made of

## Main results

* `Uint.fromStrRadix_eq_ok`, `Uint.fromStrHex_eq_ok` — what the parsers accept, and as what
* `Uint.parsers_agree` — hexadecimal, radix sixteen, and back
-/

namespace ContractsStylus

/-- Parse a single UTF-8 byte into a char. -/
def parseUtf8Byte (byte : U8) : Result Empty Char :=
  if byte.toNat ≤ 0x7F then .ok (Char.ofNat byte.toNat) else .panic "non-ASCII character found"

/-- What an ASCII digit or letter stands for, in a radix that is large enough. -/
def asciiDigit (ch : Char) : Option ℕ :=
  if ch.isDigit then some (ch.toNat - '0'.toNat)
  else if ch.isLower then some (ch.toNat - 'a'.toNat + 10)
  else if ch.isUpper then some (ch.toNat - 'A'.toNat + 10)
  else none

/-- `char::to_digit`. -/
def toDigit (ch : Char) (radix : BitVec 32) : Result Empty (Option (BitVec 32)) :=
  if 2 ≤ radix.toNat ∧ radix.toNat ≤ 36 then
    .ok (((asciiDigit ch).filter (· < radix.toNat)).map (BitVec.ofNat 32))
  else .panic "to_digit: invalid radix -- radix must be in the range 2 to 36 inclusive"

/-- Try to parse a digit from utf-8 byte. -/
def parseDigit (utf8Digit : U8) (digitRadix : BitVec 32) : Result Empty (BitVec 32) := do
  let ch ← parseUtf8Byte utf8Digit
  match ← toDigit ch digitRadix with
  | none => .panic "invalid digit"
  | some digit => .ok digit

namespace Uint

variable {N : ℕ}

/-- Multiply two numbers and panic on overflow. -/
def mul (self rhs : Uint N) : Result Empty (Uint N) :=
  let (low, high) := self.wideningMul rhs
  if high.eq ZERO then .ok low else .panic "overflow on multiplication"

/-- Add two numbers and panic on overflow. -/
def add (self rhs : Uint N) : Result Empty (Uint N) :=
  let (low, carry) := self.adc rhs false
  if carry then .panic "overflow on addition" else .ok low

/-- Add a digit multiplied by order. -/
def addDigit (hN : 0 < N) (radix : BitVec 32) (byte : U8) (uint order : Uint N) :
    Result Empty (Uint N) := do
  let digit ← parseDigit byte radix
  let product ← (fromU32 hN digit).mul order
  uint.add product

/-- The loop of `from_str_radix`, from the end of the string to its beginning. -/
def radixLoop (hN : 0 < N) (radix : BitVec 32) : Bytes → Uint N → Uint N → Result Empty (Uint N)
  | [], uint, _ => .ok uint
  | byte :: rest, uint, order => do
    let uint ← addDigit hN radix byte uint order
    if rest.isEmpty then .ok uint
    else do
      -- increase the order of magnitude
      let order ← (fromU32 hN radix).mul order
      radixLoop hN radix rest uint order

/-- Parse a number from a string in a given radix. -/
def fromStrRadix (s : Bytes) (radix : BitVec 32) : Result Empty (Uint N) :=
  if s.isEmpty then .panic "empty string"
  else if hN : 0 < N then radixLoop hN radix s.reverse (fromU32 hN 0) (fromU32 hN 1)
  else .panic "number of limbs must be greater than zero"

/-- Copy the four bits of a digit. -/
def writeDigit (num : Limbs N) (numIndex : ℕ) (h : numIndex / 16 < N) (digit : BitVec 32) :
    Limbs N :=
  num.set (numIndex / 16)
    (num[numIndex / 16] ||| digit.setWidth 64 <<< (numIndex % 16 * 4))

/-- The loop of `from_str_hex`, from the end of the string to its beginning. The index is a `u32` in
the source; it counts no further than the digits that the limbs have room for, which on a 32-bit
target are fewer than that. -/
def hexLoop : Bytes → Limbs N → ℕ → Result Empty (Uint N)
  | [], num, _ => .ok ⟨num⟩
  | byte :: rest, num, numIndex => do
    let digit ← parseDigit byte 16
    if h : numIndex / 16 < N then
      let num := writeDigit num numIndex h digit
      if rest.isEmpty then .ok ⟨num⟩ else hexLoop rest num (numIndex + 1)
    else .panic "hex number is too large"

/-- Parse a number from a hex string. -/
def fromStrHex (s : Bytes) : Result Empty (Uint N) :=
  if s.isEmpty then .panic "empty string" else hexLoop s.reverse (ZERO : Uint N).limbs 0

end Uint

/-- A hexadecimal digit, in upper case. -/
def upperHexDigit (d : ℕ) : U8 :=
  BitVec.ofNat 8 (if d < 10 then '0'.toNat + d else 'A'.toNat + (d - 10))

/-- `UpperHex` of a limb, with zeroes in front of it up to sixteen digits. -/
def Limb.upperHex (limb : Limb) : Bytes :=
  (List.range 16).reverse.map fun i => upperHexDigit (limb >>> (4 * i) &&& 0xF).toNat

namespace Uint

variable {N : ℕ}

/-- `UpperHex::fmt`, the limbs in reversed order. -/
def upperHex (self : Uint N) : Bytes := self.limbs.toList.reverse.flatMap Limb.upperHex

/-! ### Digits

A string is related to its digits rather than computed to them, since most strings have none. The
relation goes byte by byte, so that it can be reversed, and a string with digits has one list of
them. -/

/-- What a byte stands for as a digit. -/
def byteDigit (byte : U8) : Option ℕ := asciiDigit (Char.ofNat byte.toNat)

/-- A string of digits of a radix, and the digits. -/
def IsDigits (radix : ℕ) : Bytes → List ℕ → Prop :=
  List.Forall₂ fun byte d => byteDigit byte = some d ∧ d < radix

theorem byteDigit_of_not_ascii : ∀ byte : U8, ¬byte.toNat ≤ 0x7F → byteDigit byte = none := by
  decide +kernel

theorem byteDigit_upperHexDigit : ∀ d < 16, byteDigit (upperHexDigit d) = some d := by
  decide

/-- **A digit is parsed** to what it stands for. -/
theorem parseDigit_eq_ok {byte : U8} {radix digit : BitVec 32} (hradix : 2 ≤ radix.toNat)
    (hradix' : radix.toNat ≤ 36) :
    parseDigit byte radix = .ok digit ↔
      byteDigit byte = some digit.toNat ∧ digit.toNat < radix.toNat := by
  by_cases hbyte : byte.toNat ≤ 0x7F
  · have hparse : parseDigit byte radix =
        match ((byteDigit byte).filter (· < radix.toNat)).map (BitVec.ofNat 32) with
        | none => .panic "invalid digit"
        | some digit => .ok digit := by
      rw [parseDigit, parseUtf8Byte, if_pos hbyte, ok_bind, toDigit, if_pos ⟨hradix, hradix'⟩,
        ok_bind]
      rfl
    rw [hparse]
    rcases byteDigit byte with _ | d
    · exact iff_of_false nofun fun h => nomatch h.1
    · have hdigit : d < radix.toNat → (BitVec.ofNat 32 d).toNat = d := fun h =>
        Nat.mod_eq_of_lt (by omega)
      by_cases hd : d < radix.toNat
      · simp only [Option.filter_some, hd, decide_true, if_true, Option.map_some, Except.ok.injEq,
          Option.some_inj]
        constructor
        · rintro rfl
          rw [hdigit hd]
          exact ⟨rfl, hd⟩
        · rintro ⟨rfl, -⟩
          exact BitVec.eq_of_toNat_eq (hdigit hd)
      · simp only [Option.filter_some, hd, decide_false, Bool.false_eq_true, if_false,
          Option.map_none, Option.some_inj]
        exact iff_of_false nofun fun h => hd (h.1 ▸ h.2)
  · rw [parseDigit, parseUtf8Byte, if_neg hbyte, byteDigit_of_not_ascii byte hbyte]
    exact iff_of_false nofun fun h => nomatch h.1

namespace IsDigits

variable {radix : ℕ} {s : Bytes} {ds es : List ℕ}

/-- A string has one list of digits. -/
theorem unique (hds : IsDigits radix s ds) (hes : IsDigits radix s es) : ds = es := by
  induction hds generalizing es with
  | nil => exact (List.forall₂_nil_left_iff.mp hes).symm
  | cons hd _ ih =>
    obtain ⟨e, es', he, hes', rfl⟩ := List.forall₂_cons_left_iff.mp hes
    rw [Option.some_inj.mp (hd.1.symm.trans he.1), ih hes']

theorem exists_cons {byte : U8} {P : List ℕ → Prop} :
    (∃ ds, IsDigits radix (byte :: s) ds ∧ P ds) ↔
      ∃ d, (byteDigit byte = some d ∧ d < radix) ∧ ∃ ds, IsDigits radix s ds ∧ P (d :: ds) := by
  simp only [IsDigits, List.forall₂_cons_left_iff]
  constructor
  · rintro ⟨-, ⟨d, ds, hd, hds, rfl⟩, h⟩
    exact ⟨d, hd, ds, hds, h⟩
  · rintro ⟨d, hd, ds, hds, h⟩
    exact ⟨d :: ds, ⟨d, ds, hd, hds, rfl⟩, h⟩

theorem exists_reverse {P : List ℕ → Prop} :
    (∃ ds, IsDigits radix s.reverse ds ∧ P ds) ↔ ∃ ds, IsDigits radix s ds ∧ P ds.reverse := by
  constructor
  · rintro ⟨ds, hds, h⟩
    rw [← ds.reverse_reverse] at hds h
    exact ⟨ds.reverse, List.forall₂_reverse_iff.mp hds, h⟩
  · rintro ⟨ds, hds, h⟩
    exact ⟨ds.reverse, List.forall₂_reverse_iff.mpr hds, h⟩

theorem length_eq (h : IsDigits radix s ds) : s.length = ds.length := List.Forall₂.length_eq h

end IsDigits

/-! ### Arithmetic -/

theorem exists_toNat {n : ℕ} (h : n < 2 ^ (64 * N)) : ∃ a : Uint N, a.toNat = n :=
  ⟨fromNum n, toNat_fromNum h⟩

/-- A product is exact, or it panics. -/
theorem mul_eq_ok {a b c : Uint N} : a.mul b = .ok c ↔ c.toNat = a.toNat * b.toNat := by
  have hspec := wideningMul_spec a b
  rw [mul]
  generalize a.wideningMul b = wide at hspec ⊢
  by_cases hhigh : wide.2.eq ZERO = true
  · rw [eq_iff.mp hhigh, toNat_ZERO, mul_zero, add_zero] at hspec
    simp only [hhigh, if_true, Except.ok.injEq, ← hspec, toNat_inj, eq_comm]
  · have hzero : wide.2.toNat ≠ 0 := fun h => hhigh (eq_iff.mpr (toNat_inj.mp (h.trans
      toNat_ZERO.symm)))
    have hle := Nat.le_mul_of_pos_right (2 ^ (64 * N)) (Nat.pos_of_ne_zero hzero)
    have hlt := c.toNat_lt
    simp only [hhigh]
    exact iff_of_false nofun (by omega)

/-- A sum is exact, or it panics. -/
theorem add_eq_ok {a b c : Uint N} : a.add b = .ok c ↔ c.toNat = a.toNat + b.toNat := by
  have hspec := adc_spec a b false
  have hlt := c.toNat_lt
  rw [Bool.toNat_false, add_zero] at hspec
  rw [add]
  generalize a.adc b false = sum at hspec ⊢
  rcases sum with ⟨low, _ | _⟩
  · rw [Bool.toNat_false, mul_zero, add_zero] at hspec
    simp only [Bool.false_eq_true, if_false, Except.ok.injEq, ← hspec, toNat_inj, eq_comm]
  · rw [Bool.toNat_true, mul_one] at hspec
    simp only [if_true]
    exact iff_of_false nofun (by omega)

theorem toNat_fromU32 (hN : 0 < N) (val : BitVec 32) : (fromU32 hN val).toNat = val.toNat :=
  toNat_fromPrimitive hN (by norm_num) val

/-! ### Any radix

The invariant of the loop is in its arguments: `uint` is what has been read and `order` the order of
the next digit. The order of the digit after the last one is never computed, which is why only that
of the highest digit has to fit. -/

section Radix

variable {radix : BitVec 32} {byte : U8} {s : Bytes} {uint order x : Uint N}

theorem addDigit_eq_ok (hN : 0 < N) (hradix : 2 ≤ radix.toNat) (hradix' : radix.toNat ≤ 36) :
    addDigit hN radix byte uint order = .ok x ↔
      ∃ d, (byteDigit byte = some d ∧ d < radix.toNat) ∧
        x.toNat = uint.toNat + order.toNat * d := by
  simp only [addDigit, bind_eq_ok, parseDigit_eq_ok hradix hradix', mul_eq_ok, add_eq_ok,
    toNat_fromU32]
  constructor
  · rintro ⟨digit, hdigit, product, hproduct, hx⟩
    exact ⟨digit.toNat, hdigit, by rw [hx, hproduct, mul_comm]⟩
  · rintro ⟨d, hdigit, hx⟩
    have hd : (BitVec.ofNat 32 d).toNat = d := Nat.mod_eq_of_lt (by omega)
    have hlt := x.toNat_lt
    obtain ⟨product, hproduct⟩ := exists_toNat (N := N) (n := order.toNat * d) (by omega)
    exact ⟨BitVec.ofNat 32 d, by rwa [hd], product, by rw [hproduct, hd, mul_comm],
      by rw [hx, hproduct]⟩

/-- **The loop adds up the digits**, each times its order, as long as the orders fit. -/
theorem radixLoop_eq_ok (hN : 0 < N) (hradix : 2 ≤ radix.toNat) (hradix' : radix.toNat ≤ 36)
    (hs : s ≠ []) :
    radixLoop hN radix s uint order = .ok x ↔
      ∃ ds, IsDigits radix.toNat s ds ∧
        order.toNat * radix.toNat ^ (s.length - 1) < 2 ^ (64 * N) ∧
        x.toNat = uint.toNat + order.toNat * Nat.ofDigits radix.toNat ds := by
  induction s generalizing uint order with
  | nil => exact absurd rfl hs
  | cons byte rest ih =>
    simp only [radixLoop, bind_eq_ok, addDigit_eq_ok hN hradix hradix', IsDigits.exists_cons]
    rcases rest with _ | ⟨byte', rest⟩
    · have horder := order.toNat_lt
      constructor
      · rintro ⟨u, ⟨d, hd, hu⟩, hx⟩
        obtain rfl := Except.ok.inj hx
        exact ⟨d, hd, [], .nil, by simpa using horder, by simpa using hu⟩
      · rintro ⟨d, hd, ds, hds, -, hx⟩
        obtain rfl := List.forall₂_nil_left_iff.mp hds
        exact ⟨x, ⟨d, hd, by simpa using hx⟩, rfl⟩
    · simp only [List.isEmpty_cons, Bool.false_eq_true, if_false, bind_eq_ok, mul_eq_ok,
        toNat_fromU32, ih (List.cons_ne_nil _ _), List.length_cons, Nat.add_sub_cancel,
        Nat.ofDigits_cons]
      -- the orders of the other digits, from that of the next one
      have hpow : order.toNat * radix.toNat ^ (rest.length + 1) =
          radix.toNat * order.toNat * radix.toNat ^ rest.length := by ring
      have hsum : ∀ d v : ℕ, uint.toNat + order.toNat * (d + radix.toNat * v) =
          uint.toNat + order.toNat * d + radix.toNat * order.toNat * v := fun d v => by ring
      simp only [hpow, hsum]
      constructor
      · rintro ⟨u, ⟨d, hd, hu⟩, o, ho, ds, hds, hfit, hx⟩
        rw [hu, ho] at hx
        rw [ho] at hfit
        exact ⟨d, hd, ds, hds, hfit, hx⟩
      · rintro ⟨d, hd, ds, hds, hfit, hx⟩
        have hlt := x.toNat_lt
        obtain ⟨u, hu⟩ := exists_toNat (N := N) (n := uint.toNat + order.toNat * d) (by omega)
        obtain ⟨o, ho⟩ := exists_toNat (N := N) (n := radix.toNat * order.toNat)
          ((Nat.le_mul_of_pos_right _ (by positivity)).trans_lt hfit)
        rw [← ho] at hfit
        rw [← hu, ← ho] at hx
        exact ⟨u, ⟨d, hd, hu⟩, o, ho, ds, hds, hfit, hx⟩

/-- **What `from_str_radix` accepts**: digits, the highest of which has an order that fits. -/
theorem fromStrRadix_eq_ok (hradix : 2 ≤ radix.toNat) (hradix' : radix.toNat ≤ 36) :
    (fromStrRadix s radix : Result Empty (Uint N)) = .ok x ↔
      s ≠ [] ∧ ∃ ds, IsDigits radix.toNat s ds ∧
        radix.toNat ^ (s.length - 1) < 2 ^ (64 * N) ∧
        x.toNat = Nat.ofDigits radix.toNat ds.reverse := by
  rw [fromStrRadix]
  by_cases hs : s = []
  · rw [if_pos (by simp [hs])]
    exact iff_of_false nofun fun h => h.1 hs
  rw [if_neg (by simpa using hs)]
  by_cases hN : 0 < N
  · have hzero : (fromU32 hN 0).toNat = 0 := toNat_fromU32 hN 0
    have hone : (fromU32 hN 1).toNat = 1 := toNat_fromU32 hN 1
    rw [dif_pos hN, radixLoop_eq_ok hN hradix hradix' (by simpa using hs), hzero, hone,
      IsDigits.exists_reverse, List.length_reverse]
    simp only [one_mul, zero_add, ne_eq, hs, not_false_eq_true, true_and]
  · rw [dif_neg hN]
    refine iff_of_false nofun ?_
    rintro ⟨-, ds, -, hfit, -⟩
    obtain rfl : N = 0 := by omega
    have hpos : 0 < radix.toNat ^ (s.length - 1) := by positivity
    omega

end Radix

/-! ### Radix sixteen

Four bits are written at a place that nothing was written to before, so an `or` is a sum. A string
with more digits than the limbs have room for is refused by the index, whatever the digits are,
zeroes included. -/

section Hex

variable {s : Bytes} {num : Limbs N} {x : Uint N}

theorem hex_pow (j : ℕ) : 16 ^ j = 2 ^ (j % 16 * 4) * (2 ^ 64) ^ (j / 16) := by
  rw [← pow_mul, ← pow_add, show 16 = 2 ^ 4 from rfl, ← pow_mul]
  exact congrArg _ (by omega)

/-- A limb whose bits are below those of a digit. -/
theorem toNat_or_digit {limb : Limb} {k : ℕ} {digit : BitVec 32} (hk : k < 16)
    (hdigit : digit.toNat < 16) (hlimb : limb.toNat < 2 ^ (k * 4)) :
    (limb ||| digit.setWidth 64 <<< (k * 4)).toNat = limb.toNat + digit.toNat * 2 ^ (k * 4) := by
  have hfit : digit.toNat * 2 ^ (k * 4) < 2 ^ 64 := by
    calc digit.toNat * 2 ^ (k * 4) < 2 ^ 4 * 2 ^ (k * 4) :=
          Nat.mul_lt_mul_of_pos_right hdigit (Nat.two_pow_pos _)
      _ = 2 ^ (4 + k * 4) := (pow_add ..).symm
      _ ≤ 2 ^ 64 := Nat.pow_le_pow_right two_pos (by omega)
  rw [BitVec.toNat_or, BitVec.toNat_shiftLeft, BitVec.toNat_setWidth,
    Nat.mod_eq_of_lt (show digit.toNat < 2 ^ 64 by omega), Nat.shiftLeft_eq,
    Nat.mod_eq_of_lt hfit, mul_comm digit.toNat, Nat.or_comm,
    ← Nat.two_pow_add_eq_or_of_lt hlimb, add_comm]

/-- **A digit is written** above the ones that were written before it. -/
theorem toNat_writeDigit {j : ℕ} (h : j / 16 < N) {digit : BitVec 32} (hdigit : digit.toNat < 16)
    (hnum : (⟨num⟩ : Uint N).toNat < 16 ^ j) :
    (⟨writeDigit num j h digit⟩ : Uint N).toNat =
      (⟨num⟩ : Uint N).toNat + 16 ^ j * digit.toNat := by
  have hmod : j % 16 < 16 := Nat.mod_lt _ (by norm_num)
  have hlimb : num[j / 16].toNat < 2 ^ (j % 16 * 4) := by
    rw [hex_pow, mul_comm] at hnum
    rw [← (⟨num⟩ : Uint N).toNat_div_mod h, pow_mul]
    exact (Nat.mod_le _ _).trans_lt (Nat.div_lt_of_lt_mul hnum)
  have hupdate := positional_update (b := 2 ^ 64) (d := Limbs.digit num)
    (r := (num[j / 16] ||| digit.setWidth 64 <<< (j % 16 * 4)).toNat) h
  rw [← Limbs.digit_set h, Limbs.digit_of_lt h, toNat_or_digit hmod hdigit hlimb, add_mul,
    mul_assoc, ← hex_pow] at hupdate
  refine Nat.add_right_cancel (hupdate.trans ?_)
  rw [add_comm (_ * _), ← add_assoc, mul_comm digit.toNat]
  rfl

theorem hexLoop_cons_eq_ok {byte : U8} {rest : Bytes} {j : ℕ}
    (hnum : (⟨num⟩ : Uint N).toNat < 16 ^ j) :
    hexLoop (byte :: rest) num j = .ok x ↔
      ∃ d, (byteDigit byte = some d ∧ d < 16) ∧ ∃ next : Uint N,
        next.toNat = (⟨num⟩ : Uint N).toNat + 16 ^ j * d ∧ j / 16 < N ∧
          (if rest.isEmpty then .ok next else hexLoop rest next.limbs (j + 1)) = .ok x := by
  have hparse : ∀ digit : BitVec 32, parseDigit byte 16 = .ok digit ↔
      byteDigit byte = some digit.toNat ∧ digit.toNat < 16 := fun digit =>
    parseDigit_eq_ok (by decide) (by decide)
  simp only [hexLoop, bind_eq_ok, hparse]
  by_cases h : j / 16 < N
  · simp only [h, dif_pos, true_and]
    constructor
    · rintro ⟨digit, hdigit, hx⟩
      exact ⟨digit.toNat, hdigit, _, toNat_writeDigit h hdigit.2 hnum, hx⟩
    · rintro ⟨d, hd, next, hnext, hx⟩
      have hdigit : (BitVec.ofNat 32 d).toNat = d := Nat.mod_eq_of_lt (by omega)
      rw [← hdigit] at hd hnext
      obtain rfl := toNat_inj.mp (hnext.trans (toNat_writeDigit h hd.2 hnum).symm)
      exact ⟨_, hd, hx⟩
  · simp only [h]
    constructor
    · rintro ⟨-, -, ⟨⟩⟩
    · rintro ⟨-, -, -, -, hroom, -⟩
      exact hroom.elim

/-- **The loop copies the digits** into the limbs, as long as there are limbs. -/
theorem hexLoop_eq_ok {j : ℕ} (hs : s ≠ []) (hnum : (⟨num⟩ : Uint N).toNat < 16 ^ j) :
    hexLoop s num j = .ok x ↔
      ∃ ds, IsDigits 16 s ds ∧ j + s.length ≤ 16 * N ∧
        x.toNat = (⟨num⟩ : Uint N).toNat + 16 ^ j * Nat.ofDigits 16 ds := by
  induction s generalizing num j with
  | nil => exact absurd rfl hs
  | cons byte rest ih =>
    rw [hexLoop_cons_eq_ok hnum, IsDigits.exists_cons, List.length_cons]
    refine exists_congr fun d => and_congr_right fun hd => ?_
    rcases rest with _ | ⟨byte', rest⟩
    · constructor
      · rintro ⟨next, hnext, hroom, hx⟩
        obtain rfl := Except.ok.inj hx
        exact ⟨[], .nil, by simp only [List.length_nil]; omega, by simpa using hnext⟩
      · rintro ⟨ds, hds, hroom, hx⟩
        obtain rfl := List.forall₂_nil_left_iff.mp hds
        exact ⟨x, by simpa using hx, by simp only [List.length_nil] at hroom; omega, rfl⟩
    · have hnext : ∀ next : Uint N, next.toNat = (⟨num⟩ : Uint N).toNat + 16 ^ j * d →
          next.toNat < 16 ^ (j + 1) := by
        intro next h
        rw [h, pow_succ]
        nlinarith
      have hsum : ∀ v : ℕ, (⟨num⟩ : Uint N).toNat + 16 ^ j * (d + 16 * v) =
          (⟨num⟩ : Uint N).toNat + 16 ^ j * d + 16 ^ (j + 1) * v := fun v => by ring
      simp only [Nat.ofDigits_cons, hsum]
      constructor
      · rintro ⟨next, h, -, hx⟩
        obtain ⟨ds, hds, hroom, hx⟩ := (ih (List.cons_ne_nil _ _) (hnext next h)).mp hx
        exact ⟨ds, hds, by omega, by rw [hx, ← h]⟩
      · rintro ⟨ds, hds, hroom, hx⟩
        have hlt := x.toNat_lt
        obtain ⟨next, h⟩ := exists_toNat (N := N) (n := (⟨num⟩ : Uint N).toNat + 16 ^ j * d)
          (by omega)
        refine ⟨next, h, by omega, (ih (List.cons_ne_nil _ _) (hnext next h)).mpr ?_⟩
        exact ⟨ds, hds, by omega, by rw [hx, ← h]⟩

/-- **What `from_str_hex` accepts**: digits, no more than the limbs have room for. -/
theorem fromStrHex_eq_ok :
    (fromStrHex s : Result Empty (Uint N)) = .ok x ↔
      s ≠ [] ∧ ∃ ds, IsDigits 16 s ds ∧ s.length ≤ 16 * N ∧
        x.toNat = Nat.ofDigits 16 ds.reverse := by
  rw [fromStrHex]
  by_cases hs : s = []
  · rw [if_pos (by simp [hs])]
    exact iff_of_false nofun fun h => h.1 hs
  · have hzero : (⟨(ZERO : Uint N).limbs⟩ : Uint N).toNat = 0 := toNat_ZERO
    rw [if_neg (by simpa using hs), hexLoop_eq_ok (by simpa using hs) (by rw [hzero]; norm_num),
      hzero, IsDigits.exists_reverse, List.length_reverse]
    simp only [pow_zero, one_mul, zero_add, ne_eq, hs, not_false_eq_true, true_and]

/-- The order of the highest digit fits when there is room for the digits. -/
theorem hex_order_iff {n : ℕ} (hn : 0 < n) : 16 ^ (n - 1) < 2 ^ (64 * N) ↔ n ≤ 16 * N := by
  rw [show 16 = 2 ^ 4 from rfl, ← pow_mul, Nat.pow_lt_pow_iff_right one_lt_two]
  omega

/-- **The two parsers accept the same**, as the same. -/
theorem fromStrHex_eq_ok_iff :
    (fromStrHex s : Result Empty (Uint N)) = .ok x ↔
      (fromStrRadix s 16 : Result Empty (Uint N)) = .ok x := by
  rw [fromStrHex_eq_ok, fromStrRadix_eq_ok (by decide) (by decide)]
  refine and_congr_right fun hs => exists_congr fun ds => and_congr_right fun _ => ?_
  rw [← hex_order_iff (List.length_pos_of_ne_nil hs)]
  rfl

end Hex

/-! ### There and back

Every limb is written with all of its sixteen digits, so what is read back has as many digits as
there is room for. -/

/-- The hexadecimal digits of a limb, the lowest first. -/
def nibbles (limb : Limb) : List ℕ := (List.range 16).map fun i => limb.toNat / 16 ^ i % 16

theorem upperHex_limb (limb : Limb) : limb.upperHex = (nibbles limb).reverse.map upperHexDigit := by
  rw [Limb.upperHex, nibbles, ← List.map_reverse, List.map_map]
  refine List.map_congr_left fun i _ => congrArg upperHexDigit ?_
  have hmask : (limb.toNat >>> (4 * i)) &&& 15 = limb.toNat >>> (4 * i) % 16 :=
    Nat.and_two_pow_sub_one_eq_mod _ 4
  rw [BitVec.toNat_and, BitVec.toNat_ushiftRight]
  refine hmask.trans ?_
  rw [Nat.shiftRight_eq_div_pow, pow_mul]
  rfl

theorem ofDigits_nibbles (limb : Limb) : Nat.ofDigits 16 (nibbles limb) = limb.toNat := by
  have hdigits : Nat.ofDigits 16 (nibbles limb) =
      positional 16 (fun i => limb.toNat / 16 ^ i % 16) 16 := by
    rw [ofDigits_eq_positional, nibbles, List.length_map, List.length_range]
    refine positional_congr fun i hi => ?_
    rw [List.getD_eq_getElem _ _ (by simpa using hi), List.getElem_map, List.getElem_range]
  rw [hdigits, positional_div_pow]
  exact Nat.mod_eq_of_lt limb.isLt

theorem ofDigits_flatMap_nibbles (limbs : List Limb) :
    Nat.ofDigits 16 (limbs.flatMap nibbles) = Nat.ofDigits (2 ^ 64) (limbs.map BitVec.toNat) := by
  induction limbs with
  | nil => rfl
  | cons limb limbs ih =>
    have hlength : (nibbles limb).length = 16 := by simp [nibbles]
    rw [List.flatMap_cons, Nat.ofDigits_append, ofDigits_nibbles, hlength, ih, List.map_cons,
      Nat.ofDigits_cons]
    rfl

/-- **The digits that are written** are those of the limbs. -/
theorem isDigits_upperHex (x : Uint N) :
    IsDigits 16 x.upperHex (x.limbs.toList.flatMap nibbles).reverse := by
  have hdigits : x.upperHex = (x.limbs.toList.flatMap nibbles).reverse.map upperHexDigit := by
    rw [upperHex, List.reverse_flatMap, List.map_flatMap]
    exact List.flatMap_congr fun limb _ => upperHex_limb limb
  rw [hdigits, IsDigits, List.forall₂_map_left_iff, List.forall₂_same]
  intro d hd
  obtain ⟨limb, -, hd⟩ := List.mem_flatMap.mp (List.mem_reverse.mp hd)
  obtain ⟨i, -, rfl⟩ := List.mem_map.mp hd
  have hlt : limb.toNat / 16 ^ i % 16 < 16 := Nat.mod_lt _ (by norm_num)
  exact ⟨byteDigit_upperHexDigit _ hlt, hlt⟩

theorem length_upperHex (x : Uint N) : x.upperHex.length = 16 * N := by
  simp [upperHex, Limb.upperHex, mul_comm]

/-- **What is written is read back**, when there is anything to write. -/
theorem fromStrHex_upperHex (hN : 0 < N) (x : Uint N) : fromStrHex x.upperHex = .ok x := by
  have hlength := x.length_upperHex
  refine fromStrHex_eq_ok.mpr ⟨List.ne_nil_of_length_pos (by omega), _, isDigits_upperHex x,
    hlength.le, ?_⟩
  rw [List.reverse_reverse, ofDigits_flatMap_nibbles, toNat_eq_ofDigits]

/-! ### Numbers that fit -/

section Exact

variable {radix : BitVec 32} {s : Bytes} {ds : List ℕ}

/-- Without a leading zero, the order of the highest digit is no more than the number. -/
theorem pow_le_ofDigits {r : ℕ} (hr : 2 ≤ r) (hne : ds ≠ []) (hlead : ds.head? ≠ some 0) :
    r ^ (ds.length - 1) ≤ Nat.ofDigits r ds.reverse := by
  obtain ⟨b, rfl⟩ := Nat.exists_eq_add_of_le' hr
  obtain ⟨d, rest, rfl⟩ := List.exists_cons_of_ne_nil hne
  have hd : d ≠ 0 := fun h => hlead (congrArg some h)
  have hle := Nat.pow_length_le_mul_ofDigits (b := b) (l := (d :: rest).reverse) (by simp)
    (by simpa using hd)
  rw [List.length_reverse, List.length_cons, pow_succ, mul_comm] at hle
  exact Nat.le_of_mul_le_mul_left hle (by omega)

/-- **A number that fits is returned**, and any other one panics, when the order of the highest
digit fits with the number. -/
theorem fromStrRadix_exact (hradix : 2 ≤ radix.toNat) (hradix' : radix.toNat ≤ 36) (hne : ds ≠ [])
    (hds : IsDigits radix.toNat s ds)
    (horder : Nat.ofDigits radix.toNat ds.reverse < 2 ^ (64 * N) →
      radix.toNat ^ (ds.length - 1) < 2 ^ (64 * N)) :
    (Nat.ofDigits radix.toNat ds.reverse < 2 ^ (64 * N) →
      ∃ x : Uint N, fromStrRadix s radix = .ok x ∧
        x.toNat = Nat.ofDigits radix.toNat ds.reverse) ∧
    (2 ^ (64 * N) ≤ Nat.ofDigits radix.toNat ds.reverse →
      ∃ msg, (fromStrRadix s radix : Result Empty (Uint N)) = .panic msg) := by
  have hlength := hds.length_eq
  constructor
  · intro hfit
    obtain ⟨x, hx⟩ := exists_toNat hfit
    have hs : s ≠ [] := by
      rintro rfl
      exact hne (List.length_eq_zero_iff.mp hlength.symm)
    exact ⟨x, (fromStrRadix_eq_ok hradix hradix').mpr
      ⟨hs, ds, hds, hlength.symm ▸ horder hfit, hx⟩, hx⟩
  · intro hlarge
    rcases Result.NoErr.ok_or_panic (x := (fromStrRadix s radix : Result Empty (Uint N)))
      fun e => nomatch e with ⟨x, hx⟩ | hpanic
    · obtain ⟨-, es, hes, -, hvalue⟩ := (fromStrRadix_eq_ok hradix hradix').mp hx
      rw [← hds.unique hes] at hvalue
      have hlt := x.toNat_lt
      omega
    · exact hpanic

end Exact

/-- **Hexadecimal and radix sixteen agree** on every string; a string of digits without a leading
zero is parsed to its number, which panics when it does not fit; and what is written in hexadecimal
is read back, when there is a limb to write. -/
theorem parsers_agree (N : ℕ) :
    (∀ s : Bytes,
      (∃ x : Uint N, fromStrHex s = .ok x ∧ fromStrRadix s 16 = .ok x) ∨
      ((∃ msg, (fromStrHex s : Result Empty (Uint N)) = .panic msg) ∧
        ∃ msg, (fromStrRadix s 16 : Result Empty (Uint N)) = .panic msg)) ∧
    (∀ (radix : BitVec 32) (s : Bytes) (ds : List ℕ), 2 ≤ radix.toNat → radix.toNat ≤ 36 →
      ds ≠ [] → IsDigits radix.toNat s ds → ds.head? ≠ some 0 ∨ (ds = [0] ∧ 0 < N) →
        (Nat.ofDigits radix.toNat ds.reverse < 2 ^ (64 * N) →
          ∃ x : Uint N, fromStrRadix s radix = .ok x ∧
            x.toNat = Nat.ofDigits radix.toNat ds.reverse) ∧
        (2 ^ (64 * N) ≤ Nat.ofDigits radix.toNat ds.reverse →
          ∃ msg, (fromStrRadix s radix : Result Empty (Uint N)) = .panic msg)) ∧
    (0 < N → ∀ x : Uint N, fromStrHex x.upperHex = .ok x) := by
  refine ⟨fun s => ?_, fun radix s ds hradix hradix' hne hds hlead => ?_, fromStrHex_upperHex⟩
  · rcases Result.NoErr.ok_or_panic (x := (fromStrHex s : Result Empty (Uint N)))
      fun e => nomatch e with ⟨x, hx⟩ | hhex
    · exact .inl ⟨x, hx, fromStrHex_eq_ok_iff.mp hx⟩
    · rcases Result.NoErr.ok_or_panic (x := (fromStrRadix s 16 : Result Empty (Uint N)))
        fun e => nomatch e with ⟨x, hx⟩ | hradix
      · exact .inl ⟨x, fromStrHex_eq_ok_iff.mpr hx, hx⟩
      · exact .inr ⟨hhex, hradix⟩
  · refine fromStrRadix_exact hradix hradix' hne hds fun hfit => ?_
    rcases hlead with hlead | ⟨rfl, hN⟩
    · exact (pow_le_ofDigits hradix hne hlead).trans_lt hfit
    · exact Nat.one_lt_two_pow (by omega)

/-- The number 255, in one limb. -/
theorem parsers_agree_one_limb :
    (∃ x : Uint 1, fromStrRadix [0x66, 0x46] 16 = .ok x ∧ x.toNat = 255) ∧
      fromStrHex (MAX : Uint 1).upperHex = .ok (MAX : Uint 1) :=
  ⟨((parsers_agree 1).2.1 16 [0x66, 0x46] [15, 15] (by decide) (by decide) (by decide)
    (.cons (by decide) (.cons (by decide) .nil)) (.inl (by decide))).1 (by decide),
    (parsers_agree 1).2.2 one_pos MAX⟩

/-- Without any limbs nothing is written, and that cannot be read. -/
theorem fromStrHex_upperHex_no_limbs :
    (fromStrHex (ZERO : Uint 0).upperHex : Result Empty (Uint 0)) = .panic "empty string" ∧
      ¬∀ (N : ℕ) (x : Uint N), fromStrHex x.upperHex = .ok x := by
  have hpanic : (fromStrHex (ZERO : Uint 0).upperHex : Result Empty (Uint 0)) =
      .panic "empty string" := by decide
  exact ⟨hpanic, fun h => nomatch hpanic.symm.trans (h 0 ZERO)⟩

end Uint

end ContractsStylus
