import ContractsStylus.Crypto.FpField
import ContractsStylus.Library.Primality
import Mathlib.Tactic.NormNum

/-!
# Prime fields by name

The fields that the library defines for the users of its hash functions, with one limb or with four.
All that is said of their moduli in the source is the number; that each is a prime follows from a
certificate.

## Parameters from numbers

The source writes a modulus as a number and has everything else computed from it. `FpParams.ofNum`
does the same: from the number and the proofs that it is odd and fits, it makes the limbs, and its
one lemma says what the modulus is. The constants of Montgomery arithmetic are functions of the
parameters and are not stored, so there are none to get wrong.

## Main definitions

* `FpParams.ofNum` — parameters with a given modulus
* `VestaParam`, `BabyBearParam`, `BLS12Param`, `BN256Param`, `GoldiLocksParam`, `PallasParam`
* `Fp.Element.equivOfEq` — elements as integers modulo a number

## Main results

* `prime_moduli` — the moduli are prime
-/

namespace ContractsStylus

namespace FpParams

/-- Parameters with the modulus that a literal denotes. -/
def ofNum (N n : ℕ) (hn : n < 2 ^ (64 * N)) (odd : n % 2 = 1) (one_lt : 1 < n) : FpParams N where
  MODULUS := .fromNum n
  odd := by rwa [Uint.toNat_fromNum hn]
  one_lt := by rwa [Uint.toNat_fromNum hn]

theorem p_ofNum {N n : ℕ} (hn : n < 2 ^ (64 * N)) (odd : n % 2 = 1) (one_lt : 1 < n) :
    (ofNum N n hn odd one_lt).p = n := Uint.toNat_fromNum hn

end FpParams

namespace Fp.Element

variable {N n : ℕ} {P : FpParams N}

/-- The field is that of the integers modulo the number that its modulus is. -/
def equivOfEq (h : P.p = n) : Element P ≃+* ZMod n := equivZMod.trans (ZMod.ringEquivCongr h)

theorem equivOfEq_fromNum (h : P.p = n) {m : ℕ} (hm : m < 2 ^ (64 * N)) :
    equivOfEq h (.fromNum m) = m := by
  show ZMod.ringEquivCongr h (fromNum m : Element P).toZMod = m
  rw [toZMod_fromNum hm, map_natCast]

end Fp.Element

/-! ### The parameters -/

def VestaParam : FpParams 4 :=
  .ofNum 4 28948022309329048855892746252171976963363056481941647379679742748393362948097
    (by norm_num) (by norm_num) (by norm_num)

def BabyBearParam : FpParams 1 :=
  .ofNum 1 2013265921 (by norm_num) (by norm_num) (by norm_num)

def BLS12Param : FpParams 4 :=
  .ofNum 4 52435875175126190479447740508185965837690552500527637822603658699938581184513
    (by norm_num) (by norm_num) (by norm_num)

def BN256Param : FpParams 4 :=
  .ofNum 4 21888242871839275222246405745257275088548364400416034343698204186575808495617
    (by norm_num) (by norm_num) (by norm_num)

def GoldiLocksParam : FpParams 1 :=
  .ofNum 1 18446744069414584321 (by norm_num) (by norm_num) (by norm_num)

def PallasParam : FpParams 4 :=
  .ofNum 4 28948022309329048855892746252171976963363056481941560715954676764349967630337
    (by norm_num) (by norm_num) (by norm_num)

abbrev FpVesta := Fp.Element VestaParam

abbrev FpBabyBear := Fp.Element BabyBearParam

abbrev FpBLS12 := Fp.Element BLS12Param

abbrev FpBN256 := Fp.Element BN256Param

abbrev FpGoldiLocks := Fp.Element GoldiLocksParam

abbrev FpPallas := Fp.Element PallasParam

/-! ### The moduli are prime -/

/-- The primes below the moduli that their certificates need, and the moduli. -/
def fieldCertificate : Certificate where
  steps :=
    [⟨3, 2, [(2, 1)]⟩, ⟨7, 3, [(2, 1), (3, 1)]⟩, ⟨5, 2, [(2, 2)]⟩,
      ⟨61, 2, [(2, 2), (3, 1), (5, 1)]⟩, ⟨1709, 3, [(2, 2), (7, 1), (61, 1)]⟩,
      ⟨11, 2, [(2, 1), (5, 1)]⟩, ⟨23, 5, [(2, 1), (11, 1)]⟩,
      ⟨1381, 2, [(2, 2), (3, 1), (5, 1), (23, 1)]⟩, ⟨24859, 2, [(2, 1), (3, 2), (1381, 1)]⟩,
      ⟨13, 2, [(2, 2), (3, 1)]⟩, ⟨89, 3, [(2, 3), (11, 1)]⟩, ⟨179, 2, [(2, 1), (89, 1)]⟩,
      ⟨359, 7, [(2, 1), (179, 1)]⟩, ⟨17, 3, [(2, 4)]⟩, ⟨19, 2, [(2, 1), (3, 2)]⟩,
      ⟨53, 2, [(2, 2), (13, 1)]⟩, ⟨68477, 2, [(2, 2), (17, 1), (19, 1), (53, 1)]⟩,
      ⟨958679, 7, [(2, 1), (7, 1), (68477, 1)]⟩,
      ⟨4129989133, 5, [(2, 2), (3, 1), (359, 1), (958679, 1)]⟩, ⟨71, 7, [(2, 1), (5, 1), (7, 1)]⟩,
      ⟨29, 2, [(2, 2), (7, 1)]⟩, ⟨241, 7, [(2, 4), (3, 1), (5, 1)]⟩,
      ⟨125803, 3, [(2, 1), (3, 2), (29, 1), (241, 1)]⟩, ⟨2012849, 3, [(2, 4), (125803, 1)]⟩,
      ⟨4025699, 2, [(2, 1), (2012849, 1)]⟩, ⟨80513981, 2, [(2, 2), (5, 1), (4025699, 1)]⟩,
      ⟨5247740253619, 2, [(2, 1), (3, 3), (17, 1), (71, 1), (80513981, 1)]⟩,
      ⟨1690502597179744445941507, 2, [(2, 1), (3, 1), (13, 1), (4129989133, 1),
        (5247740253619, 1)]⟩,
      ⟨43, 3, [(2, 1), (3, 1), (7, 1)]⟩, ⟨173, 2, [(2, 2), (43, 1)]⟩,
      ⟨294793, 10, [(2, 3), (3, 1), (71, 1), (173, 1)]⟩, ⟨59, 2, [(2, 1), (29, 1)]⟩,
      ⟨827, 2, [(2, 1), (7, 1), (59, 1)]⟩, ⟨2557, 2, [(2, 2), (3, 2), (71, 1)]⟩,
      ⟨4229279, 13, [(2, 1), (827, 1), (2557, 1)]⟩,
      ⟨6091, 7, [(2, 1), (3, 1), (5, 1), (7, 1), (29, 1)]⟩,
      ⟨5701177, 7, [(2, 3), (3, 2), (13, 1), (6091, 1)]⟩,
      ⟨399082391, 7, [(2, 1), (5, 1), (7, 1), (5701177, 1)]⟩, ⟨757, 2, [(2, 2), (3, 3), (7, 1)]⟩,
      ⟨3037, 2, [(2, 2), (3, 1), (11, 1), (23, 1)]⟩, ⟨12149, 2, [(2, 2), (3037, 1)]⟩,
      ⟨31649, 3, [(2, 5), (23, 1), (43, 1)]⟩,
      ⟨5239247429827, 2, [(2, 1), (3, 2), (757, 1), (12149, 1), (31649, 1)]⟩,
      ⟨10427374428728808478656897599072717, 2, [(2, 2), (294793, 1), (4229279, 1), (399082391, 1),
        (5239247429827, 1)]⟩,
      ⟨28948022309329048855892746252171976963363056481941647379679742748393362948097, 5, [(2, 32),
        (3, 2), (1709, 1), (24859, 1), (1690502597179744445941507, 1),
        (10427374428728808478656897599072717, 1)]⟩, ⟨2013265921, 31, [(2, 27), (3, 1), (5, 1)]⟩,
      ⟨10177, 7, [(2, 6), (3, 1), (53, 1)]⟩, ⟨523, 2, [(2, 1), (3, 2), (29, 1)]⟩,
      ⟨20921, 3, [(2, 3), (5, 1), (523, 1)]⟩, ⟨125527, 5, [(2, 1), (3, 1), (20921, 1)]⟩,
      ⟨47737, 5, [(2, 3), (3, 3), (13, 1), (17, 1)]⟩, ⟨859267, 2, [(2, 1), (3, 2), (47737, 1)]⟩,
      ⟨47, 5, [(2, 1), (23, 1)]⟩, ⟨73, 5, [(2, 3), (3, 2)]⟩, ⟨1607, 5, [(2, 1), (11, 1), (73, 1)]⟩,
      ⟨906349, 2, [(2, 2), (3, 1), (47, 1), (1607, 1)]⟩, ⟨79, 3, [(2, 1), (3, 1), (13, 1)]⟩,
      ⟨2508409, 11, [(2, 3), (3, 4), (7, 2), (79, 1)]⟩, ⟨18329, 3, [(2, 3), (29, 1), (79, 1)]⟩,
      ⟨2529403, 2, [(2, 1), (3, 1), (23, 1), (18329, 1)]⟩, ⟨97, 5, [(2, 5), (3, 1)]⟩,
      ⟨449, 3, [(2, 6), (7, 1)]⟩, ⟨609743, 5, [(2, 1), (7, 1), (97, 1), (449, 1)]⟩,
      ⟨52437899, 2, [(2, 1), (43, 1), (609743, 1)]⟩,
      ⟨110573, 3, [(2, 2), (7, 1), (11, 1), (359, 1)]⟩, ⟨2653753, 5, [(2, 3), (3, 1), (110573, 1)]⟩,
      ⟨63690073, 7, [(2, 3), (3, 1), (2653753, 1)]⟩, ⟨254760293, 2, [(2, 2), (63690073, 1)]⟩,
      ⟨52435875175126190479447740508185965837690552500527637822603658699938581184513, 7, [(2, 32),
        (3, 1), (11, 1), (19, 1), (10177, 1), (125527, 1), (859267, 1), (906349, 2), (2508409, 1),
        (2529403, 1), (52437899, 1), (254760293, 2)]⟩, ⟨491, 2, [(2, 1), (5, 1), (7, 2)]⟩,
      ⟨983, 5, [(2, 1), (491, 1)]⟩, ⟨5501, 2, [(2, 2), (5, 3), (11, 1)]⟩,
      ⟨11003, 2, [(2, 1), (5501, 1)]⟩, ⟨237073, 15, [(2, 4), (3, 1), (11, 1), (449, 1)]⟩,
      ⟨41, 6, [(2, 3), (5, 1)]⟩, ⟨3691, 2, [(2, 1), (3, 2), (5, 1), (41, 1)]⟩,
      ⟨4999, 3, [(2, 1), (3, 1), (7, 2), (17, 1)]⟩,
      ⟨405928799, 22, [(2, 1), (11, 1), (3691, 1), (4999, 1)]⟩, ⟨107, 2, [(2, 1), (53, 1)]⟩,
      ⟨661, 2, [(2, 2), (3, 1), (5, 1), (11, 1)]⟩, ⟨31, 3, [(2, 1), (3, 1), (5, 1)]⟩,
      ⟨93001, 14, [(2, 3), (3, 1), (5, 3), (31, 1)]⟩,
      ⟨12048837557, 2, [(2, 2), (7, 2), (661, 1), (93001, 1)]⟩,
      ⟨5156902474397, 2, [(2, 2), (107, 1), (12048837557, 1)]⟩,
      ⟨1670836401704629, 2, [(2, 2), (3, 4), (5156902474397, 1)]⟩, ⟨137, 3, [(2, 3), (17, 1)]⟩,
      ⟨823, 3, [(2, 1), (3, 1), (137, 1)]⟩, ⟨37, 2, [(2, 2), (3, 2)]⟩,
      ⟨223, 3, [(2, 1), (3, 1), (37, 1)]⟩, ⟨20963, 2, [(2, 1), (47, 1), (223, 1)]⟩,
      ⟨41927, 5, [(2, 1), (20963, 1)]⟩, ⟨1593227, 2, [(2, 1), (19, 1), (41927, 1)]⟩,
      ⟨83, 2, [(2, 1), (41, 1)]⟩, ⟨379, 2, [(2, 1), (3, 3), (7, 1)]⟩,
      ⟨409, 21, [(2, 3), (3, 1), (17, 1)]⟩, ⟨1637, 2, [(2, 2), (409, 1)]⟩,
      ⟨229, 6, [(2, 2), (3, 1), (19, 1)]⟩, ⟨853, 2, [(2, 2), (3, 1), (71, 1)]⟩,
      ⟨639533339, 2, [(2, 1), (229, 1), (853, 1), (1637, 1)]⟩,
      ⟨65865678001877903, 5, [(2, 1), (83, 1), (379, 1), (1637, 1), (639533339, 1)]⟩,
      ⟨13818364434197438864469338081, 3, [(2, 5), (5, 1), (823, 1), (1593227, 1),
        (65865678001877903, 1)]⟩,
      ⟨21888242871839275222246405745257275088548364400416034343698204186575808495617, 5, [(2, 28),
        (3, 2), (13, 1), (29, 1), (983, 1), (11003, 1), (237073, 1), (405928799, 1),
        (1670836401704629, 1), (13818364434197438864469338081, 1)]⟩, ⟨257, 3, [(2, 8)]⟩,
      ⟨65537, 3, [(2, 16)]⟩,
      ⟨18446744069414584321, 7, [(2, 32), (3, 1), (5, 1), (17, 1), (257, 1), (65537, 1)]⟩,
      ⟨463, 3, [(2, 1), (3, 1), (7, 1), (11, 1)]⟩, ⟨829, 2, [(2, 2), (3, 2), (23, 1)]⟩,
      ⟨14923, 2, [(2, 1), (3, 2), (829, 1)]⟩, ⟨1973, 2, [(2, 2), (17, 1), (29, 1)]⟩,
      ⟨6229, 2, [(2, 2), (3, 2), (173, 1)]⟩, ⟨24917, 2, [(2, 2), (6229, 1)]⟩,
      ⟨149503, 3, [(2, 1), (3, 1), (24917, 1)]⟩, ⟨897019, 2, [(2, 1), (3, 1), (149503, 1)]⟩,
      ⟨417677162933, 2, [(2, 2), (59, 1), (1973, 1), (897019, 1)]⟩,
      ⟨539204044132271846773, 5, [(2, 2), (3, 5), (89, 1), (14923, 1), (417677162933, 1)]⟩,
      ⟨2531, 2, [(2, 1), (5, 1), (11, 1), (23, 1)]⟩, ⟨19267, 3, [(2, 1), (3, 1), (13, 2), (19, 1)]⟩,
      ⟨115603, 2, [(2, 1), (3, 1), (19267, 1)]⟩, ⟨67, 2, [(2, 1), (3, 1), (11, 1)]⟩,
      ⟨269, 2, [(2, 2), (67, 1)]⟩, ⟨3767, 5, [(2, 1), (7, 1), (269, 1)]⟩,
      ⟨1197907, 3, [(2, 1), (3, 1), (53, 1), (3767, 1)]⟩, ⟨977, 3, [(2, 4), (61, 1)]⟩,
      ⟨6942563, 2, [(2, 1), (11, 1), (17, 1), (19, 1), (977, 1)]⟩,
      ⟨41655379, 2, [(2, 1), (3, 1), (6942563, 1)]⟩,
      ⟨22160661629, 3, [(2, 2), (7, 1), (19, 1), (41655379, 1)]⟩,
      ⟨127, 3, [(2, 1), (3, 2), (7, 1)]⟩, ⟨509, 2, [(2, 2), (127, 1)]⟩,
      ⟨413527, 3, [(2, 1), (3, 1), (41, 3)]⟩,
      ⟨25741, 6, [(2, 2), (3, 2), (5, 1), (11, 1), (13, 1)]⟩,
      ⟨772231, 6, [(2, 1), (3, 1), (5, 1), (25741, 1)]⟩,
      ⟨325086459374267, 2, [(2, 1), (509, 1), (413527, 1), (772231, 1)]⟩,
      ⟨8999194758858563409123804352480028797519453, 2, [(2, 2), (3, 4), (11, 1), (2531, 1),
        (115603, 1), (1197907, 1), (22160661629, 1), (325086459374267, 1)]⟩,
      ⟨28948022309329048855892746252171976963363056481941560715954676764349967630337, 5, [(2, 32),
        (3, 1), (463, 1), (539204044132271846773, 1),
        (8999194758858563409123804352480028797519453, 1)]⟩]
  checked := by decide +kernel

/-- **The moduli are prime.** -/
theorem prime_moduli : ∀ p ∈ [VestaParam.p, BabyBearParam.p, BLS12Param.p, BN256Param.p,
    GoldiLocksParam.p, PallasParam.p], p.Prime := by
  have hsteps : ∀ p ∈ [VestaParam.p, BabyBearParam.p, BLS12Param.p, BN256Param.p,
      GoldiLocksParam.p, PallasParam.p], p ∈ fieldCertificate.primes := by decide +kernel
  exact fun p hp => fieldCertificate.prime (hsteps p hp)

instance instFactPrimeVesta : Fact VestaParam.p.Prime := ⟨prime_moduli _ (by simp)⟩

instance instFactPrimeBabyBear : Fact BabyBearParam.p.Prime := ⟨prime_moduli _ (by simp)⟩

instance instFactPrimeBLS12 : Fact BLS12Param.p.Prime := ⟨prime_moduli _ (by simp)⟩

instance instFactPrimeBN256 : Fact BN256Param.p.Prime := ⟨prime_moduli _ (by simp)⟩

instance instFactPrimeGoldiLocks : Fact GoldiLocksParam.p.Prime := ⟨prime_moduli _ (by simp)⟩

instance instFactPrimePallas : Fact PallasParam.p.Prime := ⟨prime_moduli _ (by simp)⟩

end ContractsStylus
