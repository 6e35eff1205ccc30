import ContractsStylus.Library.LastWrite
import ContractsStylus.Library.Runs
import ContractsStylus.Primitives

/-!
# ERC-2981

Royalties, as a fraction of the sale price with a denominator that is set in the constructor. There
is a default, and for some tokens an entry that takes precedence over it. An entry without a
receiver counts as none, and no entry with a receiver can be set to more than the whole price.

## Entries

A default and the entries of single tokens are kept in one type, and an entry is present when it has
a receiver. Operations write entries and nothing else, each at most one, so what is in the storage
after a run is what the last accepted operation on it wrote. `effective` is the entry that counts
among the two.

The denominator is a field of the storage, and zero unless a constructor has set it. What is owed is
then a division by zero, which panics; results are about any denominator and say when it matters.

## Main definitions

* `Erc2981`, `Erc2981.royaltyInfo` — the entries and what is owed
* `Erc2981.Op`, `Erc2981.machine` — the operations
* `Erc2981.Op.Valid` — the operations that are accepted
* `Erc2981.lastInfo`, `Erc2981.effective` — the entry that counts after a run

## Main results

* `Erc2981.exec_eq_ok` — which operations are accepted, and what they write
* `Erc2981.entry_run` — the entries after a run
* `Erc2981.royalties_run` — what is owed after a run
-/

namespace ContractsStylus

/-- Royalty information of tokens. -/
structure RoyaltyInfo where
  /-- The receiver address for royalty. -/
  receiver : Address
  /-- Fraction of royalty for receiver. -/
  royaltyFraction : U96
  deriving DecidableEq, Repr

/-- State of an `Erc2981` contract. -/
structure Erc2981 where
  /-- The default royalty information for all tokens. -/
  defaultRoyaltyInfo : RoyaltyInfo
  /-- The royalty information for a particular token. -/
  tokenRoyaltyInfo : StorageMap U256 RoyaltyInfo
  /-- The fee denominator for royalty fraction, set in the constructor. -/
  feeDenominator : U96

namespace Erc2981

inductive Error
  /-- The default royalty set is invalid. -/
  | InvalidDefaultRoyalty (numerator denominator : U256)
  /-- The default royalty receiver is invalid. -/
  | InvalidDefaultRoyaltyReceiver (receiver : Address)
  /-- The royalty set for a specific token is invalid. -/
  | InvalidTokenRoyalty (tokenId numerator denominator : U256)
  /-- The royalty receiver for a token is invalid. -/
  | InvalidTokenRoyaltyReceiver (tokenId : U256) (receiver : Address)
  deriving DecidableEq, Repr

/-- What an erased entry reads as. -/
def noInfo : RoyaltyInfo := ⟨0, 0⟩

/-- The contract after its constructor. -/
def deployed (feeDenominator : U96) : Erc2981 := ⟨noInfo, fun _ => noInfo, feeDenominator⟩

def _feeDenominator (self : Erc2981) : U96 := self.feeDenominator

/-- How much royalty is owed and to whom. -/
def royaltyInfo (self : Erc2981) (tokenId salePrice : U256) : Result Error (Address × U256) := do
  let info := self.tokenRoyaltyInfo tokenId
  let info := if info.receiver = 0 then self.defaultRoyaltyInfo else info
  let product ← expect (checkedMul salePrice (info.royaltyFraction.setWidth 256))
    "multiplication overflowed in `royalty_amount` calculation."
  let royaltyAmount ← expect (checkedDiv product (self._feeDenominator.setWidth 256))
    "division by zero in `royalty_amount` calculation."
  pure (info.receiver, royaltyAmount)

/-- Sets the royalty information that all ids in this contract will default to. -/
def _setDefaultRoyalty (self : Erc2981) (receiver : Address) (feeNumerator : U96) :
    Result Error Erc2981 :=
  let denominator := self._feeDenominator
  if feeNumerator > denominator then
    .err (.InvalidDefaultRoyalty (feeNumerator.setWidth 256) (denominator.setWidth 256))
  else if receiver = 0 then .err (.InvalidDefaultRoyaltyReceiver receiver)
  else pure { self with defaultRoyaltyInfo := ⟨receiver, feeNumerator⟩ }

/-- Removes default royalty information. -/
def _deleteDefaultRoyalty (self : Erc2981) : Erc2981 := { self with defaultRoyaltyInfo := noInfo }

/-- Sets the royalty information for a specific token, overriding the global default. -/
def _setTokenRoyalty (self : Erc2981) (tokenId : U256) (receiver : Address) (feeNumerator : U96) :
    Result Error Erc2981 :=
  let denominator := self._feeDenominator
  if feeNumerator > denominator then
    .err (.InvalidTokenRoyalty tokenId (feeNumerator.setWidth 256) (denominator.setWidth 256))
  else if receiver = 0 then .err (.InvalidTokenRoyaltyReceiver tokenId receiver)
  else pure { self with
    tokenRoyaltyInfo := Function.update self.tokenRoyaltyInfo tokenId ⟨receiver, feeNumerator⟩ }

/-- Resets royalty information for the token id back to the global default. -/
def _resetTokenRoyalty (self : Erc2981) (tokenId : U256) : Erc2981 :=
  { self with tokenRoyaltyInfo := Function.update self.tokenRoyaltyInfo tokenId noInfo }

/-! ### Operations -/

/-- The operations that change the contract. -/
inductive Op
  | setDefaultRoyalty (receiver : Address) (feeNumerator : U96)
  | deleteDefaultRoyalty
  | setTokenRoyalty (tokenId : U256) (receiver : Address) (feeNumerator : U96)
  | resetTokenRoyalty (tokenId : U256)
  deriving DecidableEq, Repr

def exec (self : Erc2981) : Op → Result Error Erc2981
  | .setDefaultRoyalty receiver feeNumerator => self._setDefaultRoyalty receiver feeNumerator
  | .deleteDefaultRoyalty => pure self._deleteDefaultRoyalty
  | .setTokenRoyalty tokenId receiver feeNumerator =>
    self._setTokenRoyalty tokenId receiver feeNumerator
  | .resetTokenRoyalty tokenId => pure (self._resetTokenRoyalty tokenId)

/-- The contract as a machine. -/
def machine : Machine Erc2981 Op (Revert Error) := ⟨exec⟩

/-! ### Entries -/

/-- The entry of a token, or the default one. -/
def entry (self : Erc2981) : Option U256 → RoyaltyInfo
  | none => self.defaultRoyaltyInfo
  | some tokenId => self.tokenRoyaltyInfo tokenId

namespace Op

/-- The entry that an operation writes. -/
def key : Op → Option U256
  | setDefaultRoyalty .. => none
  | deleteDefaultRoyalty => none
  | setTokenRoyalty tokenId .. => some tokenId
  | resetTokenRoyalty tokenId => some tokenId

/-- What it writes. -/
def info : Op → RoyaltyInfo
  | setDefaultRoyalty receiver feeNumerator => ⟨receiver, feeNumerator⟩
  | deleteDefaultRoyalty => noInfo
  | setTokenRoyalty _ receiver feeNumerator => ⟨receiver, feeNumerator⟩
  | resetTokenRoyalty _ => noInfo

/-- Whether an operation is accepted: what it sets is at most the whole price, for somebody. -/
def isValid (denominator : U96) : Op → Bool
  | setDefaultRoyalty receiver feeNumerator => feeNumerator ≤ denominator && receiver ≠ 0
  | deleteDefaultRoyalty => true
  | setTokenRoyalty _ receiver feeNumerator => feeNumerator ≤ denominator && receiver ≠ 0
  | resetTokenRoyalty _ => true

end Op

/-- The contract with the entry of an operation. -/
def write (self : Erc2981) (op : Op) : Erc2981 :=
  match op.key with
  | none => { self with defaultRoyaltyInfo := op.info }
  | some tokenId =>
    { self with tokenRoyaltyInfo := Function.update self.tokenRoyaltyInfo tokenId op.info }

variable {self self' : Erc2981} {op : Op} {d : U96} {ops : List Op}

theorem feeDenominator_write (self : Erc2981) (op : Op) :
    (self.write op).feeDenominator = self.feeDenominator := by
  rw [write]
  cases op.key <;> rfl

/-- An operation writes the one entry that it names. -/
theorem writes_write : LastWrite.Writes write entry Op.key Op.info := by
  intro self op
  funext k
  rw [write]
  cases op.key with
  | none => cases k <;> rfl
  | some tokenId =>
    cases k with
    | none => rfl
    | some id =>
      simp only [entry, Function.update_apply, Option.some_inj]

/-- The checks of a receiver and a fraction. -/
theorem checked_eq_ok {receiver : Address} {feeNumerator : U96} {e e' : Error} {t : Erc2981} :
    (if feeNumerator > d then Result.err e else if receiver = 0 then Result.err e' else pure t) =
        .ok self' ↔ (feeNumerator ≤ d && receiver ≠ 0 : Bool) = true ∧ self' = t := by
  rw [guard_eq_ok, guard_eq_ok, pure_eq_ok, Bool.and_eq_true, decide_eq_true_iff,
    decide_eq_true_iff, gt_iff_lt, BitVec.not_lt, and_assoc, eq_comm (a := self')]

/-- **Which operations are accepted**, and what they write. -/
theorem exec_eq_ok :
    self.exec op = .ok self' ↔ op.isValid self.feeDenominator = true ∧ self' = self.write op := by
  cases op with
  | setDefaultRoyalty receiver feeNumerator => exact checked_eq_ok
  | deleteDefaultRoyalty => exact pure_eq_ok.trans ⟨fun h => ⟨rfl, h.symm⟩, fun h => h.2.symm⟩
  | setTokenRoyalty tokenId receiver feeNumerator => exact checked_eq_ok
  | resetTokenRoyalty tokenId =>
    exact pure_eq_ok.trans ⟨fun h => ⟨rfl, h.symm⟩, fun h => h.2.symm⟩

theorem step_eq (self : Erc2981) (op : Op) :
    machine.step self op = if op.isValid self.feeDenominator then self.write op else self := by
  split
  · rename_i hvalid
    exact Machine.step_of_ok (exec_eq_ok.mpr ⟨hvalid, rfl⟩)
  · rename_i hvalid
    rcases machine.step_cases self op with ⟨s', hexec, -⟩ | hstep
    · exact absurd (exec_eq_ok.mp hexec).1 hvalid
    · exact hstep

/-! ### Runs -/

/-- A run writes what its accepted operations write. -/
theorem run_eq (h : self.feeDenominator = d) :
    machine.run self ops = (ops.filter (Op.isValid d)).foldl write self := by
  induction ops generalizing self with
  | nil => rfl
  | cons op ops ih =>
    rw [Machine.run_cons, step_eq, List.filter_cons, h]
    split
    · exact ih ((feeDenominator_write self op).trans h)
    · exact ih h

theorem feeDenominator_run (self : Erc2981) (ops : List Op) :
    (machine.run self ops).feeDenominator = self.feeDenominator := by
  have hstep : ∀ s s', ∀ op ∈ ops, s.feeDenominator = self.feeDenominator →
      machine.exec s op = .ok s' → s'.feeDenominator = self.feeDenominator := by
    intro s s' op _ hs hexec
    rw [(exec_eq_ok.mp hexec).2, feeDenominator_write, hs]
  exact machine.run_invariant hstep rfl

/-- The entry that the last accepted operation on it has left. -/
def lastInfo (d : U96) (ops : List Op) (k : Option U256) : RoyaltyInfo :=
  (LastWrite.lastWrite Op.key Op.info k (ops.filter (Op.isValid d))).getD noInfo

/-- The entry that counts for a token. -/
def effective (d : U96) (ops : List Op) (tokenId : U256) : RoyaltyInfo :=
  if (lastInfo d ops (some tokenId)).receiver = 0 then lastInfo d ops none
  else lastInfo d ops (some tokenId)

/-- **The entries after a run** are those of the last accepted operations. -/
theorem entry_run (d : U96) (ops : List Op) (k : Option U256) :
    (machine.run (deployed d) ops).entry k = lastInfo d ops k := by
  rw [run_eq rfl, writes_write.read_foldl]
  cases k <;> rfl

/-- An entry without a receiver has no fraction, and no fraction is more than all. -/
def InOrder (d : U96) (info : RoyaltyInfo) : Prop :=
  info.royaltyFraction ≤ d ∧ (info.receiver = 0 → info.royaltyFraction = 0)

theorem inOrder_noInfo (d : U96) : InOrder d noInfo := ⟨Nat.zero_le _, fun _ => rfl⟩

theorem Op.inOrder_info (h : op.isValid d = true) : InOrder d op.info := by
  cases op with
  | setDefaultRoyalty receiver feeNumerator =>
    obtain ⟨hle, hne⟩ := Bool.and_eq_true_iff.mp h
    exact ⟨of_decide_eq_true hle, fun hzero => absurd hzero (of_decide_eq_true hne)⟩
  | deleteDefaultRoyalty => exact inOrder_noInfo d
  | setTokenRoyalty tokenId receiver feeNumerator =>
    obtain ⟨hle, hne⟩ := Bool.and_eq_true_iff.mp h
    exact ⟨of_decide_eq_true hle, fun hzero => absurd hzero (of_decide_eq_true hne)⟩
  | resetTokenRoyalty tokenId => exact inOrder_noInfo d

theorem inOrder_lastInfo (d : U96) (ops : List Op) (k : Option U256) :
    InOrder d (lastInfo d ops k) := by
  rw [lastInfo]
  cases h : LastWrite.lastWrite Op.key Op.info k (ops.filter (Op.isValid d)) with
  | none => exact inOrder_noInfo d
  | some info =>
    obtain ⟨before, op, after, heq, -, rfl, -⟩ := LastWrite.lastWrite_eq_some.mp h
    have hmem : op ∈ ops.filter (Op.isValid d) := by simp [heq]
    exact Op.inOrder_info (List.mem_filter.mp hmem).2

/-! ### What is owed -/

/-- The entry that is read for a token. -/
def infoOf (self : Erc2981) (tokenId : U256) : RoyaltyInfo :=
  if (self.entry (some tokenId)).receiver = 0 then self.entry none else self.entry (some tokenId)

theorem infoOf_run (d : U96) (ops : List Op) (tokenId : U256) :
    (machine.run (deployed d) ops).infoOf tokenId = effective d ops tokenId := by
  rw [infoOf, entry_run, entry_run, effective]

theorem inOrder_effective (d : U96) (ops : List Op) (tokenId : U256) :
    InOrder d (effective d ops tokenId) := by
  rw [effective]
  split
  · exact inOrder_lastInfo d ops none
  · exact inOrder_lastInfo d ops (some tokenId)

/-- **What is owed**: the product and the quotient of unbounded numbers, when the product fits and
there is a denominator. -/
theorem royaltyInfo_eq_ok {tokenId salePrice amount : U256} {receiver : Address} :
    self.royaltyInfo tokenId salePrice = .ok (receiver, amount) ↔
      receiver = (self.infoOf tokenId).receiver ∧ self.feeDenominator ≠ 0 ∧
        salePrice.toNat * (self.infoOf tokenId).royaltyFraction.toNat < 2 ^ 256 ∧
        amount.toNat = salePrice.toNat * (self.infoOf tokenId).royaltyFraction.toNat /
          self.feeDenominator.toNat := by
  have hwide : ∀ x : U96, (x.setWidth 256).toNat = x.toNat := fun x =>
    BitVec.toNat_setWidth_of_le (by decide)
  have hzero : self.feeDenominator.setWidth 256 = 0 ↔ self.feeDenominator = 0 := by
    rw [← BitVec.toNat_inj, ← BitVec.toNat_inj, hwide]
    rfl
  show (expect (checkedMul salePrice ((self.infoOf tokenId).royaltyFraction.setWidth 256)) _ >>=
    fun product => _) = _ ↔ _
  simp only [bind_eq_ok, expect_eq_ok, checkedMul_eq_some, hwide, checkedDiv, pure_eq_ok,
    _feeDenominator, Prod.mk.injEq, hzero]
  constructor
  · rintro ⟨product, hproduct, quotient, hquotient, rfl, rfl⟩
    split at hquotient
    · exact absurd hquotient.symm (Option.some_ne_none _)
    · rename_i hne
      obtain rfl := Option.some_inj.mp hquotient
      refine ⟨rfl, hne, hproduct ▸ product.isLt, ?_⟩
      rw [BitVec.toNat_udiv, hproduct, hwide]
  · rintro ⟨rfl, hne, hlt, hamount⟩
    have hproduct : (BitVec.ofNat 256 (salePrice.toNat *
        (self.infoOf tokenId).royaltyFraction.toNat)).toNat =
          salePrice.toNat * (self.infoOf tokenId).royaltyFraction.toNat := by
      rw [BitVec.toNat_ofNat, Nat.mod_eq_of_lt hlt]
    refine ⟨_, hproduct, amount, ?_, rfl, rfl⟩
    rw [if_neg hne, Option.some_inj, ← BitVec.toNat_inj, BitVec.toNat_udiv, hproduct, hwide,
      hamount]

/-- **Royalties**, for every denominator and every run of the operations. What is owed for a token
is the fraction of the last accepted operation on its entry, or on the default entry when that left
no receiver, of the price. It is never more than the price, it is nothing when there is no receiver,
and there is an answer exactly when there is a denominator and the product fits a word. -/
theorem royalties_run (d : U96) (ops : List Op) (tokenId salePrice : U256) :
    (∀ receiver amount,
      (machine.run (deployed d) ops).royaltyInfo tokenId salePrice = .ok (receiver, amount) ↔
        receiver = (effective d ops tokenId).receiver ∧ d ≠ 0 ∧
          salePrice.toNat * (effective d ops tokenId).royaltyFraction.toNat < 2 ^ 256 ∧
          amount.toNat = salePrice.toNat * (effective d ops tokenId).royaltyFraction.toNat /
            d.toNat) ∧
    ∀ receiver amount,
      (machine.run (deployed d) ops).royaltyInfo tokenId salePrice = .ok (receiver, amount) →
        amount ≤ salePrice ∧ (receiver = 0 → amount = 0) := by
  have hiff : ∀ receiver amount,
      (machine.run (deployed d) ops).royaltyInfo tokenId salePrice = .ok (receiver, amount) ↔ _ :=
    fun receiver amount => royaltyInfo_eq_ok
  simp only [infoOf_run, feeDenominator_run] at hiff
  refine ⟨hiff, fun receiver amount h => ?_⟩
  obtain ⟨rfl, -, -, hamount⟩ := (hiff receiver amount).mp h
  obtain ⟨hle, hnone⟩ := inOrder_effective d ops tokenId
  constructor
  · rw [BitVec.le_def, hamount]
    refine Nat.div_le_of_le_mul ?_
    rw [mul_comm]
    exact Nat.mul_le_mul_right _ hle
  · intro hzero
    refine BitVec.eq_of_toNat_eq ?_
    rw [hamount, hnone hzero]
    exact Nat.zero_div _

end Erc2981

end ContractsStylus
