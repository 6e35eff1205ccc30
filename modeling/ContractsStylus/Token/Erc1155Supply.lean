import ContractsStylus.Token.Erc1155

/-!
# ERC-1155 with supplies

The extension that keeps the total supply of each token id and of all ids together. Both are
updated after the balances, in loops of their own: additions are checked, subtractions and the
sum of a batch are not.

The supply of an id is always the sum of its balances. The supply of all ids is the sum of the
supplies as long as the values of every batch that is minted have a sum that fits a word: the sum
of a batch is taken with wrapping additions before it is added with a check.

## Unchecked sums

The proof that the supply of an id is exact needs no assumption on the values. Each addition to it
is checked, and a subtraction cannot wrap because the balances were lowered by as much before and
are no more than the supply.

The supply of all ids goes by the sum of a batch, and that sum wraps. A batch whose values have a
sum that fits a word keeps it exact, and for a mint the condition is also necessary: this is where
the source promises more than it does. Burns need no condition of their own, since the values of a
burn are no more than the supplies of their ids.

## Main definitions

* `Erc1155Supply._update` — `Erc1155._update`, then the supplies
* `Erc1155Supply.exec` — the calls, with receivers that may call back
* `Erc1155Supply.PerIdExact`, `Erc1155Supply.GlobalExact` — what the supplies should be

## Main results

* `Erc1155Supply.totalSupply_exact` — the supply of each id, in every run
* `Erc1155Supply.totalSupplyAll_exact` — the supply of all ids, in the runs whose batches fit
* `Erc1155Supply.totalSupplyAll_wraps` — a batch that does not fit
-/

namespace ContractsStylus

open Erc1155 (Error Tx ReceiverCall batch doMint_eq_ok doBurn_eq_ok
  doSafeTransferFrom_eq_ok)

/-- State of an ERC-1155 token that tracks its supplies. -/
structure Erc1155Supply where
  erc1155 : Erc1155
  /-- The supply of each token id. -/
  totalSupply : StorageMap U256 U256
  /-- The supply of all token ids. -/
  totalSupplyAll : U256

namespace Erc1155Supply

/-- The contract after deployment. -/
def empty : Erc1155Supply := ⟨Erc1155.empty, fun _ => 0, 0⟩

def balanceOf (self : Erc1155Supply) (account : Address) (id : U256) : U256 :=
  self.erc1155.balanceOf account id

/-- `exists`. -/
def exists_ (self : Erc1155Supply) (id : U256) : Bool := decide (self.totalSupply id > 0)

/-- The body of the loop over a mint. -/
def addTotalSupply (totalSupply : StorageMap U256 U256) (p : U256 × U256) :
    Result Error (StorageMap U256 U256) := do
  let supply ← addAssignChecked (totalSupply p.1) p.2
    "should not exceed `U256::MAX` for `total_supply`"
  pure (Function.update totalSupply p.1 supply)

/-- The body of the loop over a burn. -/
def subTotalSupply (totalSupply : StorageMap U256 U256) (p : U256 × U256) :
    StorageMap U256 U256 :=
  Function.update totalSupply p.1 (totalSupply p.1 - p.2)

/-- The block of `_update` for a zero sender. -/
def mintSupply (self : Erc1155Supply) (tokenIds values : List U256) :
    Result Error Erc1155Supply := do
  let totalSupply ← (tokenIds.zip values).foldlM addTotalSupply self.totalSupply
  let totalMintValue := values.sum
  let totalSupplyAll ← addAssignChecked self.totalSupplyAll totalMintValue
    "should not exceed `U256::MAX` for `total_supply_all`"
  pure { self with totalSupply, totalSupplyAll }

/-- The block of `_update` for a zero recipient. -/
def burnSupply (self : Erc1155Supply) (tokenIds values : List U256) : Erc1155Supply :=
  let totalSupply := (tokenIds.zip values).foldl subTotalSupply self.totalSupply
  let totalBurnValue := values.sum
  { self with totalSupply, totalSupplyAll := self.totalSupplyAll - totalBurnValue }

def _update (self : Erc1155Supply) (src dst : Address) (tokenIds values : List U256) :
    Result Error Erc1155Supply := do
  let erc1155 ← self.erc1155._update src dst tokenIds values
  let self := { self with erc1155 }
  let self ← (if src = 0 then self.mintSupply tokenIds values else .ok self)
  pure (if dst = 0 then self.burnSupply tokenIds values else self)

/-! ### Calls

The calls of the base contract with `_update` of this one in its place. They ask the same receivers
at the same points, with the supplies changed by then. -/

def _updateWithAcceptanceCheck :=
  Erc1155.updateWithAcceptanceCheck _update

def _doMint := Erc1155.doMint _update

def _doBurn := Erc1155.doBurn _update

def doSafeTransferFrom := Erc1155.doSafeTransferFrom _update

def _mint (env : Env ReceiverCall Erc1155Supply) (self : Erc1155Supply) (dst : Address)
    (id value : U256) (data : Bytes) : Result Error Erc1155Supply :=
  _doMint env self dst [id] [value] data

def _mintBatch (env : Env ReceiverCall Erc1155Supply) (self : Erc1155Supply) (dst : Address)
    (ids values : List U256) (data : Bytes) : Result Error Erc1155Supply :=
  _doMint env self dst ids values data

def _burn (env : Env ReceiverCall Erc1155Supply) (self : Erc1155Supply) (src : Address)
    (id value : U256) : Result Error Erc1155Supply :=
  _doBurn env self src [id] [value]

def _burnBatch (env : Env ReceiverCall Erc1155Supply) (self : Erc1155Supply) (src : Address)
    (ids values : List U256) : Result Error Erc1155Supply :=
  _doBurn env self src ids values

def safeTransferFrom (env : Env ReceiverCall Erc1155Supply) (self : Erc1155Supply)
    (src dst : Address) (id value : U256) (data : Bytes) : Result Error Erc1155Supply := do
  self.erc1155.authorizeTransfer env.sender src
  doSafeTransferFrom env self src dst [id] [value] data

def safeBatchTransferFrom (env : Env ReceiverCall Erc1155Supply) (self : Erc1155Supply)
    (src dst : Address) (ids values : List U256) (data : Bytes) : Result Error Erc1155Supply := do
  self.erc1155.authorizeTransfer env.sender src
  doSafeTransferFrom env self src dst ids values data

def setApprovalForAll (env : Env ReceiverCall Erc1155Supply) (self : Erc1155Supply)
    (operator : Address) (approved : Bool) : Result Error Erc1155Supply := do
  let erc1155 ← self.erc1155._setApprovalForAll env.sender operator approved
  pure { self with erc1155 }

/-- One call. -/
def exec (tx : Tx) (receivers : Reentrant.Callback ReceiverCall Erc1155Supply B32 CallError)
    (self : Erc1155Supply) : Result Error Erc1155Supply :=
  let env : Env ReceiverCall Erc1155Supply := ⟨tx.sender, tx.hasCode, receivers⟩
  match tx.op with
  | .mint dst id value data => _mint env self dst id value data
  | .mintBatch dst ids values data => _mintBatch env self dst ids values data
  | .burn src id value => _burn env self src id value
  | .burnBatch src ids values => _burnBatch env self src ids values
  | .safeTransferFrom src dst id value data => safeTransferFrom env self src dst id value data
  | .safeBatchTransferFrom src dst ids values data =>
    safeBatchTransferFrom env self src dst ids values data
  | .setApprovalForAll operator approved => setApprovalForAll env self operator approved

/-- **What a call that succeeds has done**: changed approvals, or updated balances and supplies
and then, perhaps, asked a receiver. -/
theorem exec_eq_ok {tx : Tx}
    {receivers : Reentrant.Callback ReceiverCall Erc1155Supply B32 CallError}
    {s s' : Erc1155Supply} (h : exec tx receivers s = .ok s') :
    (∃ operatorApprovals,
      s' = { s with erc1155 := { s.erc1155 with operatorApprovals := operatorApprovals } }) ∨
    ∃ src dst ids values t, s._update src dst ids values = .ok t ∧ (src ≠ 0 ∨ dst ≠ 0) ∧
      (src = 0 → values = tx.op.minted) ∧
      Asked receivers t s' := by
  rcases tx with ⟨sender, hasCode, op⟩
  cases op with
  | mint dst id value data =>
    obtain ⟨hdst, t, ht, hs'⟩ := doMint_eq_ok h
    exact Or.inr ⟨0, dst, _, _, t, ht, Or.inr hdst, fun _ => rfl, hs'⟩
  | mintBatch dst ids values data =>
    obtain ⟨hdst, t, ht, hs'⟩ := doMint_eq_ok h
    exact Or.inr ⟨0, dst, _, _, t, ht, Or.inr hdst, fun _ => rfl, hs'⟩
  | burn src id value =>
    obtain ⟨hsrc, t, ht, hs'⟩ := doBurn_eq_ok h
    exact Or.inr ⟨src, 0, _, _, t, ht, Or.inl hsrc, fun h => absurd h hsrc, hs'⟩
  | burnBatch src ids values =>
    obtain ⟨hsrc, t, ht, hs'⟩ := doBurn_eq_ok h
    exact Or.inr ⟨src, 0, _, _, t, ht, Or.inl hsrc, fun h => absurd h hsrc, hs'⟩
  | safeTransferFrom src dst id value data =>
    obtain ⟨-, -, h⟩ := bind_eq_ok.mp h
    obtain ⟨hsrc, t, ht, hs'⟩ := doSafeTransferFrom_eq_ok h
    exact Or.inr ⟨src, dst, _, _, t, ht, Or.inl hsrc, fun h => absurd h hsrc, hs'⟩
  | safeBatchTransferFrom src dst ids values data =>
    obtain ⟨-, -, h⟩ := bind_eq_ok.mp h
    obtain ⟨hsrc, t, ht, hs'⟩ := doSafeTransferFrom_eq_ok h
    exact Or.inr ⟨src, dst, _, _, t, ht, Or.inl hsrc, fun h => absurd h hsrc, hs'⟩
  | setApprovalForAll operator approved =>
    obtain ⟨erc1155, herc1155, h⟩ := bind_eq_ok.mp h
    obtain ⟨-, herc1155⟩ := guard_eq_ok.mp herc1155
    obtain rfl := Except.ok.inj herc1155
    exact Or.inl ⟨_, (pure_eq_ok.mp h).symm⟩

/-! ### The loops over the supplies

An id can be in a batch more than once, so what a loop does to one supply is an amount that is
summed up over the batch. -/

/-- The loop over a mint adds what the batch holds for each id. -/
theorem toNat_foldlM_addTotalSupply (pairs : List (U256 × U256)) (id : U256) :
    ∀ {m m' : StorageMap U256 U256}, pairs.foldlM addTotalSupply m = .ok m' →
      (m' id).toNat = (m id).toNat + Tally.amount (pairs.map fun p => (p.1, p.2.toNat)) id := by
  induction pairs with
  | nil => rintro m m' ⟨⟩; simp
  | cons p pairs ih =>
    intro m m' h
    rw [List.foldlM_cons] at h
    obtain ⟨mid, hmid, h⟩ := bind_eq_ok.mp h
    obtain ⟨supply, hsupply, hmid⟩ := bind_eq_ok.mp hmid
    rw [addAssignChecked_eq_ok] at hsupply
    obtain rfl := pure_eq_ok.mp hmid
    rw [ih h, List.map_cons, Tally.amount_cons, Function.update_apply]
    rcases eq_or_ne p.1 id with rfl | hne
    · rw [if_pos rfl, if_pos rfl, hsupply]
      omega
    · rw [if_neg hne.symm, if_neg hne]
      omega

/-- The loop over a burn subtracts what the batch holds for each id, if that is there. -/
theorem toNat_foldl_subTotalSupply (pairs : List (U256 × U256)) (id : U256) :
    ∀ {m : StorageMap U256 U256},
      (Tally.amount (pairs.map fun p => (p.1, p.2.toNat)) id ≤ (m id).toNat) →
        (pairs.foldl subTotalSupply m id).toNat +
          Tally.amount (pairs.map fun p => (p.1, p.2.toNat)) id = (m id).toNat := by
  induction pairs with
  | nil => simp
  | cons p pairs ih =>
    intro m hle
    simp only [List.map_cons, Tally.amount_cons, List.foldl_cons] at hle ⊢
    have hstep : (subTotalSupply m p id).toNat + (if p.1 = id then p.2.toNat else 0) =
        (m id).toNat := by
      rw [subTotalSupply, Function.update_apply]
      rcases eq_or_ne p.1 id with rfl | hne
      · rw [if_pos rfl] at hle ⊢
        rw [if_pos rfl]
        exact BitVec.toNat_sub_add_cancel (by omega)
      · rw [if_neg hne.symm, if_neg hne]
        omega
    have hrest := ih (m := subTotalSupply m p) (by omega)
    omega

/-! ### What the supplies should be

A mint is an update from the zero address, a burn one to it, and what is neither leaves the supplies
alone. That a burn is covered by the supplies is known from the base contract, which has taken the
same amounts from the balances. -/

/-- The supply of an id is the sum of its balances. -/
def PerIdExact (self : Erc1155Supply) : Prop :=
  ∀ id, (self.totalSupply id).toNat = self.erc1155.held id

/-- The supply of all ids is the sum of the supplies. -/
def GlobalExact (self : Erc1155Supply) : Prop :=
  self.totalSupplyAll.toNat = ∑ id, (self.totalSupply id).toNat

/-- What `_update` does to the supplies when it mints. -/
theorem update_mint {s s' : Erc1155Supply} {dst : Address} {ids values : List U256}
    (h : s._update 0 dst ids values = .ok s') (hdst : dst ≠ 0) :
    s.erc1155._update 0 dst ids values = .ok s'.erc1155 ∧
      (∀ id, (s'.totalSupply id).toNat =
        (s.totalSupply id).toNat + Tally.amount (batch ids values) id) ∧
      s'.totalSupplyAll.toNat = s.totalSupplyAll.toNat + values.sum.toNat := by
  obtain ⟨erc1155, hbase, h⟩ := bind_eq_ok.mp h
  obtain ⟨mid, hmid, h⟩ := bind_eq_ok.mp h
  rw [if_neg hdst] at h
  obtain rfl := pure_eq_ok.mp h
  rw [if_pos rfl] at hmid
  obtain ⟨totalSupply, hloop, hmid⟩ := bind_eq_ok.mp hmid
  obtain ⟨totalSupplyAll, hall, hmid⟩ := bind_eq_ok.mp hmid
  rw [addAssignChecked_eq_ok] at hall
  obtain rfl := pure_eq_ok.mp hmid
  exact ⟨hbase, fun id => toNat_foldlM_addTotalSupply _ id hloop, hall⟩

/-- What `_update` does when it burns. -/
theorem update_burn {s s' : Erc1155Supply} {src : Address} {ids values : List U256}
    (h : s._update src 0 ids values = .ok s') (hsrc : src ≠ 0) :
    s.erc1155._update src 0 ids values = .ok s'.erc1155 ∧
      s'.totalSupply = (ids.zip values).foldl subTotalSupply s.totalSupply ∧
      s'.totalSupplyAll = s.totalSupplyAll - values.sum := by
  obtain ⟨erc1155, hbase, h⟩ := bind_eq_ok.mp h
  obtain ⟨mid, hmid, h⟩ := bind_eq_ok.mp h
  rw [if_neg hsrc] at hmid
  obtain rfl := Except.ok.inj hmid
  rw [if_pos rfl] at h
  obtain rfl := pure_eq_ok.mp h
  exact ⟨hbase, rfl, rfl⟩

/-- What `_update` does when it neither mints nor burns. -/
theorem update_transfer {s s' : Erc1155Supply} {src dst : Address} {ids values : List U256}
    (h : s._update src dst ids values = .ok s') (hsrc : src ≠ 0) (hdst : dst ≠ 0) :
    s.erc1155._update src dst ids values = .ok s'.erc1155 ∧
      s'.totalSupply = s.totalSupply ∧ s'.totalSupplyAll = s.totalSupplyAll := by
  obtain ⟨erc1155, hbase, h⟩ := bind_eq_ok.mp h
  obtain ⟨mid, hmid, h⟩ := bind_eq_ok.mp h
  rw [if_neg hsrc] at hmid
  obtain rfl := Except.ok.inj hmid
  rw [if_neg hdst] at h
  obtain rfl := pure_eq_ok.mp h
  exact ⟨hbase, rfl, rfl⟩

/-- A burn that the base contract accepts is covered by the supply of each id. -/
theorem amount_le_totalSupply {s : Erc1155Supply} {erc1155 : Erc1155} {src : Address}
    {ids values : List U256} (hinv : s.PerIdExact) (hsrc : src ≠ 0)
    (h : s.erc1155._update src 0 ids values = .ok erc1155) (id : U256) :
    Tally.amount (batch ids values) id ≤ (s.totalSupply id).toNat := by
  have hheld := Erc1155.held_update h id
  rw [if_pos hsrc, if_neg (by simp), Nat.add_zero, ← hinv id] at hheld
  omega

/-- **`_update` keeps the supply of each id exact.** -/
theorem perIdExact_update {s s' : Erc1155Supply} {src dst : Address} {ids values : List U256}
    (hinv : s.PerIdExact) (h : s._update src dst ids values = .ok s') (hne : src ≠ 0 ∨ dst ≠ 0) :
    s'.PerIdExact := by
  intro id
  rcases eq_or_ne src 0 with rfl | hsrc
  · have hdst : dst ≠ 0 := hne.resolve_left (by simp)
    obtain ⟨hbase, hsupply, -⟩ := update_mint h hdst
    have hheld := Erc1155.held_update hbase id
    rw [if_neg (by simp), if_pos hdst, Nat.add_zero] at hheld
    rw [hsupply, hinv id, hheld]
  rcases eq_or_ne dst 0 with rfl | hdst
  · obtain ⟨hbase, hsupply, -⟩ := update_burn h hsrc
    have hheld := Erc1155.held_update hbase id
    rw [if_pos hsrc, if_neg (by simp), Nat.add_zero, ← hinv id] at hheld
    have hloop := toNat_foldl_subTotalSupply (ids.zip values) id
      (amount_le_totalSupply hinv hsrc hbase id)
    rw [← hsupply] at hloop
    exact Nat.add_right_cancel (hloop.trans hheld.symm)
  · obtain ⟨hbase, hsupply, -⟩ := update_transfer h hsrc hdst
    have hheld := Erc1155.held_update hbase id
    rw [if_pos hsrc, if_pos hdst] at hheld
    rw [hsupply, hinv id]
    omega

/-! ### The supply of all ids

The source adds the sum of a batch in one step. `globalExact_mint_iff` is the place where it matters
that this sum may wrap. -/

/-- A mint keeps the supply of all ids exact when, and only when, the values of its batch have a
sum that fits a word. -/
theorem globalExact_mint_iff {s s' : Erc1155Supply} {dst : Address} {ids values : List U256}
    (hglobal : s.GlobalExact) (h : s._update 0 dst ids values = .ok s') (hdst : dst ≠ 0) :
    s'.GlobalExact ↔ (values.map BitVec.toNat).sum < 2 ^ 256 := by
  obtain ⟨hbase, hsupply, hall⟩ := update_mint h hdst
  rw [GlobalExact, hall, hglobal, Tally.sum_add_amount hsupply, batch, List.map_map,
    show (Prod.snd ∘ fun p : U256 × U256 => (p.1, p.2.toNat)) = BitVec.toNat ∘ Prod.snd from rfl,
    ← List.map_map, List.map_snd_zip (Erc1155.length_of_update hbase).ge, BitVec.toNat_sum]
  have hlt := Nat.mod_lt (values.map BitVec.toNat).sum (show 2 ^ 256 > 0 by decide)
  constructor
  · intro heq
    omega
  · intro hfits
    rw [Nat.mod_eq_of_lt hfits]

/-- The values of a burn that the base contract accepts are covered by the supply of all ids, and
so are their sum as the code takes it. -/
theorem sum_le_totalSupplyAll {s : Erc1155Supply} {erc1155 : Erc1155} {src : Address}
    {ids values : List U256} (hinv : s.PerIdExact) (hglobal : s.GlobalExact) (hsrc : src ≠ 0)
    (h : s.erc1155._update src 0 ids values = .ok erc1155) :
    values.sum.toNat = (values.map BitVec.toNat).sum ∧ values.sum ≤ s.totalSupplyAll := by
  have hle : (values.map BitVec.toNat).sum ≤ s.totalSupplyAll.toNat := by
    rw [← Erc1155.sum_amount_batch (Erc1155.length_of_update h), hglobal]
    exact Finset.sum_le_sum fun id _ => amount_le_totalSupply hinv hsrc h id
  have hsum : values.sum.toNat = (values.map BitVec.toNat).sum := by
    rw [BitVec.toNat_sum, Nat.mod_eq_of_lt (hle.trans_lt s.totalSupplyAll.isLt)]
  exact ⟨hsum, BitVec.le_def.mpr (hsum.trans_le hle)⟩

/-- **`_update` keeps the supply of all ids exact**, unless it mints a batch that does not fit. -/
theorem globalExact_update {s s' : Erc1155Supply} {src dst : Address} {ids values : List U256}
    (hinv : s.PerIdExact) (hglobal : s.GlobalExact) (h : s._update src dst ids values = .ok s')
    (hne : src ≠ 0 ∨ dst ≠ 0) (hfits : src = 0 → (values.map BitVec.toNat).sum < 2 ^ 256) :
    s'.GlobalExact := by
  rcases eq_or_ne src 0 with rfl | hsrc
  · exact (globalExact_mint_iff hglobal h (hne.resolve_left (by simp))).mpr (hfits rfl)
  rcases eq_or_ne dst 0 with rfl | hdst
  · obtain ⟨hbase, hsupply, hall⟩ := update_burn h hsrc
    obtain ⟨hsum, hle⟩ := sum_le_totalSupplyAll hinv hglobal hsrc hbase
    have hloop (id : U256) := toNat_foldl_subTotalSupply (ids.zip values) id
      (amount_le_totalSupply hinv hsrc hbase id)
    have htotal : ∑ id, (s.totalSupply id).toNat =
        ∑ id, (s'.totalSupply id).toNat + (values.map BitVec.toNat).sum := by
      rw [← Erc1155.sum_amount_batch (Erc1155.length_of_update hbase), ← Finset.sum_add_distrib]
      exact Finset.sum_congr rfl fun id _ => by rw [hsupply]; exact (hloop id).symm
    have hsub := BitVec.toNat_sub_add_cancel (BitVec.le_def.mp hle)
    rw [GlobalExact, hall]
    rw [GlobalExact] at hglobal
    omega
  · obtain ⟨-, hsupply, hall⟩ := update_transfer h hsrc hdst
    rw [GlobalExact, hsupply, hall]
    exact hglobal

/-! ### Runs

Receivers are called in the middle of calls and may call the contract again, so a run is one with
callbacks; the two invariants hold whenever a receiver is asked. -/

/-- The calls of a run, each with the contract it is made in. -/
abbrev Run (P : Erc1155Supply → Tx → Prop) : Erc1155Supply → Erc1155Supply → Prop :=
  Reentrant.Run exec P

theorem perIdExact_empty : empty.PerIdExact := fun _ => by
  simp [empty, Erc1155.empty, Erc1155.held, Erc1155.balanceOf]

theorem globalExact_empty : empty.GlobalExact := by simp [empty, GlobalExact]

theorem perIdExact_run {P : Erc1155Supply → Tx → Prop} {s : Erc1155Supply} (h : Run P empty s) :
    s.PerIdExact := by
  refine Reentrant.Run.invariant h ?_ perIdExact_empty
  intro tx receivers t v hinv _ hcalls hexec
  rcases exec_eq_ok hexec with ⟨operatorApprovals, rfl⟩ | ⟨src, dst, ids, values, u, hu, hne, -, hv⟩
  · exact hinv
  · have hu := perIdExact_update hinv hu hne
    rcases hv with rfl | ⟨call, b, hcall⟩
    · exact hu
    · exact hcalls _ _ _ _ hcall hu

/-- The values that a call mints have a sum that fits a word. -/
def MintFits (tx : Tx) : Prop := (tx.op.minted.map BitVec.toNat).sum < 2 ^ 256

/-- Both supplies are what they should be. -/
structure Exact (s : Erc1155Supply) : Prop where
  perId : s.PerIdExact
  global : s.GlobalExact

theorem exact_run {s : Erc1155Supply} (h : Run (fun _ => MintFits) empty s) : s.Exact := by
  refine Reentrant.Run.invariant h ?_ ⟨perIdExact_empty, globalExact_empty⟩
  intro tx receivers t v hinv hfits hcalls hexec
  rcases exec_eq_ok hexec with ⟨operatorApprovals, rfl⟩ |
    ⟨src, dst, ids, values, u, hu, hne, hminted, hv⟩
  · exact ⟨hinv.perId, hinv.global⟩
  · have hu : u.Exact := ⟨perIdExact_update hinv.perId hu hne,
      globalExact_update hinv.perId hinv.global hu hne fun hsrc => hminted hsrc ▸ hfits⟩
    rcases hv with rfl | ⟨call, b, hcall⟩
    · exact hu
    · exact hcalls _ _ _ _ hcall hu

/-- **The supply of each id is exact**, in every run, whatever the receivers do: it is the sum of
the balances, it is positive when somebody holds something, and in the loop over a burn no
subtraction wraps. -/
theorem totalSupply_exact {s : Erc1155Supply} (h : Run (fun _ _ => True) empty s) :
    (∀ id, (s.totalSupply id).toNat = ∑ account, (s.balanceOf account id).toNat) ∧
    (∀ account id, s.balanceOf account id ≤ s.totalSupply id) ∧
    (∀ id, s.exists_ id = true ↔ ∃ account, s.balanceOf account id ≠ 0) ∧
    ∀ src ids values erc1155, src ≠ 0 → s.erc1155._update src 0 ids values = .ok erc1155 →
      ∀ before p after, ids.zip values = before ++ p :: after →
        p.2 ≤ before.foldl subTotalSupply s.totalSupply p.1 := by
  have hinv := perIdExact_run h
  refine ⟨hinv, fun account id => ?_, fun id => ?_, ?_⟩
  · rw [BitVec.le_def, hinv id]
    exact s.erc1155.balanceOf_le_held account id
  · rw [exists_, decide_eq_true_iff, gt_iff_lt, BitVec.lt_def, hinv id]
    exact s.erc1155.held_pos_iff id
  · intro src ids values erc1155 hsrc hburn before p after hzip
    have hle := amount_le_totalSupply hinv hsrc hburn p.1
    rw [batch, hzip, List.map_append, Tally.amount_append, List.map_cons, Tally.amount_cons,
      if_pos rfl] at hle
    have hloop := toNat_foldl_subTotalSupply before p.1 (m := s.totalSupply) (by omega)
    rw [BitVec.le_def]
    omega

theorem noErr_update_mint (s : Erc1155Supply) {dst : Address} {ids values : List U256}
    (hlen : ids.length = values.length) : (s._update 0 dst ids values).NoErr := by
  refine Result.NoErr.bind (Erc1155.noErr_update_mint _ dst hlen) fun erc1155 => ?_
  refine Result.NoErr.bind ?_ fun _ => Result.NoErr.of_ok _
  rw [if_pos rfl]
  refine Result.NoErr.bind (Result.NoErr.foldlM (fun _ _ => ?_) _ _) fun _ => ?_
  · exact Result.NoErr.bind (Result.NoErr.expect _ _) fun _ => Result.NoErr.of_ok _
  · exact Result.NoErr.bind (Result.NoErr.expect _ _) fun _ => Result.NoErr.of_ok _

/-- A mint that would take the supply of all ids past a word panics. -/
theorem mintBatch_panics {s : Erc1155Supply} (hglobal : s.GlobalExact)
    {env : Env ReceiverCall Erc1155Supply} {dst : Address} {ids values : List U256} {data : Bytes}
    (hdst : dst ≠ 0) (hlen : ids.length = values.length)
    (hfits : (values.map BitVec.toNat).sum < 2 ^ 256)
    (hover : 2 ^ 256 ≤ ∑ id, (s.totalSupply id).toNat + (values.map BitVec.toNat).sum) :
    ∃ msg, s._mintBatch env dst ids values data = .panic msg := by
  rcases (noErr_update_mint s hlen).ok_or_panic with ⟨t, ht⟩ | ⟨msg, hmsg⟩
  · obtain ⟨-, -, hall⟩ := update_mint ht hdst
    rw [BitVec.toNat_sum, Nat.mod_eq_of_lt hfits, hglobal] at hall
    have := t.totalSupplyAll.isLt
    omega
  · refine ⟨msg, ?_⟩
    rw [_mintBatch, _doMint, Erc1155.doMint, if_neg hdst, Erc1155.updateWithAcceptanceCheck, hmsg,
      panic_bind]

/-- **The supply of all ids is exact** in every run in which the values of each batch that is
minted have a sum that fits a word, whatever the receivers do. In the states of such a run neither
the sum over a burn nor the subtraction of it wraps, a mint that takes the total past a word
panics, and a further mint keeps the supply exact only if its batch fits as well. -/
theorem totalSupplyAll_exact {s : Erc1155Supply} (h : Run (fun _ => MintFits) empty s) :
    s.totalSupplyAll.toNat = ∑ id, (s.totalSupply id).toNat ∧
    (∀ src ids values erc1155, src ≠ 0 → s.erc1155._update src 0 ids values = .ok erc1155 →
      values.sum.toNat = (values.map BitVec.toNat).sum ∧ values.sum ≤ s.totalSupplyAll) ∧
    (∀ env dst ids values data, dst ≠ 0 → ids.length = values.length →
      (values.map BitVec.toNat).sum < 2 ^ 256 →
      2 ^ 256 ≤ ∑ id, (s.totalSupply id).toNat + (values.map BitVec.toNat).sum →
        ∃ msg, s._mintBatch env dst ids values data = .panic msg) ∧
    ∀ dst ids values s', dst ≠ 0 → s._update 0 dst ids values = .ok s' →
      (s'.totalSupplyAll.toNat = ∑ id, (s'.totalSupply id).toNat ↔
        (values.map BitVec.toNat).sum < 2 ^ 256) := by
  obtain ⟨hinv, hglobal⟩ := exact_run h
  refine ⟨hglobal, ?_, ?_, ?_⟩
  · exact fun _ _ _ _ hsrc => sum_le_totalSupplyAll hinv hglobal hsrc
  · exact fun _ _ _ _ _ hdst hlen => mintBatch_panics hglobal hdst hlen
  · exact fun _ _ _ _ hdst h => globalExact_mint_iff hglobal h hdst

/-! ### Runs on fixed inputs -/

/-- Nobody is a contract, so no receiver is asked. -/
def noReceivers : Reentrant.Callback ReceiverCall Erc1155Supply B32 CallError :=
  fun _ _ => .error .AbiDecodingFailed

/-- A call of account `1` in the contract after deployment, with a look at the result. -/
theorem Run.first {P : Erc1155Supply → Tx → Prop} {β : Type} (look : Erc1155Supply → β) (b : β)
    (op : Erc1155.Op) (hP : P empty ⟨1, fun _ => false, op⟩)
    (h : (exec ⟨1, fun _ => false, op⟩ noReceivers empty).toOption.map look = some b) :
    ∃ s, Run P empty s ∧ look s = b := by
  obtain ⟨s, hs, hlook⟩ := Option.map_eq_some_iff.mp h
  have hquiet : ∀ a u b u', noReceivers a u = .ok (b, u') → Run P u u' := nofun
  refine ⟨s, .call (.refl empty) hP hquiet ?_, hlook⟩
  revert hs
  cases exec ⟨1, fun _ => false, op⟩ noReceivers empty with
  | error e => exact nofun
  | ok t => exact fun hs => congrArg Except.ok (Option.some.inj hs)

/-- The supply of one id after a mint of seven. -/
theorem totalSupply_exact_first : ∃ s, Run (fun _ _ => True) empty s ∧
    ∑ account, (s.balanceOf account 3).toNat = 7 := by
  obtain ⟨s, hrun, hlook⟩ := Run.first (P := fun _ _ => True) (fun s => s.totalSupply 3) 7
    (.mint 1 3 7 []) trivial (by decide +kernel)
  exact ⟨s, hrun, by rw [← (totalSupply_exact hrun).1 3, hlook]; decide⟩

/-- The supply of all ids after a batch of two. -/
theorem totalSupplyAll_exact_first : ∃ s, Run (fun _ => MintFits) empty s ∧
    ∑ id, (s.totalSupply id).toNat = 12 := by
  obtain ⟨s, hrun, hlook⟩ := Run.first (P := fun _ => MintFits) (fun s => s.totalSupplyAll) 12
    (.mintBatch 1 [3, 4] [7, 5] []) (by simp [MintFits, Erc1155.Op.minted]) (by decide +kernel)
  exact ⟨s, hrun, by rw [← (totalSupplyAll_exact hrun).1, hlook]; decide⟩

/-- Two values in one batch whose sum wraps to zero. -/
theorem totalSupplyAll_wraps : ∃ s, Run (fun _ _ => True) empty s ∧
    s.totalSupplyAll.toNat ≠ ∑ id, (s.totalSupply id).toNat := by
  obtain ⟨s, hrun, hlook⟩ := Run.first (P := fun _ _ => True)
    (fun s => (s.totalSupplyAll, s.totalSupply 0)) (0, 2 ^ 255)
    (.mintBatch 1 [0, 1] [2 ^ 255, 2 ^ 255] []) trivial (by decide +kernel)
  obtain ⟨hall, hzero⟩ := Prod.mk.inj hlook
  have hle := Tally.le_sum (fun id => (s.totalSupply id).toNat) 0
  rw [hzero] at hle
  refine ⟨s, hrun, fun heq => ?_⟩
  rw [hall, show (0 : U256).toNat = 0 from rfl] at heq
  rw [← heq] at hle
  exact absurd hle (by decide +kernel)

end Erc1155Supply

end ContractsStylus
