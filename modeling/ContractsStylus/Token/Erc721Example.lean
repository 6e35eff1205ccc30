import ContractsStylus.Token.Erc721EnumerableLists

/-!
# The ERC-721 example

The contract of `examples/erc721`, which composes the base contract with the enumerable
extension, and what its lists hold after any run.

The list of all tokens is right in every run. The list of an owner is right as long as every
transfer of a token to its owner is harmless.

The errors of the example repeat those of its two parts, variant for variant; they are wrapped
here instead.

## Two invariants

Both are about the state after a call and are proved from what `Effect` says of it. For the list of
all tokens that is a mint, a burn or nothing, and the list follows the tokens that exist. For the
list of an owner there is a fourth case, a token that leaves one owner for another one, and a fifth,
the transfer to oneself, in which the extension removes and inserts the same token.

A run is one of calls that succeed. Each of them may fail for the reasons of either part, and fails
as a whole; that the vector is full is one of these.

## Main definitions

* `Erc721Example.exec` — the calls
* `Erc721Example.Effect` — what a call that succeeds has done

## Main results

* `Erc721Example.allTokens_exact` — the list of all tokens, in every run
* `Erc721Example.ownedTokens_exact` — the lists of the owners, in the runs without harm
* `Erc721Example.ownedTokens_self_transfer` — a self-transfer that does harm
-/

namespace ContractsStylus

open SwapPop
open Erc721 (ReceiverCall)

/-- State of the contract of `examples/erc721`. -/
structure Erc721Example (C : Capacity) where
  erc721 : Erc721
  enumerable : Erc721Enumerable C

namespace Erc721Example

inductive Error
  | enumerable (e : Erc721Enumerable.Error)
  | erc721 (e : Erc721.Error)
  deriving DecidableEq, Repr

variable {C : Capacity}

/-- The contract after deployment. -/
def empty : Erc721Example C := ⟨Erc721.empty, Erc721Enumerable.empty⟩

/-- A mint of the base contract, and then the additions to both lists. -/
def mintWith (op : Erc721 → Result Erc721.Error Erc721) (self : Erc721Example C) (dst : Address)
    (tokenId : U256) : Result Error (Erc721Example C) := do
  let erc721 ← (op self.erc721).mapErr .erc721
  -- update the extension's state
  let enumerable ← self.enumerable._addTokenToAllTokensEnumeration tokenId
  let enumerable ← (enumerable._addTokenToOwnerEnumeration dst tokenId erc721).mapErr .erc721
  pure ⟨erc721, enumerable⟩

def mint (self : Erc721Example C) (dst : Address) (tokenId : U256) :
    Result Error (Erc721Example C) :=
  self.mintWith (·._mint dst tokenId) dst tokenId

def safeMint (env : Env ReceiverCall Erc721) (self : Erc721Example C) (dst : Address)
    (tokenId : U256) (data : Bytes) : Result Error (Erc721Example C) :=
  self.mintWith (Erc721._safeMint env · dst tokenId data) dst tokenId

/-- A transfer of the base contract between a look at the owner and the changes of the owners'
lists. -/
def transferWith (op : Erc721 → Result Erc721.Error Erc721) (self : Erc721Example C) (dst : Address)
    (tokenId : U256) : Result Error (Erc721Example C) := do
  -- retrieve the previous owner
  let previousOwner ← (self.erc721.ownerOf tokenId).mapErr .erc721
  let erc721 ← (op self.erc721).mapErr .erc721
  -- update the extension's state
  let enumerable ← (self.enumerable._removeTokenFromOwnerEnumeration previousOwner tokenId
    erc721).mapErr .erc721
  let enumerable ← (enumerable._addTokenToOwnerEnumeration dst tokenId erc721).mapErr .erc721
  pure ⟨erc721, enumerable⟩

def safeTransferFrom (env : Env ReceiverCall Erc721) (self : Erc721Example C) (src dst : Address)
    (tokenId : U256) : Result Error (Erc721Example C) :=
  self.transferWith (Erc721.safeTransferFrom env · src dst tokenId) dst tokenId

def safeTransferFromWithData (env : Env ReceiverCall Erc721) (self : Erc721Example C)
    (src dst : Address) (tokenId : U256) (data : Bytes) : Result Error (Erc721Example C) :=
  self.transferWith (Erc721.safeTransferFromWithData env · src dst tokenId data) dst tokenId

def transferFrom (sender : Address) (self : Erc721Example C) (src dst : Address) (tokenId : U256) :
    Result Error (Erc721Example C) :=
  self.transferWith (Erc721.transferFrom sender · src dst tokenId) dst tokenId

def approve (sender : Address) (self : Erc721Example C) (dst : Address) (tokenId : U256) :
    Result Error (Erc721Example C) := do
  let erc721 ← (self.erc721.approve sender dst tokenId).mapErr .erc721
  pure { self with erc721 }

def setApprovalForAll (sender : Address) (self : Erc721Example C) (dst : Address)
    (approved : Bool) : Result Error (Erc721Example C) := do
  let erc721 ← (self.erc721.setApprovalForAll sender dst approved).mapErr .erc721
  pure { self with erc721 }

def burn (sender : Address) (self : Erc721Example C) (tokenId : U256) :
    Result Error (Erc721Example C) := do
  -- retrieve the owner
  let owner ← (self.erc721.ownerOf tokenId).mapErr .erc721
  let erc721 ← (self.erc721.burn sender tokenId).mapErr .erc721
  -- update the extension's state
  let enumerable ← (self.enumerable._removeTokenFromOwnerEnumeration owner tokenId
    erc721).mapErr .erc721
  let enumerable ← enumerable._removeTokenFromAllTokensEnumeration tokenId
  pure ⟨erc721, enumerable⟩

def tokenByIndex (self : Erc721Example C) (index : U256) : Result Error U256 :=
  (self.enumerable.tokenByIndex index).mapErr .enumerable

def totalSupply (self : Erc721Example C) : U256 := self.enumerable.totalSupply

def tokenOfOwnerByIndex (self : Erc721Example C) (owner : Address) (index : U256) :
    Result Error U256 :=
  (self.enumerable.tokenOfOwnerByIndex owner index).mapErr .enumerable

/-! ### Calls

`Effect` is the only description of a call that later proofs use. Which of its cases are possible
depends on the call, and a transfer to the owner is a case of its own. -/

/-- The calls a run is made of. -/
inductive Op
  | mint (dst : Address) (tokenId : U256)
  | safeMint (dst : Address) (tokenId : U256) (data : Bytes)
  | burn (tokenId : U256)
  | transferFrom (src dst : Address) (tokenId : U256)
  | safeTransferFrom (src dst : Address) (tokenId : U256)
  | safeTransferFromWithData (src dst : Address) (tokenId : U256) (data : Bytes)
  | approve (dst : Address) (tokenId : U256)
  | setApprovalForAll (operator : Address) (approved : Bool)

/-- A call with its sender, the accounts that are contracts at the time, and the answers these
give when they receive a token. They do not call back. -/
structure Tx where
  sender : Address
  hasCode : Address → Bool
  answer : ReceiverCall → Except CallError B32
  op : Op

/-- One call. -/
def exec (self : Erc721Example C) (tx : Tx) : Result Error (Erc721Example C) :=
  let env : Env ReceiverCall Erc721 := ⟨tx.sender, tx.hasCode, answering tx.answer⟩
  match tx.op with
  | .mint dst tokenId => self.mint dst tokenId
  | .safeMint dst tokenId data => safeMint env self dst tokenId data
  | .burn tokenId => burn tx.sender self tokenId
  | .transferFrom src dst tokenId => transferFrom tx.sender self src dst tokenId
  | .safeTransferFrom src dst tokenId => safeTransferFrom env self src dst tokenId
  | .safeTransferFromWithData src dst tokenId data =>
    safeTransferFromWithData env self src dst tokenId data
  | .approve dst tokenId => approve tx.sender self dst tokenId
  | .setApprovalForAll operator approved => setApprovalForAll tx.sender self operator approved

/-- The contract as a machine. -/
def machine : Machine (Erc721Example C) Tx (Revert Error) := ⟨exec⟩

/-- The sender, recipient and token of a transfer. -/
def Op.transferred : Op → Option (Address × Address × U256)
  | transferFrom src dst tokenId => some (src, dst, tokenId)
  | safeTransferFrom src dst tokenId => some (src, dst, tokenId)
  | safeTransferFromWithData src dst tokenId _ => some (src, dst, tokenId)
  | _ => none

/-- The token of a mint. -/
def Op.minted : Op → Option U256
  | mint _ tokenId => some tokenId
  | safeMint _ tokenId _ => some tokenId
  | _ => none

/-- **What a call that succeeds has done.** -/
inductive Effect (s : Erc721Example C) (tx : Tx) : Erc721Example C → Prop
  /-- Only approvals have changed. -/
  | approval {erc721 : Erc721} (hop : tx.op.transferred = none)
      (howners : erc721.owners = s.erc721.owners)
      (hbalances : erc721.balances = s.erc721.balances) : Effect s tx ⟨erc721, s.enumerable⟩
  | mint {dst : Address} {tokenId : U256} {added enumerable : Erc721Enumerable C}
      (hop : tx.op.transferred = none) (hminted : tx.op.minted = some tokenId) (hdst : dst ≠ 0)
      (hnew : s.erc721.owners tokenId = 0)
      (hall : (s.enumerable._addTokenToAllTokensEnumeration tokenId : Result Error _) = .ok added)
      (hadd : added._addTokenToOwnerEnumeration dst tokenId (s.erc721.move 0 dst tokenId) =
        .ok enumerable) : Effect s tx ⟨s.erc721.move 0 dst tokenId, enumerable⟩
  | transfer {src dst : Address} {tokenId : U256} {removed enumerable : Erc721Enumerable C}
      (hop : tx.op.transferred = some (src, dst, tokenId)) (hsrc : src ≠ 0) (hdst : dst ≠ 0)
      (howner : s.erc721.owners tokenId = src)
      (hremove : s.enumerable._removeTokenFromOwnerEnumeration src tokenId
        (s.erc721.move src dst tokenId) = .ok removed)
      (hadd : removed._addTokenToOwnerEnumeration dst tokenId (s.erc721.move src dst tokenId) =
        .ok enumerable) : Effect s tx ⟨s.erc721.move src dst tokenId, enumerable⟩
  | burn {src : Address} {tokenId : U256} {removed enumerable : Erc721Enumerable C}
      (hop : tx.op.transferred = none) (hsrc : src ≠ 0) (howner : s.erc721.owners tokenId = src)
      (hremove : s.enumerable._removeTokenFromOwnerEnumeration src tokenId
        (s.erc721.move src 0 tokenId) = .ok removed)
      (hall : (removed._removeTokenFromAllTokensEnumeration tokenId : Result Error _) =
        .ok enumerable) : Effect s tx ⟨s.erc721.move src 0 tokenId, enumerable⟩

theorem effect_of_mintWith {s s' : Erc721Example C} {tx : Tx} {dst : Address} {tokenId : U256}
    {op : Erc721 → Result Erc721.Error Erc721} (htx : tx.op.transferred = none)
    (hminted : tx.op.minted = some tokenId)
    (hop : ∀ e, op s.erc721 = .ok e → s.erc721._mint dst tokenId = .ok e)
    (h : s.mintWith op dst tokenId = .ok s') : Effect s tx s' := by
  obtain ⟨erc721, herc721, h⟩ := bind_eq_ok.mp h
  obtain ⟨added, hall, h⟩ := bind_eq_ok.mp h
  obtain ⟨enumerable, hadd, h⟩ := bind_eq_ok.mp h
  obtain rfl := pure_eq_ok.mp h
  obtain ⟨hdst, hupdate⟩ := Erc721.Layer.mint_eq_ok.mp (hop _ (mapErr_eq_ok.mp herc721))
  obtain ⟨-, hnew, rfl⟩ := Erc721.Layer.updateBase_eq_ok.mp hupdate
  exact .mint htx hminted hdst (Except.ok.inj hnew) hall (mapErr_eq_ok.mp hadd)

theorem effect_of_transferWith {s s' : Erc721Example C} {tx : Tx} {src dst : Address}
    {tokenId : U256} {op : Erc721 → Result Erc721.Error Erc721}
    (htx : tx.op.transferred = some (src, dst, tokenId))
    (hop : ∀ e, op s.erc721 = .ok e →
      Erc721.transferFrom tx.sender s.erc721 src dst tokenId = .ok e)
    (h : s.transferWith op dst tokenId = .ok s') : Effect s tx s' := by
  obtain ⟨previousOwner, howner, h⟩ := bind_eq_ok.mp h
  obtain ⟨erc721, herc721, h⟩ := bind_eq_ok.mp h
  obtain ⟨removed, hremove, h⟩ := bind_eq_ok.mp h
  obtain ⟨enumerable, hadd, h⟩ := bind_eq_ok.mp h
  obtain rfl := pure_eq_ok.mp h
  obtain ⟨hdst, hupdate⟩ := Erc721.Layer.transferFrom_eq_ok.mp (hop _ (mapErr_eq_ok.mp herc721))
  obtain ⟨-, hsrc, rfl⟩ := Erc721.Layer.updateBase_eq_ok.mp hupdate
  obtain ⟨hne, hprevious⟩ := guard_eq_ok.mp (mapErr_eq_ok.mp howner)
  obtain rfl : src = previousOwner := Except.ok.inj (hsrc.symm.trans hprevious)
  have hsrc := Except.ok.inj hsrc
  exact .transfer htx (hsrc ▸ hne) hdst hsrc (mapErr_eq_ok.mp hremove) (mapErr_eq_ok.mp hadd)

/-- **Every call that succeeds has one of these effects.** -/
theorem effect_of_exec {s s' : Erc721Example C} {tx : Tx} (h : exec s tx = .ok s') :
    Effect s tx s' := by
  rcases tx with ⟨sender, hasCode, answer, op⟩
  cases op with
  | mint dst tokenId =>
    change s.mintWith (·._mint dst tokenId) dst tokenId = .ok s' at h
    exact effect_of_mintWith rfl rfl (fun _ he => he) h
  | safeMint dst tokenId data =>
    change s.mintWith (Erc721._safeMint ⟨sender, hasCode, answering answer⟩ · dst tokenId data)
      dst tokenId = .ok s' at h
    exact effect_of_mintWith rfl rfl (fun _ => eq_ok_of_answering fun _ => checkOnReceived_eq_ok) h
  | burn tokenId =>
    obtain ⟨owner, howner, h⟩ := bind_eq_ok.mp h
    obtain ⟨erc721, herc721, h⟩ := bind_eq_ok.mp h
    obtain ⟨removed, hremove, h⟩ := bind_eq_ok.mp h
    obtain ⟨enumerable, hall, h⟩ := bind_eq_ok.mp h
    obtain rfl := pure_eq_ok.mp h
    obtain ⟨⟨previousOwner, e⟩, hupdate, he⟩ := bind_eq_ok.mp (mapErr_eq_ok.mp herc721)
    obtain rfl := pure_eq_ok.mp he
    obtain ⟨-, hprevious, rfl⟩ := Erc721.Layer.updateBase_eq_ok.mp hupdate
    obtain ⟨hne, howner⟩ := guard_eq_ok.mp (mapErr_eq_ok.mp howner)
    obtain rfl : previousOwner = owner := Except.ok.inj (hprevious.symm.trans howner)
    have hprevious := Except.ok.inj hprevious
    exact .burn rfl (hprevious ▸ hne) hprevious (mapErr_eq_ok.mp hremove) hall
  | transferFrom src dst tokenId =>
    change s.transferWith (Erc721.transferFrom sender · src dst tokenId) dst tokenId = .ok s' at h
    exact effect_of_transferWith (show _ = some (src, dst, tokenId) from rfl) (fun _ he => he) h
  | safeTransferFrom src dst tokenId =>
    change s.transferWith (Erc721.safeTransferFrom ⟨sender, hasCode, answering answer⟩ · src dst
      tokenId) dst tokenId = .ok s' at h
    exact effect_of_transferWith (show _ = some (src, dst, tokenId) from rfl)
      (fun _ => eq_ok_of_answering fun _ => checkOnReceived_eq_ok) h
  | safeTransferFromWithData src dst tokenId data =>
    change s.transferWith (Erc721.safeTransferFromWithData ⟨sender, hasCode, answering answer⟩ ·
      src dst tokenId data) dst tokenId = .ok s' at h
    exact effect_of_transferWith (show _ = some (src, dst, tokenId) from rfl)
      (fun _ => eq_ok_of_answering fun _ => checkOnReceived_eq_ok) h
  | approve dst tokenId =>
    obtain ⟨erc721, herc721, h⟩ := bind_eq_ok.mp h
    obtain rfl := pure_eq_ok.mp h
    obtain ⟨owner, -, herc721⟩ := bind_eq_ok.mp (mapErr_eq_ok.mp herc721)
    obtain ⟨-, herc721⟩ := guard_eq_ok.mp herc721
    obtain rfl := Except.ok.inj herc721
    exact .approval rfl rfl rfl
  | setApprovalForAll operator approved =>
    obtain ⟨erc721, herc721, h⟩ := bind_eq_ok.mp h
    obtain rfl := pure_eq_ok.mp h
    obtain ⟨e, he, herc721⟩ := bind_eq_ok.mp (mapErr_eq_ok.mp herc721)
    obtain rfl := pure_eq_ok.mp herc721
    obtain ⟨-, he⟩ := guard_eq_ok.mp (mapErr_eq_ok.mp he)
    obtain rfl := Except.ok.inj he
    exact .approval rfl rfl rfl

/-! ### All tokens

A token joins the list when it is minted and leaves it when it is burned; approvals and transfers do
not touch the list. -/

/-- The list of all tokens is right. -/
def AllListed (s : Erc721Example C) : Prop :=
  s.enumerable.ListsAll fun id => s.erc721.owners id ≠ 0

theorem allListed_empty : (empty : Erc721Example C).AllListed := Indexed.empty fun _ h => h rfl

/-- **Every call keeps the list of all tokens right.** -/
theorem Effect.allListed {s s' : Erc721Example C} {tx : Tx} (h : Effect s tx s')
    (hlisted : s.AllListed) : s'.AllListed := by
  cases h with
  | approval _ howners _ => simpa only [AllListed, howners] using hlisted
  | mint _ _ hdst hnew hall hadd =>
    rw [Erc721Enumerable.addTokenToOwner_eq_ok hadd]
    refine Erc721Enumerable.listsAll_added.mpr
      (hlisted.pushed (not_not.mpr hnew) hall fun id => ?_)
    rw [Erc721.owners_move_apply]
    split
    · rename_i heq
      exact ⟨fun _ => Or.inr heq, fun _ => hdst⟩
    · rename_i hne
      exact (or_iff_left hne).symm
  | transfer _ hsrc hdst howner hremove hadd =>
    rw [Erc721Enumerable.addTokenToOwner_eq_ok hadd,
      Erc721Enumerable.removeTokenFromOwner_eq_ok hremove]
    refine Erc721Enumerable.listsAll_added.mpr (Erc721Enumerable.listsAll_removed.mpr
      (hlisted.congr (fun _ _ => rfl) (fun _ _ => rfl) fun id => ?_))
    rw [Erc721.owners_move_apply]
    split
    · rename_i heq
      rw [heq, howner]
      exact iff_of_true hdst hsrc
    · rfl
  | burn _ hsrc howner hremove hall =>
    obtain rfl := Erc721Enumerable.removeTokenFromOwner_eq_ok hremove
    refine (Erc721Enumerable.listsAll_removed.mpr hlisted).popped (howner ▸ hsrc) hall
      fun id => ?_
    rw [Erc721.owners_move_apply]
    split
    · rename_i heq
      exact iff_of_false (not_not.mpr rfl) fun hid => hid.2 heq
    · rename_i hne
      exact (and_iff_left hne).symm

theorem allListed_of_reachable {P : Erc721Example C → Tx → Prop} {s : Erc721Example C}
    (h : machine.Reachable P empty s) : s.AllListed :=
  h.invariant allListed_empty fun _ _ _ hlisted _ hexec => (effect_of_exec hexec).allListed hlisted

theorem tokenByIndex_eq_ok {s : Erc721Example C} {i id : U256} :
    s.tokenByIndex i = .ok id ↔ s.enumerable.allTokens.toList[i.toNat]? = some id := by
  rw [tokenByIndex, mapErr_eq_ok, Erc721Enumerable.tokenByIndex, okOr_eq_ok, StorageVec.get]

/-- **The list of all tokens is exact** in every run: it lists the existing tokens, each once, the
index of each is its position, the total supply is their number, and `token_by_index` answers on
the indices below it, with different tokens. -/
theorem allTokens_exact {s : Erc721Example C} (h : machine.Reachable (fun _ _ => True) empty s) :
    s.enumerable.allTokens.toList.Nodup ∧
    (∀ id, id ∈ s.enumerable.allTokens.toList ↔ s.erc721.owners id ≠ 0) ∧
    (∀ id, s.erc721.owners id ≠ 0 →
      s.enumerable.allTokens.toList[(s.enumerable.allTokensIndex id).toNat]? = some id) ∧
    s.totalSupply.toNat = (Finset.univ.filter fun id => s.erc721.owners id ≠ 0).card ∧
    (∀ i, (∃ id, s.tokenByIndex i = .ok id) ↔ i < s.totalSupply) ∧
    (∀ i id, s.tokenByIndex i = .ok id → s.erc721.owners id ≠ 0) ∧
    ∀ i j id, s.tokenByIndex i = .ok id → s.tokenByIndex j = .ok id → i = j := by
  have hlisted := allListed_of_reachable h
  have hlist : (List.range s.enumerable.allTokens.toList.length).map s.enumerable.allSlot =
      s.enumerable.allTokens.toList := by
    refine List.ext_getElem (by simp) fun i hi hi' => ?_
    simp [Erc721Enumerable.allSlot, hi']
  obtain ⟨hnodup, hmem, hindex⟩ := Indexed.iff_map_range.mp hlisted
  rw [hlist] at hnodup hmem hindex
  have hlen : s.totalSupply.toNat = s.enumerable.allTokens.toList.length := StorageVec.len_toNat _
  refine ⟨hnodup, hmem, hindex, ?_, fun i => ?_, fun i id hi => ?_, fun i j id hi hj => ?_⟩
  · rw [hlen]
    exact hlisted.card_eq.symm
  · simp only [tokenByIndex_eq_ok, BitVec.lt_def, hlen, List.getElem?_eq_some_iff]
    exact ⟨fun ⟨_, hlt, _⟩ => hlt, fun hlt => ⟨_, hlt, rfl⟩⟩
  · exact (hmem id).mp (List.mem_of_getElem? (tokenByIndex_eq_ok.mp hi))
  · obtain ⟨hi, rfl⟩ := List.getElem?_eq_some_iff.mp (tokenByIndex_eq_ok.mp hi)
    obtain ⟨hj, heq⟩ := List.getElem?_eq_some_iff.mp (tokenByIndex_eq_ok.mp hj)
    exact BitVec.eq_of_toNat_eq ((hnodup.getElem_inj_iff.mp heq).symm)

/-! ### The tokens of each owner

A move is a removal and an insertion, and each account sees it from its own side: as the one that
the token leaves, as the one that it goes to, or as neither. The balances that the extension reads
were changed by the base contract already, so a removal is off by one from what the list has, and an
insertion too. -/

/-- The list of every owner is right. -/
def OwnedListed (s : Erc721Example C) : Prop :=
  ∀ a ≠ 0, s.enumerable.Lists a (s.erc721.balances a).toNat fun id => s.erc721.owners id = a

theorem ownedListed_empty : (empty : Erc721Example C).OwnedListed := fun _ ha =>
  ⟨Indexed.empty fun _ h => ha h.symm, fun _ _ => rfl⟩

/-- A transfer to the owner of the token, if it is one, is harmless. -/
def HarmlessTx (s : Erc721Example C) (tx : Tx) : Prop :=
  ∀ a tokenId, tx.op.transferred = some (a, a, tokenId) →
    s.enumerable.Harmless a tokenId ((s.erc721.balances a).toNat - 1)
      fun id => s.erc721.owners id ≠ 0

/-- A balance with a token in it, one token less. -/
theorem balance_sub_one {x : U256} {m : ℕ} (h : x.toNat = m + 1) :
    x - 1 = BitVec.ofNat 256 m ∧ m + 1 < 2 ^ 256 := by
  have hlt := x.isLt
  have hsub := BitVec.toNat_sub_add_cancel (x := x) (y := 1) (by rw [h]; exact Nat.le_add_left 1 m)
  refine ⟨BitVec.eq_of_toNat_eq ?_, by omega⟩
  rw [BitVec.toNat_ofNat, Nat.mod_eq_of_lt (by omega)]
  change _ + 1 = _ at hsub
  omega

/-- An account that has no part in a move has the list it had before. -/
theorem lists_move_of_ne {e : Erc721} {lists : Erc721Enumerable C} {src dst b : Address}
    {tokenId : U256} (h : lists.Lists b (e.balances b).toNat fun id => e.owners id = b)
    (hsrc : b ≠ src) (hdst : b ≠ dst) (howner : e.owners tokenId ≠ b) :
    lists.Lists b ((e.move src dst tokenId).balances b).toNat
      fun id => (e.move src dst tokenId).owners id = b := by
  rw [e.balances_move_of_ne tokenId hsrc hdst]
  refine h.congr rfl (fun _ _ => rfl) fun id => ?_
  rw [Erc721.owners_move_apply]
  split
  · rename_i heq
    exact iff_of_false hdst.symm (heq ▸ howner)
  · rfl

/-- The account that a token goes to has it on its list. -/
theorem lists_move_dst {e : Erc721} {lists : Erc721Enumerable C} {src b : Address}
    {tokenId : U256} (h : lists.Lists b (e.balances b).toNat fun id => e.owners id = b)
    (hb : b ≠ 0) (hsrc : src ≠ b) (howner : e.owners tokenId ≠ b)
    (hfits : (e.balances b + 1).toNat = (e.balances b).toNat + 1) :
    (lists.added b tokenId ((e.move src b tokenId).balances b - 1)).Lists b
      ((e.move src b tokenId).balances b).toNat fun id => (e.move src b tokenId).owners id = b := by
  rw [e.balances_move_dst tokenId hb hsrc, hfits]
  refine h.added howner (by rw [BitVec.add_sub_cancel]) fun id => ?_
  rw [Erc721.owners_move_apply]
  split
  · rename_i heq
    exact iff_of_true rfl (Or.inr heq)
  · rename_i hne
    exact (or_iff_left hne).symm

/-- The account that a token leaves has it no longer on its list. -/
theorem lists_move_src {e : Erc721} {lists : Erc721Enumerable C} {dst b : Address}
    {tokenId : U256} (h : lists.Lists b (e.balances b).toNat fun id => e.owners id = b)
    (hb : b ≠ 0) (hdst : b ≠ dst) (howner : e.owners tokenId = b) :
    (lists.removed b tokenId ((e.move b dst tokenId).balances b)).Lists b
      ((e.move b dst tokenId).balances b).toNat fun id => (e.move b dst tokenId).owners id = b := by
  have hlt := h.indexed.index_lt tokenId howner
  obtain ⟨m, hm⟩ : ∃ m, (e.balances b).toNat = m + 1 := ⟨(e.balances b).toNat - 1, by omega⟩
  rw [hm] at h
  rw [e.balances_move_src tokenId hb hdst, (balance_sub_one hm).1]
  have hm' := Erc721Enumerable.toNat_ofNat_of_lt (i := m) (by have := (balance_sub_one hm).2; omega)
  rw [hm']
  refine h.removed howner hm' fun id => ?_
  rw [Erc721.owners_move_apply]
  split
  · rename_i heq
    exact iff_of_false hdst.symm fun hid => hid.2 heq
  · rename_i hne
    exact (and_iff_left hne).symm

/-- The account that a token leaves takes no token of another account into the hole. -/
theorem lists_removed_of_ne {e : Erc721} {lists : Erc721Enumerable C} {src dst b : Address}
    {tokenId : U256} (hlists : lists.Lists src (e.balances src).toNat fun id => e.owners id = src)
    (h : lists.Lists b (e.balances b).toNat fun id => e.owners id = b) (hsrc : src ≠ 0)
    (hdst : src ≠ dst) (howner : e.owners tokenId = src) (hne : b ≠ src) :
    (lists.removed src tokenId ((e.move src dst tokenId).balances src)).Lists b
      (e.balances b).toNat fun id => e.owners id = b := by
  refine h.removed_of_ne hne (fun heq => hne (heq.symm.trans howner)) fun _ hlast => ?_
  have hlt := hlists.indexed.index_lt tokenId howner
  obtain ⟨m, hm⟩ : ∃ m, (e.balances src).toNat = m + 1 := ⟨(e.balances src).toNat - 1, by omega⟩
  rw [e.balances_move_src tokenId hsrc hdst, (balance_sub_one hm).1] at hlast
  exact absurd (hlast.symm.trans (hlists.indexed.mem_slot m (by omega))) hne

section Owned

variable {s : Erc721Example C} (hall : s.AllListed) (howned : s.OwnedListed)

include howned in
/-- A burn keeps the lists right. -/
theorem ownedListed_burn {src : Address} {tokenId : U256} {removed enumerable : Erc721Enumerable C}
    (hsrc : src ≠ 0) (howner : s.erc721.owners tokenId = src)
    (hremove : s.enumerable._removeTokenFromOwnerEnumeration src tokenId
      (s.erc721.move src 0 tokenId) = .ok removed)
    (hpop : (removed._removeTokenFromAllTokensEnumeration tokenId : Result Error _) =
      .ok enumerable) : OwnedListed ⟨s.erc721.move src 0 tokenId, enumerable⟩ := by
  obtain ⟨-, -, htokens, hindex⟩ := Erc721Enumerable.removeTokenFromAll_eq_ok hpop
  obtain rfl := Erc721Enumerable.removeTokenFromOwner_eq_ok hremove
  intro b hb
  refine Erc721Enumerable.Lists.of_eq ?_ htokens hindex
  rcases eq_or_ne b src with rfl | hne
  · exact lists_move_src (howned b hb) hb hb howner
  · exact lists_move_of_ne (lists_removed_of_ne (howned src hsrc) (howned b hb) hsrc hsrc howner
      hne) hne hb fun heq => hne (heq.symm.trans howner)

include hall howned

/-- An account that does not own every token has a balance with room for one more. -/
theorem toNat_balance_add_one {a : Address} (ha : a ≠ 0) {id : U256}
    (hid : s.erc721.owners id ≠ 0) (hne : s.erc721.owners id ≠ a) :
    (s.erc721.balances a + 1).toNat = (s.erc721.balances a).toNat + 1 := by
  have hlt := (howned a ha).indexed.lt_of_ssubset hall (fun _ h => h ▸ ha) hid hne
  have hlength := s.enumerable.allTokens.length_lt
  exact BitVec.toNat_add_of_lt (by change _ + 1 < _; omega)

/-- A mint keeps the lists right. -/
theorem ownedListed_mint {dst : Address} {tokenId : U256} {added enumerable : Erc721Enumerable C}
    (hnew : s.erc721.owners tokenId = 0)
    (hpush : (s.enumerable._addTokenToAllTokensEnumeration tokenId : Result Error _) = .ok added)
    (hadd : added._addTokenToOwnerEnumeration dst tokenId (s.erc721.move 0 dst tokenId) =
      .ok enumerable) (hdst : dst ≠ 0) :
    OwnedListed ⟨s.erc721.move 0 dst tokenId, enumerable⟩ := by
  obtain ⟨hlist, -, htokens, hindex⟩ := Erc721Enumerable.addTokenToAll_eq_ok hpush
  obtain rfl := Erc721Enumerable.addTokenToOwner_eq_ok hadd
  intro b hb
  have hbefore := (howned b hb).of_eq htokens hindex
  have hmem : s.erc721.owners tokenId ≠ b := fun h => hb (h.symm.trans hnew)
  rcases eq_or_ne b dst with rfl | hne
  · -- the list that grows, which is no longer than that of all tokens
    have hle := (howned b hb).indexed.le_of_subset hall fun _ h => h ▸ hb
    have hlength := added.allTokens.length_lt
    rw [hlist, List.length_append, List.length_singleton] at hlength
    have htoNat : (s.erc721.balances b + 1).toNat = (s.erc721.balances b).toNat + 1 :=
      BitVec.toNat_add_of_lt (by change _ + 1 < _; omega)
    exact lists_move_dst hbefore hb hb.symm hmem htoNat
  · exact lists_move_of_ne (hbefore.added_of_ne hne hmem) hb hne hmem

/-- A transfer to another account keeps the lists right. -/
theorem ownedListed_transfer {src dst : Address} {tokenId : U256}
    {removed enumerable : Erc721Enumerable C} (hne : src ≠ dst) (hsrc : src ≠ 0) (hdst : dst ≠ 0)
    (howner : s.erc721.owners tokenId = src)
    (hremove : s.enumerable._removeTokenFromOwnerEnumeration src tokenId
      (s.erc721.move src dst tokenId) = .ok removed)
    (hadd : removed._addTokenToOwnerEnumeration dst tokenId (s.erc721.move src dst tokenId) =
      .ok enumerable) : OwnedListed ⟨s.erc721.move src dst tokenId, enumerable⟩ := by
  obtain rfl := Erc721Enumerable.removeTokenFromOwner_eq_ok hremove
  obtain rfl := Erc721Enumerable.addTokenToOwner_eq_ok hadd
  intro b hb
  have hold (b : Address) (hb : b ≠ src) : s.erc721.owners tokenId ≠ b :=
    fun heq => hb (heq.symm.trans howner)
  rcases eq_or_ne b src with rfl | hbsrc
  · refine (lists_move_src (howned b hb) hb hne howner).added_of_ne hne fun hmem => ?_
    rw [Erc721.owners_move_apply, if_pos rfl] at hmem
    exact hne hmem.symm
  have hlists := lists_removed_of_ne (howned src hsrc) (howned b hb) hsrc hne howner hbsrc
  rcases eq_or_ne b dst with rfl | hbdst
  · exact lists_move_dst hlists hb hne (hold b hbsrc)
      (toNat_balance_add_one hall howned hb (howner ▸ hsrc) (hold b hbsrc))
  · exact lists_move_of_ne (hlists.added_of_ne hbdst (hold b hbsrc)) hbsrc hbdst (hold b hbsrc)

end Owned

/-! ### Exact lists

The invariant in the words of the interface. It speaks of the first entries of a list only: entries
past the balance are never looked at. -/

/-- The first `n` entries of the list of `a`. -/
def ownedList (s : Erc721Example C) (a : Address) (n : U256) : List U256 :=
  (List.range n.toNat).map fun i => s.enumerable.ownedTokens a (BitVec.ofNat 256 i)

/-- As many entries of the list of an account as it has tokens are the tokens it owns, each once,
and the index of each is its position. -/
def OwnedExact (s : Erc721Example C) : Prop :=
  ∀ a n, s.erc721.balanceOf a = .ok n → (s.ownedList a n).Nodup ∧
    (∀ id, id ∈ s.ownedList a n ↔ s.erc721.ownerOf id = .ok a) ∧
    ∀ id, s.erc721.ownerOf id = .ok a →
      (s.ownedList a n)[(s.enumerable.ownedTokensIndex id).toNat]? = some id

theorem ownerOf_eq_ok {e : Erc721} {id : U256} {a : Address} (ha : a ≠ 0) :
    e.ownerOf id = .ok a ↔ e.owners id = a := by
  refine guard_eq_ok.trans ⟨fun h => Except.ok.inj h.2, ?_⟩
  rintro rfl
  exact ⟨ha, rfl⟩

theorem ownedExact_iff {s : Erc721Example C} : s.OwnedExact ↔ ∀ a ≠ 0,
    Indexed (s.enumerable.slot a) s.enumerable.index (s.erc721.balances a).toNat
      fun id => s.erc721.owners id = a := by
  constructor
  · intro h a ha
    have hlist := h a _ (if_neg ha)
    simp only [ownerOf_eq_ok ha] at hlist
    exact Indexed.iff_map_range.mpr hlist
  · intro h a n hn
    obtain ⟨ha, hn⟩ := guard_eq_ok.mp hn
    obtain rfl := Except.ok.inj hn
    simp only [ownerOf_eq_ok ha]
    exact Indexed.iff_map_range.mp (h a ha)

/-! ### Transfers to the owner

The balance does not change, so the removal takes the entry past the end for the last one.
`Harmless` is when this leaves the list as it should be, and the converse is here as well. -/

/-- A move of a token to its owner moves nothing. -/
theorem owners_move_self {e : Erc721} {a : Address} {tokenId : U256} (howner : e.owners tokenId = a)
    (id : U256) : (e.move a a tokenId).owners id = e.owners id := by
  rw [Erc721.owners_move_apply]
  split
  · rename_i heq
    rw [heq, howner]
  · rfl

section SelfTransfer

variable {s : Erc721Example C} {a : Address} {tokenId : U256}
  {removed enumerable : Erc721Enumerable C} (howned : s.OwnedListed)
  (ha : a ≠ 0) (howner : s.erc721.owners tokenId = a)
  (hremove : s.enumerable._removeTokenFromOwnerEnumeration a tokenId
    (s.erc721.move a a tokenId) = .ok removed)
  (hadd : removed._addTokenToOwnerEnumeration a tokenId (s.erc721.move a a tokenId) =
    .ok enumerable)

include howned ha howner hremove hadd

/-- A self-transfer takes the token off a list that is one too long, and puts it back. -/
theorem eq_reinserted : ∃ m, (s.erc721.balances a).toNat = m + 1 ∧ m + 1 < 2 ^ 256 ∧
    enumerable = s.enumerable.reinserted a tokenId m := by
  have hlt := (howned a ha).indexed.index_lt tokenId howner
  obtain ⟨m, hm⟩ : ∃ m, (s.erc721.balances a).toNat = m + 1 :=
    ⟨(s.erc721.balances a).toNat - 1, by omega⟩
  obtain ⟨hsub, hfits⟩ := balance_sub_one hm
  refine ⟨m, hm, hfits, ?_⟩
  rw [Erc721Enumerable.addTokenToOwner_eq_ok hadd,
    Erc721Enumerable.removeTokenFromOwner_eq_ok hremove, Erc721.balances_move_self, hsub,
    (Erc721Enumerable.eq_ofNat hm).1]
  rfl

/-- A harmless self-transfer keeps the lists right. -/
theorem ownedListed_self (hharmless : s.enumerable.Harmless a tokenId
      ((s.erc721.balances a).toNat - 1) fun id => s.erc721.owners id ≠ 0) :
    OwnedListed ⟨s.erc721.move a a tokenId, enumerable⟩ := by
  obtain ⟨m, hm, hfits, rfl⟩ := eq_reinserted howned ha howner hremove hadd
  have howners := owners_move_self howner
  have hlists := howned a ha
  rw [hm] at hlists
  rw [hm, Nat.add_sub_cancel] at hharmless
  intro b hb
  simp only [howners, Erc721.balances_move_self]
  rcases eq_or_ne b a with rfl | hne
  · rw [hm]
    exact hlists.reinserted howner hfits (fun _ h => h ▸ ha) hharmless
  · exact Erc721Enumerable.Lists.reinserted_of_ne hlists howner hfits (howned b hb) hne
      (fun _ h h' => hne (h'.symm.trans h)) (fun _ h => h ▸ hb) hharmless

/-- A self-transfer that leaves the lists exact was harmless. -/
theorem harmless_of_ownedExact (hexact : OwnedExact ⟨s.erc721.move a a tokenId, enumerable⟩) :
    s.enumerable.Harmless a tokenId ((s.erc721.balances a).toNat - 1)
      fun id => s.erc721.owners id ≠ 0 := by
  obtain ⟨m, hm, hfits, rfl⟩ := eq_reinserted howned ha howner hremove hadd
  have hafter := ownedExact_iff.mp hexact
  simp only [owners_move_self howner, Erc721.balances_move_self] at hafter
  have hlists := howned a ha
  rw [hm] at hlists
  rw [hm, Nat.add_sub_cancel]
  exact Erc721Enumerable.harmless_of_reinserted hlists howner hfits (hm ▸ hafter a ha)
    fun hzero => ⟨_, _, fun id => s.erc721.owners id = s.erc721.owners 0, rfl,
      (howned _ hzero).indexed, hafter _ hzero⟩

end SelfTransfer

/-- **Every call keeps the lists of the owners right**, unless it does harm. -/
theorem Effect.ownedListed {s s' : Erc721Example C} {tx : Tx} (h : Effect s tx s')
    (hall : s.AllListed) (howned : s.OwnedListed) (hharmless : HarmlessTx s tx) :
    s'.OwnedListed := by
  cases h with
  | approval _ howners hbalances => simpa only [OwnedListed, howners, hbalances] using howned
  | mint _ _ hdst hnew hpush hadd => exact ownedListed_mint hall howned hnew hpush hadd hdst
  | burn _ hsrc howner hremove hpop => exact ownedListed_burn howned hsrc howner hremove hpop
  | @transfer src dst tokenId _ _ hop hsrc hdst howner hremove hadd =>
    rcases eq_or_ne src dst with rfl | hne
    · exact ownedListed_self howned hsrc howner hremove hadd (hharmless _ _ hop)
    · exact ownedListed_transfer hall howned hne hsrc hdst howner hremove hadd

theorem ownedListed_of_reachable {s : Erc721Example C} (h : machine.Reachable HarmlessTx empty s) :
    s.OwnedListed := by
  induction h with
  | refl => exact ownedListed_empty
  | step hreach hharmless hexec howned =>
    exact (effect_of_exec hexec).ownedListed (allListed_of_reachable hreach) howned hharmless

/-- **The list of every owner is exact** in every run whose transfers do no harm, and a transfer
of a token to its owner leaves it exact only if it does none. -/
theorem ownedTokens_exact {s : Erc721Example C} (h : machine.Reachable HarmlessTx empty s) :
    s.OwnedExact ∧ ∀ tx a tokenId s', tx.op.transferred = some (a, a, tokenId) →
      exec s tx = .ok s' → (s'.OwnedExact ↔ HarmlessTx s tx) := by
  have howned := ownedListed_of_reachable h
  refine ⟨ownedExact_iff.mpr fun a ha => (howned a ha).indexed, fun tx a tokenId s' hop hexec =>
    ⟨fun hexact => ?_, fun hharmless => ?_⟩⟩
  · cases effect_of_exec hexec with
    | approval hop' | mint hop' | burn hop' => exact nomatch hop.symm.trans hop'
    | @transfer src dst _ _ _ hop' hsrc hdst howner hremove hadd =>
      cases Option.some.inj (hop.symm.trans hop')
      intro b id hop'
      cases Option.some.inj (hop.symm.trans hop')
      exact harmless_of_ownedExact howned hsrc howner hremove hadd hexact
  · exact ownedExact_iff.mpr fun a ha =>
      (ownedListed_of_reachable (h.step hharmless hexec) a ha).indexed

/-! ### Runs on fixed inputs -/

/-- A call of account `1`, when no account is a contract. -/
def ofAccountOne (op : Op) : Tx := ⟨1, fun _ => false, fun _ => .error .AbiDecodingFailed, op⟩

/-- The list of all tokens after two mints and a burn. -/
theorem allTokens_exact_burn : ∃ s : Erc721Example .wasm32,
    machine.Reachable (fun _ _ => True) empty s ∧
    s.enumerable.allTokens.toList = [7] ∧
    (Finset.univ.filter fun id => s.erc721.owners id ≠ 0).card = 1 := by
  obtain ⟨s, hs, hlook⟩ := machine.exists_reachable (P := fun _ _ => True)
    (empty : Erc721Example .wasm32)
    [ofAccountOne (.mint 1 0), ofAccountOne (.mint 2 7), ofAccountOne (.burn 0)]
    (fun s => (s.enumerable.allTokens.toList, s.totalSupply.toNat)) ([7], 1)
    (fun _ _ _ => trivial) (by decide +kernel)
  obtain ⟨hlist, hsupply⟩ := Prod.mk.inj hlook
  exact ⟨s, hs, hlist, by rw [← (allTokens_exact hs).2.2.2.1, hsupply]⟩

/-- The transfer of an only token to its owner. -/
theorem ownedTokens_exact_only : ∃ s s' : Erc721Example .wasm32,
    machine.Reachable HarmlessTx empty s ∧
    exec s (ofAccountOne (.transferFrom 1 1 5)) = .ok s' ∧ s'.OwnedExact := by
  obtain ⟨s, hs, hlook⟩ := machine.exists_reachable (P := HarmlessTx)
    (empty : Erc721Example .wasm32) [ofAccountOne (.mint 1 5)]
    (fun s => (s.erc721.balances 1, s.enumerable.slot 1 0, s.erc721.owners 0,
      (exec s (ofAccountOne (.transferFrom 1 1 5))).isOk))
    (1, 5, 0, true)
    (fun tx htx s a id hop => by
      obtain rfl := List.mem_singleton.mp htx
      exact nomatch hop)
    (by decide +kernel)
  simp only [Prod.mk.injEq] at hlook
  obtain ⟨hbalance, hslot, hzero, hok⟩ := hlook
  cases hexec : exec s (ofAccountOne (.transferFrom 1 1 5)) with
  | error e =>
    rw [hexec] at hok
    exact nomatch hok
  | ok s' =>
    refine ⟨s, s', hs, hexec, ((ownedTokens_exact hs).2 _ 1 5 s' rfl hexec).mpr fun a id hop => ?_⟩
    cases Option.some.inj hop
    rw [hbalance]
    exact Or.inr ⟨hslot, fun hexists => absurd hzero hexists⟩

/-- A transfer of the first of two tokens to its owner: the second one is lost. -/
theorem ownedTokens_self_transfer : ∃ s : Erc721Example .wasm32,
    machine.Reachable (fun _ _ => True) empty s ∧ ¬s.OwnedExact := by
  obtain ⟨s, hs, hlook⟩ := machine.exists_reachable (P := fun _ _ => True)
    (empty : Erc721Example .wasm32)
    [ofAccountOne (.mint 1 1), ofAccountOne (.mint 1 2), ofAccountOne (.transferFrom 1 1 1)]
    (fun s => (s.erc721.balances 1, s.ownedList 1 2, s.erc721.owners 2)) (2, [0, 1], 1)
    (fun _ _ _ => trivial) (by decide +kernel)
  simp only [Prod.mk.injEq] at hlook
  obtain ⟨hbalance, hlist, howner⟩ := hlook
  refine ⟨s, hs, fun hexact => ?_⟩
  have hmem := (hexact 1 2 (by rw [Erc721.balanceOf, if_neg (by decide), hbalance])).2.1 2
  rw [hlist, ownerOf_eq_ok (by decide)] at hmem
  exact absurd (hmem.mpr howner) (by decide)

end Erc721Example

end ContractsStylus
