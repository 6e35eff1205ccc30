import ContractsStylus.Token.Erc721

/-!
# ERC-721 with enumeration

The extension that lists all tokens and the tokens of each owner. It is told about mints, burns
and transfers after the base contract has done them, and reads the balances that the base contract
has by then.

Neither the lists of owners nor the indices have a length of their own. A list ends where the
balance of its owner says, so an entry behind that is not part of it, and a stored zero is as good
an entry as any other. Only the list of all tokens is a vector, with a capacity that is a parameter.
-/

namespace ContractsStylus

/-- State of the enumerable extension. -/
structure Erc721Enumerable (C : Capacity) where
  /-- The tokens of each owner, by index. -/
  ownedTokens : StorageMap Address (StorageMap U256 U256)
  /-- The index of each token among those of its owner. -/
  ownedTokensIndex : StorageMap U256 U256
  allTokens : StorageVec C U256
  /-- The index of each token in `allTokens`. -/
  allTokensIndex : StorageMap U256 U256

namespace Erc721Enumerable

inductive Error
  | OutOfBoundsIndex (owner : Address) (index : U256)
  | EnumerableForbiddenBatchMint
  deriving DecidableEq, Repr

variable {C : Capacity}

/-- The extension after deployment. -/
def empty : Erc721Enumerable C := ⟨fun _ _ => 0, fun _ => 0, .empty, fun _ => 0⟩

def tokenOfOwnerByIndex (self : Erc721Enumerable C) (owner : Address) (index : U256) :
    Result Error U256 :=
  let token := self.ownedTokens owner index
  if token = 0 then .err (.OutOfBoundsIndex owner index) else .ok token

def totalSupply (self : Erc721Enumerable C) : U256 := self.allTokens.len

def tokenByIndex (self : Erc721Enumerable C) (index : U256) : Result Error U256 :=
  okOr (self.allTokens.get index) (.OutOfBoundsIndex 0 index)

/-- `self.owned_tokens.setter(owner).setter(index).set(token_id)`. -/
def setOwnedToken (self : Erc721Enumerable C) (owner : Address) (index tokenId : U256) :
    Erc721Enumerable C :=
  { self with
    ownedTokens := Function.update self.ownedTokens owner
      (Function.update (self.ownedTokens owner) index tokenId) }

/-- `self.owned_tokens_index.setter(token_id).set(index)`. -/
def setOwnedTokensIndex (self : Erc721Enumerable C) (tokenId index : U256) : Erc721Enumerable C :=
  { self with ownedTokensIndex := Function.update self.ownedTokensIndex tokenId index }

def _addTokenToOwnerEnumeration (self : Erc721Enumerable C) (dst : Address) (tokenId : U256)
    (erc721 : Erc721) : Result Erc721.Error (Erc721Enumerable C) := do
  let length := (← erc721.balanceOf dst) - 1
  let self := self.setOwnedToken dst length tokenId
  pure (self.setOwnedTokensIndex tokenId length)

def _addTokenToAllTokensEnumeration {ε : Type} (self : Erc721Enumerable C) (tokenId : U256) :
    Result ε (Erc721Enumerable C) := do
  let index := self.totalSupply
  let allTokens ← self.allTokens.push tokenId
  pure { self with
    allTokens, allTokensIndex := Function.update self.allTokensIndex tokenId index }

def _removeTokenFromOwnerEnumeration (self : Erc721Enumerable C) (src : Address) (tokenId : U256)
    (erc721 : Erc721) : Result Erc721.Error (Erc721Enumerable C) := do
  -- swap and pop, with the balance after the base contract's update as the last index
  let lastTokenIndex ← erc721.balanceOf src
  let tokenIndex := self.ownedTokensIndex tokenId
  let self := if tokenIndex ≠ lastTokenIndex then
      let lastTokenId := self.ownedTokens src lastTokenIndex
      (self.setOwnedToken src tokenIndex lastTokenId).setOwnedTokensIndex lastTokenId tokenIndex
    else self
  let self := self.setOwnedTokensIndex tokenId 0
  pure (self.setOwnedToken src lastTokenIndex 0)

def _removeTokenFromAllTokensEnumeration {ε : Type} (self : Erc721Enumerable C) (tokenId : U256) :
    Result ε (Erc721Enumerable C) := do
  -- swap and pop; in an empty vector there is no slot at any index
  let lastTokenIndex := BitVec.ofNat 256 (self.allTokens.toList.length - 1)
  let tokenIndex := self.allTokensIndex tokenId
  let lastTokenId ← expect (self.allTokens.get lastTokenIndex) "token at given index must exist"
  let allTokens ← expect (self.allTokens.set tokenIndex lastTokenId)
    "slot at given `token_index` must exist"
  let allTokensIndex := Function.update self.allTokensIndex lastTokenId tokenIndex
  pure { self with
    allTokens := allTokens.pop, allTokensIndex := Function.update allTokensIndex tokenId 0 }

def _checkIncreaseBalance (amount : U128) : Result Error Unit :=
  if amount > 0 then .err .EnumerableForbiddenBatchMint else .ok ()

end Erc721Enumerable

end ContractsStylus
