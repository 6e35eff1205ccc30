import ContractsStylus.Library.SwapPop
import ContractsStylus.Token.Erc721Enumerable

/-!
# The lists of the enumerable extension

What the operations of the extension do to the list of all tokens and to the lists of the owners.
Adding and removing are an array's push and swap-and-pop, provided that the balance which the
extension reads is the right one.

It is the wrong one for a transfer to the owner of a token. The extension takes the balance after
the update for the last index, and such a transfer does not change the balance: what is read
behind the last slot is zero, which is written over the slot of the token, and over the index of
token zero. `Harmless` says when this happens to be right.

## Closed forms

An operation that succeeds is first brought to a closed form, a number of updates of three tables,
and nothing after that refers to its text. What these updates do to a list that is read up to the
balance is a matter of the library: pushing, and swapping with the last element and popping, for any
pair of tables that are an element's index and an index's element.

The list of all tokens has its own operations, which are right without a condition. They take the
last index from the vector and not from a balance.

## Main definitions

* `Erc721Enumerable.Lists` — the list of one owner is right
* `Erc721Enumerable.Harmless` — the self-transfers that leave the lists right

## Main results

* `Erc721Enumerable.Lists.added`, `Erc721Enumerable.Lists.removed` — push, and swap and pop
* `Erc721Enumerable.Lists.reinserted`, `Erc721Enumerable.harmless_of_reinserted` — self-transfers
-/

namespace ContractsStylus

namespace Erc721Enumerable

open SwapPop

variable {C : Capacity} {self self' : Erc721Enumerable C} {erc721 : Erc721} {a b : Address}
  {tokenId : U256} {n : ℕ} {Mem : U256 → Prop}

/-! ### The operations in closed form

The tables are two maps of one list, from positions to tokens and back. `added` and `removed` say
what becomes of every entry of both. -/

/-- The lists after `tokenId` was added at index `length`. -/
def added (self : Erc721Enumerable C) (dst : Address) (tokenId length : U256) :
    Erc721Enumerable C :=
  (self.setOwnedToken dst length tokenId).setOwnedTokensIndex tokenId length

/-- The lists after `tokenId` was removed, with `last` for the last index. -/
def removed (self : Erc721Enumerable C) (src : Address) (tokenId last : U256) :
    Erc721Enumerable C :=
  let tokenIndex := self.ownedTokensIndex tokenId
  let self := if tokenIndex ≠ last then
      let lastTokenId := self.ownedTokens src last
      (self.setOwnedToken src tokenIndex lastTokenId).setOwnedTokensIndex lastTokenId tokenIndex
    else self
  (self.setOwnedTokensIndex tokenId 0).setOwnedToken src last 0

theorem addTokenToOwner_eq_ok
    (h : self._addTokenToOwnerEnumeration a tokenId erc721 = .ok self') :
    self' = self.added a tokenId (erc721.balances a - 1) := by
  obtain ⟨balance, hbalance, h⟩ := bind_eq_ok.mp h
  obtain ⟨-, hbalance⟩ := guard_eq_ok.mp hbalance
  obtain rfl := Except.ok.inj hbalance
  exact (pure_eq_ok.mp h).symm

theorem removeTokenFromOwner_eq_ok
    (h : self._removeTokenFromOwnerEnumeration a tokenId erc721 = .ok self') :
    self' = self.removed a tokenId (erc721.balances a) := by
  obtain ⟨balance, hbalance, h⟩ := bind_eq_ok.mp h
  obtain ⟨-, hbalance⟩ := guard_eq_ok.mp hbalance
  obtain rfl := Except.ok.inj hbalance
  exact (pure_eq_ok.mp h).symm

theorem ownedTokens_added (length i : U256) :
    (self.added a tokenId length).ownedTokens b i =
      if b = a ∧ i = length then tokenId else self.ownedTokens b i := by
  rcases eq_or_ne b a with rfl | hne
  · rcases eq_or_ne i length with rfl | hi <;> simp [added, setOwnedToken, setOwnedTokensIndex, *]
  · simp [added, setOwnedToken, setOwnedTokensIndex, hne]

theorem ownedTokensIndex_added (length id : U256) :
    (self.added a tokenId length).ownedTokensIndex id =
      if id = tokenId then length else self.ownedTokensIndex id := by
  simp [added, setOwnedToken, setOwnedTokensIndex, Function.update_apply]

theorem ownedTokens_removed (last i : U256) :
    (self.removed a tokenId last).ownedTokens b i =
      if b ≠ a then self.ownedTokens b i
      else if i = last then 0
      else if i = self.ownedTokensIndex tokenId then self.ownedTokens a last
      else self.ownedTokens a i := by
  rw [removed]
  rcases eq_or_ne b a with rfl | hne
  · by_cases hlast : self.ownedTokensIndex tokenId = last
    · rcases eq_or_ne i last with rfl | hi <;>
        simp [setOwnedToken, setOwnedTokensIndex, *]
    · rcases eq_or_ne i last with rfl | hi
      · simp [setOwnedToken]
      · rcases eq_or_ne i (self.ownedTokensIndex tokenId) with rfl | hi' <;>
          simp [setOwnedToken, setOwnedTokensIndex, *]
  · split <;> simp [setOwnedToken, setOwnedTokensIndex, hne]

theorem ownedTokensIndex_removed (last id : U256) :
    (self.removed a tokenId last).ownedTokensIndex id =
      if id = tokenId then 0
      else if self.ownedTokensIndex tokenId ≠ last ∧ id = self.ownedTokens a last then
        self.ownedTokensIndex tokenId
      else self.ownedTokensIndex id := by
  rw [removed]
  by_cases hlast : self.ownedTokensIndex tokenId = last <;>
    simp [setOwnedToken, setOwnedTokensIndex, hlast, Function.update_apply]

/-! ### The list of all tokens

The list is a vector, so its length is known, and a removal takes the last index from it. -/

/-- The `i`-th token. -/
def allSlot (self : Erc721Enumerable C) (i : ℕ) : U256 := self.allTokens.toList.getD i 0

/-- The index of a token among all, as a number. -/
def allIndex (self : Erc721Enumerable C) (tokenId : U256) : ℕ := (self.allTokensIndex tokenId).toNat

/-- The list of all tokens has the members `Mem`. -/
def ListsAll (self : Erc721Enumerable C) (Mem : U256 → Prop) : Prop :=
  Indexed self.allSlot self.allIndex self.allTokens.toList.length Mem

/-- Changes of an owner's list are none of all tokens. -/
theorem listsAll_added {length : U256} :
    (self.added a tokenId length).ListsAll Mem ↔ self.ListsAll Mem := Iff.rfl

theorem listsAll_removed {last : U256} :
    (self.removed a tokenId last).ListsAll Mem ↔ self.ListsAll Mem := by
  rw [removed]
  split <;> exact Iff.rfl

theorem addTokenToAll_eq_ok {ε : Type}
    (h : (self._addTokenToAllTokensEnumeration tokenId : Result ε _) = .ok self') :
    self'.allTokens.toList = self.allTokens.toList ++ [tokenId] ∧
      self'.allTokensIndex = Function.update self.allTokensIndex tokenId self.totalSupply ∧
      self'.ownedTokens = self.ownedTokens ∧ self'.ownedTokensIndex = self.ownedTokensIndex := by
  obtain ⟨allTokens, hpush, h⟩ := bind_eq_ok.mp h
  obtain rfl := pure_eq_ok.mp h
  exact ⟨StorageVec.push_eq_ok hpush, rfl, rfl, rfl⟩

theorem removeTokenFromAll_eq_ok {ε : Type}
    (h : (self._removeTokenFromAllTokensEnumeration tokenId : Result ε _) = .ok self') :
    let last := self.allSlot (self.allTokens.toList.length - 1)
    self'.allTokens.toList = (self.allTokens.toList.set (self.allIndex tokenId) last).dropLast ∧
      self'.allTokensIndex =
        Function.update (Function.update self.allTokensIndex last (self.allTokensIndex tokenId))
          tokenId 0 ∧
      self'.ownedTokens = self.ownedTokens ∧ self'.ownedTokensIndex = self.ownedTokensIndex := by
  obtain ⟨last, hlast, h⟩ := bind_eq_ok.mp h
  obtain ⟨allTokens, hset, h⟩ := bind_eq_ok.mp h
  obtain rfl := pure_eq_ok.mp h
  rw [expect_eq_ok, StorageVec.get, BitVec.toNat_ofNat, Nat.mod_eq_of_lt] at hlast
  · have hslot : self.allSlot (self.allTokens.toList.length - 1) = last := by
      rw [allSlot, List.getD_eq_getElem?_getD, hlast, Option.getD_some]
    obtain ⟨-, hlist⟩ := StorageVec.set_eq_some (expect_eq_ok.mp hset)
    rw [hslot]
    exact ⟨congrArg List.dropLast hlist, rfl, rfl, rfl⟩
  · have := self.allTokens.length_lt
    omega

/-- **A mint is listed.** -/
theorem ListsAll.pushed {ε : Type} {Mem' : U256 → Prop} (h : self.ListsAll Mem)
    (hnew : ¬Mem tokenId)
    (hok : (self._addTokenToAllTokensEnumeration tokenId : Result ε _) = .ok self')
    (hmem : ∀ id, Mem' id ↔ Mem id ∨ id = tokenId) : self'.ListsAll Mem' := by
  obtain ⟨hlist, hindex, -, -⟩ := addTokenToAll_eq_ok hok
  rw [ListsAll, hlist, List.length_append, List.length_singleton]
  refine Indexed.push h hnew (fun i hi => ?_) ?_ (fun id hid => ?_) ?_ hmem
  · rw [allSlot, hlist, List.getD_eq_getElem?_getD, List.getElem?_append_left hi,
      ← List.getD_eq_getElem?_getD, allSlot]
  · simp [allSlot, hlist]
  · rw [allIndex, hindex, Function.update_of_ne, allIndex]
    rintro rfl
    exact hnew hid
  · rw [allIndex, hindex, Function.update_self, totalSupply, StorageVec.len_toNat]

/-- **A burn is taken off the list.** -/
theorem ListsAll.popped {ε : Type} {Mem' : U256 → Prop} (h : self.ListsAll Mem)
    (hold : Mem tokenId)
    (hok : (self._removeTokenFromAllTokensEnumeration tokenId : Result ε _) = .ok self')
    (hmem : ∀ id, Mem' id ↔ Mem id ∧ id ≠ tokenId) : self'.ListsAll Mem' := by
  obtain ⟨hlist, hindex, -, -⟩ := removeTokenFromAll_eq_ok hok
  have hlt : self.allIndex tokenId < self.allTokens.toList.length := h.index_lt tokenId hold
  obtain ⟨n, hn⟩ : ∃ n, self.allTokens.toList.length = n + 1 :=
    ⟨self.allTokens.toList.length - 1, by omega⟩
  rw [hn, Nat.add_sub_cancel] at hlist hindex
  have hslot (i : ℕ) (hi : i < n) : self'.allSlot i =
      if i = self.allIndex tokenId then self.allSlot n else self.allSlot i := by
    rw [allSlot, hlist]
    exact getD_set_dropLast hn hi _ _ _
  rw [ListsAll, hn] at h
  rw [ListsAll, hlist, List.length_dropLast, List.length_set, hn, Nat.add_sub_cancel]
  refine h.swapPop hold (fun i hi hne => ?_) (fun hlt => ?_) (fun id hid hne hnelast => ?_)
    (fun hne => ?_) hmem
  · rw [hslot i hi, if_neg hne]
  · rw [hslot _ hlt, if_pos rfl]
  · rw [allIndex, hindex, Function.update_of_ne hne, Function.update_of_ne hnelast, allIndex]
  · rw [allIndex, hindex, Function.update_of_ne hne, Function.update_self, allIndex]

/-! ### The list of one owner

The entries of a list are those below a number that is kept elsewhere, as the balance. Other lists
share the table of indices with it, so each operation needs a lemma for the list that it works on
and one for the others. -/

/-- The `i`-th token of an owner. -/
def slot (self : Erc721Enumerable C) (a : Address) (i : ℕ) : U256 :=
  self.ownedTokens a (BitVec.ofNat 256 i)

/-- The index of a token, as a number. -/
def index (self : Erc721Enumerable C) (tokenId : U256) : ℕ := (self.ownedTokensIndex tokenId).toNat

/-- The list of `a` has the `n` members `Mem`, and nothing is left behind them. -/
structure Lists (e : Erc721Enumerable C) (a : Address) (n : ℕ) (Mem : U256 → Prop) : Prop where
  indexed : Indexed (e.slot a) e.index n Mem
  vacant : ∀ i : U256, n ≤ i.toNat → e.ownedTokens a i = 0

theorem Lists.congr {Mem' : U256 → Prop} (h : self.Lists a n Mem)
    (htokens : self'.ownedTokens a = self.ownedTokens a)
    (hindex : ∀ id, Mem id → self'.ownedTokensIndex id = self.ownedTokensIndex id)
    (hmem : ∀ id, Mem' id ↔ Mem id) : self'.Lists a n Mem' where
  indexed := h.indexed.congr (fun i _ => by rw [slot, slot, htokens])
    (fun id hid => by rw [index, index, hindex id hid]) hmem
  vacant i hi := by rw [htokens]; exact h.vacant i hi

/-- The lists of the owners do not depend on the list of all tokens. -/
theorem Lists.of_eq (h : self.Lists a n Mem) (htokens : self'.ownedTokens = self.ownedTokens)
    (hindex : self'.ownedTokensIndex = self.ownedTokensIndex) : self'.Lists a n Mem :=
  h.congr (by rw [htokens]) (fun _ _ => by rw [hindex]) fun _ => Iff.rfl

/-- Adding a token to one list leaves the others alone. -/
theorem Lists.added_of_ne {length : U256} (h : self.Lists b n Mem) (hne : b ≠ a)
    (hnew : ¬Mem tokenId) : (self.added a tokenId length).Lists b n Mem := by
  refine h.congr (funext fun i => ?_) (fun id hid => ?_) fun _ => Iff.rfl
  · rw [ownedTokens_added, if_neg fun hb => hne hb.1]
  · rw [ownedTokensIndex_added, if_neg]
    rintro rfl
    exact hnew hid

theorem toNat_ofNat_of_lt {i : ℕ} (h : i < 2 ^ 256) : (BitVec.ofNat 256 i).toNat = i := by
  rw [BitVec.toNat_ofNat, Nat.mod_eq_of_lt h]

/-- The slots of a list are different storage slots. -/
theorem ofNat_inj_of_lt {i j : ℕ} (hi : i < 2 ^ 256) (hj : j < 2 ^ 256) :
    BitVec.ofNat 256 i = BitVec.ofNat 256 j ↔ i = j := by
  rw [← BitVec.toNat_inj, toNat_ofNat_of_lt hi, toNat_ofNat_of_lt hj]

/-- A word, as the number it stands for. -/
theorem eq_ofNat {x : U256} (h : x.toNat = n) : x = BitVec.ofNat 256 n ∧ n < 2 ^ 256 := by
  refine ⟨?_, h ▸ x.isLt⟩
  rw [← h, BitVec.ofNat_toNat, BitVec.setWidth_eq]

theorem indexed_added {Mem' : U256 → Prop} (h : Indexed (self.slot a) self.index n Mem)
    (hnew : ¬Mem tokenId) (hn : n < 2 ^ 256) (hmem : ∀ id, Mem' id ↔ Mem id ∨ id = tokenId) :
    Indexed ((self.added a tokenId (BitVec.ofNat 256 n)).slot a)
      (self.added a tokenId (BitVec.ofNat 256 n)).index (n + 1) Mem' := by
  refine h.push hnew (fun i hi => ?_) ?_ (fun id hid => ?_) ?_ hmem
  · rw [slot, ownedTokens_added, if_neg]
    · rfl
    · rw [ofNat_inj_of_lt (by omega) hn]
      omega
  · rw [slot, ownedTokens_added, if_pos ⟨rfl, rfl⟩]
  · rw [index, ownedTokensIndex_added, if_neg]
    · rfl
    · rintro rfl
      exact hnew hid
  · rw [index, ownedTokensIndex_added, if_pos rfl, toNat_ofNat_of_lt hn]

/-- **Adding a token behind the list of its owner.** -/
theorem Lists.added {Mem' : U256 → Prop} {length : U256} (h : self.Lists a n Mem)
    (hnew : ¬Mem tokenId) (hlength : length.toNat = n)
    (hmem : ∀ id, Mem' id ↔ Mem id ∨ id = tokenId) :
    (self.added a tokenId length).Lists a (n + 1) Mem' := by
  obtain ⟨rfl, hn⟩ := eq_ofNat hlength
  refine ⟨indexed_added h.indexed hnew hn hmem, fun i hi => ?_⟩
  rw [ownedTokens_added, if_neg]
  · exact h.vacant i (by omega)
  · rintro ⟨-, rfl⟩
    rw [toNat_ofNat_of_lt hn] at hi
    omega

/-- What is in front of the last slot after a removal. -/
theorem slot_removed {i m : ℕ} (hi : i < m) (hm : m < 2 ^ 256) :
    (self.removed a tokenId (BitVec.ofNat 256 m)).slot a i =
      if i = self.index tokenId then self.slot a m else self.slot a i := by
  have hindex : BitVec.ofNat 256 (self.index tokenId) = self.ownedTokensIndex tokenId :=
    BitVec.ofNat_toNat ..
  have hlt : self.index tokenId < 2 ^ 256 := BitVec.isLt _
  rw [slot, ownedTokens_removed, if_neg (not_not.mpr rfl), if_neg, ← hindex]
  · simp only [ofNat_inj_of_lt (hi.trans hm) hlt, slot]
  · rw [ofNat_inj_of_lt (hi.trans hm) hm]
    omega

/-- The indices after it. -/
theorem index_removed {id : U256} {m : ℕ} (hne : id ≠ tokenId) (hm : m < 2 ^ 256) :
    (self.removed a tokenId (BitVec.ofNat 256 m)).index id =
      if self.index tokenId ≠ m ∧ id = self.slot a m then self.index tokenId
      else self.index id := by
  have hneq : self.ownedTokensIndex tokenId ≠ BitVec.ofNat 256 m ↔ self.index tokenId ≠ m := by
    rw [index, ne_eq, ← BitVec.toNat_inj, toNat_ofNat_of_lt hm]
  rw [index, ownedTokensIndex_removed, if_neg hne, apply_ite BitVec.toNat]
  exact if_congr (and_congr hneq Iff.rfl) rfl rfl

/-- Removing a token from one list leaves another alone, unless the token that is moved into the
hole is on the other list. -/
theorem Lists.removed_of_ne {last : U256} (h : self.Lists b n Mem) (hne : b ≠ a)
    (hmem : ¬Mem tokenId)
    (hlast : self.ownedTokensIndex tokenId ≠ last → Mem (self.ownedTokens a last) →
      self.ownedTokensIndex (self.ownedTokens a last) = self.ownedTokensIndex tokenId) :
    (self.removed a tokenId last).Lists b n Mem := by
  refine h.congr (funext fun i => ?_) (fun id hid => ?_) fun _ => Iff.rfl
  · rw [ownedTokens_removed, if_pos hne]
  · rw [ownedTokensIndex_removed, if_neg]
    · split
      · rename_i hmoved
        rw [hmoved.2] at hid ⊢
        exact (hlast hmoved.1 hid).symm
      · rfl
    · rintro rfl
      exact hmem hid

/-- **Removing a token from the list of its owner**, with the right last index. -/
theorem Lists.removed {Mem' : U256 → Prop} {last : U256} (h : self.Lists a (n + 1) Mem)
    (hold : Mem tokenId) (hlast : last.toNat = n)
    (hmem : ∀ id, Mem' id ↔ Mem id ∧ id ≠ tokenId) :
    (self.removed a tokenId last).Lists a n Mem' := by
  obtain ⟨rfl, hn⟩ := eq_ofNat hlast
  have hlt : self.index tokenId < n + 1 := h.indexed.index_lt tokenId hold
  constructor
  case indexed =>
    refine h.indexed.swapPop hold (fun i hi hne => ?_) (fun hlt => ?_)
      (fun id hid hne hnelast => ?_) (fun hne => ?_) hmem
    · rw [slot_removed hi hn, if_neg hne]
    · rw [slot_removed hlt hn, if_pos rfl]
    · rw [index_removed hne hn, if_neg fun hmoved => hnelast hmoved.2]
    · rw [index_removed hne hn, if_pos ⟨h.indexed.index_ne hold hne.symm, rfl⟩]
  case vacant =>
    intro i hi
    rw [ownedTokens_removed, if_neg (not_not.mpr rfl)]
    split
    · rfl
    · rename_i hne
      have hni : i.toNat ≠ n := by
        intro heq
        rw [← heq, BitVec.ofNat_toNat, BitVec.setWidth_eq] at hne
        exact hne rfl
      rw [if_neg]
      · exact h.vacant i (by omega)
      · rintro rfl
        rw [index] at hlt
        omega

/-! ### A transfer to oneself

The balance is the same before and after, and the removal takes it for the last index, which is one
too many: the entry there was never written, and reads as token zero. `Harmless` names the cases in
which the hole is then filled by the right token. -/

/-- The self-transfers that leave the lists right: what is on the last slot of the owner is token
zero, or it is the token itself and the index of token zero is not disturbed. -/
def Harmless (self : Erc721Enumerable C) (a : Address) (tokenId : U256) (n : ℕ)
    (Exists : U256 → Prop) : Prop :=
  self.slot a n = 0 ∨ (self.slot a n = tokenId ∧ (Exists 0 → self.index 0 = n))

/-- The lists after a self-transfer of `tokenId`, with `n + 1` tokens before and after it. -/
def reinserted (self : Erc721Enumerable C) (a : Address) (tokenId : U256) (n : ℕ) :
    Erc721Enumerable C :=
  (self.removed a tokenId (BitVec.ofNat 256 (n + 1))).added a tokenId (BitVec.ofNat 256 n)

theorem slot_reinserted : (self.reinserted a tokenId n).slot a n = tokenId := by
  rw [slot, reinserted, ownedTokens_added, if_pos ⟨rfl, rfl⟩]

section Reinserted

variable {Exists : U256 → Prop} (h : self.Lists a (n + 1) Mem) (hold : Mem tokenId)
  (hn : n + 1 < 2 ^ 256) (hexists : ∀ id, Mem id → Exists id)

include h hold hn

/-- The slot behind the last one is empty, and the token is not there. -/
theorem reinserted_last : self.slot a (n + 1) = 0 ∧ self.index tokenId ≠ n + 1 :=
  ⟨h.vacant _ (by rw [toNat_ofNat_of_lt hn]), (h.indexed.index_lt tokenId hold).ne⟩

include hexists in
/-- The removal, with the last index one too large, takes the token off the list all the same. -/
theorem indexed_removed_of_harmless (hharmless : self.Harmless a tokenId n Exists) :
    Indexed ((self.removed a tokenId (BitVec.ofNat 256 (n + 1))).slot a)
      (self.removed a tokenId (BitVec.ofNat 256 (n + 1))).index n
      (fun id => Mem id ∧ id ≠ tokenId) := by
  obtain ⟨hvacant, hneq⟩ := reinserted_last h hold hn
  have hlast : self.index (self.slot a n) = n := h.indexed.index_slot n (Nat.lt_succ_self n)
  refine h.indexed.swapPop hold (fun i hi hne => ?_) (fun hlt => ?_)
    (fun id hid hne hnelast => ?_) (fun hne => ?_) fun _ => Iff.rfl
  · rw [slot_removed (by omega) hn, if_neg hne]
  · rw [slot_removed (by omega) hn, if_pos rfl]
    refine hvacant.trans (hharmless.resolve_right fun hid => ?_).symm
    rw [hid.1] at hlast
    omega
  · rw [index_removed hne hn]
    split
    · -- token zero, which is listed elsewhere or not at all, or is the one that has to move
      rename_i hmoved
      obtain rfl : id = 0 := hmoved.2.trans hvacant
      obtain ⟨hslot, hzero⟩ := hharmless.resolve_left fun hzero => hnelast hzero.symm
      rw [hslot] at hlast
      rw [hzero (hexists 0 hid), hlast]
    · rfl
  · have hmoved : self.slot a n = self.slot a (n + 1) :=
      (hharmless.resolve_right fun hid => hne hid.1).trans hvacant.symm
    rw [index_removed hne hn, if_pos ⟨hneq, hmoved⟩]

include hexists in
/-- **A harmless self-transfer leaves the list of the owner right.** -/
theorem Lists.reinserted (hharmless : self.Harmless a tokenId n Exists) :
    (self.reinserted a tokenId n).Lists a (n + 1) Mem := by
  have hlt : self.index tokenId < n + 1 := h.indexed.index_lt tokenId hold
  have hremoved := indexed_removed_of_harmless h hold hn hexists hharmless
  refine ⟨indexed_added hremoved (fun hid => hid.2 rfl) (by omega) fun id => ?_, fun i hi => ?_⟩
  · rcases eq_or_ne id tokenId with rfl | hne
    · simp [hold]
    · simp [hne]
  · have hni : i ≠ BitVec.ofNat 256 n := by
      rintro rfl
      rw [toNat_ofNat_of_lt (by omega)] at hi
      omega
    rw [Erc721Enumerable.reinserted, ownedTokens_added, if_neg fun hb => hni hb.2,
      ownedTokens_removed, if_neg (not_not.mpr rfl)]
    split
    · rfl
    · rw [if_neg]
      · exact h.vacant i hi
      · rintro rfl
        rw [index] at hlt
        omega

/-- A harmless self-transfer leaves the other lists right. -/
theorem Lists.reinserted_of_ne {m : ℕ} {Mem' : U256 → Prop} (h' : self.Lists b m Mem')
    (hne : b ≠ a) (hdisj : ∀ id, Mem id → ¬Mem' id) (hexists : ∀ id, Mem' id → Exists id)
    (hharmless : self.Harmless a tokenId n Exists) :
    (self.reinserted a tokenId n).Lists b m Mem' := by
  obtain ⟨hvacant, -⟩ := reinserted_last h hold hn
  refine (h'.removed_of_ne hne (hdisj tokenId hold) fun _ hzero => ?_).added_of_ne hne
    (hdisj tokenId hold)
  rw [slot] at hvacant
  rw [hvacant] at hzero ⊢
  rcases hharmless with hlast | ⟨hlast, hindex⟩
  · exact absurd hzero (hdisj 0 (hlast ▸ h.indexed.mem_slot n (Nat.lt_succ_self n)))
  · have htoken : self.index tokenId = n := by
      rw [← hlast]
      exact h.indexed.index_slot n (Nat.lt_succ_self n)
    exact BitVec.eq_of_toNat_eq ((hindex (hexists 0 hzero)).trans htoken.symm)

/-- **A self-transfer that leaves the lists right was harmless.** -/
theorem harmless_of_reinserted
    (h' : Indexed ((self.reinserted a tokenId n).slot a) (self.reinserted a tokenId n).index
      (n + 1) Mem)
    (hzero : Exists 0 → ∃ b m, ∃ Mem' : U256 → Prop, Mem' 0 ∧
      Indexed (self.slot b) self.index m Mem' ∧
      Indexed ((self.reinserted a tokenId n).slot b) (self.reinserted a tokenId n).index m Mem') :
    self.Harmless a tokenId n Exists := by
  obtain ⟨hvacant, hneq⟩ := reinserted_last h hold hn
  have hslot : (self.reinserted a tokenId n).slot a n = tokenId := slot_reinserted
  rcases eq_or_ne (self.slot a n) 0 with hlast | hlast
  · exact Or.inl hlast
  have hindex : self.index (self.slot a n) = n := h.indexed.index_slot n (Nat.lt_succ_self n)
  have htoken : self.slot a n = tokenId := by
    by_contra hne
    have hkept : (self.reinserted a tokenId n).index (self.slot a n) = n := by
      rw [index, reinserted, ownedTokensIndex_added, if_neg hne, ← index,
        index_removed hne hn, if_neg]
      · exact hindex
      · rintro ⟨-, heq⟩
        exact hlast (heq.trans hvacant)
    have hfound := h'.slot_index _ (h.indexed.mem_slot n (Nat.lt_succ_self n))
    rw [hkept, hslot] at hfound
    exact hne hfound.symm
  refine Or.inr ⟨htoken, fun hexists => ?_⟩
  obtain ⟨b, m, Mem', hmem, hbefore, hafter⟩ := hzero hexists
  have hne : (0 : U256) ≠ tokenId := fun heq => hlast (htoken.trans heq.symm)
  have hmoved : (self.reinserted a tokenId n).index 0 = n := by
    rw [index, reinserted, ownedTokensIndex_added, if_neg hne, ← index, index_removed hne hn,
      if_pos ⟨hneq, hvacant.symm⟩, ← htoken]
    exact hindex
  have hfound := hafter.slot_index 0 hmem
  have hlt := hafter.index_lt 0 hmem
  rw [hmoved] at hfound hlt
  rcases eq_or_ne b a with rfl | hba
  · exact absurd (hfound.symm.trans hslot) hne
  · rw [slot, reinserted, ownedTokens_added, if_neg fun hb => hba hb.1, ownedTokens_removed,
      if_pos hba] at hfound
    have hat := hbefore.index_slot n hlt
    rwa [slot, hfound] at hat

end Reinserted

end Erc721Enumerable

end ContractsStylus
