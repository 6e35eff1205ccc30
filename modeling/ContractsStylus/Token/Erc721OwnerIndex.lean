import ContractsStylus.Token.Erc721Example

/-!
# Tokens of an owner by index

`token_of_owner_by_index` tells an index that is out of bounds by what is stored there: zero. But
zero is a token like any other. So the owner of token zero is answered that one of its own indices
is out of bounds, and everybody else is answered right.

## Exactly who

Every owner of token zero is answered wrongly, and everybody else right. The condition is one on the
state, and in both directions the lists have to be exact, as they are in runs without a transfer of
a token to its owner.

Whether there can be a token zero is a question about runs. A token that does not exist comes to
exist by being minted only, so in runs that do not mint token zero every account is answered right.

## Main definitions

* `Erc721Example.IndexExact` — the answers to one account are right
* `Erc721Example.NoSelfTransfer` — a call that is not a transfer of a token to its owner

## Main results

* `Erc721Example.Effect.owners_eq_zero` — a token that does not exist only comes to exist when it is
  minted
* `Erc721Example.tokenOfOwnerByIndex_exact` — the answers are right for those who do not own token
  zero, and for no one else
* `Erc721Example.tokenOfOwnerByIndex_zero` — an only token that is not found
-/

namespace ContractsStylus

namespace Erc721Example

variable {C : Capacity} {s s' : Erc721Example C} {tx : Tx} {a : Address} {id : U256}

/-- `token_of_owner_by_index` answers `a` on the indices below its balance, with its tokens, and
with different ones on different indices. -/
def IndexExact (s : Erc721Example C) (a : Address) : Prop :=
  ∀ n, s.erc721.balanceOf a = .ok n →
    (∀ i, (∃ id, s.tokenOfOwnerByIndex a i = .ok id) ↔ i < n) ∧
    (∀ i id, s.tokenOfOwnerByIndex a i = .ok id → s.erc721.ownerOf id = .ok a) ∧
    ∀ i j id, s.tokenOfOwnerByIndex a i = .ok id → s.tokenOfOwnerByIndex a j = .ok id → i = j

/-- No transfer of a token to its owner. -/
def NoSelfTransfer (_ : Erc721Example C) (tx : Tx) : Prop :=
  ∀ a tokenId, tx.op.transferred ≠ some (a, a, tokenId)

/-! ### The answers in a state -/

theorem tokenOfOwnerByIndex_eq_ok {i : U256} : s.tokenOfOwnerByIndex a i = .ok id ↔
    s.enumerable.ownedTokens a i = id ∧ id ≠ 0 := by
  rw [tokenOfOwnerByIndex, mapErr_eq_ok, Erc721Enumerable.tokenOfOwnerByIndex]
  split
  · rename_i hzero
    exact iff_of_false err_ne_ok fun h => h.2 (h.1.symm.trans hzero)
  · rename_i hne
    refine ⟨fun h => ?_, fun h => congrArg _ h.1⟩
    obtain rfl := Except.ok.inj h
    exact ⟨rfl, hne⟩

/-- A word is the slot of its number. -/
theorem ownedTokens_eq_slot (i : U256) :
    s.enumerable.ownedTokens a i = s.enumerable.slot a i.toNat := by
  rw [Erc721Enumerable.slot, BitVec.ofNat_toNat, BitVec.setWidth_eq]

/-- **Where the list of an account is right**, so are the answers to it, but for token zero. -/
theorem indexExact_iff (h : s.enumerable.Lists a (s.erc721.balances a).toNat
      fun id => s.erc721.owners id = a) (ha : a ≠ 0) :
    s.IndexExact a ↔ s.erc721.owners 0 ≠ a := by
  have hbalance : s.erc721.balanceOf a = .ok (s.erc721.balances a) := if_neg ha
  have hindexed := h.indexed
  constructor
  · -- the index of token zero is one of those that should be answered
    intro hexact hzero
    have hlt := hindexed.index_lt 0 hzero
    obtain ⟨id, hid⟩ := ((hexact _ hbalance).1 (s.enumerable.ownedTokensIndex 0)).mpr hlt
    obtain ⟨rfl, hne⟩ := tokenOfOwnerByIndex_eq_ok.mp hid
    rw [ownedTokens_eq_slot] at hne
    exact hne (hindexed.slot_index 0 hzero)
  · intro hzero n hn
    obtain rfl := Except.ok.inj (hbalance.symm.trans hn)
    have hbound : ∀ i id, s.tokenOfOwnerByIndex a i = .ok id →
        i.toNat < (s.erc721.balances a).toNat ∧ s.enumerable.slot a i.toNat = id := by
      intro i id hid
      obtain ⟨hslot, hne⟩ := tokenOfOwnerByIndex_eq_ok.mp hid
      refine ⟨?_, (ownedTokens_eq_slot i).symm.trans hslot⟩
      by_contra hge
      exact hne (hslot.symm.trans (h.vacant i (not_lt.mp hge)))
    refine ⟨fun i => ⟨?_, fun hlt => ?_⟩, fun i id hid => ?_, fun i j id hi hj => ?_⟩
    · rintro ⟨id, hid⟩
      exact (hbound i id hid).1
    · refine ⟨_, tokenOfOwnerByIndex_eq_ok.mpr ⟨rfl, fun hvacant => hzero ?_⟩⟩
      rw [← hvacant, ownedTokens_eq_slot]
      exact hindexed.mem_slot _ hlt
    · obtain ⟨hlt, rfl⟩ := hbound i id hid
      exact (ownerOf_eq_ok ha).mpr (hindexed.mem_slot _ hlt)
    · obtain ⟨hi, hsloti⟩ := hbound i id hi
      obtain ⟨hj, hslotj⟩ := hbound j id hj
      refine BitVec.eq_of_toNat_eq ?_
      rw [← hindexed.index_slot _ hi, ← hindexed.index_slot _ hj, hsloti, hslotj]

/-! ### Runs that do not mint a token -/

/-- **A token that does not exist** only comes to exist when it is minted. -/
theorem Effect.owners_eq_zero (h : Effect s tx s') (hmint : tx.op.minted ≠ some id)
    (hid : s.erc721.owners id = 0) : s'.erc721.owners id = 0 := by
  cases h with
  | approval _ howners _ => rw [howners, hid]
  | mint _ hminted =>
    rw [Erc721.owners_move_apply, if_neg]
    · exact hid
    · rintro rfl
      exact hmint hminted
  | transfer _ hsrc _ howner =>
    rw [Erc721.owners_move_apply, if_neg]
    · exact hid
    · rintro rfl
      exact hsrc (howner.symm.trans hid)
  | burn =>
    rw [Erc721.owners_move_apply]
    split
    · rfl
    · exact hid

/-- Nor does it in a run. -/
theorem owners_of_not_minted {P : Erc721Example C → Tx → Prop} (h : machine.Reachable P empty s)
    (hP : ∀ s tx, P s tx → tx.op.minted ≠ some id) : s.erc721.owners id = 0 := by
  induction h with
  | refl => rfl
  | step _ hmint hexec hid => exact (effect_of_exec hexec).owners_eq_zero (hP _ _ hmint) hid

/-! ### The answers in all runs -/

theorem ownedListed_of_noSelfTransfer (h : machine.Reachable NoSelfTransfer empty s) :
    s.OwnedListed := by
  induction h with
  | refl => exact ownedListed_empty
  | step hreach hno hexec howned =>
    exact (effect_of_exec hexec).ownedListed (allListed_of_reachable hreach) howned
      fun a tokenId hop => absurd hop (hno a tokenId)

/-- **The answers to an account are right if and only if it does not own token zero**, in every
run without transfers of tokens to their owners. So all answers are right in every such run that
does not mint token zero. -/
theorem tokenOfOwnerByIndex_exact (h : machine.Reachable NoSelfTransfer empty s) :
    (∀ a ≠ 0, s.IndexExact a ↔ s.erc721.owners 0 ≠ a) ∧
      (machine.Reachable (fun s tx => NoSelfTransfer s tx ∧ tx.op.minted ≠ some 0) empty s →
        ∀ a, s.IndexExact a) := by
  have hexact : ∀ a ≠ 0, s.IndexExact a ↔ s.erc721.owners 0 ≠ a := fun a ha =>
    indexExact_iff (ownedListed_of_noSelfTransfer h a ha) ha
  refine ⟨hexact, fun hrun a => ?_⟩
  have hzero : s.erc721.owners 0 = 0 := owners_of_not_minted hrun fun _ _ h => h.2
  rcases eq_or_ne a 0 with rfl | ha
  · exact fun n hn => absurd rfl (guard_eq_ok.mp hn).1
  · refine (hexact a ha).mpr ?_
    rw [hzero]
    exact ha.symm

/-- After a mint to account `1`, and of token zero to account `2`. -/
theorem tokenOfOwnerByIndex_exact_two : ∃ s : Erc721Example .wasm32,
    machine.Reachable NoSelfTransfer empty s ∧ s.IndexExact 1 ∧ ¬s.IndexExact 2 := by
  obtain ⟨s, hs, howner⟩ := machine.exists_reachable (P := NoSelfTransfer)
    (empty : Erc721Example .wasm32)
    [ofAccountOne (.mint 1 5), ofAccountOne (.mint 2 0)] (fun s => s.erc721.owners 0) 2
    (fun tx htx s a id hop => by
      rcases List.mem_pair.mp htx with rfl | rfl
      · exact nomatch hop
      · exact nomatch hop)
    (by decide +kernel)
  obtain ⟨hexact, -⟩ := tokenOfOwnerByIndex_exact hs
  refine ⟨s, hs, (hexact 1 (by decide)).mpr ?_, fun htwo => ?_⟩
  · rw [howner]
    decide
  · exact (hexact 2 (by decide)).mp htwo howner

/-- After token zero was minted to account `1`, there is no token at its index `0`. -/
theorem tokenOfOwnerByIndex_zero : ∃ s : Erc721Example .wasm32,
    machine.Reachable NoSelfTransfer empty s ∧
    s.erc721.balanceOf 1 = .ok 1 ∧ s.erc721.ownerOf 0 = .ok 1 ∧
    s.tokenOfOwnerByIndex 1 0 = .err (.enumerable (.OutOfBoundsIndex 1 0)) ∧
    ¬s.IndexExact 1 := by
  obtain ⟨s, hs, hlook⟩ := machine.exists_reachable (P := NoSelfTransfer)
    (empty : Erc721Example .wasm32) [ofAccountOne (.mint 1 0)]
    (fun s => (s.erc721.balances 1, s.erc721.owners 0, s.enumerable.ownedTokens 1 0)) (1, 1, 0)
    (fun tx htx s a id hop => by
      obtain rfl := List.mem_singleton.mp htx
      exact nomatch hop)
    (by decide +kernel)
  simp only [Prod.mk.injEq] at hlook
  obtain ⟨hbalance, howner, hslot⟩ := hlook
  have hone : s.erc721.balanceOf 1 = .ok 1 := by
    rw [Erc721.balanceOf, if_neg (by decide), hbalance]
  refine ⟨s, hs, hone, (ownerOf_eq_ok (by decide)).mpr howner, ?_, fun hexact => ?_⟩
  · rw [tokenOfOwnerByIndex, Erc721Enumerable.tokenOfOwnerByIndex, hslot]
    rfl
  · obtain ⟨id, hid⟩ := ((hexact 1 hone).1 0).mpr (by decide)
    obtain ⟨rfl, hne⟩ := tokenOfOwnerByIndex_eq_ok.mp hid
    exact hne hslot

end Erc721Example

end ContractsStylus
