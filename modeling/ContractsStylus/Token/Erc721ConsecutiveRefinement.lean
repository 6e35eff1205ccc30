import ContractsStylus.Token.Erc721ConsecutiveBatches
import ContractsStylus.Token.Erc721Refinement

/-!
# Batches as single mints

A contract in which the batches come first cannot be told from the base contract in which the
tokens of each batch were minted one by one.

## In lockstep

The two contracts keep the owners in different places and everything else in the same. `Simulates`
says that the owners agree as far as `_owner_of` tells, so it is kept by an update whatever moves
the token; that no other function can tell a difference is a theorem on layers.

Batches are not in the interface of the base contract. There the tokens of a batch are minted one by
one, in a loop that fails as soon as one of the mints does. The two agree as long as the batches
come first, as the documentation of the source asks for; what goes wrong later is in the module on
where batches create their tokens.

## Main definitions

* `Erc721Consecutive.Plain` — the base contract, with batches that are minted one by one
* `Erc721Consecutive.Simulates` — the relation between the two contracts

## Main results

* `Erc721Consecutive.refines` — the operations cannot tell the two apart
* `Erc721Consecutive.refines_plain` — nor can a run in which the batches come first
* `Erc721Consecutive.not_refines_unlimited` — a batch above the limit
-/

namespace ContractsStylus

namespace Erc721Consecutive

open Erc721 (Tx)

/-! ### The base contract

What the extension is compared with: the base contract with a loop of mints, and a number for the
next id, which the base contract does not have. -/

/-- The base contract, and the next id of a batch. -/
structure Plain where
  erc721 : Erc721
  next : ℕ

namespace Plain

/-- A base contract in which nothing was minted yet. -/
def deployed (first : U96) : Plain := ⟨Erc721.empty, first.toNat⟩

/-- The tokens of a batch, minted one by one. -/
def mintAll (e : Erc721) (dst : Address) (next size : ℕ) : Result Erc721.Error Erc721 :=
  (List.range' next size).foldlM (fun e id => e._mint dst (BitVec.ofNat 256 id)) e

/-- One call. Batches above the limit are refused. -/
def exec (limit : U96) (self : Plain) : Call → Result Error Plain
  | .mintConsecutive dst batchSize =>
    if dst ≠ 0 ∧ batchSize > limit then
      .err (.ExceededMaxBatchMint (batchSize.setWidth 256) (limit.setWidth 256))
    else do
      let erc721 ← (mintAll self.erc721 dst self.next batchSize.toNat).mapErr .erc721
      pure ⟨erc721, self.next + batchSize.toNat⟩
  | .tx tx => do
    let erc721 ← (Erc721.layer.exec Erc721._update self.erc721 tx).mapErr .erc721
    pure { self with erc721 }

/-- The base contract as a machine. -/
def machine (limit : U96) : Machine Plain Call (Revert Error) := ⟨exec limit⟩

end Plain

/-! ### Operations

Every operation but a batch is a function of a layer, and `Layer.Refines` is for these. What is left
to show is that the two layers find the same owner and move the same token. -/

/-- The contract has the owners that the base contract has, and otherwise the same storage. -/
structure Simulates (s : Erc721Consecutive) (e : Erc721) : Prop where
  sorted : s.sequentialOwnership.Sorted
  next_lt : s.nextNat < 2 ^ 96
  ownerOf : ∀ id, s._ownerOf id = (.ok (e.owners id) : Result Error _)
  erc721 : ∃ owners, s.erc721 = { e with owners }

variable {s s' : Erc721Consecutive} {e e' : Erc721}

/-- A token that was burned is not found at the anchors. -/
theorem Simulates.ite_burned (h : Simulates s e) (src : Address) (tokenId : U256) :
    (if tokenId.toNat < s.firstConsecutiveId.toNat ∨ 2 ^ 96 ≤ tokenId.toNat ∨
        (s.moved src 0 tokenId).sequentialBurn.get tokenId then 0
      else s.anchored tokenId) = 0 := by
  split
  · rfl
  · rename_i hcond
    rw [not_or, not_or, not_lt, not_le, get_sequentialBurn_moved, not_or,
      Nat.mod_eq_of_lt h.next_lt] at hcond
    obtain ⟨-, hlt, -, hburned⟩ := hcond
    have hnext : s.nextNat ≤ tokenId.toNat := not_lt.mp fun hlt => hburned ⟨rfl, rfl, hlt⟩
    exact anchored_eq_zero (find?_eq_none h.sorted hlt hnext)

/-- An update moves the same token in both. -/
theorem Simulates.moved (h : Simulates s e) (src dst : Address) (tokenId : U256) :
    Simulates (s.moved src dst tokenId) (e.move src dst tokenId) where
  sorted := h.sorted
  next_lt := h.next_lt
  ownerOf id := by
    rw [Erc721.owners_move_apply]
    split
    · rename_i hid
      have howner : (s.moved src dst tokenId).erc721.owners id = dst := by
        rw [Erc721Consecutive.moved, Erc721.owners_move_apply, if_pos hid]
      rw [ownerOf_eq (s := s.moved src dst tokenId) h.sorted, howner]
      by_cases hdst : dst = 0
      · rw [if_neg (not_not.mpr hdst), hdst, hid]
        exact congrArg Except.ok (h.ite_burned src tokenId)
      · rw [if_pos hdst]
    · rename_i hne
      rw [ownerOf_moved_of_ne s src dst hne, h.ownerOf id]
  erc721 := by
    obtain ⟨owners, howners⟩ := h.erc721
    refine ⟨Function.update owners tokenId dst, ?_⟩
    rw [Erc721Consecutive.moved, howners, Erc721.move, Erc721.move]
    split <;> split <;> rfl

/-- A function of the base contract, in both. -/
theorem matches_mapErr {α : Type} (x : Result Erc721.Error α) :
    Matches (Revert.map .erc721) Eq (x.mapErr Error.erc721) (x.mapErr Erc721.layer.error) := by
  match x with
  | .ok a => exact .ok rfl
  | .error (.err e) => exact .error (Revert.err e)
  | .error (.panic msg) => exact .error (Revert.panic msg)

/-- **The operations cannot tell the two contracts apart.** -/
theorem refines : layer.Refines _update Simulates where
  ownerOf h := h.ownerOf
  erc721 h := h.erc721
  approvals {s e} h tokenApprovals operatorApprovals := by
    obtain ⟨owners, howners⟩ := h.erc721
    refine ⟨h.sorted, h.next_lt, h.ownerOf, owners, ?_⟩
    change { s.erc721 with tokenApprovals, operatorApprovals } = _
    rw [howners]
  step {s e} h dst tokenId auth := by
    obtain ⟨owners, howners⟩ := h.erc721
    rw [update_eq (h.ownerOf tokenId), Erc721._update,
      Erc721.Layer.updateBase_eq (L := Erc721.layer) rfl]
    refine .bind (R := Eq) (.ite Iff.rfl (fun _ => ?_) fun _ => .ok rfl)
      fun _ _ _ => .ok ⟨rfl, h.moved _ _ _⟩
    rw [howners]
    exact matches_mapErr (e._checkAuthorized (e.owners tokenId) auth tokenId)

/-! ### Batches

As long as there are only batches, no token has moved, and the tokens from the next id on are
nobody's. Then a batch fails in both contracts or in none, for the same reasons but for its size. -/

/-- The base contract after a mint. -/
def minted (e : Erc721) (dst : Address) (tokenId : U256) : Erc721 :=
  { e with
    owners := Function.update e.owners tokenId dst
    balances := Function.update e.balances dst (e.balances dst + 1) }

/-- A single mint of a token that nobody owns. -/
theorem mint_eq {dst : Address} {tokenId : U256} (hdst : dst ≠ 0) (hnew : e.owners tokenId = 0) :
    e._mint dst tokenId = .ok (minted e dst tokenId) := by
  refine Erc721.Layer.mint_eq_ok.mpr ⟨hdst, Erc721.Layer.updateBase_eq_ok.mpr
    ⟨fun h => absurd rfl h, congrArg Except.ok hnew, ?_⟩⟩
  change e.move 0 dst tokenId = _
  rw [Erc721.move, if_neg (not_not.mpr rfl), if_pos hdst]
  rfl

/-- **The tokens of a batch, minted one by one.** -/
theorem mintAll_eq {dst : Address} (hdst : dst ≠ 0) (size : ℕ) : ∀ (next : ℕ) (e : Erc721),
    next + size ≤ 2 ^ 256 →
    (∀ id : U256, next ≤ id.toNat → id.toNat < next + size → e.owners id = 0) →
    ∃ owners, Plain.mintAll e dst next size = .ok { e with
        owners, balances := Function.update e.balances dst
          (e.balances dst + BitVec.ofNat 256 size) } ∧
      ∀ id : U256, owners id = if next ≤ id.toNat ∧ id.toNat < next + size then dst
        else e.owners id := by
  induction size with
  | zero =>
    intro next e _ _
    refine ⟨e.owners, ?_, fun id => by rw [if_neg (by omega)]⟩
    rw [BitVec.add_zero, Function.update_eq_self]
    rfl
  | succ size ih =>
    intro next e hfits hnew
    have hnext : (BitVec.ofNat 256 next).toNat = next := by
      rw [BitVec.toNat_ofNat, Nat.mod_eq_of_lt (by omega)]
    have hne (id : U256) (h : id.toNat ≠ next) : id ≠ BitVec.ofNat 256 next := fun heq =>
      h (heq ▸ hnext)
    have hmint := mint_eq hdst (hnew (BitVec.ofNat 256 next) hnext.ge (by omega))
    obtain ⟨owners, hall, howners⟩ := ih (next + 1) (minted e dst (BitVec.ofNat 256 next))
      (by omega) fun id hle hlt => by
        refine (Function.update_of_ne (hne id (by omega)) ..).trans ?_
        exact hnew id (by omega) (by omega)
    refine ⟨owners, ?_, fun id => ?_⟩
    · rw [Plain.mintAll, List.range'_succ, List.foldlM_cons, hmint, ok_bind]
      refine hall.trans ?_
      simp only [minted]
      have hcount : 1 + BitVec.ofNat 256 size = BitVec.ofNat 256 (size + 1) :=
        (BitVec.add_comm ..).trans (BitVec.ofNat_add size 1).symm
      rw [Function.update_idem, Function.update_self, BitVec.add_assoc, hcount]
    · rw [howners id, minted]
      by_cases hid : id.toNat = next
      · obtain rfl : id = BitVec.ofNat 256 next := BitVec.eq_of_toNat_eq (hid.trans hnext.symm)
        rw [if_neg (by omega), if_pos (by omega)]
        exact Function.update_self ..
      · have hiff : next + 1 ≤ id.toNat ∧ id.toNat < next + 1 + size ↔
            next ≤ id.toNat ∧ id.toNat < next + (size + 1) := by omega
        simp only [hiff, Function.update_of_ne (hne id hid)]

/-- What holds as long as there are only batches. -/
structure Batched (limit : U96) (s : Erc721Consecutive) (p : Plain) : Prop where
  simulates : Simulates s p.erc721
  clean : p.erc721.Clean
  next : p.next = s.nextNat
  first_le : s.firstConsecutiveId.toNat ≤ s.nextNat
  limit : s.maxBatchSize = limit
  owners : ∀ id, s.erc721.owners id = 0
  burn : ∀ id, s.sequentialBurn.get id = false

theorem batched_deployed (first max : U96) :
    Batched max (deployed first max) (Plain.deployed first) where
  simulates :=
    { sorted := List.Pairwise.nil
      next_lt := first.isLt
      ownerOf := fun id => by
        rw [ownerOf_eq (ordered_deployed first max).sorted]
        exact congrArg Except.ok ((if_neg (not_not.mpr rfl)).trans (ite_self _))
      erc721 := ⟨_, rfl⟩ }
  clean := Erc721.clean_empty
  next := rfl
  first_le := le_rfl
  limit := rfl
  owners _ := rfl
  burn := BitMap.get_empty

namespace Batched

variable {limit : U96} {p : Plain} {dst : Address} {batchSize next : U96}

theorem ordered (h : Batched limit s p) : s.Ordered :=
  ⟨h.simulates.sorted, fun id hid => absurd hid (by rw [h.burn id]; exact Bool.false_ne_true)⟩

/-- The tokens of the batches to come have no owner. -/
theorem owners_eq_zero (h : Batched limit s p) {id : U256} (hnext : s.nextNat ≤ id.toNat) :
    p.erc721.owners id = 0 := by
  have howner := h.simulates.ownerOf id
  rw [ownerOf_eq h.simulates.sorted, if_neg (not_not.mpr (h.owners id))] at howner
  refine (Except.ok.inj howner).symm.trans ?_
  split
  · rfl
  · rename_i hcond
    rw [not_or, not_or, not_le] at hcond
    exact anchored_eq_zero (find?_eq_none h.simulates.sorted hcond.2.1 hnext)

/-- A batch of which the tokens are minted one by one in the base contract. -/
theorem mintAll (h : Batched limit s p) (hsize : 0 < batchSize)
    (hfits : s.nextNat + batchSize.toNat < 2 ^ 96)
    (hok : s._mintConsecutive dst batchSize = .ok (next, s')) :
    ∃ e', Plain.mintAll p.erc721 dst p.next batchSize.toNat = .ok e' ∧
      Batched limit s' ⟨e', p.next + batchSize.toNat⟩ := by
  obtain ⟨hdst, hnext, -, hlist, hsorted, hburn, herc721, hfirst, hlimit⟩ :=
    mintConsecutive_eq_ok h.simulates.sorted hsize hok
  have hpos : 0 < batchSize.toNat := BitVec.lt_def.mp hsize
  have hlast : (next + batchSize - 1).toNat = s.nextNat + batchSize.toNat - 1 := by
    rw [toNat_last next hsize, hnext, Nat.mod_eq_of_lt (by omega)]
  have hnext' : s'.nextNat = s.nextNat + batchSize.toNat := by
    rw [nextNat_batch hlist]
    change (next + batchSize - 1).toNat + 1 = _
    omega
  obtain ⟨-, hcreated, hkept⟩ := h.ordered.creates hsize hok
    (BitVec.le_def.mpr (hnext ▸ h.first_le)) (by omega) fun id _ _ => h.owners id
  obtain ⟨owners, hall, howners⟩ := mintAll_eq hdst batchSize.toNat p.next p.erc721
    (by rw [h.next]; omega) fun id hle _ => h.owners_eq_zero (h.next ▸ hle)
  rw [h.next, ← hnext] at howners
  refine ⟨_, hall, ⟨hsorted, by omega, fun id => ?_, ?_⟩, ⟨fun id hid => ?_, ?_⟩,
    ?_, ?_, ?_, ?_, ?_⟩
  · change _ = Except.ok (owners id)
    rw [howners id]
    split
    · rename_i hrange
      exact (hcreated id hrange.1 hrange.2).2
    · rename_i hrange
      rw [hkept id hrange, h.simulates.ownerOf id]
  · obtain ⟨base, hbase⟩ := h.simulates.erc721
    have hsetWidth : (batchSize.setWidth 128).setWidth 256 = BitVec.ofNat 256 batchSize.toNat := by
      rw [BitVec.setWidth_setWidth (by omega), BitVec.ofNat_toNat]
    refine ⟨base, ?_⟩
    rw [herc721, hbase, Erc721._increaseBalance, hsetWidth]
  · change owners id = 0 at hid
    rw [howners id] at hid
    split at hid
    · exact absurd hid hdst
    · exact h.clean.tokenApprovals id hid
  · exact h.clean.operatorApprovals
  · rw [hnext', h.next]
  · rw [hfirst, hnext']
    exact h.first_le.trans (Nat.le_add_right ..)
  · rw [hlimit, h.limit]
  · rw [herc721]
    exact h.owners
  · rw [hburn]
    exact h.burn

/-- A batch without an owner fails in both. -/
theorem mintAll_zero (e : Erc721) (next : ℕ) {size : ℕ} (hsize : 0 < size) :
    Plain.mintAll e 0 next size = Result.err (.InvalidReceiver 0) := by
  obtain ⟨n, rfl⟩ := Nat.exists_eq_succ_of_ne_zero hsize.ne'
  rfl

/-- **A batch does the same in both contracts.** -/
theorem exec (h : Batched limit s p) (dst : Address) (batchSize : U96)
    (hfits : s.nextNat + batchSize.toNat < 2 ^ 96) :
    Matches id (fun s' p' => Batched limit s' p' ∧ s'.nextNat ≤ s.nextNat + batchSize.toNat)
      (s.exec (.mintConsecutive dst batchSize))
      (p.exec limit (.mintConsecutive dst batchSize)) := by
  rw [Erc721Consecutive.exec, Plain.exec]
  by_cases hsize : 0 < batchSize
  · have hpos : 0 < batchSize.toNat := BitVec.lt_def.mp hsize
    by_cases hdst : dst = 0
    · rw [_mintConsecutive, nextConsecutiveId_eq, ok_bind, if_pos hsize, if_pos hdst, err_bind,
        if_neg fun hcond => hcond.1 hdst, hdst, mintAll_zero _ _ hpos]
      exact .error (Revert.err (Error.erc721 (.InvalidReceiver 0)))
    · by_cases hlimit : batchSize > limit
      · rw [_mintConsecutive, nextConsecutiveId_eq, ok_bind, if_pos hsize, if_neg hdst,
          _maxBatchSize, h.limit, if_pos hlimit, err_bind, if_pos ⟨hdst, hlimit⟩]
        exact .error (Revert.err _)
      · obtain ⟨s', hok⟩ := exists_mintConsecutive h.simulates.sorted hdst hsize
          (h.limit ▸ not_lt.mp hlimit) hfits.le
        obtain ⟨e', hall, hbatched⟩ := h.mintAll hsize hfits hok
        rw [hok, if_neg fun hcond => hlimit hcond.2, hall]
        exact .ok ⟨hbatched, by rw [← hbatched.next, h.next]⟩
  · have hzero : batchSize.toNat = 0 := Nat.eq_zero_of_not_pos fun hpos =>
      hsize (BitVec.lt_def.mpr hpos)
    have hlimit : ¬batchSize > limit := fun hlt => by
      have := BitVec.lt_def.mp hlt
      omega
    rw [mintConsecutive_of_not_pos s dst hsize, if_neg fun hcond => hlimit hcond.2, hzero]
    exact .ok ⟨h, le_rfl⟩

/-- **Batches do the same in both contracts**, one after the other. -/
theorem run (batches : List (Address × U96)) : ∀ {s : Erc721Consecutive} {p : Plain},
    Batched limit s p → s.nextNat + (batches.map fun b => b.2.toNat).sum < 2 ^ 96 →
      let calls := batches.map fun b => Call.mintConsecutive b.1 b.2
      machine.outcomes s calls =
          ((Plain.machine limit).outcomes p calls).map (Except.mapError id) ∧
        Batched limit (machine.run s calls) ((Plain.machine limit).run p calls) := by
  induction batches with
  | nil => exact fun h _ => ⟨rfl, h⟩
  | cons b batches ih =>
    intro s p h hfits
    rw [List.map_cons, List.sum_cons] at hfits
    refine Machine.run_of_matches (h.exec b.1 b.2 (by omega)) ⟨h, Nat.le_add_right ..⟩ ?_
    exact fun s' p' ⟨h', hle⟩ => ih h' (by omega)

end Batched

/-! ### Runs

First the batches, by induction on their list, and then the operations in lockstep. -/

/-- The calls of a run in which the batches come first. -/
def calls (batches : List (Address × U96)) (txs : List Tx) : List Call :=
  batches.map (fun b => .mintConsecutive b.1 b.2) ++ txs.map .tx

/-- An operation does the same in both contracts. -/
theorem lockstep (limit : U96) : Machine.Lockstep machine (Plain.machine limit) id
    (fun call => ∃ tx, call = .tx tx) (fun s p => Simulates s p.erc721) := by
  rintro s p _ ⟨tx, rfl⟩ h
  have hbind : machine.exec s (.tx tx) = layer.exec _update s tx >>= pure := (bind_pure _).symm
  rw [hbind]
  exact (refines.exec h tx).mapError.bind fun _ _ h => .ok h

/-- A predicate that the operations of the base contract keep. -/
theorem Plain.run_invariant {Inv : Erc721 → Prop} {limit : U96} {txs : List Tx}
    (hstep : ∀ e e', ∀ tx ∈ txs, Inv e → Erc721.layer.exec Erc721._update e tx = .ok e' → Inv e')
    {p : Plain} (h : Inv p.erc721) :
    Inv ((Plain.machine limit).run p (txs.map .tx)).erc721 := by
  refine @Machine.run_invariant _ _ _ (Plain.machine limit) (fun p => Inv p.erc721) _
    (fun p p' call hcall hp hok => ?_) p h
  obtain ⟨tx, htx, rfl⟩ := List.mem_map.mp hcall
  obtain ⟨e', he', hok⟩ := bind_eq_ok.mp hok
  obtain rfl := pure_eq_ok.mp hok
  exact hstep _ _ tx htx hp (mapErr_eq_ok.mp he')

/-- A run of operations on a contract that simulates another. -/
theorem Simulates.run {limit : U96} {p : Plain} (h : Simulates s p.erc721) (txs : List Tx) :
    machine.outcomes s (txs.map .tx) = (Plain.machine limit).outcomes p (txs.map .tx) ∧
      Simulates (machine.run s (txs.map .tx))
        ((Plain.machine limit).run p (txs.map .tx)).erc721 := by
  have hrun := (lockstep limit).run (txs.map .tx)
    (fun call hcall => (List.mem_map.mp hcall).imp fun _ h => h.2.symm) h
  rwa [map_mapError_id] at hrun

/-- **A token that is burned has no owner** until it is minted again. -/
theorem Simulates.burned (h : Simulates s e) (hclean : e.Clean) {sender : Address} {id : U256}
    {txs : List Tx} (hsenders : ∀ tx ∈ txs, tx.sender ≠ 0)
    (hops : ∀ tx ∈ txs, ∀ dst, tx.op ≠ .mint dst id)
    (hok : s.exec (.tx ⟨sender, .burn id⟩) = .ok s') :
    (machine.run s' (txs.map .tx))._ownerOf id = (.ok 0 : Result Error _) := by
  have hmatch := refines.exec h ⟨sender, .burn id⟩
  rw [show layer.exec _update s ⟨sender, .burn id⟩ = .ok s' from hok] at hmatch
  obtain ⟨e', hburn, hsim⟩ := hmatch.exists_ok
  obtain ⟨prev, -, hupdate⟩ := Erc721.Layer.burn_eq_ok.mp hburn
  obtain ⟨-, howner, rfl⟩ := Erc721.Layer.updateBase_eq_ok.mp hupdate
  obtain rfl := Except.ok.inj howner
  have hburned : (e.move (e.owners id) 0 id).owners id = 0 := by
    rw [Erc721.owners_move_apply, if_pos rfl]
  have hinv := @Plain.run_invariant (fun e => e.Clean ∧ e.owners id = 0) 0 txs
    (fun _ _ tx htx hinv hexec => ⟨hinv.1.exec (hsenders tx htx) hexec,
      hinv.1.owners_eq_zero (hsenders tx htx) hinv.2 (hops tx htx) hexec⟩)
    ⟨e.move (e.owners id) 0 id, 0⟩ ⟨hclean.move 0 id, hburned⟩
  have hrun := (@Simulates.run s' 0 ⟨e.move (e.owners id) 0 id, 0⟩ hsim txs).2
  rw [hrun.ownerOf id, hinv.2]

/-- **Batches are single mints.** A run in which the batches come first, and fit below the last id,
has the same outcomes as in the base contract, where the tokens of each batch are minted one by
one and batches above the limit are refused, and the same can be seen afterwards. What is more, a
token that is burned has no owner until it is minted again, and an operation on one token changes
the owner of no other. -/
theorem refines_plain (first limit : U96) (batches : List (Address × U96)) (txs : List Tx)
    (hfits : first.toNat + (batches.map fun b => b.2.toNat).sum < 2 ^ 96) :
    let s := machine.run (deployed first limit) (calls batches txs)
    let e := ((Plain.machine limit).run (Plain.deployed first) (calls batches txs)).erc721
    machine.outcomes (deployed first limit) (calls batches txs) =
        (Plain.machine limit).outcomes (Plain.deployed first) (calls batches txs) ∧
    (∀ id, s.ownerOf id = (e.ownerOf id).mapErr .erc721) ∧
    (∀ owner, s.balanceOf owner = (e.balanceOf owner).mapErr .erc721) ∧
    (∀ id, s.getApproved id = (e.getApproved id).mapErr .erc721) ∧
    (∀ owner operator, s.isApprovedForAll owner operator = e.isApprovedForAll owner operator) ∧
    (∀ sender id s' txs', (∀ tx ∈ txs ++ txs', tx.sender ≠ 0) →
      (∀ tx ∈ txs', ∀ dst, tx.op ≠ .mint dst id) → s.exec (.tx ⟨sender, .burn id⟩) = .ok s' →
        (machine.run s' (txs'.map .tx))._ownerOf id = (.ok 0 : Result Error _)) ∧
    ∀ tx tokenId id s', tx.op.token = some tokenId → id ≠ tokenId → s.exec (.tx tx) = .ok s' →
      s'._ownerOf id = (s._ownerOf id : Result Error _) := by
  intro s e
  obtain ⟨hout, hbatched⟩ := (batched_deployed first limit).run batches hfits
  obtain ⟨hout', hsim⟩ := hbatched.simulates.run txs
  rw [map_mapError_id] at hout
  have hs : s = _ := Machine.run_append ..
  have he : e = _ := congrArg Plain.erc721 (Machine.run_append ..)
  rw [← hs, ← he] at hsim
  obtain ⟨owners, howners⟩ := hsim.erc721
  refine ⟨?_, fun id => ?_, fun owner => ?_, fun id => ?_, fun owner operator => ?_, ?_, ?_⟩
  · rw [calls, Machine.outcomes_append, Machine.outcomes_append, hout, hout']
  · exact (refines.requireOwned hsim id).eq_mapError
  · rw [balanceOf, howners]
    rfl
  · exact (refines.getApproved hsim id).eq_mapError
  · rw [isApprovedForAll, howners]
    rfl
  · intro sender id s' txs' hsenders hops hok
    refine hsim.burned ?_ (fun tx htx => hsenders tx (List.mem_append_right _ htx)) hops hok
    rw [he]
    exact Plain.run_invariant (fun _ _ tx htx hclean =>
      hclean.exec (hsenders tx (List.mem_append_left _ htx))) hbatched.clean
  · intro tx tokenId id s' htoken hne hok
    rcases exec_tx_eq_ok hok with ⟨prev, dst, tokenId', htoken', -, rfl⟩ | ⟨e', howners', rfl⟩
    · obtain rfl := Option.some.inj (htoken.symm.trans htoken')
      exact ownerOf_moved_of_ne s prev dst hne
    · rw [_ownerOf, _ownerOf, Erc721._ownerOf, Erc721._ownerOf, howners']
      rfl

/-! ### Runs on fixed inputs -/

/-- A batch of two tokens, of which one is burned and one is sent on. -/
theorem refines_plain_two : ∃ p, (Plain.machine defaultMaxBatchSize).run (Plain.deployed 3)
      (calls [(1, 2)] [⟨1, .burn 3⟩, ⟨1, .transferFrom 1 2 4⟩]) = p ∧ p.erc721.owners 4 = 2 ∧
    (machine.run (deployed 3 defaultMaxBatchSize)
      (calls [(1, 2)] [⟨1, .burn 3⟩, ⟨1, .transferFrom 1 2 4⟩])).ownerOf 4 =
        (p.erc721.ownerOf 4).mapErr .erc721 :=
  ⟨_, rfl, by decide +kernel, (refines_plain 3 defaultMaxBatchSize _ _ (by decide)).2.1 4⟩

/-- **A batch above the limit** is refused, while its tokens can be minted one by one. -/
theorem not_refines_unlimited : ¬∀ (first limit : U96) (batches : List (Address × U96))
    (txs : List Tx), first.toNat + (batches.map fun b => b.2.toNat).sum < 2 ^ 96 →
      machine.outcomes (deployed first limit) (calls batches txs) =
        (Plain.machine (MAX 96)).outcomes (Plain.deployed first) (calls batches txs) := by
  intro h
  have hout := h 0 defaultMaxBatchSize [(1, 5001)] [] (by decide)
  obtain ⟨owners, hall, -⟩ := mintAll_eq (show (1 : Address) ≠ 0 by decide) 5001 0 Erc721.empty
    (by decide) fun _ _ _ => rfl
  have hplain : ∃ p, (Plain.deployed 0).exec (MAX 96) (.mintConsecutive 1 5001) = .ok p := by
    rw [Plain.exec, if_neg (by decide)]
    change ∃ p, (do
      let erc721 ← (Plain.mintAll Erc721.empty 1 0 5001).mapErr .erc721
      pure (Plain.mk erc721 (0 + 5001)) : Result Error Plain) = .ok p
    rw [hall]
    exact ⟨_, rfl⟩
  have hrefused : ∃ e, (deployed 0 defaultMaxBatchSize).exec (.mintConsecutive 1 5001) =
      .error e := ⟨_, rfl⟩
  obtain ⟨p, hplain⟩ := hplain
  obtain ⟨e, hrefused⟩ := hrefused
  change [((deployed 0 defaultMaxBatchSize).exec (.mintConsecutive 1 5001)).map fun _ => ()] =
    [((Plain.deployed 0).exec (MAX 96) (.mintConsecutive 1 5001)).map fun _ => ()] at hout
  rw [hplain, hrefused] at hout
  exact nomatch (List.cons.inj hout).1

end Erc721Consecutive

end ContractsStylus
