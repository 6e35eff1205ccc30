import ContractsStylus.Token.Erc721
import ContractsStylus.Utils.BitMap
import ContractsStylus.Utils.Checkpoints

/-!
# Consecutive batches

The ERC-2309 extension: a batch of tokens with consecutive ids is minted with one checkpoint that
names the last id of the batch and its owner. A token of a batch has no entry of its own in the
base contract until it is moved, and a bit of a bit map once it is burned. Who owns a token is
found out from all three.

The documentation says that batches are minted in the constructor only. No function of the
extension makes sure of that, and the two errors for it are never returned.

## Three places

The owner of a token is its entry in the base contract if it has one. Otherwise it is nobody, if the
id is out of the range of batches or if the token was burned, and else the owner of the first
checkpoint at or above the id. `ownerOf_eq` says just this, and the lookup by bisection does not
occur any more from there on.

The keys of checkpoints have 96 bits and a token id has 256. Ids that do not fit are never looked
up, and every comparison of the source is made in the width in which the source makes it; the next
id of a batch is computed in 96 bits and can wrap to zero. `nextNat` is the number that it should
be.

## Main definitions

* `Erc721Consecutive._ownerOf`, `Erc721Consecutive._mintConsecutive`, `Erc721Consecutive._update`
* `Erc721Consecutive.nextNat` — the next id of a batch, as a number

## Main results

* `Erc721Consecutive.ownerOf_eq` — who owns a token, in closed form
* `Erc721Consecutive.mintConsecutive_eq_ok` — what a batch has done
-/

namespace ContractsStylus

/-- State of the consecutive extension. -/
structure Erc721Consecutive where
  erc721 : Erc721
  /-- The last id and the owner of each batch. -/
  sequentialOwnership : Trace U96 Address
  /-- The tokens of batches that were burned. -/
  sequentialBurn : BitMap
  /-- The first id of the first batch. -/
  firstConsecutiveId : U96
  maxBatchSize : U96

namespace Erc721Consecutive

inductive Error
  | erc721 (e : Erc721.Error)
  | CheckpointUnorderedInsertion
  | ForbiddenBatchMint
  | ExceededMaxBatchMint (batchSize maxBatch : U256)
  | ForbiddenMint
  | ForbiddenBatchBurn
  deriving DecidableEq, Repr

def Error.ofTrace : Trace.Error → Error
  | .CheckpointUnorderedInsertion => .CheckpointUnorderedInsertion

/-- A contract in which nothing was minted yet. -/
def deployed (firstConsecutiveId maxBatchSize : U96) : Erc721Consecutive :=
  ⟨Erc721.empty, Trace.empty, BitMap.empty, firstConsecutiveId, maxBatchSize⟩

/-- The limit that the constructor sets. -/
def defaultMaxBatchSize : U96 := 5000

def constructor (self : Erc721Consecutive) : Erc721Consecutive :=
  { self with maxBatchSize := defaultMaxBatchSize }

def _firstConsecutiveId (self : Erc721Consecutive) : U96 := self.firstConsecutiveId

def _maxBatchSize (self : Erc721Consecutive) : U96 := self.maxBatchSize

def _nextConsecutiveId {ε : Type} (self : Erc721Consecutive) : Result ε U96 := do
  match ← self.sequentialOwnership.latestCheckpoint with
  | none => pure self._firstConsecutiveId
  | some (latestId, _) => pure (latestId + 1)

def _ownerOf {ε : Type} (self : Erc721Consecutive) (tokenId : U256) : Result ε Address :=
  let owner := self.erc721._ownerOf tokenId
  -- if the token is owned by the core, or beyond the consecutive range, this is the base value
  if owner ≠ 0 ∨ tokenId < self._firstConsecutiveId.setWidth 256 ∨
      tokenId > (MAX 96).setWidth 256 then .ok owner
  -- otherwise the token may have been burned, or is found at the anchors
  else if self.sequentialBurn.get tokenId then .ok 0
  else self.sequentialOwnership.lowerLookup (tokenId.setWidth 96)

/-- The contract as a layer over its base contract. -/
def layer : Erc721.Layer Erc721Consecutive Error where
  erc721 := erc721
  setErc721 self e := { self with erc721 := e }
  erc721_set _ _ := rfl
  set_set _ _ _ := rfl
  set_erc721 _ := rfl
  ownerOf := _ownerOf
  error := .erc721

def _mintConsecutive (self : Erc721Consecutive) (dst : Address) (batchSize : U96) :
    Result Error (U96 × Erc721Consecutive) := do
  let next ← self._nextConsecutiveId
  -- minting a batch of size 0 is a no-op
  if batchSize > 0 then
    if dst = 0 then .err (.erc721 (.InvalidReceiver 0))
    else if batchSize > self._maxBatchSize then
      .err (.ExceededMaxBatchMint (batchSize.setWidth 256) (self._maxBatchSize.setWidth 256))
    else do
      -- push an ownership checkpoint
      let last := next + batchSize - 1
      let (_, sequentialOwnership) ← (self.sequentialOwnership.push last dst).mapErr .ofTrace
      let erc721 := self.erc721._increaseBalance dst (batchSize.setWidth 128)
      pure (next, { self with sequentialOwnership, erc721 })
  else pure (next, self)

def _updateBase := layer.updateBase

def _update (self : Erc721Consecutive) (dst : Address) (tokenId : U256) (auth : Address) :
    Result Error (Address × Erc721Consecutive) := do
  let (previousOwner, self) ← self._updateBase dst tokenId auth
  -- if we burn
  if dst = 0 then do
    let next ← self._nextConsecutiveId
    -- and the token was minted in a batch and was never marked as burnt
    if tokenId < next.setWidth 256 ∧ ¬self.sequentialBurn.get tokenId then
      -- record burn
      pure (previousOwner, { self with sequentialBurn := self.sequentialBurn.set tokenId })
    else pure (previousOwner, self)
  else pure (previousOwner, self)

def _requireOwned := layer.requireOwned
def _approve := layer.approve
def _mint := layer.mint _update
def _safeMint := layer.safeMint _update
def _burn := layer.burn _update
def _transfer := layer.transfer _update
def _safeTransfer := layer.safeTransfer _update
def ownerOf := layer.requireOwned
def transferFrom := layer.transferFrom _update
def safeTransferFromWithData := layer.safeTransferFromWithData _update
def safeTransferFrom := layer.safeTransferFrom _update
def setApprovalForAll := layer.setApprovalForAll
def getApproved := layer.getApproved

def approve (sender : Address) (self : Erc721Consecutive) (dst : Address) (tokenId : U256) :
    Result Error Erc721Consecutive :=
  self._approve dst tokenId sender true

def balanceOf (self : Erc721Consecutive) (owner : Address) : Result Error U256 :=
  (self.erc721.balanceOf owner).mapErr .erc721

def isApprovedForAll (self : Erc721Consecutive) (owner operator : Address) : Bool :=
  self.erc721.isApprovedForAll owner operator

/-! ### Who owns a token

As long as a token of a batch has no entry, its owner is that of the first checkpoint at or above
it. The checkpoints are called anchors here, and what is said of them is said of the list. A new
batch adds one anchor behind all others: the ids before it keep theirs, those of the batch get it,
and those behind it have none. -/

/-- The next id of a batch, as a number that does not wrap. -/
def nextNat (self : Erc721Consecutive) : ℕ :=
  (self.sequentialOwnership.toList.getLast?.map fun c => c.key.toNat + 1).getD
    self.firstConsecutiveId.toNat

/-- The owner that the anchors have for a token. -/
def anchored (self : Erc721Consecutive) (tokenId : U256) : Address :=
  ((self.sequentialOwnership.toList.find? (tokenId.setWidth 96 ≤ ·.key)).map (·.value)).getD 0

variable {ε : Type} {s s' : Erc721Consecutive} {dst : Address} {batchSize next : U96}

theorem nextConsecutiveId_eq (s : Erc721Consecutive) :
    (s._nextConsecutiveId : Result ε _) = .ok (BitVec.ofNat 96 s.nextNat) := by
  rw [_nextConsecutiveId, Trace.latestCheckpoint_eq, ok_bind, nextNat]
  cases s.sequentialOwnership.toList.getLast? with
  | none => exact congrArg Except.ok (BitVec.ofNat_toNat 96 s.firstConsecutiveId).symm
  | some c =>
    refine congrArg Except.ok (BitVec.eq_of_toNat_eq ?_)
    rw [BitVec.toNat_add, BitVec.toNat_ofNat]
    rfl

theorem nextNat_of_nil (h : s.sequentialOwnership.toList = []) :
    s.nextNat = s.firstConsecutiveId.toNat := by
  rw [nextNat, h]
  rfl

theorem nextNat_of_append {init : List (Checkpoint U96 Address)} {c : Checkpoint U96 Address}
    (h : s.sequentialOwnership.toList = init ++ [c]) : s.nextNat = c.key.toNat + 1 := by
  rw [nextNat, h, List.getLast?_concat]
  rfl

/-- **Who owns a token.** -/
theorem ownerOf_eq (hsorted : s.sequentialOwnership.Sorted) (tokenId : U256) :
    (s._ownerOf tokenId : Result ε _) = .ok (
      if s.erc721.owners tokenId ≠ 0 then s.erc721.owners tokenId
      else if tokenId.toNat < s.firstConsecutiveId.toNat ∨ 2 ^ 96 ≤ tokenId.toNat ∨
        s.sequentialBurn.get tokenId then 0
      else s.anchored tokenId) := by
  have hfirst : tokenId < s.firstConsecutiveId.setWidth 256 ↔
      tokenId.toNat < s.firstConsecutiveId.toNat := by
    have := s.firstConsecutiveId.isLt
    rw [BitVec.lt_def, BitVec.toNat_setWidth, Nat.mod_eq_of_lt (by omega)]
  have hmax : tokenId > (MAX 96).setWidth 256 ↔ 2 ^ 96 ≤ tokenId.toNat := by
    rw [gt_iff_lt, BitVec.lt_def]
    exact Nat.lt_iff_add_one_le
  rw [_ownerOf]
  simp only [_firstConsecutiveId, hfirst, hmax, Erc721._ownerOf]
  by_cases howner : s.erc721.owners tokenId = 0
  · by_cases hrange : tokenId.toNat < s.firstConsecutiveId.toNat ∨ 2 ^ 96 ≤ tokenId.toNat
    · rw [if_pos (Or.inr hrange), if_neg (not_not.mpr howner), howner,
        if_pos (hrange.imp_right Or.inl)]
    · obtain ⟨hge, hlt⟩ := not_or.mp hrange
      rw [if_neg (not_or.mpr ⟨not_not.mpr howner, hrange⟩), if_neg (not_not.mpr howner),
        Trace.lowerLookup_eq hsorted]
      cases s.sequentialBurn.get tokenId with
      | true => rw [if_pos rfl, if_pos (Or.inr (Or.inr rfl))]
      | false =>
        rw [if_neg Bool.false_ne_true, if_neg]
        · rfl
        · simp only [not_or]
          exact ⟨hge, hlt, Bool.false_ne_true⟩
  · rw [if_pos (Or.inl howner), if_pos howner]

/-- A key is at least a token id of the range. -/
theorem setWidth_le_iff {tokenId : U256} (h : tokenId.toNat < 2 ^ 96) (key : U96) :
    tokenId.setWidth 96 ≤ key ↔ tokenId.toNat ≤ key.toNat := by
  rw [BitVec.le_def, BitVec.toNat_setWidth, Nat.mod_eq_of_lt h]

/-- The last anchor has the largest key. -/
theorem key_le_of_mem {self : Trace U96 Address} (hsorted : self.Sorted)
    {init : List (Checkpoint U96 Address)} {c last : Checkpoint U96 Address}
    (h : self.toList = init ++ [last]) (hc : c ∈ self.toList) : c.key ≤ last.key := by
  rw [Trace.Sorted, h] at hsorted
  rcases List.mem_append.mp (h ▸ hc) with hc | hc
  · exact ((List.pairwise_append.mp hsorted).2.2 c hc last (List.mem_singleton_self _)).le
  · rw [List.mem_singleton.mp hc]

/-- No anchor is at or behind an id that is still to come. -/
theorem find?_eq_none (hsorted : s.sequentialOwnership.Sorted) {tokenId : U256}
    (h : tokenId.toNat < 2 ^ 96) (hnext : s.nextNat ≤ tokenId.toNat) :
    s.sequentialOwnership.toList.find? (tokenId.setWidth 96 ≤ ·.key) = none := by
  rw [List.find?_eq_none]
  intro c hc
  rw [decide_eq_true_iff, setWidth_le_iff h, not_le]
  rcases List.eq_nil_or_concat' s.sequentialOwnership.toList with hnil | ⟨init, last, hlast⟩
  · rw [hnil] at hc
    exact absurd hc List.not_mem_nil
  · have hle := BitVec.le_def.mp (key_le_of_mem hsorted hlast hc)
    rw [nextNat_of_append hlast] at hnext
    omega

/-- Some anchor is at or behind an id that has been passed. -/
theorem exists_find?_eq {tokenId : U256} (h : tokenId.toNat < 2 ^ 96)
    (hfirst : s.firstConsecutiveId.toNat ≤ tokenId.toNat) (hnext : tokenId.toNat < s.nextNat) :
    ∃ c, s.sequentialOwnership.toList.find? (tokenId.setWidth 96 ≤ ·.key) = some c := by
  rcases List.eq_nil_or_concat' s.sequentialOwnership.toList with hnil | ⟨init, last, hlast⟩
  · rw [nextNat_of_nil hnil] at hnext
    omega
  · rw [nextNat_of_append hlast] at hnext
    rw [← Option.isSome_iff_exists, List.find?_isSome]
    refine ⟨last, by simp [hlast], ?_⟩
    rw [decide_eq_true_iff, setWidth_le_iff h]
    omega

/-- The last id of a batch, before it is known not to wrap. -/
theorem toNat_last (next : U96) (hsize : 0 < batchSize) :
    (next + batchSize - 1).toNat = (next.toNat + batchSize.toNat - 1) % 2 ^ 96 := by
  have hpos : 0 < batchSize.toNat := BitVec.lt_def.mp hsize
  rw [BitVec.toNat_sub, BitVec.toNat_add]
  change (2 ^ 96 - 1 + _) % 2 ^ 96 = _
  omega

/-- A batch of no tokens does nothing. -/
theorem mintConsecutive_of_not_pos (s : Erc721Consecutive) (dst : Address)
    (hsize : ¬0 < batchSize) :
    s._mintConsecutive dst batchSize = .ok (BitVec.ofNat 96 s.nextNat, s) := by
  rw [_mintConsecutive, nextConsecutiveId_eq, ok_bind, if_neg hsize]
  rfl

/-- **What a batch has done.** -/
theorem mintConsecutive_eq_ok (hsorted : s.sequentialOwnership.Sorted) (hsize : 0 < batchSize)
    (h : s._mintConsecutive dst batchSize = .ok (next, s')) :
    dst ≠ 0 ∧ next.toNat = s.nextNat ∧
      (s.sequentialOwnership.toList = [] ∨ s.nextNat + batchSize.toNat ≤ 2 ^ 96) ∧
      s'.sequentialOwnership.toList =
        s.sequentialOwnership.toList ++ [⟨next + batchSize - 1, dst⟩] ∧
      s'.sequentialOwnership.Sorted ∧ s'.sequentialBurn = s.sequentialBurn ∧
      s'.erc721 = s.erc721._increaseBalance dst (batchSize.setWidth 128) ∧
      s'.firstConsecutiveId = s.firstConsecutiveId ∧ s'.maxBatchSize = s.maxBatchSize := by
  rw [_mintConsecutive, nextConsecutiveId_eq, ok_bind, if_pos hsize, guard_eq_ok, guard_eq_ok] at h
  obtain ⟨hdst, -, h⟩ := h
  obtain ⟨⟨r, trace⟩, hpush, h⟩ := bind_eq_ok.mp h
  obtain ⟨rfl, rfl⟩ := Prod.mk.inj (pure_eq_ok.mp h)
  obtain ⟨hle, hlist⟩ := Trace.push_eq_ok (mapErr_eq_ok.mp hpush)
  have hpos : 0 < batchSize.toNat := BitVec.lt_def.mp hsize
  have hlast := toNat_last (BitVec.ofNat 96 s.nextNat) hsize
  rw [BitVec.toNat_ofNat] at hlast ⊢
  rw [Trace.Sorted] at hsorted ⊢
  rcases List.eq_nil_or_concat' s.sequentialOwnership.toList with hnil | ⟨init, c, hc⟩
  · have hfirst := s.firstConsecutiveId.isLt
    rw [hnil, List.getLast?_nil, if_neg nofun] at hlist
    rw [hnil, hlist, nextNat_of_nil hnil, Nat.mod_eq_of_lt hfirst]
    exact ⟨hdst, rfl, Or.inl rfl, rfl, List.pairwise_singleton .., rfl, rfl, rfl, rfl⟩
  · have hkey := c.key.isLt
    have hgetLast : s.sequentialOwnership.toList.getLast? = some c := by
      rw [hc, List.getLast?_concat]
    have hle := BitVec.le_def.mp (hle c hgetLast)
    have hnext := nextNat_of_append hc
    have hsizelt := batchSize.isLt
    have hfits : s.nextNat + batchSize.toNat ≤ 2 ^ 96 := by omega
    rw [Nat.mod_eq_of_lt (by omega : s.nextNat < 2 ^ 96)] at hlast ⊢
    have hlt : c.key.toNat < (BitVec.ofNat 96 s.nextNat + batchSize - 1).toNat := by omega
    rw [hgetLast, Option.map_some, if_neg fun heq => ?_] at hlist
    · rw [hlist]
      refine ⟨hdst, rfl, Or.inr hfits, rfl, ?_, rfl, rfl, rfl, rfl⟩
      refine List.pairwise_append.mpr ⟨hsorted, List.pairwise_singleton .., fun a ha b hb => ?_⟩
      rw [List.mem_singleton.mp hb]
      exact (key_le_of_mem hsorted hc ha).trans_lt (BitVec.lt_def.mpr hlt)
    · rw [Option.some.inj heq] at hlt
      exact lt_irrefl _ hlt

/-- There are no more anchors than keys. -/
theorem le_key {self : Trace U96 Address} (hsorted : self.Sorted) :
    ∀ i (hi : i < self.toList.length), i ≤ self.toList[i].key.toNat := by
  intro i
  induction i with
  | zero => exact fun _ => Nat.zero_le _
  | succ i ih =>
    intro hi
    have hle := ih (by omega)
    have hlt := BitVec.lt_def.mp
      (List.pairwise_iff_getElem.mp hsorted i (i + 1) (by omega) hi (Nat.lt_succ_self i))
    omega

/-- A batch within the limit succeeds when its ids do not wrap. -/
theorem exists_mintConsecutive (hsorted : s.sequentialOwnership.Sorted) (hdst : dst ≠ 0)
    (hsize : 0 < batchSize) (hlimit : batchSize ≤ s.maxBatchSize)
    (hfits : s.nextNat + batchSize.toNat ≤ 2 ^ 96) :
    ∃ s', s._mintConsecutive dst batchSize = .ok (BitVec.ofNat 96 s.nextNat, s') := by
  have hpos : 0 < batchSize.toNat := BitVec.lt_def.mp hsize
  have hlast := toNat_last (BitVec.ofNat 96 s.nextNat) hsize
  rw [BitVec.toNat_ofNat, Nat.mod_eq_of_lt (by omega)] at hlast
  have hlen : s.sequentialOwnership.toList.length + 1 < 2 ^ 256 := by
    by_contra hlen
    have hle := le_key hsorted (2 ^ 96) (by omega)
    exact absurd (BitVec.isLt _) (not_lt.mpr hle)
  have hkey : ∀ last ∈ s.sequentialOwnership.toList.getLast?,
      last.key < BitVec.ofNat 96 s.nextNat + batchSize - 1 := by
    intro last hmem
    obtain ⟨init, hinit⟩ := List.getLast?_eq_some_iff.mp hmem
    have hnext := nextNat_of_append hinit
    rw [BitVec.lt_def, hlast]
    omega
  obtain ⟨r, trace, hpush⟩ := Trace.exists_push dst hkey hlen
  have hlimit : ¬batchSize > s._maxBatchSize := not_lt.mpr hlimit
  rw [_mintConsecutive, nextConsecutiveId_eq, ok_bind, if_pos hsize, if_neg hdst, if_neg hlimit]
  dsimp only
  rw [hpush]
  exact ⟨_, rfl⟩

section Batch

variable {c : Checkpoint U96 Address} {tokenId : U256} (hsorted : s.sequentialOwnership.Sorted)
  (hlist : s'.sequentialOwnership.toList = s.sequentialOwnership.toList ++ [c])
  (hlt : tokenId.toNat < 2 ^ 96)

include hlist in
theorem nextNat_batch : s'.nextNat = c.key.toNat + 1 := nextNat_of_append hlist

/-- A token without an anchor has no owner. -/
theorem anchored_eq_zero
    (h : s.sequentialOwnership.toList.find? (tokenId.setWidth 96 ≤ ·.key) = none) :
    s.anchored tokenId = 0 := by
  rw [anchored, h]
  rfl

include hlist

/-- The tokens before a batch keep their anchors. -/
theorem anchored_batch_of_lt (hlt : tokenId.toNat < 2 ^ 96)
    (hfirst : s.firstConsecutiveId.toNat ≤ tokenId.toNat) (hnext : tokenId.toNat < s.nextNat) :
    s'.anchored tokenId = s.anchored tokenId := by
  obtain ⟨a, ha⟩ := exists_find?_eq hlt hfirst hnext
  rw [anchored, anchored, hlist, List.find?_append, ha, Option.some_or]

include hsorted hlt

/-- The tokens of a batch have its anchor. -/
theorem anchored_batch (hnext : s.nextNat ≤ tokenId.toNat) (hle : tokenId.toNat ≤ c.key.toNat) :
    s'.anchored tokenId = c.value := by
  rw [anchored, hlist, List.find?_append, find?_eq_none hsorted hlt hnext, Option.none_or,
    List.find?_singleton, if_pos (decide_eq_true ((setWidth_le_iff hlt _).mpr hle))]
  rfl

/-- The tokens behind a batch have none. -/
theorem anchored_batch_of_gt (hnext : s.nextNat ≤ tokenId.toNat)
    (hgt : c.key.toNat < tokenId.toNat) : s'.anchored tokenId = s.anchored tokenId := by
  have hle : ¬tokenId.setWidth 96 ≤ c.key := fun hle =>
    absurd ((setWidth_le_iff hlt _).mp hle) (not_le.mpr hgt)
  rw [anchored, anchored, hlist, List.find?_append, find?_eq_none hsorted hlt hnext,
    Option.none_or, List.find?_singleton, if_neg (by simpa using hle)]

end Batch

/-! ### What an update does

An update writes the owner in the base contract. A burn of a token of a batch also sets its bit,
since the entry in the base contract is zero after it, as if the token had never moved. -/

/-- The storage after `tokenId` went from `src` to `dst`. -/
def moved (self : Erc721Consecutive) (src dst : Address) (tokenId : U256) : Erc721Consecutive :=
  { self with
    erc721 := self.erc721.move src dst tokenId
    sequentialBurn :=
      if dst = 0 ∧ tokenId < (BitVec.ofNat 96 self.nextNat).setWidth 256 ∧
        ¬self.sequentialBurn.get tokenId then self.sequentialBurn.set tokenId
      else self.sequentialBurn }

/-- **`_update` in closed form.** -/
theorem update_eq {src : Address} {tokenId : U256}
    (howner : (s._ownerOf tokenId : Result Error _) = .ok src) (dst auth : Address) :
    s._update dst tokenId auth = (do
      (if auth ≠ 0 then (s.erc721._checkAuthorized src auth tokenId).mapErr .erc721 else .ok ())
      .ok (src, s.moved src dst tokenId)) := by
  rw [_update, _updateBase, Erc721.Layer.updateBase_eq (L := layer) howner, bind_assoc]
  congr 1
  funext _
  rw [ok_bind, moved]
  dsimp only
  by_cases hdst : dst = 0
  · rw [if_pos hdst, nextConsecutiveId_eq, ok_bind]
    simp only [hdst, true_and]
    change (if tokenId < (BitVec.ofNat 96 s.nextNat).setWidth 256 ∧ ¬s.sequentialBurn.get tokenId
      then _ else _) = _
    split <;> rfl
  · rw [if_neg hdst, if_neg fun h => hdst h.1]
    rfl

theorem update_eq_ok {prev auth : Address} {tokenId : U256}
    (h : s._update dst tokenId auth = .ok (prev, s')) :
    (s._ownerOf tokenId : Result Error _) = .ok prev ∧ s' = s.moved prev dst tokenId := by
  obtain ⟨⟨src, u⟩, hbase, -⟩ := bind_eq_ok.mp h
  obtain ⟨-, howner, -⟩ := Erc721.Layer.updateBase_eq_ok.mp hbase
  rw [update_eq howner, bind_eq_ok] at h
  obtain ⟨-, -, h⟩ := h
  obtain ⟨rfl, rfl⟩ := Prod.mk.inj (Except.ok.inj h)
  exact ⟨howner, rfl⟩

/-- An update marks at most its own token as burned, and only one of a batch. -/
theorem get_sequentialBurn_moved (s : Erc721Consecutive) (src dst : Address) (tokenId id : U256) :
    (s.moved src dst tokenId).sequentialBurn.get id ↔ s.sequentialBurn.get id ∨
      (id = tokenId ∧ dst = 0 ∧ tokenId.toNat < s.nextNat % 2 ^ 96) := by
  have hnext : tokenId < (BitVec.ofNat 96 s.nextNat).setWidth 256 ↔
      tokenId.toNat < s.nextNat % 2 ^ 96 := by
    have hlt : s.nextNat % 2 ^ 96 < 2 ^ 96 := Nat.mod_lt _ (by decide)
    rw [BitVec.lt_def, BitVec.toNat_setWidth, BitVec.toNat_ofNat, Nat.mod_eq_of_lt (b := 2 ^ 256)]
    exact hlt.trans (by decide)
  simp only [moved, hnext]
  split
  · rename_i h
    rw [BitMap.get_set, Bool.or_eq_true, decide_eq_true_iff]
    exact or_congr_right (and_iff_left ⟨h.1, h.2.1⟩).symm
  · rename_i h
    rw [not_and, not_and, not_not] at h
    constructor
    · exact Or.inl
    · rintro (hid | ⟨rfl, hdst, hlt⟩)
      · exact hid
      · exact h hdst hlt

/-- An update changes the owner of no other token. -/
theorem ownerOf_moved_of_ne (s : Erc721Consecutive) (src dst : Address) {tokenId id : U256}
    (hne : id ≠ tokenId) :
    ((s.moved src dst tokenId)._ownerOf id : Result ε _) = s._ownerOf id := by
  have howner : (s.moved src dst tokenId).erc721.owners id = s.erc721.owners id := by
    rw [moved, Erc721.owners_move_apply, if_neg hne]
  have hburned : (s.moved src dst tokenId).sequentialBurn.get id = s.sequentialBurn.get id :=
    Bool.eq_iff_iff.mpr ((get_sequentialBurn_moved ..).trans (or_iff_left fun h => hne h.1))
  rw [_ownerOf, _ownerOf, Erc721._ownerOf, Erc721._ownerOf, howner, hburned]
  rfl

/-- **What an operation has done**: it has moved one token, or touched no owner at all. -/
theorem exec_tx_eq_ok {tx : Erc721.Tx} (h : layer.exec _update s tx = .ok s') :
    (∃ prev dst tokenId, tx.op.token = some tokenId ∧
      (s._ownerOf tokenId : Result Error _) = .ok prev ∧ s' = s.moved prev dst tokenId) ∨
    ∃ e, e.owners = s.erc721.owners ∧ s' = { s with erc721 := e } := by
  rcases tx with ⟨sender, op⟩
  cases op with
  | mint dst tokenId =>
    obtain ⟨-, h⟩ := Erc721.Layer.mint_eq_ok.mp h
    exact Or.inl ⟨_, _, _, rfl, update_eq_ok h⟩
  | burn tokenId =>
    obtain ⟨prev, -, h⟩ := Erc721.Layer.burn_eq_ok.mp h
    exact Or.inl ⟨_, _, _, rfl, update_eq_ok h⟩
  | transferFrom src dst tokenId =>
    obtain ⟨-, h⟩ := Erc721.Layer.transferFrom_eq_ok.mp h
    exact Or.inl ⟨_, _, _, rfl, update_eq_ok h⟩
  | approve dst tokenId =>
    exact Or.inr ⟨s.erc721.setTokenApproval tokenId dst, rfl, Erc721.Layer.approve_eq_ok h⟩
  | setApprovalForAll operator approved =>
    obtain ⟨e, he, h⟩ := bind_eq_ok.mp h
    obtain rfl := pure_eq_ok.mp h
    obtain ⟨-, he⟩ := guard_eq_ok.mp (mapErr_eq_ok.mp he)
    exact Or.inr ⟨e, by rw [← Except.ok.inj he]; rfl, rfl⟩

/-! ### Calls -/

/-- The calls a run is made of. -/
inductive Call
  | mintConsecutive (dst : Address) (batchSize : U96)
  | tx (tx : Erc721.Tx)

/-- One call. -/
def exec (self : Erc721Consecutive) : Call → Result Error Erc721Consecutive
  | .mintConsecutive dst batchSize => do
    let (_, self) ← self._mintConsecutive dst batchSize
    pure self
  | .tx tx => layer.exec _update self tx

/-- The contract as a machine. -/
def machine : Machine Erc721Consecutive Call (Revert Error) := ⟨exec⟩

end Erc721Consecutive

end ContractsStylus
