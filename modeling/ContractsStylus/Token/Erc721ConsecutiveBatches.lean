import ContractsStylus.Library.Runs
import ContractsStylus.Token.Erc721Consecutive

/-!
# Where a batch creates its tokens

A batch is meant to create the tokens behind those of the batch before it. It does when nothing
is in the way: nothing prevents a single token from being minted where a batch will come, nor the
first batch from running past the last id there is.

## In the way

A single mint needs no more than that the id has no owner, and an id behind the last batch has none.
So it can take an id that a batch will come to. The batch succeeds nevertheless: it adds a
checkpoint and raises a balance by its size, while the token remains with whoever it was minted for.
The same goes for ids that do not exist for the lookup, below the first one or above the last.

`mintConsecutive_creates_iff` finds these three conditions to be all there is. They are conditions
on the state before the call and on its arguments, in every state that a contract can get into.

## Main definitions

* `Erc721Consecutive.Ordered` — what holds after every run
* `Erc721Consecutive.Creates` — a call created exactly the tokens of a range

## Main results

* `Erc721Consecutive.mintConsecutive_creates_iff` — when a batch creates its tokens
* `Erc721Consecutive.mintConsecutive_of_owned` — a batch with a token that had an owner
-/

namespace ContractsStylus

namespace Erc721Consecutive

variable {s s' : Erc721Consecutive}

/-- The anchors are in order, and the tokens that were burned are not those of later batches. -/
structure Ordered (s : Erc721Consecutive) : Prop where
  sorted : s.sequentialOwnership.Sorted
  burned : ∀ id, s.sequentialBurn.get id →
    id.toNat < s.firstConsecutiveId.toNat ∨ id.toNat < s.nextNat

theorem ordered_deployed (first max : U96) : (deployed first max).Ordered where
  sorted := List.Pairwise.nil
  burned id h := absurd h (by simp [deployed])

/-- Every operation keeps the order. -/
theorem Ordered.tx {tx : Erc721.Tx} (hs : s.Ordered) (h : layer.exec _update s tx = .ok s') :
    s'.Ordered := by
  rcases exec_tx_eq_ok h with ⟨prev, dst, tokenId, -, -, rfl⟩ | ⟨e, -, rfl⟩
  · refine ⟨hs.sorted, fun id hid => ?_⟩
    rcases (get_sequentialBurn_moved ..).mp hid with hid | ⟨rfl, -, hlt⟩
    · exact hs.burned id hid
    · exact Or.inr (hlt.trans_le (Nat.mod_le _ _))
  · exact ⟨hs.sorted, hs.burned⟩

/-- Every batch keeps the order. -/
theorem Ordered.batch {dst : Address} {batchSize next : U96} (hs : s.Ordered)
    (h : s._mintConsecutive dst batchSize = .ok (next, s')) : s'.Ordered := by
  by_cases hsize : 0 < batchSize
  · obtain ⟨-, hnext, hfits, hlist, hsorted, hburn, -, hfirst, -⟩ :=
      mintConsecutive_eq_ok hs.sorted hsize h
    refine ⟨hsorted, fun id hid => ?_⟩
    rw [hfirst, nextNat_batch hlist]
    dsimp only
    have hid := hs.burned id (hburn ▸ hid)
    rcases hfits with hnil | hfits
    · rw [nextNat_of_nil hnil, or_self] at hid
      exact Or.inl hid
    · have hlast := toNat_last next hsize
      have hpos : 0 < batchSize.toNat := BitVec.lt_def.mp hsize
      omega
  · rw [mintConsecutive_of_not_pos s dst hsize] at h
    obtain ⟨-, rfl⟩ := Prod.mk.inj (Except.ok.inj h)
    exact hs

theorem ordered_of_reachable {first max : U96} {P : Erc721Consecutive → Call → Prop}
    (h : machine.Reachable P (deployed first max) s) : s.Ordered := by
  refine h.invariant (ordered_deployed first max) fun s call s' hs _ hexec => ?_
  cases call with
  | mintConsecutive dst batchSize =>
    obtain ⟨⟨next, t⟩, hbatch, ht⟩ := bind_eq_ok.mp hexec
    obtain rfl := pure_eq_ok.mp ht
    exact hs.batch hbatch
  | tx tx => exact hs.tx hexec

/-- The tokens with `size` ids from `next` on, none of which wraps, had no owner and are now owned
by `dst`. No other token has changed its owner. -/
def Creates (s s' : Erc721Consecutive) (dst : Address) (next size : ℕ) : Prop :=
  next + size ≤ 2 ^ 96 ∧
  (∀ id : U256, next ≤ id.toNat → id.toNat < next + size →
    s._ownerOf id = (.ok 0 : Result Error _) ∧ s'._ownerOf id = (.ok dst : Result Error _)) ∧
  ∀ id : U256, ¬(next ≤ id.toNat ∧ id.toNat < next + size) →
    s'._ownerOf id = (s._ownerOf id : Result Error _)

/-- A token without an owner has none in the base contract. -/
theorem owners_eq_zero (hsorted : s.sequentialOwnership.Sorted) {id : U256}
    (h : s._ownerOf id = (.ok 0 : Result Error _)) : s.erc721.owners id = 0 := by
  by_contra hne
  rw [ownerOf_eq hsorted, if_pos hne] at h
  exact hne (Except.ok.inj h)

/-- **A batch creates its tokens** when nothing is in the way. -/
theorem Ordered.creates (hs : s.Ordered) {dst : Address} {batchSize next : U96}
    (hsize : 0 < batchSize) (hok : s._mintConsecutive dst batchSize = .ok (next, s'))
    (hle : s.firstConsecutiveId ≤ next) (hfits : next.toNat + batchSize.toNat ≤ 2 ^ 96)
    (hfree : ∀ id : U256, next.toNat ≤ id.toNat → id.toNat < next.toNat + batchSize.toNat →
      s.erc721.owners id = 0) : Creates s s' dst next.toNat batchSize.toNat := by
  obtain ⟨-, hnext, -, hlist, hsorted, hburn, herc721, hfirst, -⟩ :=
    mintConsecutive_eq_ok hs.sorted hsize hok
  have howners : s'.erc721.owners = s.erc721.owners := by rw [herc721]; rfl
  have hlast := toNat_last next hsize
  have hpos : 0 < batchSize.toNat := BitVec.lt_def.mp hsize
  have hle := BitVec.le_def.mp hle
  refine ⟨hfits, fun id hid hid' => ⟨?_, ?_⟩, fun id hid => ?_⟩
  · have hlt : id.toNat < 2 ^ 96 := by omega
    rw [ownerOf_eq hs.sorted, hfree id hid hid', if_neg (not_not.mpr rfl),
      anchored_eq_zero (find?_eq_none hs.sorted hlt (hnext ▸ hid)), ite_self]
  · have hlt : id.toNat < 2 ^ 96 := by omega
    rw [ownerOf_eq hsorted, howners, hfree id hid hid', if_neg (not_not.mpr rfl), hfirst, hburn,
      if_neg, anchored_batch hs.sorted hlist hlt (hnext ▸ hid)]
    · change id.toNat ≤ (next + batchSize - 1).toNat
      omega
    · rintro (hlt | hge | hburned)
      · omega
      · omega
      · have := hs.burned id hburned
        omega
  · rw [ownerOf_eq hsorted, ownerOf_eq hs.sorted, howners, hfirst, hburn]
    by_cases hcond : id.toNat < s.firstConsecutiveId.toNat ∨ 2 ^ 96 ≤ id.toNat ∨
      s.sequentialBurn.get id
    · rw [if_pos hcond, if_pos hcond]
    · rw [not_or, not_or, not_lt, not_le] at hcond
      obtain ⟨hge, hlt, -⟩ := hcond
      rcases lt_or_ge id.toNat next.toNat with hbefore | hbehind
      · rw [anchored_batch_of_lt hlist hlt hge (hnext ▸ hbefore)]
      · have hgt : next.toNat + batchSize.toNat ≤ id.toNat := by omega
        rw [anchored_batch_of_gt hs.sorted hlist hlt (hnext ▸ hbehind)]
        change (next + batchSize - 1).toNat < id.toNat
        omega

/-- **When a batch creates its tokens**: if and only if it does not begin before the first id, does
not run past the last, and none of its ids was given to a single token that still exists. -/
theorem mintConsecutive_creates_iff {first max : U96}
    (h : machine.Reachable (fun _ _ => True) (deployed first max) s) {dst : Address}
    {batchSize next : U96} (hsize : 0 < batchSize)
    (hok : s._mintConsecutive dst batchSize = .ok (next, s')) :
    s._nextConsecutiveId = (.ok next : Result Error _) ∧
    (Creates s s' dst next.toNat batchSize.toNat ↔
      s.firstConsecutiveId ≤ next ∧ next.toNat + batchSize.toNat ≤ 2 ^ 96 ∧
        ∀ id : U256, next.toNat ≤ id.toNat → id.toNat < next.toNat + batchSize.toNat →
          s.erc721.owners id = 0) := by
  have hs := ordered_of_reachable h
  obtain ⟨hdst, hnext, -, -, hsorted, -, herc721, hfirst, -⟩ :=
    mintConsecutive_eq_ok hs.sorted hsize hok
  have howners : s'.erc721.owners = s.erc721.owners := by rw [herc721]; rfl
  have hpos : 0 < batchSize.toNat := BitVec.lt_def.mp hsize
  refine ⟨?_, fun ⟨hfits, hrange, _⟩ => ⟨?_, hfits, fun id hle hlt => ?_⟩,
    fun ⟨hle, hfits, hfree⟩ => hs.creates hsize hok hle hfits hfree⟩
  · rw [nextConsecutiveId_eq, ← hnext, BitVec.ofNat_toNat, BitVec.setWidth_eq]
  · -- an id before the first is not looked up
    by_contra hlt
    rw [not_le, BitVec.lt_def] at hlt
    have hid : (next.setWidth 256).toNat = next.toNat :=
      BitVec.toNat_setWidth_of_le (by decide)
    obtain ⟨hbefore, hafter⟩ := hrange (next.setWidth 256) hid.ge (by omega)
    rw [ownerOf_eq hsorted, howners, owners_eq_zero hs.sorted hbefore, if_neg (not_not.mpr rfl),
      if_pos (Or.inl (by rw [hfirst, hid]; exact hlt))] at hafter
    exact hdst (Except.ok.inj hafter).symm
  · exact owners_eq_zero hs.sorted (hrange id hle hlt).1

/-! ### Runs on fixed inputs -/

/-- What is seen of a batch that succeeds. -/
theorem exists_batch {dst : Address} {batchSize next : U96}
    (h : (s._mintConsecutive dst batchSize).toOption.map Prod.fst = some next) :
    ∃ s', s._mintConsecutive dst batchSize = .ok (next, s') := by
  cases hok : s._mintConsecutive dst batchSize with
  | error e =>
    rw [hok] at h
    exact nomatch h
  | ok r =>
    rw [hok] at h
    obtain rfl := Option.some.inj h
    exact ⟨r.2, rfl⟩

/-- A second batch. In its range a single token was minted and burned before, behind it there is one
that exists, and one of the first batch was burned. -/
theorem mintConsecutive_creates_second : ∃ s s',
    machine.Reachable (fun _ _ => True) (deployed 3 defaultMaxBatchSize) s ∧
      (s._ownerOf 5 : Result Error _).toOption = some 0 ∧
      (s._ownerOf 100 : Result Error _).toOption = some 2 ∧
      s._mintConsecutive 3 10 = .ok (13, s') ∧ Creates s s' 3 13 10 := by
  obtain ⟨s, hs, hlook⟩ := machine.exists_reachable (P := fun _ _ => True)
    (deployed 3 defaultMaxBatchSize)
    [.mintConsecutive 1 10, .tx ⟨2, .mint 2 20⟩, .tx ⟨2, .mint 2 100⟩, .tx ⟨2, .burn 20⟩,
      .tx ⟨1, .burn 5⟩]
    (fun s => ((s._ownerOf 5 : Result Error _).toOption, (s._ownerOf 100 : Result Error _).toOption,
      (s._mintConsecutive 3 10).toOption.map Prod.fst, s.firstConsecutiveId,
      decide (∀ i : Fin 10, s.erc721.owners (BitVec.ofNat 256 (13 + i)) = 0)))
    (some 0, some 2, some 13, 3, true) (fun _ _ _ => trivial) (by decide +kernel)
  simp only [Prod.mk.injEq, decide_eq_true_iff] at hlook
  obtain ⟨hburned, howner, hbatch, hfirst, hfree⟩ := hlook
  obtain ⟨s', hok⟩ := exists_batch hbatch
  refine ⟨s, s', hs, hburned, howner, hok,
    (mintConsecutive_creates_iff hs (by decide) hok).2.mpr ⟨?_, by decide, fun id hle hlt => ?_⟩⟩
  · rw [hfirst]
    decide
  · change 13 ≤ id.toNat at hle
    change id.toNat < 13 + 10 at hlt
    have hid := hfree ⟨id.toNat - 13, by omega⟩
    rwa [Nat.add_sub_cancel' hle, BitVec.ofNat_toNat, BitVec.setWidth_eq] at hid

/-- A batch with a token that had an owner before. -/
theorem mintConsecutive_of_owned : ∃ s s',
    machine.Reachable (fun _ _ => True) (deployed 0 defaultMaxBatchSize) s ∧
      s._mintConsecutive 2 10 = .ok (0, s') ∧ ¬Creates s s' 2 0 10 := by
  obtain ⟨s, hs, hlook⟩ := machine.exists_reachable (P := fun _ _ => True)
    (deployed 0 defaultMaxBatchSize) [.tx ⟨1, .mint 1 5⟩]
    (fun s => ((s._ownerOf 5 : Result Error _).toOption,
      (s._mintConsecutive 2 10).toOption.map Prod.fst)) (some 1, some 0) (fun _ _ _ => trivial)
    (by decide +kernel)
  obtain ⟨howner, hbatch⟩ := Prod.mk.inj hlook
  obtain ⟨s', hok⟩ := exists_batch hbatch
  refine ⟨s, s', hs, hok, fun hcreates => ?_⟩
  rw [(hcreates.2.1 5 (by decide) (by decide)).1] at howner
  exact absurd howner (by decide)

end Erc721Consecutive

end ContractsStylus
