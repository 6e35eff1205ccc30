import ContractsStylus.Library.Runs
import ContractsStylus.Utils.EnumerableSet
import Mathlib.Data.BitVec
import Mathlib.Data.Finset.Card

/-!
# Enumerable sets are finite sets

What an `EnumerableSet` is after additions, removals and clearings is a finite set, with each
member at one position of an array. The array is what a caller can list, in whole or in part.

## What is refined

The abstract state is a `Finset`, and the operations on it are those of Mathlib. `Lists` relates the
two: it says which values are listed and where, so that everything a caller can read is determined
by it up to the order of the list. It is equivalent to `Synced` with the right members, and each
operation is proved through the one form or the other.

Two things can fail. Adding a new value panics if and only if the vector has reached its capacity,
which is a condition on the number of members; and indices outside of the set are answered `None`.
Removing and clearing never fail.

A slice of the values is computed by two different loops, one for bounds that fit a `usize` and one
for all others. How many bits a `usize` has is a parameter, and the result does not depend on it.

## Main definitions

* `EnumerableSet.Op`, `EnumerableSet.exec` — the operations that change a set
* `EnumerableSet.Op.apply` — what they do to a finite set
* `EnumerableSet.Lists` — the set has the members of a finite set

## Main results

* `EnumerableSet.Lists.add`, `EnumerableSet.Lists.remove`, `EnumerableSet.Lists.clear` — one
  theorem for each operation
* `EnumerableSet.Lists.valuesSlice` — what is listed between two indices, on either path
* `EnumerableSet.refines_finset` — every run
-/

namespace ContractsStylus

namespace EnumerableSet

open SwapPop

variable {C : Capacity} {α ε : Type} [DecidableEq α]

/-- The operations that change a set. -/
inductive Op (α : Type)
  | add (value : α)
  | remove (value : α)
  | clear

/-- An operation, without its answer. -/
def exec (self : EnumerableSet C α) : Op α → Result ε (EnumerableSet C α)
  | .add value => Prod.snd <$> self.add value
  | .remove value => Prod.snd <$> self.remove value
  | .clear => self.clear

/-- The operation on a finite set. -/
def Op.apply (s : Finset α) : Op α → Finset α
  | .add value => insert value s
  | .remove value => s.erase value
  | .clear => ∅

/-- **The set has the members of a finite set**: each is at one position, and known by it. -/
structure Lists (set : EnumerableSet C α) (s : Finset α) : Prop where
  nodup : set.values.toList.Nodup
  mem_values : ∀ v, v ∈ set.values.toList ↔ v ∈ s
  positions_eq : ∀ v i, (set.positions v).toNat = i + 1 ↔ set.values.toList[i]? = some v
  positions_eq_zero : ∀ v, set.positions v = 0 ↔ v ∉ s

variable {self self' : EnumerableSet C α} {s : Finset α} {value : α}

namespace Lists

theorem contains_eq (h : self.Lists s) (v : α) : self.contains v = decide (v ∈ s) := by
  rw [contains, decide_eq_decide, ne_eq, h.positions_eq_zero]
  exact not_not

theorem contains_iff (h : self.Lists s) {v : α} : self.contains v ↔ v ∈ s := by
  rw [h.contains_eq, decide_eq_true_iff]

/-- The values are as many as the members. -/
theorem length_eq (h : self.Lists s) : self.values.toList.length = s.card := by
  have hs : self.values.toList.toFinset = s := by
    ext v
    rw [List.mem_toFinset, h.mem_values]
  rw [← hs, List.toFinset_card_of_nodup h.nodup]

theorem toNat_length (h : self.Lists s) : self.length.toNat = s.card := by
  rw [length, StorageVec.len_toNat, h.length_eq]

section Synced

variable [Inhabited α]

/-- In a set whose values and positions agree. -/
theorem of_synced (h : self.Synced) (hmem : ∀ v, self.contains v ↔ v ∈ s) : self.Lists s where
  nodup := h.values.1
  mem_values v := (h.values.2 v).trans (hmem v)
  positions_eq v i := by
    constructor
    · intro hpos
      have hv : self.contains v := EnumerableSet.contains_eq.mpr fun hzero => by
        rw [hzero] at hpos
        exact nomatch hpos
      have hindex := toNat_positions hv
      have hi : self.index v = i := by omega
      rw [← hi, getElem?_values (h.index_lt v hv), h.slot_index v hv]
    · intro hi
      obtain ⟨hlt, -⟩ := List.getElem?_eq_some_iff.mp hi
      rw [getElem?_values hlt, Option.some_inj] at hi
      have hv : self.contains v := hi ▸ h.mem_slot i hlt
      rw [toNat_positions hv, ← hi, h.index_slot i hlt]
  positions_eq_zero v := by
    rw [← hmem, EnumerableSet.contains_eq]
    exact not_not.symm

/-- The other way round. -/
theorem synced (h : self.Lists s) : self.Synced := by
  refine Indexed.iff_map_range.mpr ⟨?_, fun v => ?_, fun v hv => ?_⟩
  · rw [map_slot]
    exact h.nodup
  · rw [map_slot, h.mem_values, h.contains_eq, decide_eq_true_iff]
  · rw [map_slot, ← h.positions_eq]
    exact toNat_positions hv

omit [Inhabited α] in
/-- Entries deleted one after the other. -/
theorem foldl_update_zero (l : List α) (positions : StorageMap α U256) (v : α) :
    l.foldl (fun positions v => Function.update positions v 0) positions v =
      if v ∈ l then 0 else positions v := by
  induction l generalizing positions with
  | nil => rfl
  | cons a l ih =>
    rw [List.foldl_cons, ih, Function.update_apply]
    by_cases hl : v ∈ l
    · rw [if_pos hl, if_pos (List.mem_cons_of_mem a hl)]
    · simp [hl]

/-! ### The operations

The answers are a part of what is refined: whether a value was added or removed is whether it was a
member before. -/

theorem empty : (EnumerableSet.empty : EnumerableSet C α).Lists ∅ :=
  of_synced synced_empty fun _ =>
    iff_of_false (not_not.mpr rfl ∘ EnumerableSet.contains_eq.mp) (Finset.notMem_empty _)

/-- **Adding** answers whether the value is new. -/
theorem add {b : Bool} (h : self.Lists s) (hadd : (self.add value : Result ε _) = .ok (b, self')) :
    b = decide (value ∉ s) ∧ self'.Lists (insert value s) := by
  by_cases hold : self.contains value
  · obtain ⟨rfl, rfl⟩ := Prod.mk.inj (Except.ok.inj ((add_of_contains hold).symm.trans hadd))
    have hmem := h.contains_iff.mp hold
    rw [Finset.insert_eq_of_mem hmem]
    exact ⟨(decide_eq_false (not_not.mpr hmem)).symm, h⟩
  · obtain ⟨rfl, -⟩ := add_eq_ok hold hadd
    obtain ⟨hsynced, hmem⟩ := h.synced.add hold hadd
    have hnew : value ∉ s := hold ∘ h.contains_iff.mpr
    refine ⟨(decide_eq_true hnew).symm, of_synced hsynced fun v => ?_⟩
    rw [hmem, h.contains_iff, Finset.mem_insert, or_comm]

omit [Inhabited α] in
/-- It succeeds unless the value is new and the array full. -/
theorem exists_add_iff (h : self.Lists s) : (∃ r, (self.add value : Result ε _) = .ok r) ↔
    value ∈ s ∨ s.card + 1 < 2 ^ C.bits := by
  rw [← h.length_eq, ← h.contains_iff]
  constructor
  · rintro ⟨⟨b, self'⟩, hadd⟩
    refine or_iff_not_imp_left.mpr fun hnew => ?_
    have hfits := self'.values.fits
    obtain ⟨-, hlist, -⟩ := add_eq_ok hnew hadd
    rwa [hlist, List.length_append, List.length_singleton] at hfits
  · rintro (hold | hlen)
    · exact ⟨_, add_of_contains hold⟩
    · by_cases hold : self.contains value
      · exact ⟨_, add_of_contains hold⟩
      · obtain ⟨self', hadd⟩ := EnumerableSet.exists_add hold hlen
        exact ⟨_, hadd⟩

/-- **Removing** answers whether the value was there. -/
theorem remove (h : self.Lists s) (value : α) : ∃ self',
    (self.remove value : Result ε _) = .ok (decide (value ∈ s), self') ∧
      self'.Lists (s.erase value) := by
  by_cases hold : self.contains value
  · obtain ⟨self', hremove, hsynced, hmem⟩ := h.synced.remove hold
    rw [decide_eq_true (h.contains_iff.mp hold)]
    refine ⟨self', hremove, of_synced hsynced fun v => ?_⟩
    rw [hmem, h.contains_iff, Finset.mem_erase, and_comm]
  · have hnew := hold ∘ h.contains_iff.mpr
    rw [decide_eq_false hnew, Finset.erase_eq_of_notMem hnew]
    exact ⟨self, remove_of_not_contains hold, h⟩

/-- **Clearing** leaves the set as it was at first, down to the positions. -/
theorem clear (h : self.Lists s) : (self.clear : Result ε _) = .ok EnumerableSet.empty := by
  have hread : (List.range self.values.toList.length).foldlM (fun positions idx => do
      let v ← expect (self.values.get (BitVec.ofNat 256 idx))
        "element at index: \x7bidx\x7d must exist"
      pure (Function.update positions v 0)) self.positions =
      (.ok (fun _ => 0) : Result ε _) := by
    refine (foldlM_eq_ok (g := fun positions idx => Function.update positions (self.slot idx) 0)
      (fun i hi positions => ?_) _).trans (congrArg Except.ok ?_)
    · have hi := List.mem_range.mp hi
      rw [StorageVec.get, BitVec.toNat_ofNat, Nat.mod_eq_of_lt (hi.trans self.values.length_lt),
        getElem?_values hi]
      rfl
    · rw [← List.foldl_map (f := self.slot) (g := fun positions v => Function.update positions v 0),
        map_slot]
      funext v
      rw [foldl_update_zero]
      split
      · rfl
      · rename_i hv
        exact (h.positions_eq_zero v).mpr fun hmem => hv ((h.mem_values v).mpr hmem)
  rw [EnumerableSet.clear, hread]
  rfl

/-! ### Reading

Everything a caller can read of a set, in terms of its members and the order in which they are
listed. -/

omit [Inhabited α] in
/-- An index is within bounds when it is below the number of members. -/
theorem isSome_at (h : self.Lists s) (index : U256) :
    (self.at_ index).isSome = decide (index.toNat < s.card) := by
  rw [at_, StorageVec.get, ← h.length_eq]
  by_cases hi : index.toNat < self.values.toList.length <;> simp [hi]

omit [DecidableEq α] [Inhabited α] in
/-- What is read at an index is the member with its position. -/
theorem at_eq_some (h : self.Lists s) {index : U256} {v : α} :
    self.at_ index = some v ↔ (self.positions v).toNat = index.toNat + 1 :=
  (h.positions_eq v index.toNat).symm

omit [DecidableEq α] [Inhabited α] in
/-- Each member is found at exactly one index. -/
theorem existsUnique_at (h : self.Lists s) {v : α} :
    v ∈ s ↔ ∃! index, self.at_ index = some v := by
  constructor
  · intro hv
    have hne : (self.positions v).toNat ≠ 0 := fun hzero =>
      (h.positions_eq_zero v).mp (BitVec.eq_of_toNat_eq hzero) hv
    have hlt := (self.positions v).isLt
    refine ⟨BitVec.ofNat 256 ((self.positions v).toNat - 1), ?_, fun index hindex => ?_⟩
    · dsimp only
      rw [h.at_eq_some, BitVec.toNat_ofNat, Nat.mod_eq_of_lt (by omega)]
      omega
    · rw [h.at_eq_some.mp hindex, Nat.add_sub_cancel, BitVec.ofNat_toNat, BitVec.setWidth_eq]
  · rintro ⟨index, hindex, -⟩
    exact (h.mem_values v).mp (List.mem_of_getElem? hindex)

omit [DecidableEq α] in
/-- A value within bounds is read. -/
theorem expect_at {i : ℕ} (hi : i < self.values.toList.length) (msg : String) :
    (expect (self.at_ (BitVec.ofNat 256 i)) msg : Result ε _) = .ok (self.slot i) := by
  rw [at_, StorageVec.get, BitVec.toNat_ofNat, Nat.mod_eq_of_lt (hi.trans self.values.length_lt),
    getElem?_values hi]
  rfl

omit [DecidableEq α] in
/-- The first value of a part of the array, and the others. -/
theorem drop_take_cons {i stop : ℕ} (hi : i < stop) (hstop : stop ≤ self.values.toList.length) :
    (self.values.toList.take stop).drop i =
      self.slot i :: (self.values.toList.take stop).drop (i + 1) := by
  have hlen : i < (self.values.toList.take stop).length := by
    rw [List.length_take]
    omega
  rw [List.drop_eq_getElem_cons hlen, List.getElem_take, slot, List.getD_eq_getElem?_getD,
    List.getElem?_eq_getElem (by omega), Option.getD_some]

omit [DecidableEq α] in
/-- The fast path reads a part of the array. -/
theorem mapM_at {start n : ℕ} (hn : start + n ≤ self.values.toList.length) (msg : String) :
    (List.range' start n).mapM (fun idx => expect (self.at_ (BitVec.ofNat 256 idx)) msg) =
      (.ok ((self.values.toList.take (start + n)).drop start) : Result ε _) := by
  induction n generalizing start with
  | zero =>
    rw [Nat.add_zero, List.drop_eq_nil_of_le (List.length_take_le ..)]
    rfl
  | succ n ih =>
    rw [List.range'_succ, List.mapM_cons, expect_at (by omega), ok_bind, ih (by omega),
      drop_take_cons (i := start) (by omega) hn, show start + 1 + n = start + (n + 1) by omega]
    rfl

omit [DecidableEq α] in
/-- The slow path reads the same part. -/
theorem sliceLoop_eq {stop current : U256} (hstop : stop.toNat ≤ self.values.toList.length)
    (result : List α) : (self.sliceLoop stop current result : Result ε _) =
      .ok (result ++ (self.values.toList.take stop.toNat).drop current.toNat) := by
  induction hn : stop.toNat - current.toNat generalizing current result with
  | zero =>
    have hle : ¬current < stop := by rw [BitVec.lt_def]; omega
    rw [sliceLoop, if_neg hle, List.drop_eq_nil_of_le, List.append_nil]
    · rfl
    · rw [List.length_take]
      omega
  | succ n ih =>
    have hlt : current.toNat < stop.toNat := by omega
    have hnext : (current + 1).toNat = current.toNat + 1 :=
      BitVec.toNat_add_of_lt (lt_of_le_of_lt hlt stop.isLt)
    have hread : (expect (self.at_ (BitVec.ofNat 256 current.toNat))
        "element at index: \x7bcurrent\x7d must exist" : Result ε _) =
        .ok (self.slot current.toNat) := expect_at (by omega) _
    rw [BitVec.ofNat_toNat, BitVec.setWidth_eq] at hread
    rw [sliceLoop, if_pos (BitVec.lt_def.mpr hlt), hread, ok_bind, ih _ (by omega), hnext,
      drop_take_cons hlt hstop, List.append_assoc, List.singleton_append]

/-- Nothing is left out of the end of a list. -/
theorem drop_min_length {β : Type} (l : List β) (n : ℕ) : l.drop (min n l.length) = l.drop n := by
  rcases le_total n l.length with h | h
  · rw [min_eq_left h]
  · rw [min_eq_right h, List.drop_length, List.drop_eq_nil_of_le h]

omit [DecidableEq α] in
/-- **A part of the set** is listed on either path, and nothing past the end. -/
theorem valuesSlice_eq (usizeBits : ℕ) (start stop : U256) :
    (self.valuesSlice usizeBits start stop : Result ε _) =
      .ok ((self.values.toList.take stop.toNat).drop start.toNat) := by
  have hmin (a b : U256) : (min a b).toNat = min a.toNat b.toNat :=
    Monotone.map_min fun _ _ h => h
  have hstop : (min stop self.length).toNat = min stop.toNat self.values.toList.length := by
    rw [hmin, length, StorageVec.len_toNat]
  have hle : (min stop self.length).toNat ≤ self.values.toList.length :=
    hstop.trans_le (min_le_right _ _)
  have hclamp : (self.values.toList.take (min stop self.length).toNat).drop
      (min start (min stop self.length)).toNat =
        (self.values.toList.take stop.toNat).drop start.toNat := by
    rw [hmin, hstop, ← List.take_eq_take_min, ← List.length_take, drop_min_length]
  have hstart : (min start (min stop self.length)).toNat ≤ (min stop self.length).toNat :=
    (hmin _ _).trans_le (min_le_right _ _)
  rw [← hclamp, valuesSlice]
  split
  · rw [mapM_at (by omega), Nat.add_sub_cancel' hstart]
  · rw [sliceLoop_eq hle, List.nil_append]

end Synced

end Lists

/-! ### Runs -/

variable [Inhabited α]

/-- **An operation does to the members what it does to a finite set.** -/
theorem Lists.exec {op : Op α} (h : self.Lists s)
    (hexec : (self.exec op : Result ε _) = .ok self') : self'.Lists (op.apply s) := by
  cases op with
  | add value =>
    obtain ⟨b, hadd⟩ := snd_map_eq_ok.mp hexec
    exact (h.add hadd).2
  | remove value =>
    obtain ⟨b, hremove⟩ := snd_map_eq_ok.mp hexec
    obtain ⟨s', hs', hlists⟩ := @Lists.remove C α ε _ _ _ _ h value
    obtain ⟨-, rfl⟩ := Prod.mk.inj (Except.ok.inj (hs'.symm.trans hremove))
    exact hlists
  | clear =>
    obtain rfl := Except.ok.inj (h.clear.symm.trans hexec)
    exact .empty

/-- **A set is a finite set, whatever was done to it**, and however many members its array has room
for. -/
theorem refines_finset (ops : List (Op α))
    (hrun : ops.foldlM EnumerableSet.exec empty = (.ok self : Result ε _)) :
    ∃ s : Finset α, s = ops.foldl Op.apply ∅ ∧ self.Lists s ∧
      (∀ v b self', (self.add v : Result ε _) = .ok (b, self') →
        b = decide (v ∉ s) ∧ ∀ w, self'.contains w = decide (w ∈ insert v s)) ∧
      (∀ v, (∃ r, (self.add v : Result ε _) = .ok r) ↔ v ∈ s ∨ s.card + 1 < 2 ^ C.bits) ∧
      (∀ v, ∃ self', (self.remove v : Result ε _) = .ok (decide (v ∈ s), self') ∧
        ∀ w, self'.contains w = decide (w ∈ s.erase v)) ∧
      (self.clear : Result ε _) = .ok empty ∧
      (∀ v, self.contains v = decide (v ∈ s)) ∧
      self.length.toNat = s.card ∧
      (∀ index, (self.at_ index).isSome = decide (index.toNat < s.card)) ∧
      (∀ v, v ∈ s ↔ ∃! index, self.at_ index = some v) ∧
      ∀ usizeBits start stop,
        (self.valuesSlice usizeBits start stop : Result ε _) =
          .ok ((self.values.toList.take stop.toNat).drop start.toNat) ∧
        (min stop.toNat s.card ≤ start.toNat →
          (self.valuesSlice usizeBits start stop : Result ε _) = .ok []) := by
  have h : self.Lists (ops.foldl Op.apply ∅) :=
    Machine.foldlM_refines (M := ⟨EnumerableSet.exec⟩) (fun _ _ _ _ hs hexec => hs.exec hexec)
      .empty hrun
  refine ⟨_, rfl, h, fun v b self' hadd => ?_, fun v => h.exists_add_iff, fun v => ?_, h.clear,
    h.contains_eq, h.toNat_length, h.isSome_at, fun v => h.existsUnique_at,
    fun usizeBits start stop => ⟨Lists.valuesSlice_eq usizeBits start stop, fun hpast => ?_⟩⟩
  · obtain ⟨hb, hlists⟩ := h.add hadd
    exact ⟨hb, hlists.contains_eq⟩
  · obtain ⟨self', hremove, hlists⟩ := @Lists.remove C α ε _ _ _ _ h v
    exact ⟨self', hremove, hlists.contains_eq⟩
  · rw [Lists.valuesSlice_eq, List.drop_eq_nil_of_le]
    rwa [List.length_take, h.length_eq]

/-- Two values added, the first removed, all cleared and one added again. -/
theorem refines_finset_again : ∃ self : EnumerableSet .wasm32 U8,
    [Op.add 1, .add 2, .remove 1, .clear, .add 2].foldlM EnumerableSet.exec empty =
      (.ok self : Result Empty _) ∧ self.length.toNat = 1 := by
  obtain ⟨self, hself⟩ : ∃ self : EnumerableSet .wasm32 U8,
      [Op.add 1, .add 2, .remove 1, .clear, .add 2].foldlM EnumerableSet.exec empty =
        (.ok self : Result Empty _) := ⟨_, rfl⟩
  obtain ⟨s, rfl, -, -, -, -, -, -, hlength, -⟩ := refines_finset _ hself
  exact ⟨self, hself, hlength⟩

end EnumerableSet

end ContractsStylus
