import ContractsStylus.Library.SwapPop
import ContractsStylus.Primitives

/-!
# EnumerableSet

A set whose members can be listed: an array of the values, and the position of each value in it,
one more than its index so that zero says that it is no member.

## Swap and pop

A value is removed by moving the last one into its place. The array and the table of positions are
written separately, and what ties them together is one predicate of the library: `Synced` says that
the values are an `Indexed` list whose positions are those in the table. Its lemmas on adding and on
removing know nothing of storage; the operations here are reduced to them, statement by statement.

Nothing is said about the order of the values, which removals change.

## Capacity

The array is a vector in storage, and adding to a full one panics. The set takes the capacity of
that vector as a parameter, and nothing in this module depends on what it is.

## Main definitions

* `EnumerableSet`, with `add`, `remove`, `clear`, `contains`, `length`, `at_`, `valuesVec` and
  `valuesSlice`
* `EnumerableSet.Synced` — values and positions agree

## Main results

* `EnumerableSet.Synced.add`, `EnumerableSet.Synced.remove` — what the operations do to the members
* `EnumerableSet.Synced.valuesVec` — the values are the members, each once
-/

namespace ContractsStylus

/-- State of an `EnumerableSet` contract. -/
structure EnumerableSet (C : Capacity) (α : Type) where
  /-- Values in the set. -/
  values : StorageVec C α
  /-- Value to its position in the values plus one, zero for what is not in the set. -/
  positions : StorageMap α U256

namespace EnumerableSet

open SwapPop

variable {C : Capacity} {α ε : Type} [DecidableEq α]

/-- The set nothing was added to. -/
def empty : EnumerableSet C α := ⟨StorageVec.empty, fun _ => 0⟩

def contains (self : EnumerableSet C α) (value : α) : Bool := self.positions value ≠ 0

def length (self : EnumerableSet C α) : U256 := self.values.len

/-- `at`. -/
def at_ (self : EnumerableSet C α) (index : U256) : Option α := self.values.get index

def add (self : EnumerableSet C α) (value : α) : Result ε (Bool × EnumerableSet C α) :=
  if self.contains value then pure (false, self)
  else do
    let values ← self.values.push value
    -- the value is stored at the old length, and its position is one more
    let position := values.len
    pure (true, ⟨values, Function.update self.positions value position⟩)

/-- The last value is moved into the place of the removed one, unless it is that itself. -/
def moveLast (self : EnumerableSet C α) (position valueIndex lastIndex : U256) :
    Result ε (EnumerableSet C α) :=
  if valueIndex ≠ lastIndex then do
    let lastValue ← expect (self.values.get lastIndex) "element at `last_index` must exist"
    let values ← expect (self.values.set valueIndex lastValue)
      "element at `value_index` must exist - is being removed"
    pure ⟨values, Function.update self.positions lastValue position⟩
  else pure self

def remove (self : EnumerableSet C α) (value : α) : Result ε (Bool × EnumerableSet C α) :=
  let position := self.positions value
  if position = 0 then pure (false, self)
  else do
    let valueIndex := position - 1
    let lastIndex := self.length - 1
    let self ← self.moveLast position valueIndex lastIndex
    pure (true, ⟨self.values.pop, Function.update self.positions value 0⟩)

/-- `values`. -/
def valuesVec (self : EnumerableSet C α) : Result ε (List α) :=
  (List.range self.values.toList.length).mapM fun idx =>
    expect (self.values.get (BitVec.ofNat 256 idx)) "element at index: \x7bidx\x7d must exist"

def clear (self : EnumerableSet C α) : Result ε (EnumerableSet C α) := do
  let positions ← (List.range self.values.toList.length).foldlM (fun positions idx => do
    let v ← expect (self.values.get (BitVec.ofNat 256 idx))
      "element at index: \x7bidx\x7d must exist"
    pure (Function.update positions v 0)) self.positions
  pure ⟨StorageVec.empty, positions⟩

/-- The slow path of `values_slice`, for indices that do not fit a `usize`. -/
def sliceLoop (self : EnumerableSet C α) (stop current : U256) (result : List α) :
    Result ε (List α) :=
  if current < stop then do
    let value ← expect (self.at_ current) "element at index: \x7bcurrent\x7d must exist"
    self.sliceLoop stop (current + 1) (result ++ [value])
  else pure result
termination_by stop.toNat - current.toNat
decreasing_by
  rename_i hlt
  rw [BitVec.toNat_add_of_lt (lt_of_le_of_lt (BitVec.lt_def.mp hlt) stop.isLt)]
  exact Nat.sub_lt_sub_left (BitVec.lt_def.mp hlt) (Nat.lt_succ_self _)

/-- The values from `start` up to `stop`, on a machine whose `usize` has `usizeBits` bits. -/
def valuesSlice (usizeBits : ℕ) (self : EnumerableSet C α) (start stop : U256) :
    Result ε (List α) :=
  let len := self.length
  -- clamp parameters to valid ranges
  let stop := min stop len
  let start := min start stop
  if start.toNat < 2 ^ usizeBits ∧ stop.toNat < 2 ^ usizeBits then
    (List.range' start.toNat (stop.toNat - start.toNat)).mapM fun idx =>
      expect (self.at_ (BitVec.ofNat 256 idx)) "element at index: \x7bidx\x7d must exist"
  else self.sliceLoop stop start []

/-! ### Values and positions -/

variable [Inhabited α] {self self' : EnumerableSet C α} {value v : α}

/-- The value at an index. -/
def slot (self : EnumerableSet C α) (i : ℕ) : α := self.values.toList.getD i default

/-- The index of a value. -/
def index (self : EnumerableSet C α) (v : α) : ℕ := (self.positions v).toNat - 1

/-- **Values and positions agree**: every member is at its position, and only there. -/
def Synced (self : EnumerableSet C α) : Prop :=
  Indexed self.slot self.index self.values.toList.length (fun v => self.contains v)

omit [DecidableEq α] [Inhabited α] in
theorem contains_eq [DecidableEq α] : self.contains v ↔ self.positions v ≠ 0 := by
  rw [contains, decide_eq_true_iff]

omit [Inhabited α] in
/-- The position of a member is one more than its index. -/
theorem toNat_positions (h : self.contains v) : (self.positions v).toNat = self.index v + 1 := by
  have hne : (self.positions v).toNat ≠ 0 := fun hzero =>
    contains_eq.mp h (BitVec.eq_of_toNat_eq hzero)
  rw [index]
  omega

theorem synced_empty : (empty : EnumerableSet C α).Synced :=
  Indexed.empty fun _ h => contains_eq.mp h rfl

omit [DecidableEq α] in
/-- The value at an index, where there is one. -/
theorem getElem?_values {i : ℕ} (hi : i < self.values.toList.length) :
    self.values.toList[i]? = some (self.slot i) := by
  rw [slot, List.getD_eq_getElem?_getD, List.getElem?_eq_getElem hi, Option.getD_some]

omit [Inhabited α] in
/-- What is written when a value is added. -/
theorem add_eq_ok {b : Bool} (hnew : ¬self.contains value)
    (h : (self.add value : Result ε _) = .ok (b, self')) :
    b = true ∧ self'.values.toList = self.values.toList ++ [value] ∧
      self'.positions = Function.update self.positions value self'.values.len := by
  rw [add, if_neg hnew] at h
  obtain ⟨values, hpush, h⟩ := bind_eq_ok.mp h
  obtain ⟨rfl, rfl⟩ := Prod.mk.inj (pure_eq_ok.mp h)
  exact ⟨rfl, StorageVec.push_eq_ok hpush, rfl⟩

omit [Inhabited α] in
/-- A value can be added as long as the array is not full. -/
theorem exists_add (hnew : ¬self.contains value)
    (hlen : self.values.toList.length + 1 < 2 ^ C.bits) :
    ∃ s, (self.add value : Result ε _) = .ok (true, s) := by
  obtain ⟨values, hpush⟩ := StorageVec.exists_push_iff.mpr hlen
  rw [add, if_neg hnew, hpush]
  exact ⟨_, rfl⟩

omit [Inhabited α] in
theorem add_of_contains (h : self.contains value) :
    (self.add value : Result ε _) = .ok (false, self) := by
  rw [add, if_pos h]
  rfl

omit [Inhabited α] in
theorem remove_of_not_contains (h : ¬self.contains value) :
    (self.remove value : Result ε _) = .ok (false, self) := by
  rw [remove, if_pos (not_not.mp (mt contains_eq.mpr h))]
  rfl

/-- **Adding a value** makes it a member. -/
theorem Synced.add {b : Bool} (h : self.Synced) (hnew : ¬self.contains value)
    (hadd : (self.add value : Result ε _) = .ok (b, self')) :
    self'.Synced ∧ ∀ v, self'.contains v ↔ self.contains v ∨ v = value := by
  obtain ⟨-, hlist, hpos⟩ := add_eq_ok hnew hadd
  have hlen : self'.values.len.toNat = self.values.toList.length + 1 := by
    rw [StorageVec.len_toNat, hlist, List.length_append, List.length_singleton]
  have hmem (v : α) : self'.contains v ↔ self.contains v ∨ v = value := by
    rw [contains_eq, contains_eq, hpos]
    rcases eq_or_ne v value with rfl | hne
    · rw [Function.update_self]
      refine iff_of_true (fun hzero => ?_) (Or.inr rfl)
      rw [hzero] at hlen
      exact nomatch hlen
    · rw [Function.update_of_ne hne]
      exact (or_iff_left hne).symm
  refine ⟨?_, hmem⟩
  rw [Synced, hlist, List.length_append, List.length_singleton]
  refine Indexed.push h hnew (fun i hi => ?_) ?_ (fun v hv => ?_) ?_ hmem
  · rw [slot, hlist, List.getD_eq_getElem?_getD, List.getElem?_append_left hi,
      ← List.getD_eq_getElem?_getD, slot]
  · simp [slot, hlist]
  · rw [index, hpos, Function.update_of_ne, index]
    rintro rfl
    exact hnew hv
  · rw [index, hpos, Function.update_self, hlen, Nat.add_sub_cancel]

/-- What is written when the last value takes the place of a member, also when it is that itself. -/
theorem Synced.moveLast_eq (h : self.Synced) (hmem : self.contains value) :
    ∃ s, (self.moveLast (self.positions value) (self.positions value - 1) (self.length - 1) :
        Result ε _) = .ok s ∧
      s.values.toList = self.values.toList.set (self.index value)
        (self.slot (self.values.toList.length - 1)) ∧
      s.positions = Function.update self.positions (self.slot (self.values.toList.length - 1))
        (self.positions value) := by
  have hpos := toNat_positions hmem
  have hlt : self.index value < self.values.toList.length := h.index_lt value hmem
  have hvalueIndex : (self.positions value - 1).toNat = self.index value :=
    BitVec.toNat_sub_one (by omega)
  have hlen : self.length.toNat = self.values.toList.length := StorageVec.len_toNat _
  have hlastIndex : (self.length - 1).toNat = self.values.toList.length - 1 := by
    rw [BitVec.toNat_sub_one (by omega), hlen]
  have hget : self.values.get (self.length - 1) =
      some (self.slot (self.values.toList.length - 1)) := by
    rw [StorageVec.get, hlastIndex]
    exact getElem?_values (by omega)
  rw [moveLast]
  by_cases hlast : self.positions value - 1 = self.length - 1
  · have heq : self.index value = self.values.toList.length - 1 := by
      rw [← hvalueIndex, hlast, hlastIndex]
    have hslot : self.slot (self.values.toList.length - 1) = value := by
      rw [← heq]
      exact h.slot_index value hmem
    have hself := getElem?_values hlt
    rw [heq, hslot] at hself
    rw [if_neg (not_not.mpr hlast), hslot, heq]
    refine ⟨self, rfl, ?_, (Function.update_eq_self ..).symm⟩
    obtain ⟨hlt', hself⟩ := List.getElem?_eq_some_iff.mp hself
    exact ((congrArg (List.set _ _) hself.symm).trans (List.set_getElem_self hlt')).symm
  · obtain ⟨values, hset⟩ : ∃ values, self.values.set (self.positions value - 1)
        (self.slot (self.values.toList.length - 1)) = some values :=
      StorageVec.exists_set (by rwa [hvalueIndex]) _
    obtain ⟨-, hlist⟩ := StorageVec.set_eq_some hset
    rw [hvalueIndex] at hlist
    rw [if_pos hlast, hget, expect, ok_bind, hset]
    exact ⟨_, rfl, hlist, rfl⟩

/-- What is written when a member is removed. -/
theorem Synced.remove_eq (h : self.Synced) (hold : self.contains value) :
    ∃ s, (self.remove value : Result ε _) = .ok (true, s) ∧
      s.values.toList = (self.values.toList.set (self.index value)
        (self.slot (self.values.toList.length - 1))).dropLast ∧
      s.positions = Function.update (Function.update self.positions
        (self.slot (self.values.toList.length - 1)) (self.positions value)) value 0 := by
  obtain ⟨s, hs, hlist, hpos⟩ := @Synced.moveLast_eq C α ε _ _ self value h hold
  rw [EnumerableSet.remove, if_neg (contains_eq.mp hold)]
  dsimp only
  rw [hs, ← hpos]
  exact ⟨_, rfl, congrArg List.dropLast hlist, rfl⟩

/-- **Removing a value** ends its membership. -/
theorem Synced.remove (h : self.Synced) (hold : self.contains value) :
    ∃ s, (self.remove value : Result ε _) = .ok (true, s) ∧ s.Synced ∧
      ∀ v, s.contains v ↔ self.contains v ∧ v ≠ value := by
  obtain ⟨s, hs, hlist, hpos⟩ := @Synced.remove_eq C α ε _ _ self value h hold
  have hlt : self.index value < self.values.toList.length := h.index_lt value hold
  obtain ⟨n, hn⟩ : ∃ n, self.values.toList.length = n + 1 :=
    ⟨self.values.toList.length - 1, by omega⟩
  rw [hn, Nat.add_sub_cancel] at hlist hpos
  rw [Synced, hn] at h
  have hlast : self.contains (self.slot n) := h.mem_slot n (Nat.lt_succ_self n)
  have hmem (v : α) : s.contains v ↔ self.contains v ∧ v ≠ value := by
    rw [contains_eq, hpos, contains_eq]
    rcases eq_or_ne v value with rfl | hne
    · rw [Function.update_self]
      exact iff_of_false (not_not.mpr rfl) fun hne => hne.2 rfl
    · rw [Function.update_of_ne hne, and_iff_left hne]
      rcases eq_or_ne v (self.slot n) with rfl | hnelast
      · rw [Function.update_self]
        exact iff_of_true (contains_eq.mp hold) (contains_eq.mp hlast)
      · rw [Function.update_of_ne hnelast]
  have hslot (i : ℕ) (hi : i < n) :
      s.slot i = if i = self.index value then self.slot n else self.slot i := by
    rw [slot, hlist]
    exact getD_set_dropLast hn hi _ _ _
  refine ⟨s, hs, ?_, hmem⟩
  rw [Synced, hlist, List.length_dropLast, List.length_set, hn, Nat.add_sub_cancel]
  refine h.swapPop hold (fun i hi hne => ?_) (fun hlt => ?_) (fun v hv hne hnelast => ?_)
    (fun hne => ?_) hmem
  · rw [hslot i hi, if_neg hne]
  · rw [hslot _ hlt, if_pos rfl]
  · rw [index, hpos, Function.update_of_ne hne, Function.update_of_ne hnelast, index]
  · rw [index, hpos, Function.update_of_ne hne, Function.update_self, index]

/-! ### Listing the members -/

omit [DecidableEq α] in
/-- The slots are the values. -/
theorem map_slot (self : EnumerableSet C α) :
    (List.range self.values.toList.length).map self.slot = self.values.toList := by
  refine List.ext_getElem (by simp) fun i _ hi => ?_
  rw [List.getElem_map, List.getElem_range, slot, List.getD_eq_getElem?_getD,
    List.getElem?_eq_getElem hi, Option.getD_some]

omit [DecidableEq α] in
/-- The values are read one after the other. -/
theorem valuesVec_eq (self : EnumerableSet C α) :
    (self.valuesVec : Result ε _) = .ok self.values.toList := by
  have hread := self.map_slot
  refine (mapM_eq_ok (g := self.slot) fun i hi => ?_).trans (congrArg Except.ok hread)
  have hi := List.mem_range.mp hi
  rw [StorageVec.get, BitVec.toNat_ofNat, Nat.mod_eq_of_lt (hi.trans self.values.length_lt),
    getElem?_values hi]
  rfl

omit [DecidableEq α] in
/-- **The values are the members**, each once. -/
theorem Synced.values (h : self.Synced) :
    self.values.toList.Nodup ∧ ∀ v, v ∈ self.values.toList ↔ self.contains v := by
  obtain ⟨hnodup, hmem, -⟩ := Indexed.iff_map_range.mp h
  rw [map_slot] at hnodup hmem
  exact ⟨hnodup, hmem⟩

end EnumerableSet

end ContractsStylus
