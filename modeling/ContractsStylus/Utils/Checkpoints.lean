import ContractsStylus.Library.Bisection
import ContractsStylus.Utils.Math

/-!
# Checkpoints

A history of a value: checkpoints with growing keys, looked up by bisection. Keys and values are
words of various widths in the source, and any ordered keys here.

Storage never shrinks and nothing but `push` writes it, so the keys stay in order, and a lookup
finds what a search from front to back would find.

## Bisection

Both lookups are one loop over the positions, which differ in the keys that send the search to the
left. The loop is given a bound on its rounds, the distance of the two ends. That distance is at
least halved in every round, so the bound is never used up; with `Bisection` from the library this
gives the position that a lookup returns, and that the loop indexes no checkpoint that is not there.

The lookup of recent keys guesses at the end of the trace first, at the square root of its length.
The guess only chooses the bounds of the same search, and the result is the same on either side.

## A push that fails

`push` returns the new trace when it succeeds. `pushMut` follows the same text in place, and keeps
the storage also when it fails: nothing was written by then, whichever way it fails.

## Main definitions

* `Trace`, `Trace.push`, `Trace.latestCheckpoint`
* `Trace.lowerLookup`, `Trace.upperLookup`, `Trace.upperLookupRecent`
* `Trace.Sorted` — the keys are in order

## Main results

* `Trace.push_eq_ok` — a push appends, or overwrites the last checkpoint
* `Trace.lowerLookup_eq` — a lookup finds the first checkpoint with a key at least the given one
-/

namespace ContractsStylus

/-- A key and the value from there on. -/
structure Checkpoint (κ ν : Type) where
  key : κ
  value : ν

/-- State of a trace. -/
structure Trace (κ ν : Type) where
  /-- The checkpoints, sorted by key. -/
  checkpoints : StorageVec .word (Checkpoint κ ν)

namespace Trace

inductive Error
  /-- A value was attempted to be inserted into a past checkpoint. -/
  | CheckpointUnorderedInsertion
  deriving DecidableEq, Repr

variable {κ ν ε : Type}

/-- The trace nothing was pushed to. -/
def empty : Trace κ ν := ⟨StorageVec.empty⟩

def length (self : Trace κ ν) : U256 := self.checkpoints.len

def _index (self : Trace κ ν) (pos : U256) : Result ε (Checkpoint κ ν) :=
  expect (self.checkpoints.get pos) s!"should get checkpoint at index `{pos.toNat}`"

/-- `self._index_mut(pos).value.set(value)`. -/
def setValue (self : Trace κ ν) (pos : U256) (value : ν) : Result ε (Trace κ ν) := do
  let checkpoint ← self._index pos
  let checkpoints ← expect (self.checkpoints.set pos { checkpoint with value })
    s!"should get checkpoint at index `{pos.toNat}`"
  pure ⟨checkpoints⟩

def _uncheckedPush (self : Trace κ ν) (key : κ) (value : ν) : Result ε (Trace κ ν) := do
  let checkpoints ← self.checkpoints.push ⟨key, value⟩
  pure ⟨checkpoints⟩

def latestCheckpoint (self : Trace κ ν) : Result ε (Option (κ × ν)) :=
  let pos := self.length
  if pos = 0 then .ok none
  else do
    let checkpoint ← self._index (pos - 1)
    pure (some (checkpoint.key, checkpoint.value))

/-- The loop of a lookup, with a bound on the number of its rounds. The keys in `left` send it to
the left of the middle. -/
def binaryLookup (self : Trace κ ν) (left : κ → Bool) : ℕ → U256 → U256 → Result ε U256
  | 0, low, high => if low < high then .panic "out of rounds" else .ok high
  | rounds + 1, low, high =>
    if low < high then do
      let mid := average low high
      let checkpoint ← self._index mid
      if left checkpoint.key then self.binaryLookup left rounds low mid
      else self.binaryLookup left rounds (mid + 1) high
    else .ok high

variable [LinearOrder κ]

def _lowerBinaryLookup (self : Trace κ ν) (key : κ) (low high : U256) : Result ε U256 :=
  self.binaryLookup (fun k => ¬k < key) (high - low).toNat low high

def _insert [Zero ν] (self : Trace κ ν) (key : κ) (value : ν) :
    Result Error ((ν × ν) × Trace κ ν) :=
  let pos := self.length
  if pos > 0 then do
    let last ← self._index (pos - 1)
    -- keys must be non-decreasing
    if last.key > key then .err .CheckpointUnorderedInsertion
    else do
      -- update or push new checkpoint
      let self ← (if last.key = key then self.setValue (pos - 1) value
        else self._uncheckedPush key value)
      pure ((last.value, value), self)
  else do
    let self ← self._uncheckedPush key value
    pure ((0, value), self)

def push [Zero ν] (self : Trace κ ν) (key : κ) (value : ν) :
    Result Error ((ν × ν) × Trace κ ν) :=
  self._insert key value

def lowerLookup [Zero ν] (self : Trace κ ν) (key : κ) : Result ε ν := do
  let len := self.length
  let pos ← self._lowerBinaryLookup key 0 len
  if pos = len then pure 0
  else do
    let checkpoint ← self._index pos
    pure checkpoint.value

def _upperBinaryLookup (self : Trace κ ν) (key : κ) (low high : U256) : Result ε U256 :=
  self.binaryLookup (fun k => k > key) (high - low).toNat low high

/-- The value before a position, which zero has none before it. -/
def valueBefore [Zero ν] (self : Trace κ ν) (pos : U256) : Result ε ν :=
  if pos = 0 then .ok 0
  else do
    let checkpoint ← self._index (pos - 1)
    pure checkpoint.value

def upperLookup [Zero ν] (self : Trace κ ν) (key : κ) : Result ε ν := do
  let len := self.length
  let pos ← self._upperBinaryLookup key 0 len
  self.valueBefore pos

/-- The bounds of a search from the end: a guess tells on which side of it to search. -/
def recentBounds (self : Trace κ ν) (key : κ) : Result ε (U256 × U256) :=
  let len := self.length
  if len > 5 then do
    let mid := len - sqrt len
    let checkpoint ← self._index mid
    if key < checkpoint.key then pure (0, mid) else pure (mid + 1, len)
  else pure (0, len)

def upperLookupRecent [Zero ν] (self : Trace κ ν) (key : κ) : Result ε ν := do
  let bounds ← self.recentBounds key
  let pos ← self._upperBinaryLookup key bounds.1 bounds.2
  self.valueBefore pos

/-- A write and the answer after it, beside the storage that is left when the write fails. -/
def written {α : Type} (self : Trace κ ν) (write : Result ε (Trace κ ν)) (answer : α) :
    Result ε α × Trace κ ν :=
  match write with
  | .ok self => (.ok answer, self)
  | .error e => (.error e, self)

/-- `push` in place: its answer, and the storage after it even when it fails. -/
def pushMut [Zero ν] (self : Trace κ ν) (key : κ) (value : ν) :
    Result Error (ν × ν) × Trace κ ν :=
  let pos := self.length
  if pos > 0 then
    match self._index (pos - 1) with
    | .error e => (.error e, self)
    | .ok last =>
      if last.key > key then (.err .CheckpointUnorderedInsertion, self)
      else if last.key = key then
        self.written (self.setValue (pos - 1) value) (last.value, value)
      else self.written (self._uncheckedPush key value) (last.value, value)
  else self.written (self._uncheckedPush key value) (0, value)

/-! ### Positions

Reads and writes are described on the list of checkpoints. A push looks at the last one only, so
there are three cases: there is none, its key is larger, or the new checkpoint comes behind it or in
its place. -/

/-- The checkpoints, first to last. -/
def toList (self : Trace κ ν) : List (Checkpoint κ ν) := self.checkpoints.toList

/-- The keys are in order. -/
def Sorted (self : Trace κ ν) : Prop := self.toList.Pairwise fun a b => a.key < b.key

omit [LinearOrder κ]

@[simp] theorem toNat_length (self : Trace κ ν) : self.length.toNat = self.toList.length :=
  StorageVec.len_toNat _

theorem index_eq_ok {self : Trace κ ν} {pos : U256} {c : Checkpoint κ ν} :
    (self._index pos : Result ε _) = .ok c ↔ self.toList[pos.toNat]? = some c :=
  expect_eq_ok

theorem length_eq_zero {self : Trace κ ν} : self.length = 0 ↔ self.toList = [] := by
  rw [← BitVec.toNat_inj, toNat_length, ← List.length_eq_zero_iff]
  rfl

theorem length_pos {self : Trace κ ν} : 0 < self.length ↔ self.toList ≠ [] := by
  rw [BitVec.lt_def, toNat_length, ← List.length_pos_iff]
  rfl

/-- Reading the last position. -/
theorem index_last {self : Trace κ ν} {c : Checkpoint κ ν} (h : self.toList.getLast? = some c) :
    (self.length - 1).toNat = self.toList.length - 1 ∧
      (self._index (self.length - 1) : Result ε _) = .ok c := by
  have hpos : 0 < self.toList.length := by
    rw [List.length_pos_iff]
    rintro heq
    rw [heq] at h
    exact nomatch h
  have hsub := BitVec.toNat_sub_add_cancel (x := self.length) (y := 1)
    (by rw [toNat_length]; exact hpos)
  have hlast : (self.length - 1).toNat = self.toList.length - 1 := by
    rw [toNat_length] at hsub
    change _ + 1 = _ at hsub
    omega
  exact ⟨hlast, by rw [index_eq_ok, hlast, ← List.getLast?_eq_getElem?, h]⟩

theorem latestCheckpoint_eq (self : Trace κ ν) : (self.latestCheckpoint : Result ε _) =
    .ok (self.toList.getLast?.map fun c => (c.key, c.value)) := by
  rw [latestCheckpoint]
  cases h : self.toList.getLast? with
  | none => rw [if_pos (length_eq_zero.mpr (List.getLast?_eq_none_iff.mp h)), Option.map_none]
  | some c =>
    rw [if_neg, (index_last h).2]
    · rfl
    · rw [length_eq_zero]
      rintro heq
      rw [heq] at h
      exact nomatch h

theorem setValue_eq_ok {self self' : Trace κ ν} {pos : U256} {value : ν}
    (h : (self.setValue pos value : Result ε _) = .ok self') :
    ∃ c, self.toList[pos.toNat]? = some c ∧
      self'.toList = self.toList.set pos.toNat { c with value } := by
  obtain ⟨c, hc, h⟩ := bind_eq_ok.mp h
  obtain ⟨checkpoints, hset, h⟩ := bind_eq_ok.mp h
  obtain rfl := pure_eq_ok.mp h
  exact ⟨c, index_eq_ok.mp hc, (StorageVec.set_eq_some (expect_eq_ok.mp hset)).2⟩

/-- Overwriting the last element of a list. -/
theorem set_last {α : Type} {l : List α} {last : α} (h : l.getLast? = some last) (a : α) :
    l.set (l.length - 1) a = l.dropLast ++ [a] := by
  obtain ⟨init, rfl⟩ := List.getLast?_eq_some_iff.mp h
  simp

theorem uncheckedPush_eq_ok {self self' : Trace κ ν} {key : κ} {value : ν}
    (h : (self._uncheckedPush key value : Result ε _) = .ok self') :
    self'.toList = self.toList ++ [⟨key, value⟩] := by
  obtain ⟨checkpoints, hpush, h⟩ := bind_eq_ok.mp h
  obtain rfl := pure_eq_ok.mp h
  exact StorageVec.push_eq_ok hpush

theorem exists_uncheckedPush {self : Trace κ ν} (key : κ) (value : ν)
    (hlen : self.toList.length + 1 < 2 ^ 256) :
    ∃ s, (self._uncheckedPush key value : Result ε _) = .ok s := by
  obtain ⟨checkpoints, hpush⟩ := StorageVec.exists_push_iff.mpr hlen
  rw [_uncheckedPush, hpush]
  exact ⟨_, rfl⟩

/-- Overwriting the last checkpoint. -/
theorem exists_setValue {self : Trace κ ν} {last : Checkpoint κ ν}
    (h : self.toList.getLast? = some last) (value : ν) :
    ∃ s, (self.setValue (self.length - 1) value : Result ε _) = .ok s ∧
      s.toList = self.toList.dropLast ++ [⟨last.key, value⟩] := by
  obtain ⟨hpos, hindex⟩ := @index_last _ _ ε _ _ h
  obtain ⟨s, hs⟩ : ∃ s, (self.setValue (self.length - 1) value : Result ε _) = .ok s := by
    have hlt := (List.getElem?_eq_some_iff.mp (index_eq_ok.mp hindex)).1
    rw [toList] at hlt
    rw [setValue, hindex, ok_bind, StorageVec.set, if_pos hlt]
    exact ⟨_, rfl⟩
  obtain ⟨c, hc, hset⟩ := setValue_eq_ok hs
  rw [hpos, ← List.getLast?_eq_getElem?, h] at hc
  obtain rfl := Option.some.inj hc
  refine ⟨s, hs, ?_⟩
  rw [hset, hpos]
  exact set_last h _

variable [LinearOrder κ]

/-- The first push. -/
theorem push_of_nil [Zero ν] {self : Trace κ ν} (h : self.toList = []) (key : κ) (value : ν) :
    self.push key value = self._uncheckedPush key value >>= fun s => pure ((0, value), s) := by
  rw [push, _insert, if_neg fun hpos => length_pos.mp hpos h]

/-- A push after others. -/
theorem push_of_last [Zero ν] {self : Trace κ ν} {last : Checkpoint κ ν}
    (h : self.toList.getLast? = some last) (key : κ) (value : ν) : self.push key value =
      if last.key > key then .err .CheckpointUnorderedInsertion
      else (if last.key = key then self.setValue (self.length - 1) value
        else self._uncheckedPush key value) >>= fun s => pure ((last.value, value), s) := by
  have hne : self.toList ≠ [] := by
    rintro heq
    simp [heq] at h
  rw [push, _insert, if_pos (length_pos.mpr hne), (@index_last _ _ Error _ _ h).2, ok_bind]

/-- **A push appends a checkpoint**, in the place of the last one if that has the same key. -/
theorem push_eq_ok [Zero ν] {self self' : Trace κ ν} {key : κ} {value : ν} {r : ν × ν}
    (h : self.push key value = .ok (r, self')) :
    (∀ last ∈ self.toList.getLast?, last.key ≤ key) ∧
      self'.toList = (if self.toList.getLast?.map (·.key) = some key then self.toList.dropLast
        else self.toList) ++ [⟨key, value⟩] := by
  cases hlast : self.toList.getLast? with
  | none =>
    rw [push_of_nil (List.getLast?_eq_none_iff.mp hlast)] at h
    obtain ⟨s, hs, h⟩ := bind_eq_ok.mp h
    obtain ⟨-, rfl⟩ := Prod.mk.inj (pure_eq_ok.mp h)
    exact ⟨nofun, by rw [uncheckedPush_eq_ok hs]; rfl⟩
  | some last =>
    rw [push_of_last hlast, guard_eq_ok] at h
    obtain ⟨hle, h⟩ := h
    obtain ⟨s, hs, h⟩ := bind_eq_ok.mp h
    obtain ⟨-, rfl⟩ := Prod.mk.inj (pure_eq_ok.mp h)
    simp only [Option.map_some, Option.some_inj]
    refine ⟨fun _ hmem => Option.some.inj hmem ▸ not_lt.mp hle, ?_⟩
    split at hs
    · rename_i hkey
      obtain ⟨s', hs', hlist⟩ := @exists_setValue _ _ Error _ _ hlast value
      obtain rfl := Except.ok.inj (hs.symm.trans hs')
      rw [if_pos hkey, hlist, hkey]
    · rename_i hkey
      rw [if_neg hkey, uncheckedPush_eq_ok hs]

/-- A push behind the last key succeeds, as long as the trace is not full. -/
theorem exists_push [Zero ν] {self : Trace κ ν} {key : κ} (value : ν)
    (hkey : ∀ last ∈ self.toList.getLast?, last.key < key)
    (hlen : self.toList.length + 1 < 2 ^ 256) :
    ∃ r self', self.push key value = .ok (r, self') := by
  obtain ⟨s, hs⟩ := @exists_uncheckedPush _ _ Error self key value hlen
  cases hlast : self.toList.getLast? with
  | none =>
    rw [push_of_nil (List.getLast?_eq_none_iff.mp hlast), hs]
    exact ⟨_, _, rfl⟩
  | some last =>
    have hlt := hkey last hlast
    rw [push_of_last hlast, if_neg (not_lt.mpr hlt.le), if_neg hlt.ne, hs]
    exact ⟨_, _, rfl⟩

omit [LinearOrder κ] in
/-- A write that fails leaves the storage as it was. -/
theorem written_eq {α : Type} {self : Trace κ ν} {write : Result ε (Trace κ ν)} {a : α} :
    (∀ r s, (write >>= fun s => pure (a, s)) = .ok (r, s) → self.written write a = (.ok r, s)) ∧
      ∀ e, (write >>= fun s => pure (a, s)) = .error e →
        self.written write a = (.error e, self) := by
  cases write with
  | error e => exact ⟨nofun, fun _ h => by rw [written, ← Except.error.inj h]⟩
  | ok s =>
    refine ⟨fun r t h => ?_, nofun⟩
    obtain ⟨rfl, rfl⟩ := Prod.mk.inj (pure_eq_ok.mp h)
    rfl

/-- **A push that fails has written nothing**, and one that does not writes in place what it
returns. -/
theorem pushMut_eq [Zero ν] (self : Trace κ ν) (key : κ) (value : ν) :
    (∀ r s, self.push key value = .ok (r, s) → self.pushMut key value = (.ok r, s)) ∧
      ∀ e, self.push key value = .error e → self.pushMut key value = (.error e, self) := by
  cases hlast : self.toList.getLast? with
  | none =>
    have hnil := List.getLast?_eq_none_iff.mp hlast
    rw [push_of_nil hnil, pushMut, if_neg fun hpos => length_pos.mp hpos hnil]
    exact written_eq
  | some last =>
    have hne : self.toList ≠ [] := by
      rintro heq
      simp [heq] at hlast
    rw [push_of_last hlast, pushMut, if_pos (length_pos.mpr hne),
      (@index_last _ _ Error _ _ hlast).2]
    dsimp only
    by_cases hlt : last.key > key
    · rw [if_pos hlt, if_pos hlt]
      exact ⟨nofun, fun e h => by rw [← Except.error.inj h]; rfl⟩
    · rw [if_neg hlt, if_neg hlt]
      by_cases hkey : last.key = key
      · rw [if_pos hkey, if_pos hkey]
        exact written_eq
      · rw [if_neg hkey, if_neg hkey]
        exact written_eq

/-! ### Lookups

What a lookup returns is said as a search of the list from the front or from the back. The two turn
to the left at the keys that are not below a given one, and at those that are above it. -/

/-- What turns a lookup to the left at one checkpoint does so at the later ones. -/
theorem Sorted.left_of_le {self : Trace κ ν} {left : κ → Bool} (h : self.Sorted)
    (hleft : ∀ a b, a < b → left a → left b) {i j : ℕ} {a b : Checkpoint κ ν} (hij : i ≤ j)
    (ha : self.toList[i]? = some a) (hb : self.toList[j]? = some b) (hturn : left a.key) :
    left b.key := by
  rcases hij.eq_or_lt with rfl | hlt
  · rwa [← Option.some.inj (ha.symm.trans hb)]
  · obtain ⟨hi, rfl⟩ := List.getElem?_eq_some_iff.mp ha
    obtain ⟨hj, rfl⟩ := List.getElem?_eq_some_iff.mp hb
    exact hleft _ _ (List.pairwise_iff_getElem.mp h i j hi hj hlt) hturn

omit [LinearOrder κ] in
/-- One round of the loop. -/
theorem binaryLookup_succ {self : Trace κ ν} {left : κ → Bool} {rounds : ℕ} {low high : U256}
    {c : Checkpoint κ ν} (hlt : low < high)
    (hc : self.toList[(average low high).toNat]? = some c) :
    (self.binaryLookup left (rounds + 1) low high : Result ε _) =
      if left c.key then self.binaryLookup left rounds low (average low high)
      else self.binaryLookup left rounds (average low high + 1) high := by
  rw [binaryLookup, if_pos hlt]
  dsimp only
  rw [index_eq_ok.mpr hc, ok_bind]

/-- **The loop splits the checkpoints where it turns to the left**, and ends in time. -/
theorem binaryLookup_eq_ok {self : Trace κ ν} {left : κ → Bool} (hsorted : self.Sorted)
    (hleft : ∀ a b, a < b → left a → left b) : ∀ rounds low high, low.toNat ≤ high.toNat →
      high.toNat ≤ self.toList.length → high.toNat - low.toNat ≤ rounds →
        ∃ pos, (self.binaryLookup left rounds low high : Result ε _) = .ok pos ∧
          Separates (fun i => ∃ c, self.toList[i]? = some c ∧ left c.key) low.toNat high.toNat
            pos.toNat := by
  intro rounds
  induction rounds with
  | zero =>
    intro low high hle _ hrounds
    obtain rfl : low = high := BitVec.eq_of_toNat_eq (by omega)
    exact ⟨low, by rw [binaryLookup, if_neg (lt_irrefl low)], .refl _⟩
  | succ rounds ih =>
    intro low high hle hlen hrounds
    rcases hle.eq_or_lt with heq | hlt
    · obtain rfl : low = high := BitVec.eq_of_toNat_eq heq
      exact ⟨low, by rw [binaryLookup, if_neg (lt_irrefl low)], .refl _⟩
    have hmid := toNat_average low high
    have hin : (average low high).toNat < self.toList.length := by omega
    have hc := List.getElem?_eq_getElem hin
    rw [binaryLookup_succ (BitVec.lt_def.mpr hlt) hc]
    split
    · rename_i hturn
      obtain ⟨pos, hpos, hsep⟩ := ih low (average low high) (by omega) (by omega) (by omega)
      refine ⟨pos, hpos, hsep.of_left (by omega) fun i hi hhigh => ?_⟩
      have hi' := List.getElem?_eq_getElem (hhigh.trans_le hlen)
      exact ⟨_, hi', hsorted.left_of_le hleft hi hc hi' hturn⟩
    · rename_i hturn
      have hsucc : (average low high + 1).toNat = (average low high).toNat + 1 :=
        BitVec.toNat_add_of_lt (by have := high.isLt; change _ + 1 < _; omega)
      obtain ⟨pos, hpos, hsep⟩ := ih (average low high + 1) high (by omega) (by omega) (by omega)
      rw [hsucc] at hsep
      refine ⟨pos, hpos, hsep.of_right (by omega) fun i _ hi => ?_⟩
      rintro ⟨b, hb, hturn'⟩
      exact hturn (hsorted.left_of_le hleft hi hb hc hturn')

/-- **A lookup finds the first checkpoint with a key at least the given one.** -/
theorem lowerLookup_eq [Zero ν] {self : Trace κ ν} (hsorted : self.Sorted) (key : κ) :
    (self.lowerLookup key : Result ε _) =
      .ok (((self.toList.find? (key ≤ ·.key)).map (·.value)).getD 0) := by
  have hleft : ∀ a b : κ, a < b → decide ¬a < key → decide ¬b < key := fun a b hab ha => by
    simp only [not_lt, decide_eq_true_iff] at ha ⊢
    exact ha.trans hab.le
  obtain ⟨pos, hpos, hsep⟩ := @binaryLookup_eq_ok _ _ ε _ _ _ hsorted hleft
    (self.length - 0).toNat 0 self.length (Nat.zero_le _) (toNat_length self).le
    (by change _ ≤ (self.length - 0#256).toNat; rw [BitVec.sub_zero]; exact Nat.sub_le _ _)
  rw [toNat_length] at hsep
  have hfind := hsep.find?_eq (q := fun c : Checkpoint κ ν => ¬c.key < key)
  simp only [not_lt] at hfind
  rw [lowerLookup, _lowerBinaryLookup, hpos, ok_bind, hfind]
  cases hget : self.toList[pos.toNat]? with
  | none =>
    have hend : pos = self.length := BitVec.eq_of_toNat_eq (by
      rw [toNat_length]
      exact le_antisymm hsep.le_high (List.getElem?_eq_none_iff.mp hget))
    rw [if_pos hend]
    rfl
  | some c =>
    have hlt := (List.getElem?_eq_some_iff.mp hget).1
    rw [if_neg, index_eq_ok.mpr hget]
    · rfl
    · rintro rfl
      rw [toNat_length] at hlt
      exact absurd hlt (lt_irrefl _)

/-- Where the keys are above a given one, between two positions. -/
theorem upperBinaryLookup_eq_ok {self : Trace κ ν} (hsorted : self.Sorted) (key : κ)
    {low high : U256} (hle : low.toNat ≤ high.toNat) (hlen : high.toNat ≤ self.toList.length) :
    ∃ pos, (self._upperBinaryLookup key low high : Result ε _) = .ok pos ∧
      Separates (fun i => ∃ c, self.toList[i]? = some c ∧ decide (c.key > key)) low.toNat
        high.toNat pos.toNat := by
  have hleft : ∀ a b : κ, a < b → decide (a > key) → decide (b > key) := fun a b hab ha => by
    simp only [gt_iff_lt, decide_eq_true_iff] at ha ⊢
    exact ha.trans hab
  refine binaryLookup_eq_ok hsorted hleft _ low high hle hlen ?_
  rw [BitVec.toNat_sub_of_le (BitVec.le_def.mpr hle)]

/-- The position of the first key above a given one is that after the last key not above it. -/
theorem valueBefore_eq [Zero ν] {self : Trace κ ν} {key : κ} {pos : U256}
    (h : Separates (fun i => ∃ c, self.toList[i]? = some c ∧ decide (c.key > key)) 0
      self.toList.length pos.toNat) :
    (self.valueBefore pos : Result ε _) =
      .ok (((self.toList.reverse.find? (·.key ≤ key)).map (·.value)).getD 0) := by
  have hfind := h.find?_reverse_eq (q := fun c : Checkpoint κ ν => decide (c.key > key))
  simp only [gt_iff_lt, ← decide_not, not_lt] at hfind
  rw [hfind, valueBefore]
  by_cases hpos : pos = 0
  · subst hpos
    rfl
  · have hlow : 0 < pos.toNat := BitVec.toNat_pos_of_ne_zero hpos
    have hsub := BitVec.toNat_sub_one hlow
    have hle := h.le_high
    have hget := List.getElem?_eq_getElem (l := self.toList) (i := (pos - 1).toNat) (by omega)
    rw [if_neg hpos, if_neg hlow.ne', index_eq_ok.mpr hget, ← hsub, hget]
    rfl

/-- **An upper lookup finds the last checkpoint with a key at most the given one.** -/
theorem upperLookup_eq [Zero ν] {self : Trace κ ν} (hsorted : self.Sorted) (key : κ) :
    (self.upperLookup key : Result ε _) =
      .ok (((self.toList.reverse.find? (·.key ≤ key)).map (·.value)).getD 0) := by
  obtain ⟨pos, hpos, hsep⟩ := @upperBinaryLookup_eq_ok _ _ ε _ _ hsorted key 0 self.length
    (Nat.zero_le _) (toNat_length self).le
  rw [toNat_length] at hsep
  rw [upperLookup, hpos, ok_bind]
  exact valueBefore_eq hsep

/-- The first guess of the lookup from the end is a position. -/
theorem toNat_sub_sqrt {len : U256} (h : 5 < len) :
    (len - sqrt len).toNat = len.toNat - len.toNat.sqrt ∧
      len.toNat - len.toNat.sqrt < len.toNat := by
  have hlen : 5 < len.toNat := BitVec.lt_def.mp h
  have hroot : 0 < len.toNat.sqrt := Nat.sqrt_pos.mpr (by omega)
  refine ⟨?_, by omega⟩
  rw [BitVec.toNat_sub_of_le, toNat_sqrt]
  rw [BitVec.le_def, toNat_sqrt]
  exact Nat.sqrt_le_self _

/-- The guess leaves the half of the trace in which the keys get above the given one. -/
theorem recentBounds_eq_ok {self : Trace κ ν} (hsorted : self.Sorted) (key : κ) :
    ∃ bounds, (self.recentBounds key : Result ε _) = .ok bounds ∧
      bounds.1.toNat ≤ bounds.2.toNat ∧ bounds.2.toNat ≤ self.toList.length ∧
      ∀ n, Separates (fun i => ∃ c, self.toList[i]? = some c ∧ decide (c.key > key))
        bounds.1.toNat bounds.2.toNat n →
        Separates (fun i => ∃ c, self.toList[i]? = some c ∧ decide (c.key > key)) 0
          self.toList.length n := by
  have hend := toNat_length self
  by_cases hlen : self.length > 5
  · obtain ⟨hmid, hlt⟩ := toNat_sub_sqrt hlen
    rw [← hmid, hend] at hlt
    have hc := List.getElem?_eq_getElem hlt
    rw [recentBounds, if_pos hlen]
    dsimp only
    rw [index_eq_ok.mpr hc, ok_bind]
    split
    · rename_i hkey
      refine ⟨_, rfl, Nat.zero_le _, hlt.le, fun n hsep => hsep.of_left hlt.le fun i hi hlt' => ?_⟩
      have hi' := List.getElem?_eq_getElem hlt'
      refine ⟨_, hi', decide_eq_true ?_⟩
      rcases hi.eq_or_lt with rfl | hlt''
      · exact hkey
      · exact hkey.trans (List.pairwise_iff_getElem.mp hsorted _ i hlt hlt' hlt'')
    · rename_i hkey
      have hsucc : (self.length - sqrt self.length + 1).toNat =
          (self.length - sqrt self.length).toNat + 1 :=
        BitVec.toNat_add_of_lt (by have := self.length.isLt; change _ + 1 < _; omega)
      refine ⟨_, rfl, ?_, hend.le, fun n hsep => ?_⟩
      · dsimp only
        omega
      dsimp only at hsep
      rw [hsucc, hend] at hsep
      refine hsep.of_right (Nat.zero_le _) fun i _ hi => ?_
      rintro ⟨b, hb, habove⟩
      refine hkey ((of_decide_eq_true habove).trans_le ?_)
      rcases hi.eq_or_lt with rfl | hlt'
      · rw [hc] at hb
        rw [Option.some.inj hb]
      · obtain ⟨hi', rfl⟩ := List.getElem?_eq_some_iff.mp hb
        exact (List.pairwise_iff_getElem.mp hsorted i _ hi' hlt hlt').le
  · rw [recentBounds, if_neg hlen]
    exact ⟨_, rfl, Nat.zero_le _, hend.le, fun n hsep => by rwa [← hend]⟩

/-- **Looking from the end finds the same.** -/
theorem upperLookupRecent_eq [Zero ν] {self : Trace κ ν} (hsorted : self.Sorted) (key : κ) :
    (self.upperLookupRecent key : Result ε _) = self.upperLookup key := by
  obtain ⟨bounds, hbounds, hle, hlen, hsep⟩ := @recentBounds_eq_ok _ _ ε _ _ hsorted key
  obtain ⟨pos, hpos, hpos'⟩ := @upperBinaryLookup_eq_ok _ _ ε _ _ hsorted key _ _ hle hlen
  rw [upperLookup_eq hsorted, upperLookupRecent, hbounds, ok_bind, hpos, ok_bind]
  exact valueBefore_eq (hsep _ hpos')

end Trace

end ContractsStylus
