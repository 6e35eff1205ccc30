import ContractsStylus.Library.Runs
import ContractsStylus.Utils.Checkpoints
import Mathlib.Data.Fintype.Card

/-!
# Histories of checkpoints

The traces that pushes lead to. A push keeps the keys in order, so that the lookups by bisection
find what a search from one of the ends would find. Growing keys of some bits are fewer than two to
the number of these bits, and so a trace never fills the storage word of its length.

## Keys bound the length

Two checkpoints of a trace have different keys, in order, so there are no more of them than there
are keys. In all three sizes of the library keys are narrower than the word that a length is stored
in, and the vector of a trace is given that whole word as its capacity. A trace is therefore never
full, and a push that is in order never fails.

## Main definitions

* `Size`, `Size.S160`, `Size.S224`, `Size.S208` — the bits of keys and values
* `Trace.machine` — a trace driven by pushes

## Main results

* `Trace.sorted_of_reachable` — the keys are in order
* `Trace.push_spec`, `Trace.push_error_iff` — what a push does, and when it fails
* `Trace.lookups_of_reachable` — what pushes and lookups do on a trace that pushes lead to
-/

namespace ContractsStylus

/-- The bits of the keys and of the values of a trace. -/
structure Size where
  keyBits : ℕ
  valueBits : ℕ
  /-- There are fewer keys than a storage word can count. -/
  keyBits_lt : keyBits < 256

namespace Size

def S160 : Size := ⟨96, 160, by decide⟩
def S224 : Size := ⟨32, 224, by decide⟩
def S208 : Size := ⟨48, 208, by decide⟩

abbrev Key (S : Size) := BitVec S.keyBits
abbrev Value (S : Size) := BitVec S.valueBits

end Size

namespace Trace

/-- A trace driven by pushes. -/
def machine (S : Size) : Machine (Trace S.Key S.Value) (S.Key × S.Value) (Revert Error) :=
  ⟨fun self i => Prod.snd <$> self.push i.1 i.2⟩

section Order

variable {κ ν : Type} [LinearOrder κ] {self self' : Trace κ ν}

/-! ### The order of the keys

A push refuses keys below the last one, so it keeps the keys in order, and nothing else writes
them. -/

/-- No key is above the last one. -/
theorem Sorted.key_le_last (h : self.Sorted) {last : Checkpoint κ ν}
    (hlast : self.toList.getLast? = some last) {c : Checkpoint κ ν} (hc : c ∈ self.toList) :
    c.key ≤ last.key := by
  obtain ⟨init, hinit⟩ := List.getLast?_eq_some_iff.mp hlast
  rw [Sorted, hinit, List.pairwise_append] at h
  rw [hinit, List.mem_append] at hc
  rcases hc with hc | hc
  · exact (h.2.2 c hc last (List.mem_singleton_self _)).le
  · rw [List.mem_singleton.mp hc]

/-- A checkpoint after the others. -/
theorem Sorted.append (h : self.Sorted) {key : κ} (value : ν)
    (hkey : ∀ last ∈ self.toList.getLast?, last.key < key) :
    List.Pairwise (fun a b : Checkpoint κ ν => a.key < b.key) (self.toList ++ [⟨key, value⟩]) := by
  rw [List.pairwise_append]
  refine ⟨h, List.pairwise_singleton .., fun c hc d hd => ?_⟩
  rw [List.mem_singleton.mp hd]
  have hne : self.toList ≠ [] := List.ne_nil_of_mem hc
  have hlast := List.getLast?_eq_some_getLast hne
  exact (h.key_le_last hlast hc).trans_lt (hkey _ hlast)

/-- **A push keeps the keys in order.** -/
theorem Sorted.push [Zero ν] (h : self.Sorted) {key : κ} {value : ν} {r : ν × ν}
    (hpush : self.push key value = .ok (r, self')) : self'.Sorted := by
  obtain ⟨hle, hlist⟩ := push_eq_ok hpush
  rw [Sorted, hlist]
  by_cases hkey : self.toList.getLast?.map (·.key) = some key
  · rw [if_pos hkey]
    obtain ⟨last, hlast, rfl⟩ := Option.map_eq_some_iff.mp hkey
    obtain ⟨init, hinit⟩ := List.getLast?_eq_some_iff.mp hlast
    rw [Sorted, hinit, List.pairwise_append] at h
    rw [hinit, List.dropLast_concat, List.pairwise_append]
    refine ⟨h.1, List.pairwise_singleton .., fun c hc d hd => ?_⟩
    rw [List.mem_singleton.mp hd]
    exact h.2.2 c hc last (List.mem_singleton_self _)
  · rw [if_neg hkey]
    refine h.append value fun last hlast => (hle last hlast).lt_of_ne ?_
    rintro rfl
    exact hkey (by rw [Option.mem_def.mp hlast]; rfl)

end Order

variable {S : Size} {t : Trace S.Key S.Value}

/-- **The keys of a trace are in order**, whatever was pushed to it. -/
theorem sorted_of_reachable (h : (machine S).Reachable (fun _ _ => True) empty t) : t.Sorted := by
  refine h.invariant List.Pairwise.nil fun s i s' hs _ hexec => ?_
  obtain ⟨r, hpush⟩ := snd_map_eq_ok.mp hexec
  exact hs.push hpush

/-! ### Room for a push

Keys that grow are not more than there are keys, and those are fewer than a word counts. So a trace
never gets full, and a push fails for its key only. -/

/-- Growing keys are not more than there are keys. -/
theorem length_le {l : List (Checkpoint S.Key S.Value)}
    (h : l.Pairwise fun a b => a.key < b.key) : l.length ≤ 2 ^ S.keyBits := by
  have hnodup : (l.map fun c => c.key.toFin).Nodup := by
    rw [List.Nodup, List.pairwise_map]
    exact h.imp fun {a b} hab heq => hab.ne (BitVec.eq_of_toFin_eq heq)
  have hcard := hnodup.length_le_card
  rwa [List.length_map, Fintype.card_fin] at hcard

/-- A trace has room for a key above its last one. -/
theorem length_succ_lt (h : t.Sorted) {key : S.Key} (value : S.Value)
    (hkey : ∀ last ∈ t.toList.getLast?, last.key < key) : t.toList.length + 1 < 2 ^ 256 := by
  have hlen := length_le (h.append value hkey)
  rw [List.length_append, List.length_singleton] at hlen
  exact hlen.trans_lt (Nat.pow_lt_pow_right (by decide) S.keyBits_lt)

/-- **What a push does.** It fails below the last key, having written nothing, overwrites the last
value at the last key, and appends a checkpoint above it. -/
theorem push_spec (h : t.Sorted) (key : S.Key) (value : S.Value) :
    (∀ last ∈ t.toList.getLast?, key < last.key →
      t.pushMut key value = (.err .CheckpointUnorderedInsertion, t)) ∧
    (∀ last ∈ t.toList.getLast?, last.key = key →
      ∃ t', t.pushMut key value = (.ok (last.value, value), t') ∧
        t'.toList = t.toList.dropLast ++ [⟨key, value⟩]) ∧
    ((∀ last ∈ t.toList.getLast?, last.key < key) →
      ∃ t', t.pushMut key value = (.ok ((t.toList.getLast?.map (·.value)).getD 0, value), t') ∧
        t'.toList = t.toList ++ [⟨key, value⟩]) := by
  obtain ⟨hok, herror⟩ := pushMut_eq t key value
  refine ⟨fun last hlast hlt => herror _ ?_, fun last hlast hkey => ?_, fun hkey => ?_⟩
  · rw [push_of_last hlast, if_pos hlt]
    exact rfl
  · obtain ⟨t', hset, hlist⟩ := @exists_setValue _ _ Error _ _ hlast value
    refine ⟨t', hok _ _ ?_, by rw [hlist, hkey]⟩
    rw [push_of_last hlast, if_neg (hkey ▸ lt_irrefl key), if_pos hkey, hset]
    rfl
  · obtain ⟨t', hpush⟩ :=
      @exists_uncheckedPush _ _ Error t key value (length_succ_lt h value hkey)
    refine ⟨t', hok _ _ ?_, uncheckedPush_eq_ok hpush⟩
    cases hlast : t.toList.getLast? with
    | none =>
      rw [push_of_nil (List.getLast?_eq_none_iff.mp hlast), hpush]
      rfl
    | some last =>
      have hlt := hkey last hlast
      rw [push_of_last hlast, if_neg (not_lt.mpr hlt.le), if_neg hlt.ne, hpush]
      rfl

/-- A push fails exactly below the last key. -/
theorem push_error_iff (h : t.Sorted) (key : S.Key) (value : S.Value) :
    (∃ e, t.push key value = .error e) ↔ ∃ last ∈ t.toList.getLast?, key < last.key := by
  constructor
  · rintro ⟨e, he⟩
    have hmut := (pushMut_eq t key value).2 e he
    by_contra! hlast
    obtain ⟨-, heq, hgt⟩ := push_spec h key value
    by_cases hkey : ∃ last ∈ t.toList.getLast?, last.key = key
    · obtain ⟨last, hmem, hkey⟩ := hkey
      obtain ⟨t', ht', -⟩ := heq last hmem hkey
      exact nomatch (Prod.mk.inj (hmut.symm.trans ht')).1
    · obtain ⟨t', ht', -⟩ := hgt fun last hmem =>
        (hlast last hmem).lt_of_ne fun heq => hkey ⟨last, hmem, heq⟩
      exact nomatch (Prod.mk.inj (hmut.symm.trans ht')).1
  · rintro ⟨last, hmem, hlt⟩
    exact ⟨_, by rw [push_of_last hmem, if_pos hlt]; exact rfl⟩

/-- **The lookups of every trace that pushes lead to**, with keys and values of any size. The keys
are in order; a push fails exactly below the last key and writes nothing then, overwrites the last
value at that key and appends above it; and the three lookups find the first checkpoint with a key
at least the given one and the last checkpoint with a key at most the given one. -/
theorem lookups_of_reachable (h : (machine S).Reachable (fun _ _ => True) empty t) :
    t.toList.Pairwise (fun a b => a.key < b.key) ∧
    (∀ key value, (∃ e, t.push key value = .error e) ↔
      ∃ last ∈ t.toList.getLast?, key < last.key) ∧
    (∀ key value, ∀ last ∈ t.toList.getLast?, key < last.key →
      t.pushMut key value = (.err .CheckpointUnorderedInsertion, t)) ∧
    (∀ key value, ∀ last ∈ t.toList.getLast?, last.key = key →
      ∃ t', t.pushMut key value = (.ok (last.value, value), t') ∧
        t'.toList = t.toList.dropLast ++ [⟨key, value⟩]) ∧
    (∀ key value, (∀ last ∈ t.toList.getLast?, last.key < key) →
      ∃ t', t.pushMut key value = (.ok ((t.toList.getLast?.map (·.value)).getD 0, value), t') ∧
        t'.toList = t.toList ++ [⟨key, value⟩]) ∧
    ∀ key, (t.lowerLookup key : Result Error _) =
        .ok (((t.toList.find? (key ≤ ·.key)).map (·.value)).getD 0) ∧
      (t.upperLookup key : Result Error _) =
        .ok (((t.toList.reverse.find? (·.key ≤ key)).map (·.value)).getD 0) ∧
      (t.upperLookupRecent key : Result Error _) = t.upperLookup key := by
  have hsorted := sorted_of_reachable h
  refine ⟨hsorted, fun key value => ?_, fun key value => (push_spec hsorted key value).1,
    fun key value => (push_spec hsorted key value).2.1,
    fun key value => (push_spec hsorted key value).2.2,
    fun key => ⟨lowerLookup_eq hsorted key, upperLookup_eq hsorted key,
      upperLookupRecent_eq hsorted key⟩⟩
  exact push_error_iff hsorted key value

/-- The last checkpoint of a trace of two is found from both ends. -/
theorem lookups_of_reachable_two : ∃ t : Trace Size.S160.Key Size.S160.Value,
    (machine Size.S160).Reachable (fun _ _ => True) empty t ∧
      (t.upperLookupRecent 9 : Result Error _) = .ok 22 ∧
      (t.lowerLookup 2 : Result Error _) = .ok 22 := by
  obtain ⟨t, ht, hlist⟩ := Machine.exists_reachable (M := machine Size.S160)
    (P := fun _ _ => True) empty [(1, 11), (3, 22)] toList [⟨1, 11⟩, ⟨3, 22⟩]
    (fun _ _ _ => trivial) rfl
  obtain ⟨-, -, -, -, -, hlookups⟩ := lookups_of_reachable ht
  refine ⟨t, ht, ?_, ?_⟩
  · rw [(hlookups 9).2.2, (hlookups 9).2.1, hlist]
    rfl
  · rw [(hlookups 2).1, hlist]
    rfl

end Trace

end ContractsStylus
