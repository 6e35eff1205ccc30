import Mathlib.Data.Fintype.Card
import Mathlib.Data.List.Nodup
import Mathlib.Data.List.Range

/-!
# Listing a set in slots

A set kept as an array, with an index that says where each member is. A member is added behind
the last slot, and removed by moving the last one into its place. What has to be kept is that
slots and index are inverse to each other on the members, which is `Indexed`.

The operations are stated for any slots and index that agree with the expected ones where it
matters: the arrays and maps of a program contain more than the members, and it does not matter
what happens there.

## What is kept

`Indexed slot index n Mem` has functions for the slots and the index, and not an array and a map.
It says that the first `n` slots hold members, that the index of a member is below `n`, and that
the two are inverse to each other there. Nothing is said about the slots behind the last one or the
index of what is no member: programs clear these or leave them, as they like.

For the same reason `push` and `swapPop` do not compute new slots. They take the slots and the index
that a program has arrived at, together with the few equations that matter. The removed member may
itself be the last one, in which case nothing is moved and there is no hole; that case is in the
premises, `index k < n` being the condition under which the hole is looked at.

## Counting

A set that is listed has as many members as slots, so inclusions become inequalities between the
numbers of slots. This is what excludes overflows of counters: a list of some of the keys is no
longer than the list of all.
-/

namespace SwapPop

variable {κ : Type*} {slot slot' : ℕ → κ} {index index' : κ → ℕ} {n m : ℕ} {Mem Mem' : κ → Prop}

/-- The first `n` slots hold the members, each once, and the index finds them. -/
structure Indexed (slot : ℕ → κ) (index : κ → ℕ) (n : ℕ) (Mem : κ → Prop) : Prop where
  mem_slot : ∀ i < n, Mem (slot i)
  index_slot : ∀ i < n, index (slot i) = i
  index_lt : ∀ k, Mem k → index k < n
  slot_index : ∀ k, Mem k → slot (index k) = k

namespace Indexed

/-- Only the first `n` slots and the indices of the members matter. -/
theorem congr (h : Indexed slot index n Mem) (hslot : ∀ i < n, slot' i = slot i)
    (hindex : ∀ k, Mem k → index' k = index k) (hmem : ∀ k, Mem' k ↔ Mem k) :
    Indexed slot' index' n Mem' where
  mem_slot i hi := by rw [hslot i hi, hmem]; exact h.mem_slot i hi
  index_slot i hi := by
    rw [hslot i hi, hindex _ (h.mem_slot i hi)]
    exact h.index_slot i hi
  index_lt k hk := by
    rw [hindex k ((hmem k).mp hk)]
    exact h.index_lt k ((hmem k).mp hk)
  slot_index k hk := by
    have hk := (hmem k).mp hk
    rw [hindex k hk, hslot _ (h.index_lt k hk)]
    exact h.slot_index k hk

theorem empty (hmem : ∀ k, ¬Mem k) : Indexed slot index 0 Mem where
  mem_slot _ hi := absurd hi (Nat.not_lt_zero _)
  index_slot _ hi := absurd hi (Nat.not_lt_zero _)
  index_lt k hk := absurd hk (hmem k)
  slot_index k hk := absurd hk (hmem k)

/-- Different slots hold different members. -/
theorem slot_inj (h : Indexed slot index n Mem) {i j : ℕ} (hi : i < n) (hj : j < n)
    (heq : slot i = slot j) : i = j := by
  rw [← h.index_slot i hi, heq, h.index_slot j hj]

/-- A member that is not on a slot does not have its index. -/
theorem index_ne (h : Indexed slot index n Mem) {k : κ} (hk : Mem k) {i : ℕ} (hne : k ≠ slot i) :
    index k ≠ i := by
  rintro rfl
  exact hne (h.slot_index k hk).symm

/-- **Adding a member behind the last slot.** -/
theorem push (h : Indexed slot index n Mem) {k : κ} (hk : ¬Mem k)
    (hslot : ∀ i < n, slot' i = slot i) (hlast : slot' n = k)
    (hindex : ∀ j, Mem j → index' j = index j) (hindexk : index' k = n)
    (hmem : ∀ j, Mem' j ↔ Mem j ∨ j = k) : Indexed slot' index' (n + 1) Mem' := by
  have hold := h.congr hslot hindex fun _ => Iff.rfl
  refine ⟨fun i hi => ?_, fun i hi => ?_, fun j hj => ?_, fun j hj => ?_⟩
  · rw [hmem]
    rcases Nat.lt_succ_iff_lt_or_eq.mp hi with hi | rfl
    · exact Or.inl (hold.mem_slot i hi)
    · exact Or.inr hlast
  · rcases Nat.lt_succ_iff_lt_or_eq.mp hi with hi | rfl
    · exact hold.index_slot i hi
    · rw [hlast, hindexk]
  · rcases (hmem j).mp hj with hj | rfl
    · exact Nat.lt_succ_of_lt (hold.index_lt j hj)
    · rw [hindexk]
      exact Nat.lt_succ_self n
  · rcases (hmem j).mp hj with hj | rfl
    · exact hold.slot_index j hj
    · rw [hindexk, hlast]

/-- **Removing a member**: the last one takes its slot, unless it is the last one itself. -/
theorem swapPop (h : Indexed slot index (n + 1) Mem) {k : κ} (hk : Mem k)
    (hslot : ∀ i < n, i ≠ index k → slot' i = slot i)
    (hhole : index k < n → slot' (index k) = slot n)
    (hindex : ∀ j, Mem j → j ≠ k → j ≠ slot n → index' j = index j)
    (hindexlast : slot n ≠ k → index' (slot n) = index k)
    (hmem : ∀ j, Mem' j ↔ Mem j ∧ j ≠ k) : Indexed slot' index' n Mem' := by
  have hlast : index (slot n) = n := h.index_slot n (Nat.lt_succ_self n)
  refine ⟨fun i hi => ?_, fun i hi => ?_, fun j hj => ?_, fun j hj => ?_⟩
  · rw [hmem]
    rcases eq_or_ne i (index k) with rfl | hne
    · rw [hhole hi]
      refine ⟨h.mem_slot n (Nat.lt_succ_self n), fun heq => ?_⟩
      rw [heq] at hlast
      omega
    · rw [hslot i hi hne]
      refine ⟨h.mem_slot i (Nat.lt_succ_of_lt hi), fun heq => hne ?_⟩
      rw [← heq, h.index_slot i (Nat.lt_succ_of_lt hi)]
  · rcases eq_or_ne i (index k) with rfl | hne
    · rw [hhole hi, hindexlast]
      rintro heq
      rw [heq] at hlast
      omega
    · have hold := h.index_slot i (Nat.lt_succ_of_lt hi)
      rw [hslot i hi hne, hindex _ (h.mem_slot i (Nat.lt_succ_of_lt hi)) ?_ ?_, hold]
      · rintro heq
        exact hne (by rw [← heq, hold])
      · rintro heq
        rw [heq, hlast] at hold
        omega
  · obtain ⟨hj, hne⟩ := (hmem j).mp hj
    have hlt := h.index_lt j hj
    rcases eq_or_ne j (slot n) with rfl | hnelast
    · rw [hindexlast hne]
      have hltk := h.index_lt k hk
      have hneq := h.index_ne hk hne.symm
      omega
    · rw [hindex j hj hne hnelast]
      have hneq := h.index_ne hj hnelast
      omega
  · obtain ⟨hj, hne⟩ := (hmem j).mp hj
    rcases eq_or_ne j (slot n) with rfl | hnelast
    · have hltk := h.index_lt k hk
      have hneq := h.index_ne hk hne.symm
      rw [hindexlast hne, hhole (by omega)]
    · have hlt := h.index_lt j hj
      have hneq := h.index_ne hj hnelast
      have hnek : index j ≠ index k := h.index_ne hj (by rwa [h.slot_index k hk])
      rw [hindex j hj hne hnelast, hslot _ (by omega) hnek, h.slot_index j hj]

/-! ### Counting

For keys of a finite type, such as words and addresses. -/

/-- A set has as many members as slots. -/
theorem card_eq [Fintype κ] [DecidablePred Mem] (h : Indexed slot index n Mem) :
    (Finset.univ.filter Mem).card = n := by
  have hcard := Finset.card_bij (s := Finset.range n) (t := Finset.univ.filter Mem)
    (fun i _ => slot i) ?_ ?_ ?_
  · rw [← hcard, Finset.card_range]
  · exact fun i hi => by simpa using h.mem_slot i (Finset.mem_range.mp hi)
  · exact fun i hi j hj heq => h.slot_inj (Finset.mem_range.mp hi) (Finset.mem_range.mp hj) heq
  · intro k hk
    have hk : Mem k := by simpa using hk
    exact ⟨index k, Finset.mem_range.mpr (h.index_lt k hk), h.slot_index k hk⟩

/-- A subset has no more slots. -/
theorem le_of_subset [Fintype κ] (h : Indexed slot index n Mem) (h' : Indexed slot' index' m Mem')
    (hsub : ∀ k, Mem k → Mem' k) : n ≤ m := by
  classical
  rw [← h.card_eq, ← h'.card_eq]
  exact Finset.card_le_card fun k hk => by simpa using hsub k (by simpa using hk)

/-- A proper subset has fewer slots. -/
theorem lt_of_ssubset [Fintype κ] (h : Indexed slot index n Mem) (h' : Indexed slot' index' m Mem')
    (hsub : ∀ k, Mem k → Mem' k) {k : κ} (hk' : Mem' k) (hk : ¬Mem k) : n < m := by
  classical
  rw [← h.card_eq, ← h'.card_eq]
  refine Finset.card_lt_card ⟨fun j hj => by simpa using hsub j (by simpa using hj), fun hle => ?_⟩
  exact hk (by simpa using hle (show k ∈ Finset.univ.filter Mem' by simpa using hk'))

/-! ### As a list

Slots that are those of a list, for programs that hand out the whole of it. -/

/-- The slots as a list. -/
theorem iff_map_range : Indexed slot index n Mem ↔
    ((List.range n).map slot).Nodup ∧ (∀ k, k ∈ (List.range n).map slot ↔ Mem k) ∧
      ∀ k, Mem k → ((List.range n).map slot)[index k]? = some k := by
  constructor
  · intro h
    refine ⟨?_, fun k => ?_, fun k hk => ?_⟩
    · refine List.Nodup.map_on (fun i hi j hj heq => ?_) List.nodup_range
      exact h.slot_inj (List.mem_range.mp hi) (List.mem_range.mp hj) heq
    · rw [List.mem_map]
      constructor
      · rintro ⟨i, hi, rfl⟩
        exact h.mem_slot i (List.mem_range.mp hi)
      · exact fun hk => ⟨index k, List.mem_range.mpr (h.index_lt k hk), h.slot_index k hk⟩
    · simp [h.index_lt k hk, h.slot_index k hk]
  · rintro ⟨hnodup, hmem, hindex⟩
    have hlt (k : κ) (hk : Mem k) : index k < n := by
      obtain ⟨hlt, -⟩ := List.getElem?_eq_some_iff.mp (hindex k hk)
      simpa using hlt
    have hslot (k : κ) (hk : Mem k) : slot (index k) = k := by
      simpa [hlt k hk] using hindex k hk
    have hmemslot (i : ℕ) (hi : i < n) : Mem (slot i) :=
      (hmem _).mp (List.mem_map.mpr ⟨i, List.mem_range.mpr hi, rfl⟩)
    refine ⟨hmemslot, fun i hi => ?_, hlt, hslot⟩
    exact List.inj_on_of_nodup_map hnodup (List.mem_range.mpr (hlt _ (hmemslot i hi)))
      (List.mem_range.mpr hi) (hslot _ (hmemslot i hi))

end Indexed

/-- The slots of an array whose last one was moved to `k`. -/
theorem getD_set_dropLast {l : List κ} (hn : l.length = n + 1) {i : ℕ} (hi : i < n) (k : ℕ)
    (x d : κ) : (l.set k x).dropLast.getD i d = if i = k then x else l.getD i d := by
  rw [List.getD_eq_getElem?_getD, List.getElem?_dropLast, List.length_set, hn, Nat.add_sub_cancel,
    if_pos hi, List.getElem?_set, List.getD_eq_getElem?_getD]
  rcases eq_or_ne i k with rfl | hne
  · rw [if_pos rfl, if_pos rfl, if_pos (by omega), Option.getD_some]
  · rw [if_neg hne.symm, if_neg hne]

end SwapPop
