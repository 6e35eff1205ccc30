import ContractsStylus.Crypto.Poseidon2
import ContractsStylus.Library.Runs
import ContractsStylus.Library.Sponge

/-!
# Poseidon2 as a sponge

Elements are absorbed in batches of any size and squeezed in batches of any size, and the state is
permuted as late as possible. What comes out is what a sponge gives that works in blocks.

## Late permutations

A full block is permuted when the next element arrives, and not before, so a block is found full or
not yet begun, which is one place in a sponge that works in blocks. `position` says where the index
is after a number of elements, and one more element is the rule of the library for one more element.

The index starts behind the capacity and never gets in front of it, and reads and writes of the
state are within it. With this and the rule for squeezing, the batches disappear from the statement:
the digest depends on the elements in their order and on how many are asked for, and on nothing
else.

## Main definitions

* `PoseidonParams.sponge` — the permutation, with blocks behind the capacity
* `Poseidon2.digest` — any batches to absorb, then any batches to squeeze
* `Poseidon2.Valid` — the index is behind the capacity and in the state

## Main results

* `Poseidon2.absorbBatch_new` — what has been absorbed, and where the index is
* `Poseidon2.squeezeBatch_eq` — what is squeezed
* `Poseidon2.digest_eq_hash` — the batches do not matter, and no index is out of bounds
-/

namespace ContractsStylus

variable {F : Type} [Field F] {P : PoseidonParams F}

/-- The sponge on states of the permutation, in blocks that start behind the capacity. -/
def PoseidonParams.sponge (P : PoseidonParams F) : Sponge Panics (List F) F where
  rate := P.T - P.CAPACITY
  permute := P.permute
  add state i elem := state.modify (P.CAPACITY + i) (· + elem)
  read state i := state.getD (P.CAPACITY + i) 0

/-- The state before anything is absorbed. -/
def PoseidonParams.zeros (P : PoseidonParams F) : List F := List.replicate P.T 0

namespace Poseidon2

/-- Squeeze several batches. -/
def squeezeBatches (P : PoseidonParams F) :
    List ℕ → Poseidon2 F → Panics (List (List F) × Poseidon2 F)
  | [], self => pure ([], self)
  | n :: ns, self => do
    let (elems, self) ← self.squeezeBatch P n
    let (batches, self) ← squeezeBatches P ns self
    pure (elems :: batches, self)

/-- Absorb some batches, then squeeze some. -/
def digest (P : PoseidonParams F) (batches : List (List F)) (ns : List ℕ) : Panics (List F) := do
  let self ← batches.foldlM (absorbBatch P) (new P)
  let (batches, _) ← self.squeezeBatches P ns
  pure batches.flatten

variable {self self' : Poseidon2 F} {state t : List F} {a : F} {n pos : ℕ}

/-! ### Absorbing

The invariant is on the list of all elements so far: the state is what the sponge in blocks has made
of them, and the index is at `position` of their number. -/

theorem modifyIndex_of_lt {α : Type} {l : List α} {i : ℕ} (h : i < l.length) (f : α → α) :
    modifyIndex l i f = .ok (l.modify i f) := by
  rw [modifyIndex, index_eq_ok.mpr (List.getElem?_eq_getElem h), ok_bind, List.modify_eq_set_get]
  rfl

theorem rate_pos (hcap : P.CAPACITY < P.T) : 0 < P.sponge.rate := Nat.sub_pos_of_lt hcap

/-- Where the index is in its block when `n` elements were absorbed. -/
def position (P : PoseidonParams F) (n : ℕ) : ℕ :=
  if n ≠ 0 ∧ n % P.sponge.rate = 0 then P.sponge.rate else n % P.sponge.rate

theorem position_succ (hcap : P.CAPACITY < P.T) (n : ℕ) :
    position P (n + 1) = n % P.sponge.rate + 1 := by
  have hmod := Nat.mod_lt n (rate_pos hcap)
  rw [position, ← Nat.mod_add_mod]
  rcases Nat.lt_or_ge (n % P.sponge.rate + 1) P.sponge.rate with hlt | hge
  · rw [Nat.mod_eq_of_lt hlt, if_neg fun hcond => Nat.succ_ne_zero _ hcond.2]
  · have heq : n % P.sponge.rate + 1 = P.sponge.rate := by omega
    rw [heq, Nat.mod_self, if_pos ⟨Nat.succ_ne_zero n, rfl⟩]

theorem capacity_add_rate (hcap : P.CAPACITY < P.T) : P.CAPACITY + P.sponge.rate = P.T :=
  Nat.add_sub_of_le hcap.le

/-- A sequence whose second half only sees results of the first. -/
theorem bind_congr_ok {α β : Type} {x : Panics α} {f g : α → Panics β}
    (h : ∀ a, x = .ok a → f a = g a) : x >>= f = x >>= g := by
  cases x with
  | error r => rfl
  | ok a => exact h a rfl

/-- A sequence whose parts do not panic. -/
theorem exists_bind_ok {α β : Type} {x : Panics α} {f : α → Panics β} (hx : ∃ a, x = .ok a)
    (hf : ∀ a, x = .ok a → ∃ b, f a = .ok b) : ∃ b, x >>= f = .ok b := by
  obtain ⟨a, ha⟩ := hx
  obtain ⟨b, hb⟩ := hf a ha
  exact ⟨b, bind_eq_ok.mpr ⟨a, ha, hb⟩⟩

theorem length_permute (hlength : state.length = P.T) (h : P.permute state = .ok t) :
    t.length = P.T :=
  (P.keeps_permute state hlength).1 t h

/-- **One element is absorbed** where the next one of a block belongs. -/
theorem absorb_eq (hcap : P.CAPACITY < P.T) (hlength : state.length = P.T) (n : ℕ) (a : F) :
    absorb P ⟨state, .Absorbing, P.CAPACITY + position P n⟩ a = (do
      let t ← (if n ≠ 0 ∧ n % P.sponge.rate = 0 then P.permute state else pure state)
      pure ⟨P.sponge.add t (n % P.sponge.rate) a, .Absorbing,
        P.CAPACITY + position P (n + 1)⟩) := by
  have hrate := capacity_add_rate hcap
  have hmod := Nat.mod_lt n (rate_pos hcap)
  have hindex : P.CAPACITY + position P n = P.T ↔ n ≠ 0 ∧ n % P.sponge.rate = 0 := by
    rw [position]
    split <;> omega
  rw [position_succ hcap, absorb]
  by_cases hfull : n ≠ 0 ∧ n % P.sponge.rate = 0
  · simp only [hindex, if_pos hfull, permute, bind_assoc, pure_bind]
    refine bind_congr_ok fun t ht => ?_
    rw [modifyIndex_of_lt (by rw [length_permute hlength ht]; exact hcap), ok_bind, hfull.2]
    rfl
  · simp only [hindex, if_neg hfull, pure_bind]
    rw [position, if_neg hfull, modifyIndex_of_lt (by omega), ok_bind]
    rfl

theorem length_add (state : List F) (i : ℕ) (a : F) :
    (P.sponge.add state i a).length = state.length :=
  List.length_modify ..

/-- The state has its length after absorbing. -/
theorem length_absorbAll (hcap : P.CAPACITY < P.T) (l : List F) :
    ∀ state, P.sponge.absorbAll P.zeros l = .ok state → state.length = P.T := by
  induction l using List.reverseRecOn with
  | nil =>
    intro state h
    rw [Sponge.absorbAll_nil (rate_pos hcap), pure_eq_ok] at h
    rw [← h, PoseidonParams.zeros, List.length_replicate]
  | append_singleton l a ih =>
    intro state h
    rw [Sponge.absorbAll_concat (rate_pos hcap), bind_eq_ok] at h
    obtain ⟨s, hs, h⟩ := h
    obtain ⟨t, ht, h⟩ := bind_eq_ok.mp h
    rw [← pure_eq_ok.mp h, length_add]
    split at ht
    · exact length_permute (ih s hs) ht
    · rw [← pure_eq_ok.mp ht]
      exact ih s hs

/-- **What has been absorbed.** -/
theorem absorbBatch_new (hcap : P.CAPACITY < P.T) (l : List F) :
    (new P).absorbBatch P l = (do
      let state ← P.sponge.absorbAll P.zeros l
      pure ⟨state, .Absorbing, P.CAPACITY + position P l.length⟩) := by
  induction l using List.reverseRecOn with
  | nil =>
    rw [Sponge.absorbAll_nil (rate_pos hcap), pure_bind]
    simp only [position, List.length_nil, ne_eq, not_true_eq_false, false_and, if_false,
      Nat.zero_mod]
    rfl
  | append_singleton l a ih =>
    rw [absorbBatch] at ih ⊢
    rw [List.foldlM_append, ih, Sponge.absorbAll_concat (rate_pos hcap)]
    simp only [bind_assoc, pure_bind, List.foldlM_cons, List.foldlM_nil, bind_pure,
      List.length_append, List.length_singleton]
    exact bind_congr_ok fun state hstate =>
      absorb_eq hcap (length_absorbAll hcap l state hstate) _ a

theorem foldlM_absorbBatch (batches : List (List F)) (self : Poseidon2 F) :
    batches.foldlM (absorbBatch P) self = self.absorbBatch P batches.flatten := by
  induction batches generalizing self with
  | nil => rfl
  | cons batch batches ih =>
    rw [List.foldlM_cons, List.flatten_cons, absorbBatch, absorbBatch, List.foldlM_append]
    exact bind_congr fun self => ih self

/-! ### Squeezing

Squeezing does not depend on how an absorbing sponge got to its index: the first squeeze permutes in
any case, and is then like one that has come to the end of a block. -/

/-- The first squeeze is like one at the end of a block. -/
theorem squeeze_absorbing (state : List F) (i : ℕ) :
    squeeze P ⟨state, .Absorbing, i⟩ = squeeze P ⟨state, .Squeezing, P.T⟩ := by
  simp [squeeze, permute]

/-- **One element is squeezed** from where the next one of a block is. -/
theorem squeeze_eq (hcap : P.CAPACITY < P.T) (hlength : state.length = P.T)
    (hpos : pos ≤ P.sponge.rate) :
    squeeze P ⟨state, .Squeezing, P.CAPACITY + pos⟩ = (do
      let t ← (if pos = P.sponge.rate then P.permute state else pure state)
      let pos := if pos = P.sponge.rate then 0 else pos
      pure (P.sponge.read t pos, ⟨t, .Squeezing, P.CAPACITY + (pos + 1)⟩)) := by
  have hrate := capacity_add_rate hcap
  have hread {t : List F} {i : ℕ} (ht : t.length = P.T) (hi : P.CAPACITY + i < P.T) :
      (ContractsStylus.index t (P.CAPACITY + i) : Panics F) = .ok (P.sponge.read t i) := by
    rw [index_eq_ok]
    exact (List.getElem?_eq_getElem (ht ▸ hi)).trans (by simp [PoseidonParams.sponge, ht, hi])
  rw [squeeze]
  by_cases hend : pos = P.sponge.rate
  · have hindex : P.CAPACITY + pos = P.T := hend ▸ hrate
    simp only [hindex, or_true, if_true, if_pos hend, permute, bind_assoc, pure_bind]
    refine bind_congr_ok fun t ht => ?_
    rw [← Nat.add_zero P.CAPACITY, hread (length_permute hlength ht) (by omega), ok_bind]
  · have hindex : P.CAPACITY + pos ≠ P.T := by omega
    simp only [hindex, or_false, reduceCtorEq, if_false, if_neg hend, pure_bind]
    rw [hread hlength (by omega), ok_bind]
    rfl

/-- **What is squeezed**, element by element. -/
theorem squeezeBatch_eq (hcap : P.CAPACITY < P.T) (n : ℕ) :
    ∀ {state : List F} {pos : ℕ}, state.length = P.T → pos ≤ P.sponge.rate →
      Prod.fst <$> squeezeBatch P n ⟨state, .Squeezing, P.CAPACITY + pos⟩ =
        P.sponge.squeezeFrom pos n state := by
  induction n with
  | zero => exact fun _ _ => rfl
  | succ n ih =>
    intro state pos hlength hpos
    rw [squeezeBatch, squeeze_eq hcap hlength hpos, Sponge.squeezeFrom]
    simp only [bind_assoc, pure_bind, map_bind, map_pure]
    refine bind_congr_ok fun t ht => ?_
    have htlength : t.length = P.T := by
      split at ht
      · exact length_permute hlength ht
      · rw [← pure_eq_ok.mp ht, hlength]
    have hnext : (if pos = P.sponge.rate then 0 else pos) + 1 ≤ P.sponge.rate := by
      have hrate := rate_pos hcap
      split <;> omega
    rw [← ih htlength hnext]
    simp only [bind_map_left]

theorem squeezeBatch_add (n k : ℕ) (self : Poseidon2 F) :
    squeezeBatch P (n + k) self = (do
      let (xs, self) ← squeezeBatch P n self
      let (ys, self) ← squeezeBatch P k self
      pure (xs ++ ys, self)) := by
  induction n generalizing self with
  | zero => simp [squeezeBatch]
  | succ n ih =>
    rw [Nat.succ_add, squeezeBatch, squeezeBatch]
    simp only [ih, bind_assoc, pure_bind, List.cons_append]

/-- How the elements are divided into batches makes no difference. -/
theorem squeezeBatches_eq (ns : List ℕ) (self : Poseidon2 F) :
    (do
      let (batches, self) ← squeezeBatches P ns self
      pure (batches.flatten, self)) = squeezeBatch P ns.sum self := by
  induction ns generalizing self with
  | nil => rfl
  | cons n ns ih =>
    rw [squeezeBatches, List.sum_cons, squeezeBatch_add]
    simp only [bind_assoc, pure_bind, List.flatten_cons, ← ih]

/-- A whole squeeze, after absorbing. -/
theorem squeezeBatch_absorbing (hcap : P.CAPACITY < P.T) (hlength : state.length = P.T) (n i : ℕ) :
    Prod.fst <$> squeezeBatch P n ⟨state, .Absorbing, i⟩ = P.sponge.squeezeAll n state := by
  rw [← Sponge.squeezeFrom_rate (rate_pos hcap), ← squeezeBatch_eq hcap n hlength le_rfl,
    capacity_add_rate hcap]
  cases n with
  | zero => rfl
  | succ n => rw [squeezeBatch, squeezeBatch, squeeze_absorbing]

theorem digest_eq (hcap : P.CAPACITY < P.T) (batches : List (List F)) (ns : List ℕ) :
    digest P batches ns = P.sponge.hash P.zeros batches.flatten ns.sum := by
  rw [digest, foldlM_absorbBatch, absorbBatch_new hcap, Sponge.hash]
  simp only [bind_assoc, pure_bind]
  refine bind_congr_ok fun state hstate => ?_
  rw [← squeezeBatch_absorbing hcap (length_absorbAll hcap _ state hstate) _
    (P.CAPACITY + position P batches.flatten.length), ← squeezeBatches_eq]
  simp only [map_bind, map_pure]

/-! ### Runs

Any order of the operations, absorbing after squeezing included, which panics. `Valid` is what keeps
accesses within the state. -/

/-- The operations of the sponge. -/
inductive Op (F : Type)
  | absorb (elem : F)
  | squeeze
  | permute

/-- The sponge as a machine. -/
def machine (P : PoseidonParams F) : Machine (Poseidon2 F) (Op F) (Revert Empty) where
  exec self
    | .absorb elem => self.absorb P elem
    | .squeeze => Prod.snd <$> self.squeeze P
    | .permute => self.permute P

/-- The states that operations lead to from a new sponge. -/
abbrev Reachable (P : PoseidonParams F) : Poseidon2 F → Prop :=
  (machine P).Reachable (fun _ _ => True) (new P)

/-- The index is behind the capacity and not beyond the state. -/
structure Valid (P : PoseidonParams F) (s : Poseidon2 F) : Prop where
  length : s.state.length = P.T
  capacity_le : P.CAPACITY ≤ s.index
  le_T : s.index ≤ P.T

theorem valid_new (hcap : P.CAPACITY < P.T) : (new P).Valid P :=
  ⟨List.length_replicate, le_rfl, hcap.le⟩

theorem Valid.permute (h : self.Valid P) (hpermute : self.permute P = .ok self') :
    self'.Valid P ∧ self'.index = self.index := by
  obtain ⟨state, hstate, hself'⟩ := bind_eq_ok.mp hpermute
  obtain rfl := pure_eq_ok.mp hself'
  exact ⟨⟨length_permute h.length hstate, h.capacity_le, h.le_T⟩, rfl⟩

theorem Valid.exists_permute (h : self.Valid P) (hP : P.Supported) :
    ∃ self', self.permute P = .ok self' := by
  exact exists_bind_ok ((P.keeps_permute self.state h.length).2 hP) fun state _ => ⟨_, rfl⟩

/-- Before an element is written or read, the index is moved to where there is one. -/
theorem Valid.ready (hcap : P.CAPACITY < P.T) (h : self.Valid P) {c : Prop} [Decidable c]
    (hc : self.index = P.T → c) (mode : Mode → Mode) {x : Panics (Poseidon2 F)}
    (hx : (if c then do
        let self ← self.permute P
        pure ⟨self.state, mode self.mode, P.CAPACITY⟩
      else pure self) = x) :
    (∀ t, x = .ok t → t.Valid P ∧ t.index < P.T) ∧ (P.Supported → ∃ t, x = .ok t) := by
  subst hx
  split
  · constructor
    · intro t ht
      obtain ⟨s, hs, ht⟩ := bind_eq_ok.mp ht
      obtain rfl := pure_eq_ok.mp ht
      exact ⟨⟨(h.permute hs).1.length, le_rfl, hcap.le⟩, hcap⟩
    · exact fun hP => exists_bind_ok (h.exists_permute hP) fun s _ => ⟨_, rfl⟩
  · rename_i hroom
    constructor
    · intro t ht
      obtain rfl := pure_eq_ok.mp ht
      exact ⟨h, lt_of_le_of_ne h.le_T fun hend => hroom (hc hend)⟩
    · exact fun _ => ⟨self, rfl⟩

/-- **Absorbing keeps the index in the state**, and does not panic. -/
theorem Valid.absorb (hcap : P.CAPACITY < P.T) (h : self.Valid P) (elem : F) :
    (∀ t, self.absorb P elem = .ok t → t.Valid P) ∧
      (P.Supported → self.mode = .Absorbing → ∃ t, self.absorb P elem = .ok t) := by
  obtain ⟨hready, hexists⟩ := h.ready hcap (fun hend => hend) id rfl
  rw [Poseidon2.absorb]
  constructor
  · intro t ht
    split at ht
    · exact absurd ht panic_ne_ok
    · obtain ⟨s, hs, ht⟩ := bind_eq_ok.mp ht
      obtain ⟨hvalid, hlt⟩ := hready s hs
      rw [modifyIndex_of_lt (hvalid.length ▸ hlt), ok_bind, pure_eq_ok] at ht
      subst ht
      exact ⟨(List.length_modify ..).trans hvalid.length, hvalid.capacity_le.trans (Nat.le_succ _),
        hlt⟩
  · intro hP hmode
    rw [hmode]
    refine exists_bind_ok (hexists hP) fun s hs => ?_
    obtain ⟨hvalid, hlt⟩ := hready s hs
    rw [modifyIndex_of_lt (hvalid.length ▸ hlt), ok_bind]
    exact ⟨_, rfl⟩

/-- **So does squeezing.** -/
theorem Valid.squeeze (hcap : P.CAPACITY < P.T) (h : self.Valid P) :
    (∀ elem t, self.squeeze P = .ok (elem, t) → t.Valid P) ∧
      (P.Supported → ∃ r, self.squeeze P = .ok r) := by
  obtain ⟨hready, hexists⟩ := h.ready hcap (Or.inr (a := self.mode = .Absorbing))
    (fun _ => .Squeezing) rfl
  rw [Poseidon2.squeeze]
  constructor
  · intro elem t ht
    obtain ⟨s, hs, ht⟩ := bind_eq_ok.mp ht
    obtain ⟨hvalid, hlt⟩ := hready s hs
    obtain ⟨a, -, ht⟩ := bind_eq_ok.mp ht
    obtain ⟨-, rfl⟩ := Prod.mk.inj (pure_eq_ok.mp ht)
    exact ⟨hvalid.length, hvalid.capacity_le.trans (Nat.le_succ _), hlt⟩
  · intro hP
    refine exists_bind_ok (hexists hP) fun s hs => ?_
    obtain ⟨hvalid, hlt⟩ := hready s hs
    exact exists_bind_ok (exists_index (hvalid.length ▸ hlt)) fun a _ => ⟨_, rfl⟩

theorem Reachable.valid (hcap : P.CAPACITY < P.T) (h : Reachable P self) : self.Valid P := by
  refine h.invariant (valid_new hcap) fun s op t hs _ hexec => ?_
  cases op with
  | absorb elem => exact (hs.absorb hcap elem).1 t hexec
  | squeeze =>
    obtain ⟨elem, hexec⟩ := snd_map_eq_ok.mp hexec
    exact (hs.squeeze hcap).1 elem t hexec
  | permute => exact (hs.permute hexec).1

/-- **The sponge is the one that works in blocks.** Whatever is absorbed, in batches of any sizes,
and however much is then squeezed, in batches of any sizes, what comes out is the output of the
sponge in blocks on all elements together, and there is a panic only if there the permutation
panics. The index is never in front of the capacity or beyond the state, and with parameters that
the permutation is made for nothing panics but absorbing after squeezing. -/
theorem digest_eq_hash (hcap : P.CAPACITY < P.T) :
    (∀ batches ns, digest P batches ns = P.sponge.hash P.zeros batches.flatten ns.sum) ∧
    ∀ self, Reachable P self → self.Valid P ∧ (P.Supported →
      (∀ elem, self.mode = .Absorbing → ∃ t, self.absorb P elem = .ok t) ∧
      ∃ r, self.squeeze P = .ok r) := by
  refine ⟨digest_eq hcap, fun self h => ?_⟩
  have hvalid := h.valid hcap
  exact ⟨hvalid, fun hP => ⟨fun elem => (hvalid.absorb hcap elem).2 hP, (hvalid.squeeze hcap).2 hP⟩⟩

/-- Small parameters, with a block of two elements. -/
def tiny : PoseidonParams ℚ := ⟨3, 3, 1, 2, 1, [1, 1, 2], [[1, 2, 3], [4, 0, 0], [5, 6, 7]]⟩

/-- Three elements are absorbed and three are squeezed, both in two batches. -/
theorem digest_eq_hash_tiny : tiny.Supported ∧
    digest tiny [[1, 2], [3]] [1, 2] = tiny.sponge.hash tiny.zeros [1, 2, 3] 3 := by
  obtain ⟨hhash, -⟩ := digest_eq_hash (P := tiny) (by decide)
  exact ⟨⟨by decide, by decide, by decide, by decide⟩, hhash [[1, 2], [3]] [1, 2]⟩

end Poseidon2

end ContractsStylus
