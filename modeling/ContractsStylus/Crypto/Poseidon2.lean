import ContractsStylus.Crypto.FieldOps
import ContractsStylus.Primitives

/-!
# Poseidon2

The permutation, for any parameters, and the sponge that is built on it. The sponge permutes its
state no earlier than it has to: when an element arrives and there is no room for it, and when one
is asked for and there is none left.

A state is a slice whose length is only checked when it is indexed. What the permutation does to
lengths, and when it panics, is said once for every step by `Keeps`.

## Panics and sizes

The state is a list, an access is checked when it is made, and the sizes that the linear layers are
made for are tested by each of them. A round constant may be missing. So the permutation is partial
for parameters in general and total for those that are `Supported`, which is a condition on numbers
and on the lengths of tables.

## Powers

The S-box raises an element to the degree by the bits of the degree, highest first, as `pow` of the
source does. `powD_eq` says that this is the power; whether it is a bijection depends on the field.

## Main definitions

* `PoseidonParams`, `PoseidonParams.permute` — the parameters and the permutation
* `Poseidon2`, `Poseidon2.absorb`, `Poseidon2.squeeze` — the sponge
* `PoseidonParams.Supported` — the parameters that the permutation is made for

## Main results

* `PoseidonParams.keeps_permute` — the permutation keeps the length of the state, and does not
  panic with parameters that it is made for
-/

namespace ContractsStylus

/-- The result of a function that can only panic. -/
abbrev Panics (α : Type) := Result Empty α

/-- `slice[i] = f(slice[i])`. -/
def modifyIndex {α : Type} (l : List α) (i : ℕ) (f : α → α) : Panics (List α) := do
  let a ← index l i
  pure (l.set i (f a))

/-- Poseidon hash parameters. -/
structure PoseidonParams (F : Type) where
  /-- State size. -/
  T : ℕ
  /-- Sbox degree. -/
  D : U8
  /-- Capacity of the sponge construction. -/
  CAPACITY : ℕ
  /-- Number of full rounds. -/
  ROUNDS_F : ℕ
  /-- Number of partial rounds. -/
  ROUNDS_P : ℕ
  /-- The diagonal of the matrix of the internal rounds, less one. -/
  MAT_INTERNAL_DIAG_M_1 : List F
  ROUND_CONSTANTS : List (List F)

namespace PoseidonParams

variable {F : Type} [Field F] (P : PoseidonParams F)

def partialRoundStart : ℕ := P.ROUNDS_F / 2

def partialRoundEnd : ℕ := P.partialRoundStart + P.ROUNDS_P

def rounds : ℕ := P.ROUNDS_F + P.ROUNDS_P

/-- The body of the loop in `matmul_m4`. -/
def m4 (state : List F) (i : ℕ) : Panics (List F) := do
  let s0 ← index state (i * 4)
  let s1 ← index state (i * 4 + 1)
  let s2 ← index state (i * 4 + 2)
  let s3 ← index state (i * 4 + 3)
  let t0 := s0 + s1
  let t1 := s2 + s3
  let t2 := double s1 + t1
  let t3 := double s3 + t0
  let t4 := double (double t1) + t3
  let t5 := double (double t0) + t2
  let t6 := t3 + t5
  let t7 := t2 + t4
  pure ((((state.set (i * 4) t6).set (i * 4 + 1) t5).set (i * 4 + 2) t7).set (i * 4 + 3) t4)

/-- Apply the cheap 4x4 MDS matrix to each 4-element part of the state. -/
def matmulM4 (state : List F) : Panics (List F) := (List.range (P.T / 4)).foldlM m4 state

/-- `stored[l]` of `matmul_external`. -/
def stored (state : List F) (l : ℕ) : Panics F := do
  let a ← index state l
  (List.range' 1 (P.T / 4 - 1)).foldlM (fun a j => do
    let b ← index state (4 * j + l)
    pure (a + b)) a

/-- Apply the external MDS matrix to the state. -/
def matmulExternal (state : List F) : Panics (List F) :=
  if P.T = 2 then do
    let s0 ← index state 0
    let s1 ← index state 1
    let sum := s0 + s1
    let state ← modifyIndex state 0 (· + sum)
    modifyIndex state 1 (· + sum)
  else if P.T = 3 then do
    let s0 ← index state 0
    let s1 ← index state 1
    let s2 ← index state 2
    let sum := s0 + s1 + s2
    let state ← modifyIndex state 0 (· + sum)
    let state ← modifyIndex state 1 (· + sum)
    modifyIndex state 2 (· + sum)
  else if P.T = 4 then P.matmulM4 state
  else if P.T ∈ [8, 12, 16, 20, 24] then do
    let state ← P.matmulM4 state
    -- applying second cheap matrix for t > 4
    let stored0 ← P.stored state 0
    let stored1 ← P.stored state 1
    let stored2 ← P.stored state 2
    let stored3 ← P.stored state 3
    (List.range state.length).foldlM (fun state i => do
      let a ← index [stored0, stored1, stored2, stored3] (i % 4)
      modifyIndex state i (· + a)) state
  else .panic "not supported state size"

/-- Apply the internal MDS matrix to the state. -/
def matmulInternal (state : List F) : Panics (List F) :=
  if P.T = 2 then do
    let s0 ← index state 0
    let s1 ← index state 1
    let sum := s0 + s1
    let state ← modifyIndex state 0 (· + sum)
    modifyIndex state 1 (double · + sum)
  else if P.T = 3 then do
    let s0 ← index state 0
    let s1 ← index state 1
    let s2 ← index state 2
    let sum := s0 + s1 + s2
    let state ← modifyIndex state 0 (· + sum)
    let state ← modifyIndex state 1 (· + sum)
    modifyIndex state 2 (double · + sum)
  else if P.T ∈ [4, 8, 12, 16, 20, 24] then
    let sum := state.sum
    -- add sum + diag entry * element to each element
    (List.range state.length).foldlM (fun state i => do
      let d ← index P.MAT_INTERNAL_DIAG_M_1 i
      modifyIndex state i (· * d + sum)) state
  else .panic "not supported state size"

/-- `elem.pow(P::D)`, by the bits of the degree. -/
def powD (elem : F) : F := pow elem (bitsBe 8 P.D.toNat)

/-- The S-box is the power that the degree says. -/
theorem powD_eq : P.powD = fun elem => elem ^ P.D.toNat := by
  funext elem
  rw [powD, pow_eq, ofBitsBe_bitsBe, Nat.mod_eq_of_lt P.D.isLt]

def applySboxExternal (state : List F) : List F := state.map P.powD

def applySboxInternal (state : List F) : Panics (List F) := modifyIndex state 0 P.powD

/-- Add a round constant to the elements that there is one for. -/
def addRc : List F → List F → List F
  | a :: state, b :: constants => (a + b) :: addRc state constants
  | state, _ => state

def addRcExternal (state : List F) (round : ℕ) : Panics (List F) := do
  let constants ← index P.ROUND_CONSTANTS round
  pure (addRc state constants)

def addRcInternal (state : List F) (round : ℕ) : Panics (List F) := do
  let constants ← index P.ROUND_CONSTANTS round
  let c ← index constants 0
  modifyIndex state 0 (· + c)

def externalRound (state : List F) (round : ℕ) : Panics (List F) := do
  let state ← P.addRcExternal state round
  P.matmulExternal (P.applySboxExternal state)

def internalRound (state : List F) (round : ℕ) : Panics (List F) := do
  let state ← P.addRcInternal state round
  let state ← P.applySboxInternal state
  P.matmulInternal state

/-- Permute elements in the sponge. -/
def permute (state : List F) : Panics (List F) := do
  let state ← P.matmulExternal state
  -- the first half of the full rounds, the partial rounds, the second half of the full rounds
  let state ← (List.range' 0 P.partialRoundStart).foldlM P.externalRound state
  let state ← (List.range' P.partialRoundStart P.ROUNDS_P).foldlM P.internalRound state
  (List.range' P.partialRoundEnd (P.rounds - P.partialRoundEnd)).foldlM P.externalRound state

end PoseidonParams

/-! ### The sponge

In the mode `Squeezing` everything that was absorbed has been permuted. Elements are added to the
state, and taken from it, at the index, which skips the capacity. -/

/-- Determines whether poseidon sponge in absorbing or squeezing state. -/
inductive Mode
  | Absorbing
  | Squeezing
  deriving DecidableEq, Repr

/-- Poseidon2 sponge that can absorb any number of field elements and be squeezed to a finite
number of field elements. -/
structure Poseidon2 (F : Type) where
  state : List F
  mode : Mode
  index : ℕ

namespace Poseidon2

variable {F : Type} [Field F] (P : PoseidonParams F)

/-- Create a new Poseidon sponge, whose index skips the capacity elements. -/
def new : Poseidon2 F := ⟨List.replicate P.T 0, .Absorbing, P.CAPACITY⟩

def permute (self : Poseidon2 F) : Panics (Poseidon2 F) := do
  let state ← P.permute self.state
  pure { self with state }

/-- Absorb a single element into the sponge. -/
def absorb (self : Poseidon2 F) (elem : F) : Panics (Poseidon2 F) :=
  match self.mode with
  | .Squeezing => .panic "cannot absorb while squeezing"
  | .Absorbing => do
    let self ← (if self.index = P.T then do
        let self ← self.permute P
        pure { self with index := P.CAPACITY }
      else pure self)
    let state ← modifyIndex self.state self.index (· + elem)
    pure { self with state, index := self.index + 1 }

/-- Absorb batch of elements into the sponge. -/
def absorbBatch (self : Poseidon2 F) (elems : List F) : Panics (Poseidon2 F) :=
  elems.foldlM (absorb P) self

/-- Squeeze a single element from the sponge. -/
def squeeze (self : Poseidon2 F) : Panics (F × Poseidon2 F) := do
  let self ← (if self.mode = .Absorbing ∨ self.index = P.T then do
      let self ← self.permute P
      pure { self with mode := .Squeezing, index := P.CAPACITY }
    else pure self)
  let elem ← ContractsStylus.index self.state self.index
  pure (elem, { self with index := self.index + 1 })

/-- Squeeze a batch of elements from the sponge. -/
def squeezeBatch : ℕ → Poseidon2 F → Panics (List F × Poseidon2 F)
  | 0, self => pure ([], self)
  | n + 1, self => do
    let (elem, self) ← self.squeeze P
    let (elems, self) ← squeezeBatch n self
    pure (elem :: elems, self)

end Poseidon2

/-! ### Lengths and panics

`Keeps` is for steps that change the state and `Reads` for those that only read it. Both are closed
under what the code is made of, reading, writing, sequence and loops, so a step has a proof of the
shape of its text. -/

/-- On states of length `n`, the function keeps the length, and it panics only if `ok` fails. -/
def Keeps {F : Type} (ok : Prop) (n : ℕ) (f : List F → Panics (List F)) : Prop :=
  ∀ state, state.length = n →
    (∀ state', f state = .ok state' → state'.length = n) ∧ (ok → ∃ state', f state = .ok state')

/-- On states of length `n`, the function panics only if `ok` fails. -/
def Reads {F α : Type} (ok : Prop) (n : ℕ) (r : List F → Panics α) : Prop :=
  ∀ state, state.length = n → ok → ∃ a, r state = .ok a

section Keeps

variable {F α β : Type} {ok : Prop} {n i : ℕ} {f g : List F → Panics (List F)}
  {r : List F → Panics α}

theorem keeps_pure {f : List F → List F} (hf : ∀ state, (f state).length = state.length) :
    Keeps ok n fun state => pure (f state) := by
  intro state hlength
  refine ⟨fun state' h => ?_, fun _ => ⟨_, rfl⟩⟩
  rw [← pure_eq_ok.mp h, hf, hlength]

theorem keeps_panic {msg : String} (hok : ¬ok) : Keeps ok n fun _ : List F => Result.panic msg :=
  fun _ _ => ⟨fun _ h => absurd h panic_ne_ok, fun h => absurd h hok⟩

theorem Keeps.bind (hf : Keeps ok n f) (hg : Keeps ok n g) :
    Keeps ok n fun state => f state >>= g := by
  intro state hlength
  obtain ⟨hkeep, hsucceed⟩ := hf state hlength
  refine ⟨fun state' h => ?_, fun hok => ?_⟩
  · obtain ⟨t, ht, h⟩ := bind_eq_ok.mp h
    exact (hg t (hkeep t ht)).1 state' h
  · obtain ⟨t, ht⟩ := hsucceed hok
    obtain ⟨state', h⟩ := (hg t (hkeep t ht)).2 hok
    exact ⟨state', bind_eq_ok.mpr ⟨t, ht, h⟩⟩

/-- First something is read, then the state is changed. -/
theorem Reads.keeps {k : α → List F → Panics (List F)} (hr : Reads ok n r)
    (hk : ∀ a, Keeps ok n (k a)) : Keeps ok n fun state => r state >>= fun a => k a state := by
  intro state hlength
  refine ⟨fun state' h => ?_, fun hok => ?_⟩
  · obtain ⟨a, -, h⟩ := bind_eq_ok.mp h
    exact (hk a state hlength).1 state' h
  · obtain ⟨a, ha⟩ := hr state hlength hok
    obtain ⟨state', h⟩ := (hk a state hlength).2 hok
    exact ⟨state', bind_eq_ok.mpr ⟨a, ha, h⟩⟩

theorem Reads.bind {k : α → List F → Panics β} (hr : Reads ok n r) (hk : ∀ a, Reads ok n (k a)) :
    Reads ok n fun state => r state >>= fun a => k a state := by
  intro state hlength hok
  obtain ⟨a, ha⟩ := hr state hlength hok
  obtain ⟨b, hb⟩ := hk a state hlength hok
  exact ⟨b, bind_eq_ok.mpr ⟨a, ha, hb⟩⟩

theorem exists_index {l : List α} (h : i < l.length) : ∃ a, (index l i : Panics α) = .ok a :=
  ⟨l[i], index_eq_ok.mpr (List.getElem?_eq_getElem h)⟩

theorem reads_index (hi : ok → i < n) : Reads ok n fun state : List F => index state i :=
  fun _ hlength hok => exists_index (hlength ▸ hi hok)

theorem reads_const {x : Panics α} (hx : ok → ∃ a, x = .ok a) : Reads ok n fun _ : List F => x :=
  fun _ _ hok => hx hok

theorem Reads.foldlM {body : α → β → List F → Panics α} {l : List β}
    (h : ∀ b ∈ l, ∀ a, Reads ok n (body a b)) (a : α) :
    Reads ok n fun state => l.foldlM (fun a b => body a b state) a := by
  induction l generalizing a with
  | nil => exact fun _ _ _ => ⟨a, rfl⟩
  | cons b l ih =>
    simp only [List.foldlM_cons]
    exact (h b (List.mem_cons_self ..) a).bind
      (ih fun b' hb' => h b' (List.mem_cons_of_mem _ hb'))

theorem keeps_modifyIndex {f : F → F} (hi : ok → i < n) :
    Keeps ok n fun state => modifyIndex state i f :=
  (reads_index hi).keeps fun _ => keeps_pure fun _ => List.length_set

theorem Keeps.foldlM {body : List F → β → Panics (List F)} {l : List β}
    (h : ∀ b ∈ l, Keeps ok n (body · b)) : Keeps ok n fun state => l.foldlM body state := by
  induction l with
  | nil => exact keeps_pure fun _ => rfl
  | cons b l ih =>
    simp only [List.foldlM_cons]
    exact (h b (List.mem_cons_self ..)).bind
      (ih fun b' hb' => h b' (List.mem_cons_of_mem _ hb'))

/-- A loop over all positions of the state. -/
theorem Keeps.foldlM_range {body : List F → ℕ → Panics (List F)}
    (h : ∀ i < n, Keeps ok n (body · i)) :
    Keeps ok n fun state => (List.range state.length).foldlM body state := by
  intro state hlength
  simp only [hlength]
  exact Keeps.foldlM (fun i hi => h i (List.mem_range.mp hi)) state hlength

end Keeps

namespace PoseidonParams

variable {F : Type} {P : PoseidonParams F}

/-- The parameters that the permutation is made for: a state size for which there are matrices,
and tables that are long enough. -/
structure Supported (P : PoseidonParams F) : Prop where
  T : P.T ∈ [2, 3, 4, 8, 12, 16, 20, 24]
  diag : P.T ≤ P.MAT_INTERNAL_DIAG_M_1.length
  constants : P.rounds ≤ P.ROUND_CONSTANTS.length
  constants_ne_nil : ∀ c ∈ P.ROUND_CONSTANTS, c ≠ []

theorem Supported.exists_constants {round : ℕ} (h : P.Supported) (hround : round < P.rounds) :
    ∃ constants, (index P.ROUND_CONSTANTS round : Panics _) = .ok constants :=
  exists_index (hround.trans_le h.constants)

/-- A round has a constant for the first element. -/
theorem Supported.exists_constant {round : ℕ} (h : P.Supported) (hround : round < P.rounds) :
    ∃ c, (index P.ROUND_CONSTANTS round >>= fun constants => index constants 0 : Panics F) =
      .ok c := by
  obtain ⟨constants, hconstants⟩ := h.exists_constants hround
  have hmem := List.mem_of_getElem? (index_eq_ok.mp hconstants)
  obtain ⟨c, hc⟩ := exists_index (List.length_pos_iff.mpr (h.constants_ne_nil constants hmem))
  exact ⟨c, bind_eq_ok.mpr ⟨constants, hconstants, hc⟩⟩

theorem Supported.T_pos (h : P.Supported) : 0 < P.T := by
  have hT := h.T
  simp only [List.mem_cons, List.not_mem_nil, or_false] at hT
  omega

variable [Field F]

theorem keeps_m4 {ok : Prop} {n i : ℕ} (hi : ok → i * 4 + 3 < n) :
    Keeps ok n fun state : List F => m4 state i := by
  refine (reads_index fun hok => ?_).keeps fun s0 => (reads_index fun hok => ?_).keeps fun s1 =>
    (reads_index fun hok => ?_).keeps fun s2 => (reads_index hi).keeps fun s3 =>
      keeps_pure fun _ => by simp only [List.length_set]
  all_goals
    have := hi hok
    omega

theorem keeps_matmulM4 {ok : Prop} : Keeps ok P.T P.matmulM4 :=
  Keeps.foldlM fun i hi => keeps_m4 fun _ => by
    have := List.mem_range.mp hi
    omega

theorem reads_stored {ok : Prop} {l : ℕ} (hl : l < 4) (hT : 4 ≤ P.T) :
    Reads ok P.T fun state => P.stored state l := by
  refine (reads_index fun _ => by omega).bind (Reads.foldlM fun j hj a => ?_)
  have hj := List.mem_range'_1.mp hj
  exact (reads_index fun _ => by omega).bind fun b => reads_const fun _ => ⟨_, rfl⟩

theorem keeps_matmulExternal : Keeps P.Supported P.T P.matmulExternal := by
  unfold matmulExternal
  split
  · rename_i hT
    refine (reads_index fun _ => by omega).keeps fun s0 => (reads_index fun _ => by omega).keeps
      fun s1 => (keeps_modifyIndex fun _ => by omega).bind (keeps_modifyIndex fun _ => by omega)
  split
  · rename_i hT
    refine (reads_index fun _ => by omega).keeps fun s0 => (reads_index fun _ => by omega).keeps
      fun s1 => (reads_index fun _ => by omega).keeps fun s2 =>
        (keeps_modifyIndex fun _ => by omega).bind
          ((keeps_modifyIndex fun _ => by omega).bind (keeps_modifyIndex fun _ => by omega))
  split
  · exact keeps_matmulM4
  split
  · rename_i hT
    have hle : 4 ≤ P.T := by
      simp only [List.mem_cons, List.not_mem_nil, or_false] at hT
      omega
    refine keeps_matmulM4.bind ((reads_stored (by omega) hle).keeps fun a0 =>
      (reads_stored (by omega) hle).keeps fun a1 => (reads_stored (by omega) hle).keeps fun a2 =>
        (reads_stored (by omega) hle).keeps fun a3 => Keeps.foldlM_range fun i hi => ?_)
    refine (reads_const fun _ => exists_index ?_).keeps fun a => keeps_modifyIndex fun _ => hi
    exact Nat.mod_lt i (by decide)
  · rename_i h2 h3 h4 h
    refine keeps_panic fun hok => ?_
    have hT := hok.T
    simp only [List.mem_cons, List.not_mem_nil, or_false] at hT h
    omega

theorem keeps_matmulInternal : Keeps P.Supported P.T P.matmulInternal := by
  unfold matmulInternal
  split
  · rename_i hT
    refine (reads_index fun _ => by omega).keeps fun s0 => (reads_index fun _ => by omega).keeps
      fun s1 => (keeps_modifyIndex fun _ => by omega).bind (keeps_modifyIndex fun _ => by omega)
  split
  · rename_i hT
    refine (reads_index fun _ => by omega).keeps fun s0 => (reads_index fun _ => by omega).keeps
      fun s1 => (reads_index fun _ => by omega).keeps fun s2 =>
        (keeps_modifyIndex fun _ => by omega).bind
          ((keeps_modifyIndex fun _ => by omega).bind (keeps_modifyIndex fun _ => by omega))
  split
  · intro state hlength
    refine Keeps.foldlM_range (fun i hi => ?_) state hlength
    exact (reads_const fun hok => exists_index (hi.trans_le hok.diag)).keeps fun d =>
      keeps_modifyIndex fun _ => hi
  · rename_i h2 h3 h
    refine keeps_panic fun hok => ?_
    have hT := hok.T
    simp only [List.mem_cons, List.not_mem_nil, or_false] at hT h
    omega

theorem length_addRc (state constants : List F) :
    (addRc state constants).length = state.length := by
  induction state generalizing constants with
  | nil => rfl
  | cons a state ih =>
    cases constants with
    | nil => rfl
    | cons b constants => exact congrArg (· + 1) (ih constants)

theorem keeps_externalRound {round : ℕ} (hround : round < P.rounds) :
    Keeps P.Supported P.T (P.externalRound · round) := by
  have hrc : Keeps P.Supported P.T (P.addRcExternal · round) :=
    (reads_const fun hok => hok.exists_constants hround).keeps fun c =>
      keeps_pure fun state => length_addRc state c
  refine hrc.bind fun state hlength => ?_
  exact keeps_matmulExternal _ ((List.length_map _).trans hlength)

theorem keeps_internalRound {round : ℕ} (hround : round < P.rounds) :
    Keeps P.Supported P.T (P.internalRound · round) := by
  have hrc : Keeps P.Supported P.T (P.addRcInternal · round) := by
    simp only [addRcInternal, ← bind_assoc]
    exact (reads_const fun hok => hok.exists_constant hround).keeps fun c =>
      keeps_modifyIndex Supported.T_pos
  exact hrc.bind ((keeps_modifyIndex Supported.T_pos).bind keeps_matmulInternal)

/-- **The permutation keeps the length of the state**, and does not panic with parameters that it
is made for. -/
theorem keeps_permute : Keeps P.Supported P.T P.permute := by
  refine keeps_matmulExternal.bind ((Keeps.foldlM fun round hround => ?_).bind
    ((Keeps.foldlM fun round hround => ?_).bind (Keeps.foldlM fun round hround => ?_)))
  · refine keeps_externalRound ?_
    have hround := List.mem_range'_1.mp hround
    rw [partialRoundStart] at hround
    rw [rounds]
    omega
  · refine keeps_internalRound ?_
    have hround := List.mem_range'_1.mp hround
    rw [partialRoundStart] at hround
    rw [rounds]
    omega
  · refine keeps_externalRound ?_
    have hround := List.mem_range'_1.mp hround
    omega

end PoseidonParams

end ContractsStylus
