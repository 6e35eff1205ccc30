import Mathlib.Data.List.Basic
import Mathlib.Tactic.Ring

/-!
# Sponges

A sponge takes in any number of elements and gives out any number of them. It works on a state of
which it writes and reads one block at a time, and permutes the state from block to block. This is
said here of whole blocks: the input is cut into blocks, and the output is cut off at the length
that was asked for.

Code that is given its input piece by piece does not know which block is the last. It permutes
when the next element arrives, or the next one is asked for. The rules for one more element say
that this comes to the same.

The permutation may fail, or have another effect, so it is a function into a monad.

## Why the specification is in blocks

A sponge is usually described by a picture in which blocks go in and blocks come out. That picture
leaves out the two questions with which implementations have their trouble: when is a block full,
and is there a permutation after the last one? In blocks there is nothing to decide. The number of
blocks is the length divided by the rate and rounded up, an input of length zero has none, and a
permutation stands between any two blocks that are absorbed and before each one that is squeezed.

An implementation that takes one element at a time is compared with this by two lemmas, one for one
more element to absorb and one for one more to squeeze. They are equations between monadic programs
and hold for a permutation that fails or counts or logs.

## What is not assumed

The position of an element in the state is the business of `add` and `read`, which need no laws. So
a capacity, wherever it lies in the state, is not mentioned, and neither is what `add` adds.

## Main definitions

* `Sponge` — how the state is permuted, written and read
* `Sponge.absorbAll`, `Sponge.squeezeAll`, `Sponge.hash` — the sponge, in blocks
* `Sponge.squeezeFrom` — squeezing one element after the other

## Main results

* `Sponge.absorbAll_concat` — one more element to absorb
* `Sponge.squeezeFrom_rate` — squeezing one element after the other gives the blocks
-/

universe u

/-- How the state of a sponge is used. -/
structure Sponge (m : Type u → Type u) (σ α : Type u) where
  /-- The size of a block. -/
  rate : ℕ
  permute : σ → m σ
  /-- Add an element at a position of the block. -/
  add : σ → ℕ → α → σ
  /-- The element at a position of the block. -/
  read : σ → ℕ → α

namespace Sponge

variable {m : Type u → Type u} {σ α : Type u} (S : Sponge m σ α)

/-- How many blocks `n` elements need. -/
def blocks (n : ℕ) : ℕ := (n + S.rate - 1) / S.rate

/-- Block `k` of a list. -/
def block (l : List α) (k : ℕ) : List α := (l.drop (k * S.rate)).take S.rate

/-- Add a block to the state. -/
def addBlock (s : σ) (b : List α) : σ := b.zipIdx.foldl (fun s p => S.add s p.2 p.1) s

/-- The block that can be read from a state. -/
def readBlock (s : σ) : List α := (List.range S.rate).map (S.read s)

section Defs

variable [Monad m]

/-- Absorb the first blocks of a list, with a permutation between any two. -/
def absorbBlocks (s : σ) (l : List α) : ℕ → m σ
  | 0 => pure s
  | k + 1 => do
    let s ← absorbBlocks s l k
    let s ← (if k = 0 then pure s else S.permute s)
    pure (S.addBlock s (S.block l k))

def absorbAll (s : σ) (l : List α) : m σ := S.absorbBlocks s l (S.blocks l.length)

/-- Squeeze blocks, with a permutation before each. -/
def squeezeBlocks : ℕ → σ → m (List α)
  | 0, _ => pure []
  | k + 1, s => do
    let s ← S.permute s
    let out ← squeezeBlocks k s
    pure (S.readBlock s ++ out)

def squeezeAll (n : ℕ) (s : σ) : m (List α) := (·.take n) <$> S.squeezeBlocks (S.blocks n) s

/-- What the sponge gives out for an input. -/
def hash (s : σ) (l : List α) (n : ℕ) : m (List α) := S.absorbAll s l >>= S.squeezeAll n

/-- Squeeze one element after the other, from a position on. At the end of the block the state is
permuted when the next element is asked for. -/
def squeezeFrom : ℕ → ℕ → σ → m (List α)
  | _, 0, _ => pure []
  | pos, n + 1, s => do
    let s ← (if pos = S.rate then S.permute s else pure s)
    let pos := if pos = S.rate then 0 else pos
    let out ← squeezeFrom (pos + 1) n s
    pure (S.read s pos :: out)

end Defs

variable {S} {s : σ} {l l' : List α} {a : α} {n k pos : ℕ}

/-! ### Blocks

Arithmetic of how many blocks a length makes. A length that is no multiple of the rate makes one
more than the quotient. -/

theorem blocks_succ (hrate : 0 < S.rate) (n : ℕ) : S.blocks (n + 1) = n / S.rate + 1 := by
  rw [blocks, Nat.add_right_comm, Nat.add_sub_cancel, Nat.add_div_right _ hrate]

theorem blocks_add_rate (hrate : 0 < S.rate) (n : ℕ) : S.blocks (S.rate + n) = S.blocks n + 1 := by
  rw [blocks, blocks, show S.rate + n + S.rate - 1 = n + S.rate - 1 + S.rate by omega,
    Nat.add_div_right _ hrate]

theorem blocks_zero (hrate : 0 < S.rate) : S.blocks 0 = 0 :=
  Nat.div_eq_of_lt (by omega)

theorem blocks_of_le (hn : 0 < n) (hle : n ≤ S.rate) : S.blocks n = 1 := by
  obtain ⟨k, rfl⟩ := Nat.exists_eq_add_of_lt hn
  rw [Nat.zero_add, blocks_succ (by omega), Nat.div_eq_of_lt (by omega)]

theorem blocks_of_mod_eq_zero (hrate : 0 < S.rate) (h : n % S.rate = 0) :
    S.blocks n = n / S.rate := by
  obtain ⟨q, rfl⟩ := Nat.dvd_of_mod_eq_zero h
  rw [blocks, Nat.add_sub_assoc hrate, Nat.mul_add_div hrate, Nat.mul_div_cancel_left _ hrate,
    Nat.div_eq_of_lt (by omega), Nat.add_zero]

theorem blocks_of_mod_pos (hrate : 0 < S.rate) (h : 0 < n % S.rate) :
    S.blocks n = n / S.rate + 1 := by
  have hdiv := Nat.div_add_mod n S.rate
  have hmod := Nat.mod_lt n hrate
  have hn : n + S.rate - 1 = S.rate * (n / S.rate + 1) + (n % S.rate - 1) := by
    rw [Nat.mul_succ]
    omega
  have hlt : n % S.rate - 1 < S.rate := by omega
  rw [blocks, hn, Nat.mul_add_div hrate, Nat.div_eq_of_lt hlt, Nat.add_zero]

/-- Whole blocks do not change when the list goes on. -/
theorem block_append (h : (k + 1) * S.rate ≤ l.length) : S.block (l ++ l') k = S.block l k := by
  have hrate : (k + 1) * S.rate = k * S.rate + S.rate := by ring
  rw [block, block, List.drop_append_of_le_length (by omega), List.take_append_of_le_length]
  rw [List.length_drop]
  omega

theorem addBlock_concat (s : σ) (b : List α) (a : α) :
    S.addBlock s (b ++ [a]) = S.add (S.addBlock s b) b.length a := by
  simp [addBlock, List.zipIdx_append]

/-! ### Absorbing

A longer list has the same first blocks, so one more element matters to the last block only, or
begins one. -/

variable [Monad m]

theorem absorbBlocks_append (h : k * S.rate ≤ l.length) :
    S.absorbBlocks s (l ++ l') k = S.absorbBlocks s l k := by
  induction k with
  | zero => rfl
  | succ k ih =>
    have hk : k * S.rate ≤ l.length := (Nat.mul_le_mul_right _ (Nat.le_succ k)).trans h
    rw [absorbBlocks, absorbBlocks, ih hk, block_append h]

theorem absorbAll_nil (hrate : 0 < S.rate) (s : σ) : S.absorbAll s [] = pure s := by
  rw [absorbAll, List.length_nil, blocks_zero hrate, absorbBlocks]

variable [LawfulMonad m]

/-- **One more element to absorb.** A block that is full is permuted first, if there is one. -/
theorem absorbAll_concat (hrate : 0 < S.rate) (s : σ) (l : List α) (a : α) :
    S.absorbAll s (l ++ [a]) = (do
      let t ← S.absorbAll s l
      let t ← (if l.length ≠ 0 ∧ l.length % S.rate = 0 then S.permute t else pure t)
      pure (S.add t (l.length % S.rate) a)) := by
  have hdiv := Nat.div_add_mod' l.length S.rate
  have hmod := Nat.mod_lt l.length hrate
  have hlast : S.block (l ++ [a]) (l.length / S.rate) =
      l.drop (l.length / S.rate * S.rate) ++ [a] := by
    rw [block, List.drop_append_of_le_length (Nat.div_mul_le_self ..), List.take_of_length_le]
    rw [List.length_append, List.length_drop, List.length_singleton]
    omega
  have hlength : (l.drop (l.length / S.rate * S.rate)).length = l.length % S.rate := by
    rw [List.length_drop]
    omega
  rw [absorbAll, List.length_append, List.length_singleton, blocks_succ hrate, absorbBlocks,
    absorbBlocks_append (Nat.div_mul_le_self ..), hlast]
  simp only [addBlock_concat, hlength]
  rcases Nat.eq_zero_or_pos (l.length % S.rate) with hzero | hpos
  · -- the blocks so far are full, and the element is the first of the next one
    have hnil : l.drop (l.length / S.rate * S.rate) = [] :=
      List.length_eq_zero_iff.mp (hlength.trans hzero)
    have hfirst : l.length / S.rate = 0 ↔ l.length = 0 := by
      constructor
      · intro hq
        rw [hq, Nat.zero_mul, hzero] at hdiv
        exact hdiv.symm
      · intro hl
        rw [hl, Nat.zero_div]
    rw [absorbAll, blocks_of_mod_eq_zero hrate hzero, hnil]
    refine bind_congr fun t => ?_
    by_cases hl : l.length = 0
    · rw [if_pos (hfirst.mpr hl), if_neg fun hcond => hcond.1 hl]
      rfl
    · rw [if_neg fun hq => hl (hfirst.mp hq), if_pos ⟨hl, hzero⟩]
      rfl
  · -- the last block has room for the element
    have hblock : S.block l (l.length / S.rate) = l.drop (l.length / S.rate * S.rate) := by
      rw [block, List.take_of_length_le]
      omega
    rw [absorbAll, blocks_of_mod_pos hrate hpos, absorbBlocks, hblock]
    simp only [hpos.ne', and_false, if_false, bind_assoc, pure_bind]

/-! ### Squeezing

`squeezeFrom` is the implementation that takes one element at a time, at a position of its block. At
position zero nothing was read of the block yet, and at the rate all of it. -/

theorem squeezeFrom_of_lt (h : pos < S.rate) (n : ℕ) (s : σ) :
    S.squeezeFrom pos (n + 1) s = (do
      let out ← S.squeezeFrom (pos + 1) n s
      pure (S.read s pos :: out)) := by
  rw [squeezeFrom]
  simp only [h.ne, if_false, pure_bind]

/-- At the end of the block the state is permuted. -/
theorem squeezeFrom_rate_succ (hrate : 0 < S.rate) (n : ℕ) (s : σ) :
    S.squeezeFrom S.rate (n + 1) s = S.permute s >>= S.squeezeFrom 0 (n + 1) := by
  rw [squeezeFrom]
  simp only [if_true]
  exact bind_congr fun t => (squeezeFrom_of_lt hrate n t).symm

/-- What is left of the block is read without a permutation. -/
theorem squeezeFrom_add (h : pos + k ≤ S.rate) (n : ℕ) (s : σ) :
    S.squeezeFrom pos (k + n) s = (do
      let out ← S.squeezeFrom (pos + k) n s
      pure ((List.range' pos k).map (S.read s) ++ out)) := by
  induction k generalizing pos with
  | zero => simp
  | succ k ih =>
    rw [Nat.succ_add, squeezeFrom_of_lt (by omega), ih (by omega), Nat.add_assoc, Nat.add_comm 1 k]
    simp only [bind_assoc, pure_bind, List.range'_succ, List.map_cons, List.cons_append]

theorem squeezeFrom_of_le (h : n ≤ S.rate) (s : σ) :
    S.squeezeFrom 0 n s = pure ((S.readBlock s).take n) := by
  have hadd := squeezeFrom_add ((Nat.zero_add n).symm ▸ h) 0 s
  rw [Nat.add_zero, squeezeFrom, pure_bind, List.append_nil] at hadd
  rw [hadd, readBlock, ← List.map_take, List.take_range, Nat.min_eq_left h, List.range_eq_range']

/-- **Squeezing one element after the other gives the blocks.** -/
theorem squeezeFrom_rate (hrate : 0 < S.rate) (n : ℕ) (s : σ) :
    S.squeezeFrom S.rate n s = S.squeezeAll n s := by
  rw [squeezeAll]
  generalize hk : S.blocks n = k
  induction k generalizing n s with
  | zero =>
    cases n with
    | zero => rw [squeezeFrom, squeezeBlocks, map_pure, List.take_nil]
    | succ n =>
      rw [blocks_succ hrate] at hk
      exact absurd hk (Nat.succ_ne_zero _)
  | succ k ih =>
    have hn : n ≠ 0 := by
      rintro rfl
      rw [blocks_zero hrate] at hk
      exact Nat.noConfusion hk
    obtain ⟨n', rfl⟩ := Nat.exists_eq_add_one_of_ne_zero hn
    rw [squeezeFrom_rate_succ hrate, squeezeBlocks, map_bind]
    refine bind_congr fun t => ?_
    rcases Nat.le_total (n' + 1) S.rate with hle | hle
    · -- the last block
      have hlast : k = 0 := by
        rw [blocks_of_le (Nat.succ_pos n') hle] at hk
        omega
      rw [squeezeFrom_of_le hle, hlast, squeezeBlocks, pure_bind, List.append_nil, map_pure]
    · -- a whole block, and what comes after it
      obtain ⟨rest, hrest⟩ := Nat.exists_eq_add_of_le hle
      rw [hrest, blocks_add_rate hrate] at hk
      have hlength : (S.readBlock t).length = S.rate := by rw [readBlock, List.length_map,
        List.length_range]
      rw [hrest, squeezeFrom_add (Nat.zero_add _).le, Nat.zero_add,
        ih rest t (Nat.succ.inj hk), ← List.range_eq_range', ← readBlock]
      simp only [map_bind, map_pure, bind_map_left, ← hlength, List.take_length_add_append]

end Sponge
