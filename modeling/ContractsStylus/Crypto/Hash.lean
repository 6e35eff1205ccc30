import ContractsStylus.Library.HashTree
import ContractsStylus.Primitives
import Mathlib.Data.List.Lex

/-!
# Hashing support

The traits of the crypto crate's `hash` module, the two functions that hash a pair, and the
Keccak instance. `keccak256` itself comes from another crate and is a parameter of the instance.

## Traits

The traits are type classes whose instances carry functions and no laws: a hasher in the source may
do anything. What is assumed of a hash is assumed where it is needed, as injectivity on pairs, and
the transcript is there to show that such an assumption is not empty. It feeds each input with its
length in front, so that the end of one and the beginning of the next cannot be confused.

## Main definitions

* `Hash`, `Hasher`, `BuildHasher` — the traits
* `hashPair`, `commutativeHashPair`
* `Transcript` — a hasher that keeps everything it was fed, so that nothing collides

## Main results

* `commutativeHashPair_comm` — the order of the operands does not matter
* `isPairInjective_transcript` — the ideal assumption on a pair hash can be met
-/

namespace ContractsStylus

/-- A state that absorbs bytes and is finalized into an `Output`. -/
class Hasher (S : Type) (Output : outParam Type) where
  /-- Absorb additional input. -/
  update : S → Bytes → S
  /-- Output the hashing algorithm state. -/
  finalize : S → Output

/-- A type whose values can be fed to any hasher. -/
class Hash (H : Type) where
  /-- Feed the value into the given hasher. -/
  hash {S Output : Type} [Hasher S Output] : H → S → S

/-- A source of identical hashers. -/
class BuildHasher (B : Type) (S : outParam Type) where
  /-- Create a new hasher. -/
  buildHasher : B → S

open Hasher Hash BuildHasher

section PairHash

variable {S H Output : Type} [Hasher S Output] [Hash H]

/-- Hash the pair `(a, b)` with `state`. -/
def hashPair (a b : H) (state : S) : Output := finalize (hash b (hash a state))

/-- Sort the pair `(a, b)` and hash the result with `state`. -/
def commutativeHashPair [LinearOrder H] (a b : H) (state : S) : Output :=
  if a > b then hashPair b a state else hashPair a b state

/-- Sorting the operands makes their order irrelevant. -/
theorem commutativeHashPair_comm [LinearOrder H] (a b : H) (state : S) :
    (commutativeHashPair a b state : Output) = commutativeHashPair b a state := by
  rcases lt_trichotomy a b with h | rfl | h
  · rw [commutativeHashPair, commutativeHashPair, if_neg h.not_gt, if_pos h]
  · rfl
  · rw [commutativeHashPair, commutativeHashPair, if_pos h, if_neg h.not_gt]

/-- The pair hash that a builder stands for, as an operation on the values. -/
def pairHash {B α : Type} [BuildHasher B S] [Hasher S α] [Hash α] [LinearOrder α] (builder : B)
    (a b : α) : α :=
  commutativeHashPair a b (buildHasher builder)

theorem pairHash_comm {B α : Type} [BuildHasher B S] [Hasher S α] [Hash α] [LinearOrder α]
    (builder : B) (a b : α) : pairHash builder a b = pairHash builder b a :=
  commutativeHashPair_comm a b _

end PairHash

/-! ### Keccak -/

/-- `[u8; 32]`, ordered as an array of bytes is. -/
abbrev Bytes32 := {bytes : Bytes // bytes.length = 32}

instance : Hash Bytes32 where
  hash bytes state := update state bytes.1

/-- The default hasher: it collects its input, for `keccak256` to hash. -/
structure Keccak256 (keccak256 : Bytes → Bytes32) where
  /-- The input so far. -/
  input : Bytes

instance (keccak256 : Bytes → Bytes32) : Hasher (Keccak256 keccak256) Bytes32 where
  update state bytes := ⟨state.input ++ bytes⟩
  finalize state := keccak256 state.input

/-- The default builder. -/
structure KeccakBuilder (keccak256 : Bytes → Bytes32) where

instance (keccak256 : Bytes → Bytes32) :
    BuildHasher (KeccakBuilder keccak256) (Keccak256 keccak256) where
  buildHasher _ := ⟨[]⟩

/-! ### A hasher without collisions -/

instance : Hash Bytes where
  hash bytes state := update state bytes

/-- A hasher whose output is the list of its inputs, each behind its length in unary. -/
structure Transcript where
  /-- The inputs so far. -/
  input : Bytes

instance : Hasher Transcript Bytes where
  update state bytes := ⟨state.input ++ (List.replicate bytes.length 1 ++ 0 :: bytes)⟩
  finalize state := state.input

instance : BuildHasher Unit Transcript where
  buildHasher _ := ⟨[]⟩

/-- A transcript can be read back, one input at a time. -/
theorem transcript_inj {a b x y : Bytes}
    (h : List.replicate a.length 1 ++ 0 :: (a ++ x) = List.replicate b.length 1 ++ 0 :: (b ++ y)) :
    a = b ∧ x = y := by
  have hlen : a.length = b.length := by
    have hcount := congrArg (List.takeWhile (· == 1)) h
    simpa using congrArg List.length hcount
  rw [hlen] at h
  have htail := (List.cons.inj (List.append_cancel_left h)).2
  exact List.append_inj htail hlen

theorem hashPair_transcript (a b : Bytes) :
    hashPair a b (buildHasher () : Transcript) =
      List.replicate a.length 1 ++ 0 :: (a ++ (List.replicate b.length 1 ++ 0 :: (b ++ []))) := by
  simp [hashPair, Hash.hash, update, finalize, buildHasher]

theorem hashPair_transcript_inj {a b c d : Bytes}
    (h : hashPair a b (buildHasher () : Transcript) = hashPair c d (buildHasher () : Transcript)) :
    a = c ∧ b = d := by
  rw [hashPair_transcript, hashPair_transcript] at h
  obtain ⟨hac, hrest⟩ := transcript_inj h
  exact ⟨hac, (transcript_inj hrest).1⟩

/-- The assumption that a pair hash tells unordered pairs apart can be met. -/
theorem isPairInjective_transcript :
    HashTree.IsPairInjective (pairHash () : Bytes → Bytes → Bytes) := by
  intro a b c d h
  rw [pairHash, pairHash, commutativeHashPair, commutativeHashPair] at h
  split at h <;> split at h <;> obtain ⟨h₁, h₂⟩ := hashPair_transcript_inj h
  · exact Or.inl ⟨h₂, h₁⟩
  · exact Or.inr ⟨h₂, h₁⟩
  · exact Or.inr ⟨h₁, h₂⟩
  · exact Or.inl ⟨h₁, h₂⟩

/-- A transcript starts with a digit of a length, so there are values that are not hashes. -/
theorem pairHash_transcript_ne {a b : Bytes} {x : U8} (hx : 1 < x) (rest : Bytes) :
    pairHash () a b ≠ x :: rest := by
  have hhash (a b : Bytes) : hashPair a b (buildHasher () : Transcript) ≠ x :: rest := by
    rw [hashPair_transcript]
    cases a with
    | nil => rintro ⟨⟩; exact absurd hx (by decide)
    | cons y a =>
      rw [List.length_cons, List.replicate_succ]
      rintro ⟨⟩
      exact absurd hx (by decide)
  rw [pairHash, commutativeHashPair]
  split
  · exact hhash b a
  · exact hhash a b

end ContractsStylus
