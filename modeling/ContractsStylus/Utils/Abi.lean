import ContractsStylus.Primitives

/-!
# ABI encoding of words

A tuple whose components have a fixed size is encoded to one word for each of them, most
significant byte first. Nothing is lost: tuples of one type that are encoded to the same bytes are
the same.

Strings enter hashes as their bytes. Types of varying size, which are encoded with offsets, occur
nowhere in what is hashed.
-/

namespace ContractsStylus

namespace Abi

/-- The 32 bytes of a word, most significant first. -/
def wordBytes (w : U256) : Bytes := List.ofFn fun i : Fin 32 => w.extractLsb' (8 * (31 - i)) 8

/-- `SolType::abi_encode` of a tuple, the words of its components given. -/
def abiEncode (words : List U256) : Bytes := words.flatMap wordBytes

/-- `bytes.as_bytes()`. -/
def asBytes (s : String) : Bytes := s.toUTF8.toList.map fun b => b.toBitVec

theorem length_wordBytes (w : U256) : (wordBytes w).length = 32 := List.length_ofFn

/-- A word is read back from its bytes. -/
theorem wordBytes_injective {x y : U256} (h : wordBytes x = wordBytes y) : x = y := by
  refine BitVec.eq_of_getLsbD_eq fun j hj => ?_
  -- bit `j` is in the byte that `j / 8` bytes come after
  have hbyte := congrFun (List.ofFn_injective h) ⟨31 - j / 8, by omega⟩
  have hbit := congrArg (fun b : U8 => b.getLsbD (j % 8)) hbyte
  have hj8 : j % 8 < 8 := Nat.mod_lt _ (by decide)
  have hindex : 8 * (31 - (31 - j / 8)) + j % 8 = j := by omega
  simpa only [BitVec.getLsbD_extractLsb', hj8, decide_true, Bool.true_and, hindex] using hbit

/-- **The encoding of a tuple determines its components.** -/
theorem abiEncode_injective : ∀ {xs ys : List U256}, xs.length = ys.length →
    abiEncode xs = abiEncode ys → xs = ys
  | [], [], _, _ => rfl
  | x :: xs, y :: ys, hlength, h => by
    rw [abiEncode, abiEncode, List.flatMap_cons, List.flatMap_cons] at h
    obtain ⟨hword, hrest⟩ :=
      List.append_inj h ((length_wordBytes x).trans (length_wordBytes y).symm)
    rw [wordBytes_injective hword, abiEncode_injective (Nat.succ.inj hlength) hrest]

/-- An address is read back from its word. -/
theorem setWidth_injective {x y : Address} (h : x.setWidth 256 = y.setWidth 256) : x = y := by
  have h := congrArg BitVec.toNat h
  rw [BitVec.toNat_setWidth_of_le (by decide), BitVec.toNat_setWidth_of_le (by decide)] at h
  exact BitVec.eq_of_toNat_eq h

end Abi

end ContractsStylus
