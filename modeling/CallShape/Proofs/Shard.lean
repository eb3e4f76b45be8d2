import CallShape.Interner
import Mathlib.Algebra.BigOperators.Ring.Finset
import Mathlib.Data.Int.ModEq
import Mathlib.Data.List.GetD

/-!
The hash of the first bytes of a text is a polynomial in 31, computed in a word that wraps. Sixteen
divides the size of the word, so the wrapping never shows in the shard; and 31 is -1 modulo sixteen,
so the shard is the alternating sum of the bytes.
-/

set_option autoImplicit false

namespace CallShape

/-- The bytes that decide about the shard. They may end within a character. -/
def leadingBytes (text : String) : List UInt8 := text.toUTF8.data.toList.take 8

section Polynomial

variable {R : Type*} [Semiring R]

/-- The bytes as coefficients of the powers of a base, the first one of the highest power. -/
def polynomial (base : R) (bytes : List UInt8) : R :=
  ∑ i ∈ Finset.range bytes.length, ((bytes.getD i 0).toNat : R) * base ^ (bytes.length - 1 - i)

/-- One byte more raises every power by one. -/
theorem polynomial_concat (base : R) (bytes : List UInt8) (byte : UInt8) :
    polynomial base (bytes ++ [byte]) = polynomial base bytes * base + byte.toNat := by
  have earlier : ∀ i ∈ Finset.range bytes.length,
      (((bytes ++ [byte]).getD i 0).toNat : R) * base ^ (bytes.length + 1 - 1 - i) =
        ((bytes.getD i 0).toNat : R) * base ^ (bytes.length - 1 - i) * base := by
    intro i member
    have inside := Finset.mem_range.mp member
    rw [List.getD_append _ _ _ _ inside, mul_assoc, ← pow_succ,
      show bytes.length + 1 - 1 - i = bytes.length - 1 - i + 1 by omega]
  rw [polynomial, List.length_append, List.length_singleton, Finset.sum_range_succ,
    Finset.sum_congr rfl earlier, ← Finset.sum_mul, polynomial]
  simp

end Polynomial

theorem cast_polynomial (base : ℕ) (bytes : List UInt8) :
    ((polynomial base bytes : ℕ) : ℤ) = polynomial (base : ℤ) bytes := by
  simp only [polynomial, Nat.cast_sum, Nat.cast_mul, Nat.cast_pow, Nat.cast_id]

theorem polynomial_modEq {modulus base other : ℤ} (same : base ≡ other [ZMOD modulus])
    (bytes : List UInt8) : polynomial base bytes ≡ polynomial other bytes [ZMOD modulus] := by
  induction bytes using List.reverseRecOn with
  | nil => rfl
  | append_singleton bytes byte ih =>
      rw [polynomial_concat, polynomial_concat]
      exact (ih.mul same).add_right _

/-- One step of the hash, without the wrapping and with it. -/
theorem toNat_hash_step (hash : UInt32) (byte : UInt8) :
    (hash * 31 + byte.toUInt32).toNat = (hash.toNat * 31 + byte.toNat) % 2 ^ 32 := by
  simp only [UInt32.toNat_add, UInt32.toNat_mul, UInt32.reduceToNat, UInt8.toNat_toUInt32]
  omega

/-- The hash is the polynomial, cut to the width of the word. -/
theorem toNat_shardHash (text : String) :
    (shardHash text).toNat = polynomial 31 (leadingBytes text) % 2 ^ 32 := by
  rw [shardHash, ← leadingBytes]
  -- The fold takes the bytes in at the end, so the induction adds the last one.
  induction leadingBytes text using List.reverseRecOn with
  | nil => rfl
  | append_singleton bytes byte ih =>
      rw [List.foldl_append, List.foldl_cons, List.foldl_nil, toNat_hash_step, ih,
        polynomial_concat]
      simp only [Nat.cast_id]
      omega

theorem shardOf_val (text : String) :
    (shardOf text).val = polynomial 31 (leadingBytes text) % shardCount := by
  rw [shardOf, Fin.val_ofNat, toNat_shardHash]
  exact Nat.mod_mod_of_dvd _ (by decide)

theorem shardOf_congr {text other : String} (same : leadingBytes text = leadingBytes other) :
    shardOf text = shardOf other := by
  apply Fin.ext
  rw [shardOf_val, shardOf_val, same]

theorem length_leadingBytes (text : String) :
    (leadingBytes text).length = min text.utf8ByteSize 8 := by
  rw [leadingBytes, List.length_take, Nat.min_comm]
  rfl

/-- The shard of a text is the polynomial in 31 of its first eight bytes, modulo sixteen, though
the hash is computed in a word that wraps; it is the alternating sum of these bytes as well; it
is one of the sixteen shards, and no later byte has a part in it. -/
theorem shard_is_alternating_sum (text : String) :
    (leadingBytes text).length = min text.utf8ByteSize 8 ∧
    (shardHash text).toNat = polynomial 31 (leadingBytes text) % 2 ^ 32 ∧
    (shardOf text).val = polynomial 31 (leadingBytes text) % 16 ∧
    ((shardOf text).val : ℤ) = polynomial (-1) (leadingBytes text) % 16 ∧
    (shardOf text).val < 16 ∧
    ∀ other, leadingBytes other = leadingBytes text → shardOf other = shardOf text := by
  refine ⟨length_leadingBytes text, toNat_shardHash text, shardOf_val text, ?_,
    (shardOf text).isLt, fun other same => shardOf_congr same⟩
  have alternating : ((31 : ℕ) : ℤ) ≡ -1 [ZMOD 16] := by decide
  rw [shardOf_val, Int.natCast_mod, cast_polynomial 31]
  exact polynomial_modEq alternating _

/-- The eighth byte of both is the first one of a character that goes on. -/
example : leadingBytes "aaaaaaaé" = leadingBytes "aaaaaaaè" ∧ "aaaaaaaé" ≠ "aaaaaaaè" := by
  decide +kernel

end CallShape
