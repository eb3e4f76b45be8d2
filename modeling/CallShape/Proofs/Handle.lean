import CallShape.Handle
import Mathlib.Algebra.Group.Nat.Defs

set_option autoImplicit false

namespace CallShape.Handle

theorem shard_val (handle : Handle) : handle.shard.val = handle.bits.toNat / 2 ^ 28 := by
  simp only [shard, UInt32.toNat_shiftRight, UInt32.reduceToNat, Nat.reduceMod,
    Nat.shiftRight_eq_div_pow]

theorem position_eq (handle : Handle) : handle.position = handle.bits.toNat % 2 ^ 28 := by
  have mask : (0x0FFFFFFF : UInt32).toNat = 2 ^ 28 - 1 := rfl
  rw [position, UInt32.toNat_and, mask, Nat.and_two_pow_sub_one_eq_mod]

theorem position_le (handle : Handle) : handle.position ≤ maxPosition := by
  rw [position_eq, maxPosition]
  omega

theorem bits_pack (shard position : Nat) (shardInside : shard < shardCount)
    (positionInside : position ≤ maxPosition) :
    (pack shard position).bits.toNat = shard * 2 ^ 28 + position := by
  have low : position < 2 ^ 28 := by
    simp only [maxPosition] at positionInside
    omega
  have high : shard * 2 ^ 28 < 2 ^ 32 := by
    simp only [shardCount] at shardInside
    omega
  simp only [pack, UInt32.toNat_or, UInt32.toNat_shiftLeft, UInt32.toNat_ofNat',
    UInt32.reduceToNat, Nat.reduceMod]
  rw [Nat.mod_eq_of_lt (show shard < 2 ^ 32 by omega),
    Nat.mod_eq_of_lt (show position < 2 ^ 32 by omega), Nat.shiftLeft_eq,
    Nat.mod_eq_of_lt high, Nat.mul_comm, Nat.two_pow_add_eq_or_of_lt low]

theorem shard_pack (shard : Fin shardCount) (position : Nat)
    (positionInside : position ≤ maxPosition) : (pack shard position).shard = shard := by
  apply Fin.ext
  rw [shard_val, bits_pack shard position shard.isLt positionInside]
  simp only [maxPosition] at positionInside
  omega

theorem position_pack (shard position : Nat) (shardInside : shard < shardCount)
    (positionInside : position ≤ maxPosition) : (pack shard position).position = position := by
  rw [position_eq, bits_pack shard position shardInside positionInside]
  simp only [maxPosition] at positionInside
  omega

/-- Every word is the packing of its own shard and position. -/
theorem pack_shard_position (handle : Handle) : pack handle.shard handle.position = handle := by
  have same : (pack handle.shard handle.position).bits.toNat = handle.bits.toNat := by
    rw [bits_pack _ _ handle.shard.isLt handle.position_le, shard_val, position_eq]
    omega
  cases handle with
  | mk bits => exact congrArg Handle.mk (UInt32.toNat_inj.mp same)

theorem make_eq_pack (shard position : Nat) (shardInside : shard < shardCount)
    (positionInside : position ≤ maxPosition) :
    make shard position = .ok (pack shard position) := by
  simp only [make, shardInside, positionInside, if_true]

end CallShape.Handle
