import CallShape.Proofs.Handle
import Mathlib.Data.List.Sort
import Mathlib.Data.Prod.Lex

set_option autoImplicit false

namespace CallShape.Handle

/-- Where the text of a handle is kept. Places are ordered by shard, and by position within one. -/
def place (handle : Handle) : ℕ ×ₗ ℕ := toLex (handle.shard.val, handle.position)

theorem place_lt_iff (first second : Handle) :
    first.place < second.place ↔
      first.shard.val < second.shard.val ∨
        first.shard.val = second.shard.val ∧ first.position < second.position :=
  Prod.Lex.toLex_lt_toLex

/-- The position never reaches the shard's bits, so comparing words is comparing places. -/
theorem bits_lt_iff (first second : Handle) :
    first.bits < second.bits ↔ first.place < second.place := by
  rw [place_lt_iff, UInt32.lt_iff_toNat_lt, shard_val, shard_val, position_eq, position_eq]
  omega

theorem place_inj {first second : Handle} : first.place = second.place ↔ first = second := by
  constructor
  · intro same
    obtain ⟨shard, position⟩ := Prod.mk.inj (toLex.injective same)
    rw [← pack_shard_position first, ← pack_shard_position second, shard, position]
  · exact congrArg place

theorem bits_inj {first second : Handle} : first.bits = second.bits ↔ first = second :=
  ⟨congrArg Handle.mk, congrArg Handle.bits⟩

theorem ble_iff (first second : Handle) : first.ble second = true ↔ first.place ≤ second.place := by
  rw [ble, decide_eq_true_iff, ← UInt32.not_lt, bits_lt_iff, not_lt]

/-- Handles compare as their places do. -/
theorem compare_eq_compare_place (first second : Handle) :
    compare first second = compare first.place second.place := by
  rw [LinearOrder.compare_eq_compareOfLessAndEq]
  change compareOfLessAndEq first.bits second.bits = _
  simp only [compareOfLessAndEq, bits_lt_iff, bits_inj, place_inj]

theorem place_of_make {shard position : ℕ} {handle : Handle}
    (made : make shard position = .ok handle) : handle.place = toLex (shard, position) := by
  rw [make] at made
  split at made
  · rename_i shardInside
    split at made
    · rename_i positionInside
      cases made
      rw [place, shard_pack ⟨shard, shardInside⟩ position positionInside,
        position_pack shard position shardInside positionInside]
    · cases made
  · cases made

/-- Sorting handles sorts their places. -/
theorem map_place_sort (handles : List Handle) :
    (sort handles).map place = (handles.map place).mergeSort (· ≤ ·) := by
  apply List.map_mergeSort
  intro first _ second _
  rw [Bool.eq_iff_iff, ble_iff, decide_eq_true_iff]

theorem empty_place_le (handle : Handle) : empty.place ≤ handle.place := by
  rw [← ble_iff, ble, decide_eq_true_iff]
  exact UInt32.zero_le

/-- Handles are the pairs of a shard and a position. Every such pair within the bounds makes a
handle, which has the shard and the position it was made from; every word is made from its own;
and handles compare as their pairs do, the shards first. So a handle is known by its pair, sorted
handles have sorted pairs, and the handle of the empty text comes first. -/
theorem handles_are_ordered_places :
    (∀ shard position, shard < shardCount → position ≤ maxPosition →
      ∃ handle, make shard position = .ok handle ∧
        handle.shard.val = shard ∧ handle.position = position) ∧
    (∀ handle : Handle, handle.shard.val < shardCount ∧ handle.position ≤ maxPosition ∧
      make handle.shard.val handle.position = .ok handle) ∧
    (∀ shard position otherShard otherPosition handle other,
      make shard position = .ok handle → make otherShard otherPosition = .ok other →
        compare handle other =
          compare (toLex (shard, position)) (toLex (otherShard, otherPosition)) ∧
        (handle.ble other = true ↔
          toLex (shard, position) ≤ toLex (otherShard, otherPosition)) ∧
        (handle = other ↔ shard = otherShard ∧ position = otherPosition)) ∧
    (∀ handles : List Handle, (sort handles).Perm handles ∧
      ((sort handles).map place).SortedLE ∧
      (sort handles).map place = (handles.map place).mergeSort (· ≤ ·)) ∧
    (∀ handle : Handle, empty.ble handle = true ∧ compare empty handle ≠ .gt) := by
  refine ⟨?_, ?_, ?_, ?_, ?_⟩
  · intro shard position shardInside positionInside
    refine ⟨pack shard position, make_eq_pack shard position shardInside positionInside, ?_, ?_⟩
    · exact congrArg Fin.val (shard_pack ⟨shard, shardInside⟩ position positionInside)
    · exact position_pack shard position shardInside positionInside
  · intro handle
    refine ⟨handle.shard.isLt, handle.position_le, ?_⟩
    rw [make_eq_pack _ _ handle.shard.isLt handle.position_le, pack_shard_position]
  · intro shard position otherShard otherPosition handle other made otherMade
    have here := place_of_make made
    have there := place_of_make otherMade
    refine ⟨?_, ?_, ?_⟩
    · rw [compare_eq_compare_place, here, there]
    · rw [ble_iff, here, there]
    · rw [← place_inj, here, there, toLex_inj, Prod.mk.injEq]
  · intro handles
    refine ⟨List.mergeSort_perm handles ble, ?_, map_place_sort handles⟩
    rw [map_place_sort]
    exact List.sortedLE_mergeSort
  · intro handle
    have least := empty_place_le handle
    refine ⟨(ble_iff empty handle).mpr least, ?_⟩
    rw [compare_eq_compare_place]
    exact compare_le_iff_le.mpr least

/-- The last position of the last shard is the greatest word. -/
example : make 15 maxPosition = .ok ⟨0xFFFFFFFF⟩ := by decide

end CallShape.Handle
