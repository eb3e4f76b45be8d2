import CallShape.Interner
import CallShape.Proofs.Handle
import Mathlib.Algebra.Order.BigOperators.Group.Finset
import Mathlib.Data.Fintype.BigOperators
import Mathlib.Data.List.Nodup

set_option autoImplicit false

namespace CallShape.Interner

/-- The texts of a shard, in the order in which they were added. -/
def texts (pool : Interner) (shard : Fin shardCount) : List String := pool.shards[shard]

theorem texts_eq (pool : Interner) (shard : Fin shardCount) :
    pool.texts shard = pool.shards[shard.val] := rfl

theorem shardFor_eq (pool : Interner) (text : String) :
    pool.shardFor text = pool.texts (shardOf text) := rfl

structure Orderly (pool : Interner) : Prop where
  placed : ∀ shard text, text ∈ pool.texts shard → shardOf text = shard
  distinct : ∀ shard, (pool.texts shard).Nodup
  bounded : ∀ shard, (pool.texts shard).length ≤ Handle.maxPosition + 1

/-- How many texts the shards hold. -/
def held (pool : Interner) : Nat := ∑ shard, (pool.texts shard).length

/-- Between two calls the count is the number of texts. -/
structure Sound (pool : Interner) : Prop extends Orderly pool where
  counted : pool.total = pool.held

/-- Texts are only added, and only at the end of a shard. -/
def Grows (before after : Interner) : Prop :=
  ∀ shard, before.texts shard <+: after.texts shard

theorem Grows.refl (pool : Interner) : pool.Grows pool := fun _ => List.prefix_refl _

theorem Grows.trans {first second third : Interner} (early : first.Grows second)
    (late : second.Grows third) : first.Grows third :=
  fun shard => (early shard).trans (late shard)

theorem idxOf?_eq_some_iff_of_nodup {texts : List String} (distinct : texts.Nodup)
    (text : String) (position : Nat) :
    texts.idxOf? text = some position ↔ texts[position]? = some text := by
  rw [List.idxOf?_eq_some_iff, List.getElem?_eq_some_iff]
  constructor
  · intro first
    obtain ⟨inside, same, -⟩ := first
    exact ⟨inside, same⟩
  · intro present
    obtain ⟨inside, same⟩ := present
    refine ⟨inside, same, ?_⟩
    intro earlier before equal
    have position_eq := (distinct.getElem_inj_iff).mp (equal.trans same.symm)
    omega

theorem find?_eq_none_iff (pool : Interner) (text : String) :
    pool.find? text = none ↔ text ∉ pool.shardFor text := by
  rw [find?, Option.map_eq_none_iff, List.idxOf?_eq_none_iff]

theorem find?_text {pool : Interner} {text : String} {symbol : Symbol}
    (found : pool.find? text = some symbol) : symbol.text = text := by
  obtain ⟨position, -, rfl⟩ := Option.map_eq_some_iff.mp found
  rfl

/-- A text is found at the position where its shard has it. -/
theorem Orderly.find?_eq_some_iff {pool : Interner} (orderly : pool.Orderly) (text : String)
    (symbol : Symbol) :
    pool.find? text = some symbol ↔
      ∃ position, (pool.shardFor text)[position]? = some text ∧
        symbol = symbolAt text position := by
  have distinct : (pool.shardFor text).Nodup := orderly.distinct (shardOf text)
  rw [find?, Option.map_eq_some_iff]
  constructor
  · intro located
    obtain ⟨position, found, rfl⟩ := located
    exact ⟨position, (idxOf?_eq_some_iff_of_nodup distinct text position).mp found, rfl⟩
  · intro located
    obtain ⟨position, present, rfl⟩ := located
    exact ⟨position, (idxOf?_eq_some_iff_of_nodup distinct text position).mpr present, rfl⟩

theorem Orderly.position_le {pool : Interner} (orderly : pool.Orderly) {shard : Fin shardCount}
    {position : Nat} {text : String} (present : (pool.texts shard)[position]? = some text) :
    position ≤ Handle.maxPosition := by
  have inside := (List.getElem?_eq_some_iff.mp present).1
  have bound := orderly.bounded shard
  omega

/-- The handle of a text leads back to it. -/
theorem Orderly.texts_of_find? {pool : Interner} (orderly : pool.Orderly) {text : String}
    {symbol : Symbol} (found : pool.find? text = some symbol) :
    (pool.texts symbol.handle.shard)[symbol.handle.position]? = some text := by
  obtain ⟨position, present, rfl⟩ := (orderly.find?_eq_some_iff text symbol).mp found
  have small := orderly.position_le present
  simp only [symbolAt]
  rw [Handle.shard_pack (shardOf text) position small,
    Handle.position_pack (shardOf text) position (shardOf text).isLt small]
  exact present

/-- A handle that leads to a text is the handle of that text. -/
theorem Orderly.find?_of_texts {pool : Interner} (orderly : pool.Orderly) {text : String}
    {handle : Handle} (present : (pool.texts handle.shard)[handle.position]? = some text) :
    pool.find? text = some ⟨handle, text⟩ := by
  have shard : shardOf text = handle.shard :=
    orderly.placed handle.shard text (List.mem_of_getElem? present)
  rw [orderly.find?_eq_some_iff]
  refine ⟨handle.position, ?_, ?_⟩
  · rw [shardFor_eq, shard]
    exact present
  · rw [symbolAt, shard, Handle.pack_shard_position]

/-- Two texts never share a handle. -/
theorem Orderly.text_eq {pool : Interner} (orderly : pool.Orderly) {text other : String}
    {symbol otherSymbol : Symbol} (found : pool.find? text = some symbol)
    (otherFound : pool.find? other = some otherSymbol)
    (same : symbol.handle = otherSymbol.handle) : text = other := by
  have present := orderly.texts_of_find? found
  have otherPresent := orderly.texts_of_find? otherFound
  rw [same, otherPresent, Option.some.injEq] at present
  exact present.symm

theorem Orderly.find?_of_grows {before after : Interner} (early : before.Orderly)
    (late : after.Orderly) (grown : before.Grows after) {text : String} {symbol : Symbol}
    (found : before.find? text = some symbol) : after.find? text = some symbol := by
  obtain ⟨position, present, rfl⟩ := (early.find?_eq_some_iff text symbol).mp found
  obtain ⟨inside, same⟩ := List.getElem?_eq_some_iff.mp present
  rw [late.find?_eq_some_iff]
  exact ⟨position, (List.prefix_iff_getElem?.mp (grown (shardOf text)) position inside).trans
    (congrArg some same), rfl⟩

theorem Orderly.knows_of_grows {before after : Interner} (early : before.Orderly)
    (late : after.Orderly) (grown : before.Grows after) {slots : List Slot}
    (known : before.Knows slots) : after.Knows slots :=
  fun symbol member => early.find?_of_grows late grown (known symbol member)

theorem texts_push (pool : Interner) (text : String) (shard : Fin shardCount) :
    (pool.push text).texts shard =
      if shard = shardOf text then pool.texts shard ++ [text] else pool.texts shard := by
  simp only [texts_eq, push, shardFor_eq]
  by_cases own : shard = shardOf text
  · subst own
    rw [if_pos rfl, Vector.getElem_set_self]
  · rw [if_neg own, Vector.getElem_set_ne]
    exact fun same => own (Fin.ext same.symm)

theorem grows_push (pool : Interner) (text : String) : pool.Grows (pool.push text) := by
  intro shard
  rw [texts_push]
  split
  · exact List.prefix_append _ _
  · exact List.prefix_refl _

theorem held_push (pool : Interner) (text : String) : (pool.push text).held = pool.held + 1 := by
  have each : ∀ shard, ((pool.push text).texts shard).length =
      (pool.texts shard).length + if shard = shardOf text then 1 else 0 := by
    intro shard
    rw [texts_push]
    split
    · rw [List.length_append, List.length_singleton]
    · rfl
  simp only [held, each, Finset.sum_add_distrib, Finset.sum_ite_eq', Finset.mem_univ, if_true]

theorem length_texts_le_held (pool : Interner) (shard : Fin shardCount) :
    (pool.texts shard).length ≤ pool.held :=
  Finset.single_le_sum_of_canonicallyOrdered (f := fun other => (pool.texts other).length)
    (Finset.mem_univ shard)

/-- A text that is missing from a shard with room can be added. -/
theorem Orderly.push {pool : Interner} (orderly : pool.Orderly) {text : String}
    (missing : pool.find? text = none)
    (room : (pool.shardFor text).length ≤ Handle.maxPosition) : (pool.push text).Orderly := by
  have absent : text ∉ pool.texts (shardOf text) := (find?_eq_none_iff pool text).mp missing
  refine ⟨?_, ?_, ?_⟩
  · intro shard other member
    rw [texts_push] at member
    split at member
    · rename_i own
      rcases List.mem_append.mp member with old | new
      · exact orderly.placed shard other old
      · rw [List.mem_singleton.mp new, own]
    · exact orderly.placed shard other member
  · intro shard
    rw [texts_push]
    split
    · rename_i own
      subst own
      exact (orderly.distinct _).append (List.nodup_singleton text)
        (List.disjoint_singleton.mpr absent)
    · exact orderly.distinct shard
  · intro shard
    rw [texts_push]
    split
    · rename_i own
      subst own
      rw [List.length_append, List.length_singleton]
      exact Nat.add_le_add_right room 1
    · exact orderly.bounded shard

theorem Orderly.count {pool : Interner} (orderly : pool.Orderly) : pool.count.Orderly :=
  ⟨orderly.placed, orderly.distinct, orderly.bounded⟩

/-- A text that was just added is found where it was put. -/
theorem Orderly.find?_push {pool : Interner} (orderly : pool.Orderly) {text : String}
    (missing : pool.find? text = none)
    (room : (pool.shardFor text).length ≤ Handle.maxPosition) :
    (pool.push text).find? text = some (symbolAt text (pool.shardFor text).length) := by
  rw [(orderly.push missing room).find?_eq_some_iff]
  refine ⟨(pool.shardFor text).length, ?_, rfl⟩
  rw [shardFor_eq, texts_push, if_pos rfl, shardFor_eq]
  exact List.getElem?_concat_length

/-- Adding a text makes no other text appear. -/
theorem find?_push_of_ne (pool : Interner) {text other : String} (different : other ≠ text) :
    (pool.push text).find? other = none ↔ pool.find? other = none := by
  rw [find?_eq_none_iff, find?_eq_none_iff, shardFor_eq, shardFor_eq, texts_push]
  split
  · simp [different]
  · rfl

end CallShape.Interner
