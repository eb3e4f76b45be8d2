import CallShape.Proofs.Intake
import Mathlib.Data.Finset.Card

set_option autoImplicit false

namespace CallShape

namespace Outline

/-- The shapes of a table with this cache length that was asked for these shapes. -/
def asked (cacheLength : Nat) (requests : List (List Label)) : List (List Label) :=
  (List.range cacheLength).map (List.replicate · Label.positional) ++ requests

theorem mem_opened_enterAll {config : Config} {requests : List (List Label)}
    {labels : List Label} :
    labels ∈ ((opened config).enterAll requests).shapes ↔
      labels ∈ asked config.cacheLength requests := by
  rw [mem_enterAll, opened, mem_enterAll, asked, List.mem_append]
  simp only [blank, List.not_mem_nil, false_or]

end Outline

namespace Table

/-- The table has an instance for each of its all-positional shapes and for each requested shape,
and no others. -/
structure Inventory (table : Table) (pool : Interner) (cacheLength : Nat)
    (requests : List (List Label)) : Prop where
  /-- Known slots are found exactly if they were asked for. -/
  keys : ∀ slots, pool.Knows slots → ((table.find? slots).isSome = true ↔
    slots.map Slot.label ∈ Outline.asked cacheLength requests)
  /-- What was asked for is there. -/
  complete : ∀ labels ∈ Outline.asked cacheLength requests, ∃ slots, pool.Knows slots ∧
    slots.map Slot.label = labels ∧ (table.find? slots).isSome = true
  /-- Every instance is found by its own slots. -/
  entries : ∀ signature ∈ table.signatures, pool.Knows signature.slots ∧
    table.find? signature.slots = some signature
  /-- An instance reads back the slots by which it is found. -/
  readsBack : ∀ slots signature, pool.Knows slots → table.find? slots = some signature →
    signature.arity = slots.length ∧
      ∀ index slot, slots[index]? = some slot → signature.slotAt index = .ok slot
  size : table.size = (Outline.asked cacheLength requests).toFinset.card
  atHand : table.unnamed.length = cacheLength ∧ ∀ arity signature,
    table.unnamed[arity]? = some signature →
      table.find? (List.replicate arity .positional) = some signature

theorem Sound.inventory {table : Table} {pool : Interner} {bound : Nat}
    (sound : table.Sound pool bound) (orderly : pool.Orderly) {config : Config}
    {requests : List (List Label)}
    (outlined : table.outline = (Outline.opened config).enterAll requests) :
    table.Inventory pool config.cacheLength requests := by
  have shapes : ∀ labels, labels ∈ table.outline.shapes ↔
      labels ∈ Outline.asked config.cacheLength requests := by
    intro labels
    rw [outlined]
    exact Outline.mem_opened_enterAll
  have found : ∀ signature ∈ table.signatures, pool.Knows signature.slots ∧
      table.find? signature.slots = some signature := by
    intro signature member
    have known := (sound.genuine signature member).known
    exact ⟨known, (sound.find?_eq_some_iff orderly known signature).mpr ⟨member, rfl⟩⟩
  refine ⟨?_, ?_, found, ?_, ?_, ?_, ?_⟩
  · intro slots known
    rw [← shapes, sound.mem_shapes_iff orderly known, Option.isSome_iff_ne_none]
  · intro labels listed
    obtain ⟨signature, member, rfl⟩ := List.mem_map.mp ((shapes labels).mpr listed)
    obtain ⟨known, own⟩ := found signature member
    exact ⟨signature.slots, known, rfl, by rw [own]; rfl⟩
  · intro slots signature known own
    obtain ⟨member, rfl⟩ := (sound.find?_eq_some_iff orderly known signature).mp own
    have genuine := sound.genuine signature member
    exact ⟨genuine.arity, fun index slot => genuine.slotAt⟩
  · calc table.size = table.outline.shapes.length := (List.length_map _).symm
      _ = table.outline.shapes.toFinset.card :=
          (List.toFinset_card_of_nodup sound.distinct_labels).symm
      _ = (Outline.asked config.cacheLength requests).toFinset.card := by
          congr 1
          ext labels
          rw [List.mem_toFinset, List.mem_toFinset, shapes]
  · calc table.unnamed.length = table.outline.atHand := rfl
      _ = config.cacheLength := by rw [outlined, (Outline.settings_opened config requests).1]
  · intro arity signature kept
    obtain ⟨member, own⟩ := sound.atHand arity signature kept
    rw [← own]
    exact (found signature member).2

end Table

namespace Process

/-- Over every run and for every table made in it: the table holds exactly its all-positional
shapes and what calls got from it, whatever it held it still holds, and a call that gets nothing
from it leaves it as it was. -/
theorem table_holds_what_was_asked (calls : List Call) (admissible : Admissible calls {})
    (index : Nat) (id : TableId) (config : Config) (made : Made calls index id config) :
    ∃ table, (after calls {}).tables[id]? = some table ∧
      table.Inventory (after calls {}).pool config.cacheLength (requested id calls {}) ∧
      (∀ earlier own, (stateAt calls earlier).tables[id]? = some own →
        own.unnamed = table.unnamed ∧ ∀ slots signature,
          own.find? slots = some signature → table.find? slots = some signature) ∧
      (∀ earlier call own, calls[earlier]? = some call →
        (stateAt calls earlier).tables[id]? = some own →
        call.request? id (stateAt calls earlier) = none →
        (stateAt calls (earlier + 1)).tables[id]? = some own) := by
  have sound := (new_sound.after admissible).1
  obtain ⟨table, present, outlined⟩ := made.outlines admissible
  refine ⟨table, present, ?_, ?_, ?_⟩
  · exact (sound.tables id table present).inventory sound.pool.toOrderly outlined
  · intro earlier own ownPresent
    obtain ⟨later, laterPresent, extended⟩ :=
      (stateAt_extends admissible earlier).tables id own ownPresent
    rw [present] at laterPresent
    cases laterPresent
    exact ⟨extended.unnamed.symm, fun slots signature => extended.find?⟩
  · intro earlier call own called ownPresent nothing
    rw [stateAt_succ called]
    exact step_spares (stateAt_sound admissible earlier) (admissible_at admissible called)
      ownPresent nothing

/-- One shape in two ways, all-positional shapes inside and beyond the cache, and calls that get
nothing from the table. -/
def stocked : List Call :=
  [.openTable { cacheLength := 2 }, .forNames (.numbered 0) [some "a", none],
    .unnamed (.numbered 0) 3, .forSlots (.numbered 0) [.positional], .symbol (.numbered 0) "b",
    .forVector (.numbered 0) none, .forNames (.numbered 1) [some "b"],
    .forNames .global [some "b"], .forVector (.numbered 0) (some ["a", ""])]

theorem table_holds_what_was_asked_stocked :
    Admissible stocked {} ∧ Made stocked 0 0 { cacheLength := 2 } ∧
      ∃ table, (after stocked {}).tables[0]? = some table ∧ table.size = 4 ∧
        table.Inventory (after stocked {}).pool 2
          [[.named "a", .positional], List.replicate 3 .positional, [.positional],
            [.named "a", .positional]] := by
  have positional : (stateAt stocked 3).pool.Knows [.positional] :=
    Interner.knows_replicate_positional _ 1
  have admissible : Admissible stocked {} :=
    ⟨trivial, trivial, trivial, positional, trivial, trivial, trivial, trivial, trivial, trivial⟩
  have made : Made stocked 0 0 { cacheLength := 2 } :=
    ⟨by decide, ⟨_, rfl, rfl⟩, by decide, by decide +kernel⟩
  obtain ⟨table, present, inventory, -⟩ :=
    table_holds_what_was_asked stocked admissible 0 0 { cacheLength := 2 } made
  have requests : requested 0 stocked {} = [[.named "a", .positional],
      List.replicate 3 .positional, [.positional], [.named "a", .positional]] := by
    decide +kernel
  rw [requests] at inventory
  exact ⟨admissible, made, table, present, inventory.size.trans (by decide), inventory⟩

end Process

end CallShape
