import CallShape.Proofs.Frame
import CallShape.Proofs.Outline

set_option autoImplicit false

namespace CallShape

namespace Label

end Label

namespace Interner

end Interner

namespace Table

/-- The all-positional signature of this arity is at hand, or no hook fails for the warning about it
and there is room for so many slots. -/
def Grants (table : Table) (arity : Nat) : Prop :=
  arity < table.unnamed.length ∨
    table.sink.fails (.largeUnnamed arity table.unnamed.length) = false ∧ arity < 2 ^ 58

theorem Extends.grants {before after : Table} (extended : before.Extends after) {arity : Nat}
    (grants : before.Grants arity) : after.Grants arity := by
  rw [Grants, extended.unnamed, extended.sink]
  exact grants

theorem atHand?_replicate (table : Table) (arity : Nat) :
    table.atHand? (List.replicate arity .positional) = table.unnamed[arity]? := by
  have all : (List.replicate arity Slot.positional).all (· == Slot.positional) = true := by
    rw [List.all_replicate]
    split <;> rfl
  rw [atHand?, if_pos all, List.length_replicate]

end Table

namespace Process

variable {process : Process} {id : TableId} {table : Table}

/-- The search at hand is a shortcut: without it the outcome is the same. -/
theorem Sound.canonical_eq_enter (sound : process.Sound) (id : TableId) (slots : List Slot) :
    canonical id slots process = enter id slots process := by
  cases present : process.tables[id]? with
  | none =>
      have absent := table_of_absent present
      rw [canonical, Action.bind_of_error _ _ process .unknownTable (by rw [absent]), absent,
        enter_of_absent slots present]
  | some table =>
      cases found : table.atHand? slots with
      | none => exact canonical_of_not_atHand present found
      | some signature =>
          have own := sound.tables id table present
          obtain ⟨member, same⟩ := own.atHand? found
          have known : process.pool.Knows slots := by
            rw [← same]
            exact (own.genuine signature member).known
          rw [canonical_of_atHand present found]
          exact (enter_of_known present ((own.find?_eq_some_iff sound.pool.toOrderly known
            signature).mpr ⟨member, same⟩)).symm

/-- Where the arity is granted, asking by arity is asking for so many positional slots. -/
theorem Sound.unnamed_agrees (sound : process.Sound) (present : process.tables[id]? = some table)
    {arity : Nat} (grants : table.Grants arity) :
    (unnamed id arity process).answer =
        (canonical id (List.replicate arity .positional) process).answer ∧
      (unnamed id arity process).state =
        (canonical id (List.replicate arity .positional) process).state := by
  by_cases inside : arity < table.unnamed.length
  · have found := List.getElem?_eq_getElem inside
    rw [unnamed_of_atHand present found,
      canonical_of_atHand present ((table.atHand?_replicate arity).trans found)]
    exact ⟨rfl, rfl⟩
  · obtain ⟨takes, room⟩ := grants.resolve_left inside
    have outlined : process.Outlines id table.outline := ⟨table, present, rfl⟩
    have outcome := unnamed_of_room outlined inside takes room
    rw [sound.canonical_eq_enter, outcome]
    exact ⟨rfl, rfl⟩

/-- Where the arity is not granted, asking by arity fails and changes nothing. -/
theorem unnamed_of_not_grants (present : process.tables[id]? = some table) {arity : Nat}
    (refused : ¬ table.Grants arity) :
    (unnamed id arity process).state = process ∧
      ((unnamed id arity process).answer = .error .capacity ∨
        ∃ warning, (unnamed id arity process).answer = .error (.hook warning)) := by
  have beyond : ¬ arity < table.unnamed.length := fun inside => refused (Or.inl inside)
  have outlined : process.Outlines id table.outline := ⟨table, present, rfl⟩
  cases fails : table.sink.fails (.largeUnnamed arity table.unnamed.length) with
  | true =>
      rw [unnamed_of_fails outlined beyond fails]
      exact ⟨rfl, Or.inr ⟨_, rfl⟩⟩
  | false =>
      have full : ¬ arity < 2 ^ 58 := fun room => refused (Or.inr ⟨fails, room⟩)
      have outcome := unnamed_refused outlined beyond fails full
      rw [outcome]
      exact ⟨rfl, Or.inl rfl⟩

section Names

variable (started : process.Started) (sound : process.Sound)
  (present : process.tables[id]? = some table)
include started sound present

end Names

end Process

end CallShape
