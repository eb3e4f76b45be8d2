import CallShape.Arguments
import CallShape.Proofs.Fields

set_option autoImplicit false

namespace CallShape

/-- In two lists of one length, the first pair by its left side is where the left list has it. -/
theorem find?_zip_left {α β : Type} {names : List β} {values : List α}
    (same : names.length = values.length) (wanted : β → Bool) :
    ((names.zip values).find? fun pair => wanted pair.1).map Prod.snd =
      (names.findIdx? wanted).bind (values[·]?) := by
  induction names generalizing values with
  | nil => rfl
  | cons name names ih =>
      cases values with
      | nil => cases same
      | cons value values =>
          have later := ih (Nat.succ.inj same)
          rw [List.zip_cons_cons, List.find?_cons, List.findIdx?_cons]
          cases wanted name with
          | true => rfl
          | false =>
              simp only [Bool.false_eq_true, if_false, later, Option.bind_map]
              rfl

namespace Arguments

variable {α β : Type}

section Operations

variable {arguments : Arguments α} {index : Nat}

theorem valueAt_eq_ok_iff {value : α} :
    arguments.valueAt index = .ok value ↔ arguments.values[index]? = some value := by
  rw [valueAt]
  cases arguments.values[index]? with
  | none => simp
  | some other => simp

theorem valueAt_of_inside (inside : index < arguments.values.length) :
    arguments.valueAt index = .ok arguments.values[index] :=
  valueAt_eq_ok_iff.mpr (List.getElem?_eq_getElem inside)

theorem valueAt_of_outside (outside : arguments.values.length ≤ index) :
    arguments.valueAt index = .error (.outOfBounds arguments.values.length index) := by
  simp only [valueAt, List.getElem?_eq_none outside]

theorem replace_of_inside (inside : index < arguments.values.length) (value : α) :
    arguments.replace index value =
      .ok (arguments.values[index],
        { arguments with values := arguments.values.set index value }) := by
  rw [replace, valueAt_of_inside inside]
  rfl

theorem replace_of_outside (outside : arguments.values.length ≤ index) (value : α) :
    arguments.replace index value = .error (.outOfBounds arguments.values.length index) := by
  rw [replace, valueAt_of_outside outside]
  rfl

theorem make_of_same {values : List α} {signature : Signature}
    (same : values.length = signature.arity) : make values signature = .ok ⟨values, signature⟩ :=
  if_pos same

theorem make_eq_error_iff {values : List α} {signature : Signature} {reason : ArgumentsError} :
    make values signature = .error reason ↔
      values.length ≠ signature.arity ∧
        reason = .lengthMismatch values.length signature.arity := by
  by_cases same : values.length = signature.arity
  · simp [make, same]
  · simp [make, same, eq_comm]

theorem eq_of_make {values : List α} {signature : Signature}
    (made : make values signature = .ok arguments) :
    values.length = signature.arity ∧ arguments = ⟨values, signature⟩ := by
  by_cases same : values.length = signature.arity
  · rw [make_of_same same] at made
    exact ⟨same, (Except.ok.inj made).symm⟩
  · rw [make, if_neg same] at made
    cases made

end Operations

/-- A signature made from slots, and as many values as it has slots. -/
structure Aligned (arguments : Arguments α) : Prop where
  built : arguments.signature =
    .build arguments.signature.serial arguments.signature.slots
  sized : arguments.values.length = arguments.signature.arity

/-- What the owner of a list can do with it, and the list that the owner has then. -/
inductive Step : {α β : Type} → Arguments α → Arguments β → Prop where
  | replaced {α : Type} {before after : Arguments α} {index : Nat} {value old : α}
      (done : before.replace index value = .ok (old, after)) : Step before after
  /-- A refused replacement gives no new list. -/
  | refused {α : Type} {before : Arguments α} {index : Nat} {value : α} {fault : Fault}
      (failed : before.replace index value = .error fault) : Step before before
  /-- Anything can be written into the storage, but it cannot be made longer or shorter. -/
  | written {α : Type} (before : Arguments α) (values : List α)
      (same : values.length = before.values.length) : Step before { before with values := values }
  /-- What becomes of a value may depend on those before it, and so on its position. -/
  | mapped {α β : Type} (before : Arguments α) (f : Nat → α → β) : Step before (before.mapIdx f)
  /-- A copy has copies of the values. -/
  | copied {α : Type} (before : Arguments α) (copy : α → α) : Step before (before.map copy)
  /-- Taken apart and put together again. -/
  | rebound {α : Type} {before after : Arguments α}
      (made : make before.values before.signature = .ok after) : Step before after

/-- The lists that can be had: made for a signature, and then taken through any steps. -/
inductive Obtained : {α : Type} → Arguments α → Prop where
  | made {α : Type} {values : List α} {serial : Nat} {slots : List Slot} {arguments : Arguments α}
      (bound : make values (.build serial slots) = .ok arguments) : Obtained arguments
  | step {α β : Type} {before : Arguments α} {after : Arguments β} (obtained : Obtained before)
      (step : Step before after) : Obtained after

/-- Reversing is one way to write. -/
theorem step_reverse (arguments : Arguments α) : Step arguments arguments.reverse :=
  .written arguments arguments.values.reverse List.length_reverse

theorem Step.aligned {before : Arguments α} {after : Arguments β} (step : Step before after)
    (aligned : before.Aligned) : after.Aligned := by
  cases step with
  | @replaced _ _ index value old done =>
      by_cases inside : index < before.values.length
      · rw [replace_of_inside inside] at done
        cases done
        exact ⟨aligned.built, List.length_set.trans aligned.sized⟩
      · rw [replace_of_outside (Nat.le_of_not_lt inside)] at done
        cases done
  | refused failed => exact aligned
  | written _ _ same => exact ⟨aligned.built, same.trans aligned.sized⟩
  | mapped => exact ⟨aligned.built, List.length_mapIdx.trans aligned.sized⟩
  | copied => exact ⟨aligned.built, List.length_mapIdx.trans aligned.sized⟩
  | rebound made =>
      obtain ⟨-, rfl⟩ := eq_of_make made
      exact aligned

theorem Obtained.aligned {arguments : Arguments α} (obtained : Obtained arguments) :
    arguments.Aligned := by
  induction obtained with
  | @made _ _ serial slots _ bound =>
      obtain ⟨same, rfl⟩ := eq_of_make bound
      refine ⟨?_, same⟩
      rw [Signature.slots_build, Signature.serial_build]
  | step _ step ih => exact step.aligned ih

namespace Aligned

variable {arguments : Arguments α} (aligned : arguments.Aligned)
include aligned

theorem arity : arguments.signature.arity = arguments.signature.slots.length := by
  rw [aligned.built, Signature.arity_build, Signature.slots_build]

theorem length_names : arguments.signature.names.length = arguments.values.length := by
  rw [aligned.sized, aligned.arity, Signature.names, List.length_map]

theorem length_pairs : arguments.pairs.length = arguments.length := by
  rw [pairs, List.length_zip, aligned.length_names, Nat.min_self]
  exact aligned.sized

/-- One pair for every slot: its name and its value. -/
theorem pair_at {index : Nat} (inside : index < arguments.length) :
    ∃ name value, arguments.signature.nameAt index = .ok name ∧
      arguments.valueAt index = .ok value ∧ arguments.pairs[index]? = some (name, value) := by
  have inValues : index < arguments.values.length := by
    rw [aligned.sized]
    exact inside
  have inSlots : index < arguments.signature.slots.length := by
    rw [← aligned.length_names, Signature.names, List.length_map] at inValues
    exact inValues
  have slot := List.getElem?_eq_getElem inSlots
  have read : arguments.signature.nameAt index =
      .ok arguments.signature.slots[index].text? := by
    rw [Signature.nameAt, Signature.slotAt_of_slots aligned.arity slot]
    rfl
  refine ⟨_, _, read, valueAt_of_inside inValues, ?_⟩
  rw [pairs, List.getElem?_zip_eq_some]
  refine ⟨?_, List.getElem?_eq_getElem inValues⟩
  rw [Signature.names, List.getElem?_map, slot, Option.map_some]

/-- By name, the value of the first pair with the name is found. -/
theorem valueNamed_eq (name : String) :
    arguments.valueNamed name =
      (arguments.pairs.find? fun pair => pair.1 == some name).map Prod.snd := by
  have index : arguments.signature.indexOfName name =
      arguments.signature.names.findIdx? (· == some name) := by
    rw [aligned.built, Signature.indexOfName_build, Signature.names_build, List.findIdx?_map]
    rfl
  rw [pairs, find?_zip_left aligned.length_names (· == some name), valueNamed, index]

/-- A name that the signature finds has a value. -/
theorem value_of_index {name : String} {index : Nat}
    (found : arguments.signature.indexOfName name = some index) :
    ∃ value, arguments.valueAt index = .ok value ∧ arguments.valueNamed name = some value := by
  have inside : index < arguments.values.length := by
    rw [aligned.built, Signature.indexOfName_build] at found
    have bound := (List.findIdx?_eq_some_iff_getElem.mp found).1
    rw [← aligned.length_names, Signature.names, List.length_map]
    exact bound
  refine ⟨_, valueAt_of_inside inside, ?_⟩
  rw [valueNamed, found, Option.bind_some, List.getElem?_eq_getElem inside]

end Aligned

/-- By name, a mapped list has what the position makes of the old value. -/
theorem valueNamed_mapIdx (arguments : Arguments α) (f : Nat → α → β) {name : String} {index : Nat}
    (found : arguments.signature.indexOfName name = some index) :
    (arguments.mapIdx f).valueNamed name = (arguments.valueNamed name).map (f index) := by
  have foundStill : (arguments.mapIdx f).signature.indexOfName name = some index := found
  rw [valueNamed, foundStill, valueNamed, found, Option.bind_some, Option.bind_some, mapIdx,
    List.getElem?_mapIdx]

theorem valueNamed_map (arguments : Arguments α) (f : α → β) (name : String) :
    (arguments.map f).valueNamed name = (arguments.valueNamed name).map f := by
  cases found : arguments.signature.indexOfName name with
  | some index => exact arguments.valueNamed_mapIdx (fun _ => f) found
  | none =>
      have missing : (arguments.map f).signature.indexOfName name = none := found
      rw [valueNamed, missing, valueNamed, found]
      rfl

/-- Whatever was done with a list: it has as many values as its signature has slots, so a name that
the signature finds has a value; there is one pair for each slot, of its name and its value, and by
name the value of the first pair with that name is found; taken apart, it can be put together again
to the same list; and a mapped list keeps the signature and has under each name what the function
makes of the value. A list is refused exactly when the lengths differ. -/
theorem obtained_is_aligned {α : Type} (arguments : Arguments α) (obtained : Obtained arguments) :
    arguments.values.length = arguments.signature.arity ∧
    (∀ name index, arguments.signature.indexOfName name = some index →
      ∃ value, arguments.valueAt index = .ok value ∧ arguments.valueNamed name = some value) ∧
    arguments.pairs.length = arguments.length ∧
    (∀ index, index < arguments.length →
      ∃ name value, arguments.signature.nameAt index = .ok name ∧
        arguments.valueAt index = .ok value ∧ arguments.pairs[index]? = some (name, value)) ∧
    (∀ name, arguments.valueNamed name =
      (arguments.pairs.find? fun pair => pair.1 == some name).map Prod.snd) ∧
    make arguments.values arguments.signature = .ok arguments ∧
    (∀ (β : Type) (f : α → β), (arguments.map f).signature = arguments.signature ∧
      ∀ name, (arguments.map f).valueNamed name = (arguments.valueNamed name).map f) ∧
    (∀ (β : Type) (f : Nat → α → β), (arguments.mapIdx f).signature = arguments.signature ∧
      ∀ name index, arguments.signature.indexOfName name = some index →
        (arguments.mapIdx f).valueNamed name = (arguments.valueNamed name).map (f index)) ∧
    (∀ (values : List α) (signature : Signature) (reason : ArgumentsError),
      make values signature = .error reason ↔
        values.length ≠ signature.arity ∧
          reason = .lengthMismatch values.length signature.arity) := by
  have aligned := obtained.aligned
  refine ⟨aligned.sized, fun name index => aligned.value_of_index, aligned.length_pairs,
    fun index => aligned.pair_at, aligned.valueNamed_eq, make_of_same aligned.sized, ?_, ?_, ?_⟩
  · exact fun β f => ⟨rfl, arguments.valueNamed_map f⟩
  · exact fun β f => ⟨rfl, fun name index => arguments.valueNamed_mapIdx f⟩
  · exact fun values signature reason => make_eq_error_iff

/-- One name twice, and a slot without a name in between. -/
def twiceNamed : Signature :=
  .build 3 [.named (Interner.symbolAt "a" 0), .positional, .named (Interner.symbolAt "a" 0)]

/-- A value is replaced, the values are reversed and doubled; under the name that stands twice the
first value is found. -/
theorem obtained_is_aligned_twice_named :
    Obtained (⟨[18, 40, 2], twiceNamed⟩ : Arguments Nat) ∧
      (⟨[18, 40, 2], twiceNamed⟩ : Arguments Nat).valueNamed "a" = some 18 ∧
      (⟨[18, 40, 2], twiceNamed⟩ : Arguments Nat).valueNamed "b" = none ∧
      make [18, 40, 2] twiceNamed = .ok ⟨[18, 40, 2], twiceNamed⟩ := by
  have bound : make [1, 20, 3] twiceNamed = .ok ⟨[1, 20, 3], twiceNamed⟩ := rfl
  have done : (⟨[1, 20, 3], twiceNamed⟩ : Arguments Nat).replace 2 9 =
      .ok (3, ⟨[1, 20, 9], twiceNamed⟩) := rfl
  have replaced : Obtained (⟨[1, 20, 9], twiceNamed⟩ : Arguments Nat) :=
    (Obtained.made bound).step (.replaced done)
  have reversed : Obtained (⟨[9, 20, 1], twiceNamed⟩ : Arguments Nat) :=
    replaced.step (step_reverse _)
  have mapped : Obtained (⟨[18, 40, 2], twiceNamed⟩ : Arguments Nat) :=
    reversed.step (.mapped _ fun _ value => 2 * value)
  obtain ⟨-, -, -, -, named, parts, -⟩ := obtained_is_aligned _ mapped
  exact ⟨mapped, (named "a").trans (by decide), (named "b").trans (by decide), parts⟩

end Arguments

end CallShape
