import CallShape.Arguments
import CallShape.Proofs.Capacity
import CallShape.Proofs.Operation

set_option autoImplicit false

namespace CallShape

namespace Spread

/-- One item for every slot of the flattened call: the given one where the group is ordinary,
those read off the expansion where it is spread. -/
def flattenWith {α : Type} (read : Signature → List α) :
    List α → List (Option Signature) → List α
  | item :: items, none :: groups => item :: flattenWith read items groups
  | _ :: items, some expansion :: groups => read expansion ++ flattenWith read items groups
  | _, _ => []

theorem flattenWith_cons {α : Type} (read : Signature → List α) (item : α) (items : List α)
    (group : Option Signature) (groups : List (Option Signature)) :
    flattenWith read (item :: items) (group :: groups) =
      group.elim [item] read ++ flattenWith read items groups := by
  cases group with
  | none => rfl
  | some expansion => rfl

theorem map_flattenWith {α β : Type} (f : α → β) (read : Signature → List α) (items : List α)
    (groups : List (Option Signature)) :
    (flattenWith read items groups).map f =
      flattenWith (fun signature => (read signature).map f) (items.map f) groups := by
  induction groups generalizing items with
  | nil => cases items <;> rfl
  | cons group groups ih =>
      cases items with
      | nil => cases group <;> rfl
      | cons item items =>
          cases group with
          | none => simp only [flattenWith, List.map_cons, ih]
          | some expansion => simp only [flattenWith, List.map_cons, List.map_append, ih]

/-- The slots of the flattened call. -/
def flattenedSlots (spread : Spread) (supplied : Signature) : List Slot :=
  flattenWith Signature.slots supplied.slots spread.groups

/-- The labels of the flattened call. -/
def flattenedLabels (spread : Spread) (supplied : Signature) : List Label :=
  flattenWith Signature.labels supplied.labels spread.groups

theorem labels_flattenedSlots (spread : Spread) (supplied : Signature) :
    (spread.flattenedSlots supplied).map Slot.label = spread.flattenedLabels supplied :=
  map_flattenWith Slot.label Signature.slots supplied.slots spread.groups

theorem knows_flattenWith {pool : Interner} {slots : List Slot}
    {groups : List (Option Signature)} (known : pool.Knows slots)
    (expansions : ∀ expansion, some expansion ∈ groups → pool.Knows expansion.slots) :
    pool.Knows (flattenWith Signature.slots slots groups) := by
  induction groups generalizing slots with
  | nil => cases slots <;> exact fun symbol member => absurd member List.not_mem_nil
  | cons group groups ih =>
      have later : ∀ expansion, some expansion ∈ groups → pool.Knows expansion.slots :=
        fun expansion member => expansions expansion (List.mem_cons_of_mem group member)
      cases slots with
      | nil => cases group <;> exact fun symbol member => absurd member List.not_mem_nil
      | cons slot slots =>
          cases group with
          | none => exact known.head.append (ih known.tail later)
          | some expansion =>
              exact (expansions expansion List.mem_cons_self).append (ih known.tail later)

theorem expandFrom_eq {pool : Interner} {supplied : Signature} (genuine : supplied.Genuine pool)
    (start : Nat) (groups : List (Option Signature))
    (covered : start + groups.length = supplied.arity) :
    expandFrom supplied start groups =
      .ok (flattenWith Signature.slots (supplied.slots.drop start) groups) := by
  induction groups generalizing start with
  | nil =>
      cases supplied.slots.drop start <;> rfl
  | cons group groups ih =>
      rw [List.length_cons] at covered
      have inside : start < supplied.slots.length := by
        rw [← genuine.arity]
        omega
      have later := ih (start + 1) (by omega)
      rw [List.drop_eq_getElem_cons inside]
      cases group with
      | none =>
          have slot := genuine.slotAt (List.getElem?_eq_getElem inside)
          simp only [expandFrom, slot, later, bind, Except.bind, flattenWith]
      | some expansion =>
          simp only [expandFrom, later, bind, Except.bind, flattenWith]

theorem expand_of_covered {pool : Interner} {supplied : Signature}
    (genuine : supplied.Genuine pool) {spread : Spread}
    (covered : supplied.arity = spread.length) (fits : spread.Fits) :
    spread.expand supplied = .ok (spread.flattenedSlots supplied) := by
  have expanded := expandFrom_eq genuine 0 spread.groups (by rw [Nat.zero_add]; exact covered.symm)
  rw [expand, if_pos covered, reserve_slots, if_pos fits, expanded]
  rfl

theorem expand_of_full {supplied : Signature} {spread : Spread}
    (covered : supplied.arity = spread.length) (full : ¬ spread.Fits) :
    spread.expand supplied = .error spread.shortage := by
  rw [expand, if_pos covered, reserve_slots, if_neg full]
  rfl

theorem expand_of_mismatch {supplied : Signature} {spread : Spread}
    (mismatch : supplied.arity ≠ spread.length) :
    spread.expand supplied =
      .error (.signature (.spreadLength supplied.arity spread.length)) := by
  rw [expand, if_neg mismatch]

/-- The slot that a source stands for. -/
def Stands (spread : Spread) (supplied : Signature) (slot : Slot) : Source → Prop
  | .direct index => supplied.slots[index]? = some slot
  | .spread group index =>
      ∃ expansion, spread.groupAt group = some expansion ∧ expansion.slots[index]? = some slot

/-- The two walks over the groups keep in step. -/
theorem sourcesFrom_stand {pool : Interner} {spread : Spread} {supplied : Signature}
    (expansions : ∀ expansion, some expansion ∈ spread.groups → expansion.Genuine pool)
    (start : Nat) (groups : List (Option Signature)) (here : spread.groups.drop start = groups)
    (covered : start + groups.length = supplied.slots.length) :
    List.Forall₂ (fun source slot => spread.Stands supplied slot source)
      (sourcesFrom start groups)
      (flattenWith Signature.slots (supplied.slots.drop start) groups) := by
  induction groups generalizing start with
  | nil =>
      cases supplied.slots.drop start <;> exact .nil
  | cons group groups ih =>
      rw [List.length_cons] at covered
      have inside : start < supplied.slots.length := by omega
      have present : spread.groups[start]? = some group := by
        rw [← List.head?_drop, here, List.head?_cons]
      have next : spread.groups.drop (start + 1) = groups := by
        rw [← List.tail_drop, here, List.tail_cons]
      have later := ih (start + 1) next (by omega)
      rw [List.drop_eq_getElem_cons inside]
      cases group with
      | none => exact .cons (List.getElem?_eq_getElem inside) later
      | some expansion =>
          have genuine := expansions expansion (List.mem_of_getElem? present)
          have found : spread.groupAt start = some expansion := by
            rw [groupAt, present, Option.join_some]
          apply List.rel_append _ later
          rw [List.forall₂_iff_get]
          refine ⟨?_, ?_⟩
          · rw [List.length_map, List.length_range, genuine.arity]
          · intro index _ below
            simp only [List.get_eq_getElem, List.getElem_map, List.getElem_range]
            exact ⟨expansion, found, List.getElem?_eq_getElem below⟩

theorem sources_stand {pool : Interner} {spread : Spread} {supplied : Signature}
    (genuine : supplied.Genuine pool)
    (expansions : ∀ expansion, some expansion ∈ spread.groups → expansion.Genuine pool)
    (covered : supplied.arity = spread.length) :
    List.Forall₂ (fun source slot => spread.Stands supplied slot source) spread.sources
      (spread.flattenedSlots supplied) := by
  have whole : 0 + spread.groups.length = supplied.slots.length := by
    rw [Nat.zero_add, ← genuine.arity, covered]
    rfl
  exact sourcesFrom_stand expansions 0 spread.groups rfl whole

theorem totalWidth_append (first second : List (Option Signature)) :
    totalWidth (first ++ second) = totalWidth first + totalWidth second := by
  induction first with
  | nil => simp only [List.nil_append, totalWidth, Nat.zero_add]
  | cons group groups ih =>
      simp only [List.cons_append, totalWidth, ih]
      omega

theorem length_sourcesFrom (start : Nat) (groups : List (Option Signature)) :
    (sourcesFrom start groups).length = totalWidth groups := by
  induction groups generalizing start with
  | nil => rfl
  | cons group groups ih =>
      cases group with
      | none =>
          simp only [sourcesFrom, List.length_cons, ih, totalWidth, width]
          omega
      | some expansion =>
          simp only [sourcesFrom, List.length_append, List.length_map, List.length_range, ih,
            totalWidth, width]

theorem length_sources (spread : Spread) : spread.sources.length = totalWidth spread.groups :=
  length_sourcesFrom 0 spread.groups

theorem length_flattenedSlots {pool : Interner} {spread : Spread} {supplied : Signature}
    (genuine : supplied.Genuine pool)
    (expansions : ∀ expansion, some expansion ∈ spread.groups → expansion.Genuine pool)
    (covered : supplied.arity = spread.length) :
    (spread.flattenedSlots supplied).length = totalWidth spread.groups := by
  rw [← length_sources]
  exact (sources_stand genuine expansions covered).length_eq.symm

end Spread

namespace Process

/-- Flattening comes to a request for the slots of the flattened call. -/
theorem flatten_of_fits {supplied : Signature} {pool : Interner}
    (genuine : supplied.Genuine pool) {spread : Spread}
    (covered : supplied.arity = spread.length) (fits : spread.Fits) (id : TableId) :
    flatten id supplied spread = canonical id (spread.flattenedSlots supplied) := by
  rw [flatten, Spread.expand_of_covered genuine covered fits]
  rfl

/-- Where there is no room, nothing is looked up. -/
theorem flatten_of_full {supplied : Signature} {spread : Spread}
    (covered : supplied.arity = spread.length) (full : ¬ spread.Fits) (id : TableId) :
    flatten id supplied spread = Action.fail spread.shortage := by
  rw [flatten, Spread.expand_of_full covered full]
  rfl

theorem flatten_of_mismatch {supplied : Signature} {spread : Spread}
    (mismatch : supplied.arity ≠ spread.length) (id : TableId) :
    flatten id supplied spread =
      Action.fail (.signature (.spreadLength supplied.arity spread.length)) := by
  rw [flatten, Spread.expand_of_mismatch mismatch]
  rfl

theorem flatten_keeps {process : Process} (sound : process.Sound) (id : TableId)
    {supplied : Signature} {spread : Spread} (held : process.Holds supplied)
    (expansions : ∀ expansion, some expansion ∈ spread.groups → process.Holds expansion) :
    discipline.Keeps (flatten id supplied spread) process
      (Gives id (spread.flattenedSlots supplied)) := by
  have genuine := sound.genuine held
  by_cases covered : supplied.arity = spread.length
  · by_cases fits : spread.Fits
    · have known : process.pool.Knows (spread.flattenedSlots supplied) :=
        Spread.knows_flattenWith genuine.known fun expansion member =>
          (sound.genuine (expansions expansion member)).known
      rw [flatten_of_fits genuine covered fits]
      exact canonical_keeps sound id known
    · rw [flatten_of_full covered fits]
      exact Discipline.Keeps.fail sound
  · rw [flatten_of_mismatch covered]
    exact Discipline.Keeps.fail sound

/-- A spread that covers the call is not refused if there is room. -/
theorem flatten_attains {process : Process} (sound : process.Sound) {id : TableId}
    (inside : id < process.tables.length) {supplied : Signature} {spread : Spread}
    (held : process.Holds supplied)
    (expansions : ∀ expansion, some expansion ∈ spread.groups → process.Holds expansion)
    (covered : supplied.arity = spread.length) (fits : spread.Fits) :
    discipline.Attains (flatten id supplied spread) process
      (Gives id (spread.flattenedSlots supplied)) := by
  refine ⟨flatten_keeps sound id held expansions, ?_⟩
  rw [flatten_of_fits (sound.genuine held) covered fits]
  exact canonical_ok (List.getElem?_eq_getElem inside) _

end Process

end CallShape
