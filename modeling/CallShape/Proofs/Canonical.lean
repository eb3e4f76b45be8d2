import CallShape.Proofs.History

set_option autoImplicit false

namespace CallShape

namespace Signature

/-- Read slot by slot, the signature is as the labels say, and its names are symbols of the
interner. -/
def Reads (signature : Signature) (pool : Interner) (labels : List Label) : Prop :=
  signature.arity = labels.length ∧
    ∀ index label, labels[index]? = some label →
      ∃ slot, signature.slotAt index = .ok slot ∧ slot.label = label ∧ pool.Knows [slot]

/-- The same length, and at every position both named with the same text, both positional or
both unmatched. -/
def SameShape (first second : Signature) : Prop :=
  first.arity = second.arity ∧
    ∀ index, index < first.arity →
      (first.slotAt index).map Slot.label = (second.slotAt index).map Slot.label

theorem Genuine.reads {signature : Signature} {pool : Interner}
    (genuine : signature.Genuine pool) : signature.Reads pool signature.labels := by
  refine ⟨?_, ?_⟩
  · rw [labels, List.length_map]
    exact genuine.arity
  · intro index label present
    rw [labels, List.getElem?_map, Option.map_eq_some_iff] at present
    obtain ⟨slot, present, own⟩ := present
    refine ⟨slot, genuine.slotAt present, own, ?_⟩
    intro symbol member
    rw [← List.mem_singleton.mp member] at present
    exact genuine.known symbol (List.mem_of_getElem? present)

theorem Genuine.sameShape_iff {first second : Signature} {pool : Interner}
    (firstGenuine : first.Genuine pool) (secondGenuine : second.Genuine pool) :
    first.SameShape second ↔ first.slots = second.slots := by
  constructor
  · intro alike
    obtain ⟨length, pointwise⟩ := alike
    apply firstGenuine.known.eq_of_labels secondGenuine.known
    have lengths : first.slots.length = second.slots.length := by
      rw [← firstGenuine.arity, ← secondGenuine.arity, length]
    apply List.ext_getElem
    · rw [List.length_map, List.length_map, lengths]
    · intro index inside otherInside
      rw [List.length_map] at inside otherInside
      have same := pointwise index (firstGenuine.arity ▸ inside)
      rw [firstGenuine.slotAt (List.getElem?_eq_getElem inside),
        secondGenuine.slotAt (List.getElem?_eq_getElem otherInside)] at same
      rw [List.getElem_map, List.getElem_map]
      exact Except.ok.inj same
  · intro same
    refine ⟨?_, ?_⟩
    · rw [firstGenuine.arity, secondGenuine.arity, same]
    · intro index inside
      rw [firstGenuine.arity] at inside
      have present := List.getElem?_eq_getElem inside
      have otherPresent : second.slots[index]? = some first.slots[index] := by
        rw [← same]
        exact present
      rw [firstGenuine.slotAt present, secondGenuine.slotAt otherPresent]

end Signature

namespace Process

theorem Sound.same_instance_iff {process : Process} (sound : process.Sound) {id : TableId}
    {first second : Signature} (firstHeld : process.HeldBy id first)
    (secondHeld : process.HeldBy id second) :
    (first == second) = true ↔ first.SameShape second := by
  rw [(sound.genuine firstHeld.holds).sameShape_iff (sound.genuine secondHeld.holds)]
  exact sound.beq_iff_slots firstHeld secondHeld

/-- Over every run, a returned signature reads back what its call asked for, and two signatures
that one table returned are the same instance exactly when they have the same shape. -/
theorem returned_is_canonical (calls : List Call) (admissible : Admissible calls {})
    (id : TableId) :
    (∀ index call signature, Returned calls index id call signature →
      ∃ labels, call.labels? = some labels ∧
        signature.Reads (after calls {}).pool labels) ∧
    (∀ first second firstCall secondCall one two,
      Returned calls first id firstCall one → Returned calls second id secondCall two →
      ((one == two) = true ↔ one.SameShape two)) := by
  have sound := (new_sound.after admissible).1
  refine ⟨?_, ?_⟩
  · intro index call signature returned
    obtain ⟨labels, asked, held, read⟩ := returned.answers admissible
    refine ⟨labels, asked, ?_⟩
    rw [← read]
    exact (sound.genuine held.holds).reads
  · intro first second firstCall secondCall one two firstReturned secondReturned
    obtain ⟨-, -, firstHeld, -⟩ := firstReturned.answers admissible
    obtain ⟨-, -, secondHeld, -⟩ := secondReturned.answers admissible
    exact sound.same_instance_iff firstHeld secondHeld

/-- A table is asked for one shape in two ways, and for another one in between. -/
def askedTwice : List Call :=
  [.openTable { cacheLength := 1 }, .forNames (.numbered 0) [some "a", none],
    .forNames (.numbered 0) [some "a", some ""],
    .forFilledNames (.numbered 0) [some "a", some ""]]

theorem returned_is_canonical_asked_twice :
    Admissible askedTwice {} ∧ ∃ one two three,
      Returned askedTwice 1 0 (.forNames (.numbered 0) [some "a", none]) one ∧
      Returned askedTwice 2 0 (.forNames (.numbered 0) [some "a", some ""]) two ∧
      Returned askedTwice 3 0 (.forFilledNames (.numbered 0) [some "a", some ""]) three ∧
      one.SameShape three ∧ ¬ one.SameShape two := by
  have admissible : Admissible askedTwice {} := ⟨trivial, trivial, trivial, trivial, trivial⟩
  obtain ⟨-, canonical⟩ := returned_is_canonical askedTwice admissible 0
  have first : Returned askedTwice 1 0 _ _ := ⟨rfl, rfl, rfl⟩
  have second : Returned askedTwice 2 0 _ _ := ⟨rfl, rfl, rfl⟩
  have third : Returned askedTwice 3 0 _ _ := ⟨rfl, rfl, rfl⟩
  refine ⟨admissible, _, _, _, first, second, third, ?_, ?_⟩
  · exact (canonical 1 3 _ _ _ _ first third).mp rfl
  · intro same
    have equal := (canonical 1 2 _ _ _ _ first second).mpr same
    exact absurd equal (by decide +kernel)

end Process

end CallShape
