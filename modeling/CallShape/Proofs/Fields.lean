import CallShape.Proofs.Signature

set_option autoImplicit false

namespace CallShape

namespace Slot

theorem isRest_iff (slot : Slot) : slot.isRest = true ↔ slot.text? = some restName := by
  simp only [isRest, beq_iff_eq]

theorem isSome_text? (slot : Slot) : slot.text?.isSome = slot.isNamed := by
  cases slot <;> rfl

theorem beq_positional_iff (slot : Slot) : (slot == positional) = true ↔ slot = positional := by
  constructor
  · exact slot.eq_positional
  · rintro rfl
    rfl

end Slot

namespace Signature

theorem restPositions_eq_findIdxs (start : Nat) (slots : List Slot) :
    restPositions start slots = slots.findIdxs Slot.isRest start := by
  induction slots generalizing start with
  | nil => rfl
  | cons slot rest ih => simp only [restPositions, List.findIdxs_cons, ih]

theorem rests_build (serial : Nat) (slots : List Slot) :
    (build serial slots).rests = slots.findIdxs Slot.isRest :=
  restPositions_eq_findIdxs 0 slots

theorem mem_rests_build (serial : Nat) (slots : List Slot) (index : Nat) :
    index ∈ (build serial slots).rests ↔
      ∃ slot, slots[index]? = some slot ∧ slot.isRest = true := by
  rw [rests_build, List.mem_findIdxs_iff_exists_getElem_pos]
  constructor
  · rintro ⟨inside, marked⟩
    exact ⟨slots[index], List.getElem?_eq_getElem inside, marked⟩
  · rintro ⟨slot, present, marked⟩
    obtain ⟨inside, rfl⟩ := List.getElem?_eq_some_iff.mp present
    exact ⟨inside, marked⟩

/-- A `...` slot goes by the number of `...` slots before it. -/
theorem nthRest?_build (serial : Nat) (slots : List Slot) (number index : Nat) :
    (build serial slots).nthRest? number = some index ↔
      index ∈ (build serial slots).rests ∧ (slots.take index).countP Slot.isRest = number := by
  -- The library numbers the hits of a search and counts those before an index; the two are inverse.
  rw [nthRest?, mem_rests_build, rests_build, ← List.countPBefore_eq_countP_take]
  constructor
  · intro present
    obtain ⟨inside, rfl⟩ := List.getElem?_eq_some_iff.mp present
    have few : number < slots.countP Slot.isRest := by rwa [List.length_findIdxs] at inside
    rw [List.getElem_findIdxs_eq_findIdxNth]
    have below := List.findIdxNth_lt_length_of_lt_countP few
    exact ⟨⟨_, List.getElem?_eq_getElem below, List.pos_findIdxNth_getElem⟩,
      List.countPBefore_findIdxNth_of_lt_countP few⟩
  · rintro ⟨⟨slot, present, marked⟩, rfl⟩
    obtain ⟨below, rfl⟩ := List.getElem?_eq_some_iff.mp present
    have few := List.countPBefore_lt_countP_of_lt_length_of_pos marked
    have inside : slots.countPBefore Slot.isRest index <
        (slots.findIdxs Slot.isRest).length := by rwa [List.length_findIdxs]
    rw [List.getElem?_eq_getElem inside, List.getElem_findIdxs_eq_findIdxNth,
      List.findIdxNth_countPBefore_of_lt_length_of_pos marked]

theorem slotAt_build_inside (serial : Nat) {slots : List Slot} {index : Nat} {slot : Slot}
    (present : slots[index]? = some slot) : (build serial slots).slotAt index = .ok slot := by
  apply slotAt_of_slots
  · rw [arity_build, slots_build]
  · rw [slots_build]
    exact present

theorem slotAt_build_outside (serial : Nat) {slots : List Slot} {index : Nat}
    (outside : slots.length ≤ index) :
    (build serial slots).slotAt index = .error (.slotOutOfRange index slots.length) := by
  have beyond : ¬ index < (build serial slots).arity := Nat.not_lt.mpr outside
  rw [slotAt, if_neg beyond, arity_build]

theorem isRestAt_build (serial : Nat) {slots : List Slot} {index : Nat}
    (inside : index < slots.length) :
    (build serial slots).isRestAt index =
      .ok (decide (index ∈ (build serial slots).rests)) := by
  have present := List.getElem?_eq_getElem inside
  rw [isRestAt, slotAt_build_inside serial present]
  simp only [mem_rests_build, present, Option.some.injEq, exists_eq_left', Bool.decide_eq_true]
  rfl

theorem isAllPositional_build (serial : Nat) (slots : List Slot) :
    (build serial slots).isAllPositional = true ↔ ∀ slot ∈ slots, slot = .positional := by
  have stored : (build serial slots).isAllPositional = slots.all (· == Slot.positional) := by
    cases all : slots.all (· == Slot.positional) <;> simp [isAllPositional, build, all]
  rw [stored, List.all_eq_true]
  simp only [Slot.beq_positional_iff]

theorem names_build (serial : Nat) (slots : List Slot) :
    (build serial slots).names = slots.map Slot.text? := by
  rw [names, slots_build]

theorem namedCount_eq_countP_names (serial : Nat) (slots : List Slot) :
    (build serial slots).namedCount = (build serial slots).names.countP Option.isSome := by
  rw [names_build, List.countP_map]
  exact congrArg (List.countP · slots) (funext fun slot => slot.isSome_text?.symm)

/-- Leaving out the slots of an all-positional signature hides no name from the search. -/
theorem indexOfName_build (serial : Nat) (slots : List Slot) (name : String) :
    (build serial slots).indexOfName name =
      slots.findIdx? (fun slot => slot.text? == some name) := by
  by_cases all : slots.all (· == Slot.positional) = true
  · simp only [indexOfName, build, all, if_true, Option.bind_none]
    symm
    rw [List.findIdx?_eq_none_iff]
    intro slot member
    rw [slot.eq_positional (List.all_eq_true.mp all slot member)]
    rfl
  · simp only [indexOfName, build, all, Bool.false_eq_true, if_false, Option.bind_some]

namespace Genuine

variable {pool : Interner} {signature : Signature}

theorem namedCount (genuine : signature.Genuine pool) :
    signature.namedCount = signature.slots.countP Slot.isNamed := by
  rw [genuine.built, slots_build]
  rfl

theorem rests (genuine : signature.Genuine pool) :
    signature.rests = signature.slots.findIdxs Slot.isRest := by
  rw [genuine.built, slots_build, rests_build]

theorem isAllPositional_iff (genuine : signature.Genuine pool) :
    signature.isAllPositional = true ↔ ∀ slot ∈ signature.slots, slot = .positional := by
  rw [genuine.built, slots_build, isAllPositional_build]

theorem indexOfName_eq (genuine : signature.Genuine pool) (name : String) :
    signature.indexOfName name =
      signature.slots.findIdx? (fun slot => slot.text? == some name) := by
  rw [genuine.built, indexOfName_build, slots_build]

end Genuine

/-- The question for the one `...` slot is answered by how many there are. -/
theorem restIndex_cases (signature : Signature) :
    (signature.restIndex = .ok none ↔ signature.rests = []) ∧
    (∀ index, signature.restIndex = .ok (some index) ↔ signature.rests = [index]) ∧
    (∀ count, signature.restIndex = .error (.ambiguousRest count) ↔
      signature.rests.length = count ∧ 2 ≤ count) := by
  cases rests : signature.rests with
  | nil =>
      simp only [restIndex, rests, List.length_nil]
      grind
  | cons first later =>
      cases later with
      | nil =>
          simp only [restIndex, rests]
          grind
      | cons second others =>
          simp only [restIndex, rests]
          grind

/-- Everything that the signature says is what the slots say. -/
structure Describes (signature : Signature) (slots : List Slot) : Prop where
  arity : signature.arity = slots.length
  inside : ∀ index slot, slots[index]? = some slot → signature.slotAt index = .ok slot
  outside : ∀ index, slots.length ≤ index →
    signature.slotAt index = .error (.slotOutOfRange index slots.length)
  names : signature.names = slots.map Slot.text?
  allPositional : signature.isAllPositional = true ↔ ∀ slot ∈ slots, slot = .positional
  /-- Unmatched slots have no names either, but they are kept apart. -/
  allUnmatched : slots ≠ [] → (∀ slot ∈ slots, slot = .unmatched) →
    signature.isAllPositional = false
  named : signature.namedCount = slots.countP Slot.isNamed
  namesGiven : signature.namedCount = signature.names.countP Option.isSome
  ascending : signature.rests.Pairwise (· < ·)
  rests : ∀ index, index ∈ signature.rests ↔
    ∃ slot, slots[index]? = some slot ∧ slot.text? = some "..."
  restCount : signature.restCount = signature.rests.length
  nthRest : ∀ number, signature.nthRest? number = signature.rests[number]?
  /-- The number of a `...` slot counts those before it. -/
  numbered : ∀ number index, signature.nthRest? number = some index ↔
    index ∈ signature.rests ∧ (slots.take index).countP Slot.isRest = number
  isRest : ∀ index, index < slots.length →
    signature.isRestAt index = .ok (decide (index ∈ signature.rests))
  noRest : signature.restIndex = .ok none ↔ signature.rests = []
  oneRest : ∀ index, signature.restIndex = .ok (some index) ↔ signature.rests = [index]
  severalRests : ∀ count, signature.restIndex = .error (.ambiguousRest count) ↔
    signature.rests.length = count ∧ 2 ≤ count

/-- Whatever the slots, the signature made from them says everything about them and nothing
else. -/
theorem build_describes (serial : Nat) (slots : List Slot) :
    (build serial slots).Describes slots := by
  obtain ⟨noRest, oneRest, severalRests⟩ := restIndex_cases (build serial slots)
  refine
    { arity := rfl
      inside := fun index slot present => slotAt_build_inside serial present
      outside := fun index outside => slotAt_build_outside serial outside
      names := names_build serial slots
      allPositional := isAllPositional_build serial slots
      allUnmatched := ?_
      named := rfl
      namesGiven := namedCount_eq_countP_names serial slots
      ascending := ?_
      rests := ?_
      restCount := rfl
      nthRest := fun number => rfl
      numbered := nthRest?_build serial slots
      isRest := fun index inside => isRestAt_build serial inside
      noRest := noRest
      oneRest := oneRest
      severalRests := severalRests }
  · intro nonempty unmatched
    rw [← Bool.not_eq_true, isAllPositional_build]
    intro positional
    obtain ⟨slot, member⟩ := List.exists_mem_of_ne_nil slots nonempty
    have both := (unmatched slot member).symm.trans (positional slot member)
    cases both
  · rw [rests_build]
    exact List.pairwise_findIdxs
  · intro index
    rw [mem_rests_build]
    simp only [Slot.isRest_iff, restName]

/-- Near misses are not taken for `...`. -/
example :
    (build 0 [.named ⟨.empty, ".."⟩, .named ⟨.empty, "..."⟩, .unmatched,
      .named ⟨.empty, "...."⟩, .named ⟨.empty, "..."⟩]).rests = [1, 4] := by decide

end Signature

end CallShape
