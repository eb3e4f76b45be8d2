import CallShape.Proofs.Pool
import CallShape.Signature

set_option autoImplicit false

namespace CallShape

namespace Interner

theorem Knows.of_subset {pool : Interner} {slots fewer : List Slot} (known : pool.Knows slots)
    (subset : fewer ⊆ slots) : pool.Knows fewer :=
  fun symbol member => known symbol (subset member)

theorem Knows.head {pool : Interner} {slot : Slot} {rest : List Slot}
    (known : pool.Knows (slot :: rest)) : pool.Knows [slot] :=
  known.of_subset (List.cons_subset_cons slot (List.nil_subset rest))

theorem Knows.tail {pool : Interner} {slot : Slot} {rest : List Slot}
    (known : pool.Knows (slot :: rest)) : pool.Knows rest :=
  known.of_subset (List.subset_cons_self slot rest)

theorem Knows.append {pool : Interner} {first second : List Slot} (left : pool.Knows first)
    (right : pool.Knows second) : pool.Knows (first ++ second) := by
  intro symbol member
  rcases List.mem_append.mp member with early | late
  · exact left symbol early
  · exact right symbol late

theorem knows_replicate_positional (pool : Interner) (count : Nat) :
    pool.Knows (List.replicate count .positional) := by
  intro symbol member
  cases List.eq_of_mem_replicate member

theorem Orderly.slot_beq_iff {pool : Interner} (orderly : pool.Orderly) {first second : Slot}
    (firstKnown : pool.Knows [first]) (secondKnown : pool.Knows [second]) :
    (first == second) = true ↔ first = second := by
  cases first with
  | positional => cases second <;> simp [BEq.beq]
  | unmatched => cases second <;> simp [BEq.beq]
  | named one =>
      cases second with
      | positional => simp [BEq.beq]
      | unmatched => simp [BEq.beq]
      | named two =>
          have oneFound := firstKnown one List.mem_cons_self
          have twoFound := secondKnown two List.mem_cons_self
          constructor
          · intro equal
            have same : one.handle = two.handle := eq_of_beq equal
            have text := orderly.text_eq oneFound twoFound same
            rw [text, twoFound, Option.some.injEq] at oneFound
            rw [oneFound]
          · intro equal
            cases equal
            exact beq_self_eq_true one.handle

theorem Orderly.slots_beq_iff {pool : Interner} (orderly : pool.Orderly)
    {first second : List Slot} (firstKnown : pool.Knows first) (secondKnown : pool.Knows second) :
    (first == second) = true ↔ first = second := by
  induction first generalizing second with
  | nil => cases second <;> simp
  | cons slot rest ih =>
      cases second with
      | nil => simp
      | cons other others =>
          have head := orderly.slot_beq_iff firstKnown.head secondKnown.head
          have tail := ih firstKnown.tail secondKnown.tail
          rw [List.cons_beq_cons, Bool.and_eq_true, head, tail, List.cons.injEq]

theorem Knows.slot_eq_of_label {pool : Interner} {first second : Slot}
    (firstKnown : pool.Knows [first]) (secondKnown : pool.Knows [second])
    (same : first.label = second.label) : first = second := by
  cases first with
  | positional => cases second <;> simp_all [Slot.label]
  | unmatched => cases second <;> simp_all [Slot.label]
  | named one =>
      cases second with
      | positional => simp [Slot.label] at same
      | unmatched => simp [Slot.label] at same
      | named two =>
          have text : one.text = two.text := Label.named.inj same
          have oneFound := firstKnown one List.mem_cons_self
          have twoFound := secondKnown two List.mem_cons_self
          rw [text, twoFound, Option.some.injEq] at oneFound
          rw [oneFound]

/-- The labels of known slots say everything about them. -/
theorem Knows.eq_of_labels {pool : Interner} {first second : List Slot}
    (firstKnown : pool.Knows first) (secondKnown : pool.Knows second)
    (same : first.map Slot.label = second.map Slot.label) : first = second := by
  induction first generalizing second with
  | nil => exact (List.map_eq_nil_iff.mp same.symm).symm
  | cons slot rest ih =>
      cases second with
      | nil => simp at same
      | cons other others =>
          rw [List.map_cons, List.map_cons, List.cons.injEq] at same
          have head := firstKnown.head.slot_eq_of_label secondKnown.head same.1
          have tail := ih firstKnown.tail secondKnown.tail same.2
          rw [head, tail]

end Interner

namespace Signature

@[simp] theorem arity_build (serial : Nat) (slots : List Slot) :
    (build serial slots).arity = slots.length := rfl

@[simp] theorem serial_build (serial : Nat) (slots : List Slot) :
    (build serial slots).serial = serial := rfl

@[simp] theorem slots_build (serial : Nat) (slots : List Slot) :
    (build serial slots).slots = slots := by
  by_cases all : slots.all (· == Slot.positional) = true
  · simp only [Signature.slots, build, all, if_true, Option.getD_none]
    symm
    rw [List.eq_replicate_iff]
    refine ⟨rfl, ?_⟩
    intro slot member
    exact slot.eq_positional (List.all_eq_true.mp all slot member)
  · simp only [Signature.slots, build, all, Bool.false_eq_true, if_false, Option.getD_some]

/-- Reading one slot agrees with reading them all, although they may have been left out. -/
theorem slotAt_of_slots {signature : Signature} (sized : signature.arity = signature.slots.length)
    {index : Nat} {slot : Slot} (present : signature.slots[index]? = some slot) :
    signature.slotAt index = .ok slot := by
  have inside : index < signature.arity := by
    rw [sized]
    exact (List.getElem?_eq_some_iff.mp present).1
  rw [slotAt, if_pos inside]
  cases stored : signature.stored with
  | some own =>
      rw [slots, stored, Option.getD_some] at present
      rw [Option.bind_some, present, Option.getD_some]
  | none =>
      rw [slots, stored, Option.getD_none, List.getElem?_replicate, if_pos inside] at present
      rw [Option.bind_none, Option.getD_none, Option.some.inj present]

/-- Made from its own slots, whose names the interner knows. -/
structure Genuine (signature : Signature) (pool : Interner) : Prop where
  built : signature = build signature.serial signature.slots
  known : pool.Knows signature.slots

theorem genuine_build {pool : Interner} {slots : List Slot} (serial : Nat)
    (known : pool.Knows slots) : (build serial slots).Genuine pool := by
  refine ⟨?_, ?_⟩
  · rw [slots_build, serial_build]
  · rw [slots_build]
    exact known

namespace Genuine

variable {pool : Interner} {signature : Signature}

theorem arity (genuine : signature.Genuine pool) : signature.arity = signature.slots.length := by
  rw [genuine.built, arity_build, slots_build]

theorem slotAt (genuine : signature.Genuine pool) {index : Nat} {slot : Slot}
    (present : signature.slots[index]? = some slot) : signature.slotAt index = .ok slot :=
  slotAt_of_slots genuine.arity present

theorem slotAt_eq_ok_iff (genuine : signature.Genuine pool) (index : Nat) (slot : Slot) :
    signature.slotAt index = .ok slot ↔ signature.slots[index]? = some slot := by
  constructor
  · intro read
    by_cases inside : index < signature.slots.length
    · have present := List.getElem?_eq_getElem inside
      rw [genuine.slotAt present] at read
      rw [present, Except.ok.inj read]
    · rw [Signature.slotAt, if_neg (by rw [genuine.arity]; exact inside)] at read
      cases read
  · exact genuine.slotAt

theorem of_grows {later : Interner} (genuine : signature.Genuine pool) (early : pool.Orderly)
    (late : later.Orderly) (grown : pool.Grows later) : signature.Genuine later :=
  ⟨genuine.built, early.knows_of_grows late grown genuine.known⟩

/-- How a table recognises a signature, by arity and handles, finds exactly its slots. -/
theorem matches_iff (genuine : signature.Genuine pool) (orderly : pool.Orderly)
    {slots : List Slot} (known : pool.Knows slots) :
    (signature.arity == slots.length && signature.hasSlots slots) = true ↔
      signature.slots = slots := by
  rw [Bool.and_eq_true, beq_iff_eq, genuine.arity]
  constructor
  · intro accepted
    obtain ⟨same, has⟩ := accepted
    rw [genuine.built, hasSlots_build _ _ _ same] at has
    exact (orderly.slots_beq_iff genuine.known known).mp has
  · intro equal
    refine ⟨congrArg List.length equal, ?_⟩
    rw [genuine.built, hasSlots_build _ _ _ (congrArg List.length equal)]
    exact (orderly.slots_beq_iff genuine.known known).mpr equal

end Genuine

end Signature

end CallShape
