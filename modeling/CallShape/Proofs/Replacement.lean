import CallShape.Proofs.Alignment
import Mathlib.Data.Multiset.AddSub

set_option autoImplicit false

namespace CallShape.Arguments

variable {α : Type}

/-- A call for a replacement. -/
structure Write (α : Type) where
  index : Nat
  value : α

/-- The answer to the call, and the list that the caller has then. -/
def attempt (arguments : Arguments α) (write : Write α) : Except Fault α × Arguments α :=
  match arguments.replace write.index write.value with
  | .ok (old, later) => (.ok old, later)
  | .error fault => (.error fault, arguments)

/-- The list after all the calls. -/
def afterWrites : List (Write α) → Arguments α → Arguments α
  | [], arguments => arguments
  | write :: rest, arguments => afterWrites rest (arguments.attempt write).2

/-- Each call with its answer. -/
def answers : List (Write α) → Arguments α → List (Write α × Except Fault α)
  | [], _ => []
  | write :: rest, arguments =>
      (write, (arguments.attempt write).1) :: answers rest (arguments.attempt write).2

/-- The calls that were not refused. -/
def accepted (writes : List (Write α)) (arguments : Arguments α) : List (Write α) :=
  (answers writes arguments).filterMap fun (write, answer) => answer.toOption.map fun _ => write

/-- The values that were given back. -/
def returned (writes : List (Write α)) (arguments : Arguments α) : List α :=
  (answers writes arguments).filterMap fun (_, answer) => answer.toOption

/-- The value that was put into the slot last. -/
def lastWritten? (index : Nat) (writes : List (Write α)) : Option α :=
  (writes.filter (·.index == index)).getLast?.map Write.value

theorem lastWritten?_cons (index : Nat) (write : Write α) (rest : List (Write α)) :
    lastWritten? index (write :: rest) =
      (lastWritten? index rest).or (if write.index = index then some write.value else none) := by
  by_cases own : write.index = index
  · cases later : (rest.filter (·.index == index)).getLast? with
    | none => simp [lastWritten?, own, later, List.getLast?_cons]
    | some other => simp [lastWritten?, own, later, List.getLast?_cons]
  · simp [lastWritten?, own]

section Attempt

variable {arguments : Arguments α} {write : Write α}

theorem attempt_of_inside (inside : write.index < arguments.values.length) :
    arguments.attempt write =
      (.ok arguments.values[write.index],
        { arguments with values := arguments.values.set write.index write.value }) := by
  simp only [attempt, replace_of_inside inside]

theorem attempt_of_outside (outside : arguments.values.length ≤ write.index) :
    arguments.attempt write =
      (.error (.outOfBounds arguments.values.length write.index), arguments) := by
  simp only [attempt, replace_of_outside outside]

/-- Neither the number of values nor the signature changes. -/
theorem frame_attempt (arguments : Arguments α) (write : Write α) :
    (arguments.attempt write).2.values.length = arguments.values.length ∧
      (arguments.attempt write).2.signature = arguments.signature := by
  rcases Nat.lt_or_ge write.index arguments.values.length with inside | outside
  · rw [attempt_of_inside inside]
    exact ⟨List.length_set, rfl⟩
  · rw [attempt_of_outside outside]
    exact ⟨rfl, rfl⟩

theorem getElem?_attempt (arguments : Arguments α) (write : Write α) (index : Nat) :
    (arguments.attempt write).2.values[index]? =
      if write.index = index ∧ write.index < arguments.values.length then some write.value
      else arguments.values[index]? := by
  rcases Nat.lt_or_ge write.index arguments.values.length with inside | outside
  · rw [attempt_of_inside inside, List.getElem?_set]
    simp only [inside, if_true, and_true]
  · rw [attempt_of_outside outside, if_neg (fun both => Nat.not_lt.mpr outside both.2)]

/-- By name, only a write to the first slot with the name is seen. -/
theorem valueNamed_attempt_of_ne {name : String}
    (elsewhere : ¬ (arguments.signature.indexOfName name = some write.index ∧
      write.index < arguments.values.length)) :
    (arguments.attempt write).2.valueNamed name = arguments.valueNamed name := by
  rw [valueNamed, (frame_attempt arguments write).2, valueNamed]
  cases found : arguments.signature.indexOfName name with
  | none => rfl
  | some index =>
      rw [Option.bind_some, Option.bind_some, getElem?_attempt, if_neg]
      rintro ⟨same, inside⟩
      exact elsewhere ⟨by rw [found, same], inside⟩

/-- The value that goes in and the value that comes out change places. -/
theorem exchange (inside : write.index < arguments.values.length) :
    (arguments.values : Multiset α) + {write.value} =
      ((arguments.attempt write).2.values : Multiset α) + {arguments.values[write.index]} := by
  have taken : (arguments.values : Multiset α) =
      {arguments.values[write.index]} + (arguments.values.eraseIdx write.index : Multiset α) :=
    (Multiset.coe_eq_coe.mpr (List.getElem_cons_eraseIdx_perm inside)).symm
  have put : (arguments.values.set write.index write.value : Multiset α) =
      {write.value} + (arguments.values.eraseIdx write.index : Multiset α) :=
    Multiset.coe_eq_coe.mpr (List.set_perm_cons_eraseIdx inside write.value)
  calc (arguments.values : Multiset α) + {write.value}
      = {arguments.values[write.index]} + (arguments.values.eraseIdx write.index : Multiset α) +
          {write.value} := congrArg (· + {write.value}) taken
    _ = {write.value} + (arguments.values.eraseIdx write.index : Multiset α) +
          {arguments.values[write.index]} := by ac_rfl
    _ = ((arguments.attempt write).2.values : Multiset α) + {arguments.values[write.index]} := by
        rw [attempt_of_inside inside, put]

end Attempt

section Run

theorem afterWrites_append (first second : List (Write α)) (arguments : Arguments α) :
    afterWrites (first ++ second) arguments = afterWrites second (afterWrites first arguments) := by
  induction first generalizing arguments with
  | nil => rfl
  | cons write rest ih => exact ih (arguments.attempt write).2

theorem frame_afterWrites (writes : List (Write α)) (arguments : Arguments α) :
    (afterWrites writes arguments).values.length = arguments.values.length ∧
      (afterWrites writes arguments).signature = arguments.signature := by
  induction writes generalizing arguments with
  | nil => exact ⟨rfl, rfl⟩
  | cons write rest ih =>
      have first := frame_attempt arguments write
      exact ⟨(ih _).1.trans first.1, (ih _).2.trans first.2⟩

theorem accepted_cons_of_inside {arguments : Arguments α} {write : Write α}
    (inside : write.index < arguments.values.length) (rest : List (Write α)) :
    accepted (write :: rest) arguments =
        write :: accepted rest (arguments.attempt write).2 ∧
      returned (write :: rest) arguments =
        arguments.values[write.index] :: returned rest (arguments.attempt write).2 := by
  simp only [accepted, returned, answers, attempt_of_inside inside]
  exact ⟨rfl, rfl⟩

theorem accepted_cons_of_outside {arguments : Arguments α} {write : Write α}
    (outside : arguments.values.length ≤ write.index) (rest : List (Write α)) :
    accepted (write :: rest) arguments = accepted rest arguments ∧
      returned (write :: rest) arguments = returned rest arguments := by
  simp only [accepted, returned, answers, attempt_of_outside outside]
  exact ⟨rfl, rfl⟩

/-- In each slot is what was put there last, or what was there from the start. -/
theorem getElem?_afterWrites (writes : List (Write α)) (arguments : Arguments α) (index : Nat) :
    (afterWrites writes arguments).values[index]? =
      (lastWritten? index (accepted writes arguments)).or arguments.values[index]? := by
  induction writes generalizing arguments with
  | nil => rfl
  | cons write rest ih =>
      rw [afterWrites, ih, getElem?_attempt]
      rcases Nat.lt_or_ge write.index arguments.values.length with inside | outside
      · rw [(accepted_cons_of_inside inside rest).1, lastWritten?_cons, Option.or_assoc]
        simp only [inside, and_true]
        split <;> rfl
      · rw [(accepted_cons_of_outside outside rest).1, attempt_of_outside outside,
          if_neg (fun both => Nat.not_lt.mpr outside both.2)]

/-- What was there and what was put in is what is there and what was given back. -/
theorem conserved (writes : List (Write α)) (arguments : Arguments α) :
    (arguments.values : Multiset α) + ((accepted writes arguments).map Write.value : List α) =
      ((afterWrites writes arguments).values : Multiset α) +
        (returned writes arguments : Multiset α) := by
  induction writes generalizing arguments with
  | nil => rfl
  | cons write rest ih =>
      rcases Nat.lt_or_ge write.index arguments.values.length with inside | outside
      · have later := ih (arguments.attempt write).2
        obtain ⟨taken, given⟩ := accepted_cons_of_inside inside rest
        rw [taken, given, List.map_cons, ← Multiset.cons_coe, ← Multiset.cons_coe,
          ← Multiset.singleton_add, ← Multiset.singleton_add, ← add_assoc, exchange inside,
          add_right_comm, later, afterWrites]
        ac_rfl
      · obtain ⟨taken, given⟩ := accepted_cons_of_outside outside rest
        rw [taken, given, afterWrites, attempt_of_outside outside]
        exact ih arguments

end Run

/-- The list before call number `number` of a run. -/
def beforeWrite (writes : List (Write α)) (number : Nat) (arguments : Arguments α) : Arguments α :=
  afterWrites (writes.take number) arguments

theorem beforeWrite_succ {writes : List (Write α)} {number : Nat} {write : Write α}
    (made : writes[number]? = some write) (arguments : Arguments α) :
    beforeWrite writes (number + 1) arguments =
      ((beforeWrite writes number arguments).attempt write).2 := by
  rw [beforeWrite, List.take_add_one, made, afterWrites_append]
  rfl

/-- Over every run of replacements: a call for a slot that is there puts the value in and gives the
old one back, any other call is refused and leaves the list as it was, and what is found by a name
changes only if the first slot with that name is written. In the end each slot has what was put
there last, or what it had at the start; the values at the start and those put in are the values at
the end and those given back; and the signature is the same. -/
theorem replacements_conserve {α : Type} (arguments : Arguments α) (writes : List (Write α)) :
    (∀ number write, writes[number]? = some write →
      (write.index < arguments.values.length → ∃ old,
        (beforeWrite writes number arguments).valueAt write.index = .ok old ∧
        (beforeWrite writes number arguments).replace write.index write.value =
          .ok (old, beforeWrite writes (number + 1) arguments)) ∧
      (arguments.values.length ≤ write.index →
        (beforeWrite writes number arguments).replace write.index write.value =
            .error (.outOfBounds arguments.values.length write.index) ∧
          beforeWrite writes (number + 1) arguments = beforeWrite writes number arguments) ∧
      (∀ name, (beforeWrite writes (number + 1) arguments).valueNamed name ≠
          (beforeWrite writes number arguments).valueNamed name →
        arguments.signature.indexOfName name = some write.index ∧
          write.index < arguments.values.length)) ∧
    (∀ index, (afterWrites writes arguments).valueAt index =
      (lastWritten? index (accepted writes arguments)).elim (arguments.valueAt index) .ok) ∧
    (arguments.values : Multiset α) + ((accepted writes arguments).map Write.value : List α) =
      ((afterWrites writes arguments).values : Multiset α) +
        (returned writes arguments : Multiset α) ∧
    (afterWrites writes arguments).signature = arguments.signature := by
  refine ⟨?_, ?_, conserved writes arguments, (frame_afterWrites writes arguments).2⟩
  · intro number write made
    obtain ⟨length, signature⟩ := frame_afterWrites (writes.take number) arguments
    have next := beforeWrite_succ made arguments
    rw [← beforeWrite] at length signature
    refine ⟨?_, ?_, ?_⟩
    · intro inside
      rw [← length] at inside
      refine ⟨_, valueAt_of_inside inside, ?_⟩
      rw [replace_of_inside inside, next, attempt_of_inside inside]
    · intro outside
      rw [← length] at outside ⊢
      exact ⟨replace_of_outside outside write.value, by rw [next, attempt_of_outside outside]⟩
    · intro name
      rw [next, ← length, ← signature]
      exact not_imp_comm.mp valueNamed_attempt_of_ne
  · intro index
    have slot := getElem?_afterWrites writes arguments index
    cases last : lastWritten? index (accepted writes arguments) with
    | some value =>
        rw [last, Option.some_or] at slot
        exact valueAt_eq_ok_iff.mpr slot
    | none =>
        rw [last, Option.none_or] at slot
        rw [valueAt, slot, (frame_afterWrites writes arguments).1]
        rfl

/-- Two writes to one slot with a refused call in between, and one to a later slot of the same
name. -/
example :
    let named := Slot.named (Interner.symbolAt "a" 0)
    let start : Arguments Nat := ⟨[1, 2, 3], .build 0 [named, .positional, named]⟩
    let writes : List (Write Nat) := [⟨0, 7⟩, ⟨5, 8⟩, ⟨2, 9⟩, ⟨0, 4⟩]
    (afterWrites writes start).values = [4, 2, 9] ∧ returned writes start = [1, 3, 7] ∧
      (beforeWrite writes 3 start).valueNamed "a" = some 7 := by decide

end CallShape.Arguments
