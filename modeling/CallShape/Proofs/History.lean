import CallShape.Proofs.Spread

set_option autoImplicit false

namespace CallShape

namespace Call

/-- The slots that a call asks for, as labels. -/
def labels? : Call → Option (List Label)
  | .forNames _ names => some (names.map Label.ofName)
  | .forFilledNames _ names => some (names.map Label.ofFilledName)
  | .forVector _ names => names.map fun texts => texts.map (Label.ofFilledName ∘ some)
  | .forSlots _ slots => some (slots.map Slot.label)
  | .unnamed _ arity => some (List.replicate arity .positional)
  | .flatten _ supplied spread => some (spread.flattenedLabels supplied)
  | _ => none

def target? : Call → Option Target
  | .symbol target _ => some target
  | .forNames target _ => some target
  | .forFilledNames target _ => some target
  | .forVector target _ => some target
  | .forSlots target _ => some target
  | .unnamed target _ => some target
  | .flatten target _ _ => some target
  | _ => none

/-- The table that a call is sent to when it is made in this state. -/
def tableId? (process : Process) (call : Call) : Option TableId :=
  call.target?.bind fun target => (Process.resolve target process).answer.toOption

theorem tableId?_of_settled {call : Call} {target : Target} {process : Process} {id : TableId}
    (sent : call.target? = some target)
    (settled : (Process.resolve target process).answer = .ok id) :
    call.tableId? process = some id := by
  rw [tableId?, sent, Option.bind_some, settled]
  rfl

theorem settled_of_tableId? {call : Call} {process : Process} {id : TableId}
    (own : call.tableId? process = some id) :
    ∃ target, call.target? = some target ∧ (Process.resolve target process).answer = .ok id := by
  obtain ⟨target, sent, settled⟩ := Option.bind_eq_some_iff.mp own
  refine ⟨target, sent, ?_⟩
  cases result : (Process.resolve target process).answer with
  | error reason =>
      rw [result] at settled
      cases settled
  | ok other =>
      rw [result] at settled
      cases settled
      rfl

/-- What a call that answers with a signature has brought about. -/
def Fulfilled (call : Call) (before : Process) (reply : Reply) (after : Process) : Prop :=
  ∀ signature, reply = .signature signature → ∃ id labels, call.tableId? before = some id ∧
    call.labels? = some labels ∧ Process.Answers id labels signature after

theorem fulfilled_of_no_signature (call : Call) (before after : Process) {reply : Reply}
    (other : ∀ signature, reply ≠ .signature signature) : call.Fulfilled before reply after :=
  fun signature same => absurd same (other signature)

/-- A call first settles its target, then has the table answer. -/
theorem answered_keeps {process : Process} (sound : process.Sound) {call : Call} {target : Target}
    {labels : List Label} (sent : call.target? = some target) (asked : call.labels? = some labels)
    {action : TableId → Action Process Fault Signature}
    (kept : ∀ id before, before.Sound → process.Extends before →
      Process.discipline.Keeps (action id) before (Process.Answers id labels)) :
    Process.discipline.Keeps
      (do
        let id ← Process.resolve target
        return Reply.signature (← action id))
      process (call.Fulfilled process) := by
  apply (Process.resolve_keeps sound target).bind
  intro id resolved _ fit grown
  apply (kept id _ fit grown).bind
  intro signature _ answers answered _
  refine Discipline.Keeps.pure answered ?_
  intro given same
  cases same
  exact ⟨id, labels, tableId?_of_settled sent resolved, asked, answers⟩

theorem answers_of_gives {id : TableId} {slots : List Slot} {signature : Signature}
    {process : Process} (gives : Process.Gives id slots signature process) :
    Process.Answers id (slots.map Slot.label) signature process :=
  ⟨gives.1, by rw [Signature.labels, gives.2]⟩

theorem perform_keeps {process : Process} (sound : process.Sound) {call : Call}
    (admissible : call.Admissible process) :
    Process.discipline.Keeps call.perform process (call.Fulfilled process) := by
  cases call with
  | openTable config =>
      apply (Process.openTable_keeps sound config).bind
      intro id _ _ fit _
      exact Discipline.Keeps.pure fit (fulfilled_of_no_signature _ _ _ (by simp))
  | installGlobal config =>
      apply (Process.installGlobal_keeps sound config).bind
      intro id _ _ fit _
      exact Discipline.Keeps.pure fit (fulfilled_of_no_signature _ _ _ (by simp))
  | globalTable =>
      apply (Process.globalTable_keeps sound).bind
      intro id _ _ fit _
      exact Discipline.Keeps.pure fit (fulfilled_of_no_signature _ _ _ (by simp))
  | symbol target text =>
      apply (Process.resolve_keeps sound target).bind
      intro id _ _ fit _
      apply (Process.symbol_keeps fit id text).bind
      intro symbol _ _ named _
      exact Discipline.Keeps.pure named (fulfilled_of_no_signature _ _ _ (by simp))
  | forNames target names =>
      exact answered_keeps sound rfl rfl fun id before fit _ =>
        Process.request_keeps fit id (names.map Label.ofName)
  | forFilledNames target names =>
      exact answered_keeps sound rfl rfl fun id before fit _ =>
        Process.request_keeps fit id (names.map Label.ofFilledName)
  | forVector target names =>
      apply (Process.resolve_keeps sound target).bind
      intro id resolved _ fit _
      apply (Process.forVector_keeps fit id names).bind
      intro signature _ answers named _
      cases signature with
      | none => exact Discipline.Keeps.pure named (fulfilled_of_no_signature _ _ _ (by simp))
      | some signature =>
          refine Discipline.Keeps.pure named ?_
          intro given same
          cases same
          obtain ⟨texts, rfl, answers⟩ := answers signature rfl
          exact ⟨id, _, tableId?_of_settled rfl resolved, rfl, answers⟩
  | forSlots target slots =>
      apply answered_keeps sound rfl rfl
      intro id before fit grown
      have known := sound.pool.toOrderly.knows_of_grows fit.pool.toOrderly grown.pool admissible
      exact (Process.canonical_keeps fit id known).mono fun _ _ _ _ gives => answers_of_gives gives
  | unnamed target arity =>
      apply answered_keeps sound rfl rfl
      intro id before fit _
      apply (Process.unnamed_keeps fit id arity).mono
      intro signature after _ _ gives
      have answers := answers_of_gives gives
      rw [List.map_replicate] at answers
      exact answers
  | flatten target supplied spread =>
      apply answered_keeps sound rfl rfl
      intro id before fit grown
      apply (Process.flatten_keeps fit id (admissible.1.of_extends grown)
        fun expansion member => (admissible.2 expansion member).of_extends grown).mono
      intro signature after _ _ gives
      have answers := answers_of_gives gives
      rw [Spread.labels_flattenedSlots] at answers
      exact answers

end Call

namespace Process

/-- A new process before call number `index` of a run. -/
def stateAt (calls : List Call) (index : Nat) : Process := after (calls.take index) {}

/-- Call number `index` of a run was sent to this table, and answered with this signature. -/
structure Returned (calls : List Call) (index : Nat) (id : TableId) (call : Call)
    (signature : Signature) : Prop where
  made : calls[index]? = some call
  sent : call.tableId? (stateAt calls index) = some id
  answer : (call.perform (stateAt calls index)).answer = .ok (.signature signature)

theorem after_append (first second : List Call) (process : Process) :
    after (first ++ second) process = after second (after first process) := by
  induction first generalizing process with
  | nil => rfl
  | cons call rest ih => exact ih (call.perform process).state

theorem noticesOf_append (first second : List Call) (process : Process) :
    noticesOf (first ++ second) process =
      noticesOf first process ++ noticesOf second (after first process) := by
  induction first generalizing process with
  | nil => rfl
  | cons call rest ih =>
      rw [List.cons_append, noticesOf, noticesOf, ih, List.append_assoc]
      rfl

theorem stateAt_succ {calls : List Call} {index : Nat} {call : Call}
    (made : calls[index]? = some call) :
    stateAt calls (index + 1) = (call.perform (stateAt calls index)).state := by
  rw [stateAt, List.take_add_one, made, after_append]
  rfl

theorem admissible_append {first second : List Call} {process : Process}
    (admissible : Admissible (first ++ second) process) :
    Admissible first process ∧ Admissible second (after first process) := by
  induction first generalizing process with
  | nil => exact ⟨trivial, admissible⟩
  | cons call rest ih =>
      obtain ⟨here, later⟩ := admissible
      exact ⟨⟨here, (ih later).1⟩, (ih later).2⟩

theorem Sound.after {process : Process} (sound : process.Sound) {calls : List Call}
    (admissible : Admissible calls process) :
    (after calls process).Sound ∧ process.Extends (after calls process) := by
  induction calls generalizing process with
  | nil => exact ⟨sound, Extends.refl process⟩
  | cons call rest ih =>
      have kept := Call.perform_keeps sound admissible.1
      obtain ⟨fit, grown⟩ := ih kept.fit admissible.2
      exact ⟨fit, kept.grown.trans grown⟩

theorem Reachable.sound {process : Process} (reachable : process.Reachable) : process.Sound := by
  obtain ⟨calls, admissible, rfl⟩ := reachable
  exact (new_sound.after admissible).1

section Run

variable {calls : List Call} (admissible : Admissible calls {})
include admissible

theorem admissible_take (count : Nat) : Admissible (calls.take count) {} := by
  rw [← List.take_append_drop count calls] at admissible
  exact (admissible_append admissible).1

theorem stateAt_sound (index : Nat) : (stateAt calls index).Sound :=
  (new_sound.after (admissible_take admissible index)).1

theorem stateAt_extends (index : Nat) : (stateAt calls index).Extends (after calls {}) := by
  have start := stateAt_sound admissible index
  rw [← List.take_append_drop index calls] at admissible
  have rest := (start.after (admissible_append admissible).2).2
  rw [stateAt, ← after_append, List.take_append_drop] at rest
  exact rest

theorem admissible_at {index : Nat} {call : Call} (made : calls[index]? = some call) :
    call.Admissible (stateAt calls index) := by
  obtain ⟨inside, rfl⟩ := List.getElem?_eq_some_iff.mp made
  rw [← List.take_append_drop index calls] at admissible
  have later := (admissible_append admissible).2
  rw [List.drop_eq_getElem_cons inside] at later
  exact later.1

theorem stateAt_mono {earlier later : Nat} (ordered : earlier ≤ later) :
    (stateAt calls earlier).Extends (stateAt calls later) := by
  have extended := stateAt_extends (admissible_take admissible later) earlier
  rw [stateAt, List.take_take, Nat.min_eq_left ordered] at extended
  exact extended

/-- Whatever a call answered with is still there when the run is over. -/
theorem Returned.answers {index : Nat} {id : TableId} {call : Call} {signature : Signature}
    (returned : Returned calls index id call signature) :
    ∃ labels, call.labels? = some labels ∧ Answers id labels signature (after calls {}) := by
  have kept := Call.perform_keeps (stateAt_sound admissible index)
    (admissible_at admissible returned.made)
  obtain ⟨other, labels, sent, asked, held, read⟩ :=
    kept.answer _ returned.answer signature rfl
  have same : other = id := Option.some.inj (sent.symm.trans returned.sent)
  subst same
  rw [← stateAt_succ returned.made] at held
  exact ⟨labels, asked, held.of_extends (stateAt_extends admissible (index + 1)), read⟩

end Run

end Process

end CallShape
