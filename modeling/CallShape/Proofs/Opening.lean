import CallShape.Proofs.Frame
import CallShape.Proofs.Outline

set_option autoImplicit false

namespace CallShape.Process

section Number

theorem enter_leaves_count (id : TableId) (slots : List Slot) :
    (enter id slots).Leaves (·.tables.length) :=
  enter_leaves (fun _ _ _ _ => List.length_set) id slots

/-- Requests make no tables. -/
theorem steady_count (count : Nat) : Steady (·.tables.length = count) (fun _ => True) where
  naming _ _ same := same
  entering id _ slots _ same := (enter_leaves_count id slots _).trans same

theorem length_entered (config : Config) (process : Process) :
    (entered config process).state.tables.length = process.tables.length + 1 := by
  have each : ∀ arity, (enterUnnamed process.tables.length arity).Leaves (·.tables.length) :=
    enterUnnamed_leaves (fun _ _ _ _ => List.length_set) process.tables.length
  have entering := Action.Leaves.each each (List.range config.cacheLength)
  exact (entering (process.withTable config.sink)).trans List.length_append

theorem length_newTable (config : Config) (process : Process) :
    (newTable config process).state.tables.length = process.tables.length + 1 := by
  cases result : (entered config process).answer with
  | error reason => rw [newTable_of_error result, length_entered]
  | ok unnamed => rw [newTable_of_ok result, withAtHand, List.length_modify, length_entered]

end Number

section Outcome

variable {process : Process} {config : Config} (sound : process.Sound) (fits : config.Fits)
include sound fits

theorem newTable_answer : (newTable config process).answer = .ok process.tables.length := by
  obtain ⟨unnamed, success, -⟩ := entered_opens sound fits
  rw [newTable_of_ok success]

/-- With room for its cache, the new table is the last one. -/
theorem openTable_last :
    (openTable config process).answer = .ok process.tables.length ∧
      (openTable config process).state.tables.length = process.tables.length + 1 := by
  obtain ⟨_, started, -⟩ := (startNames_starts sound).answered
  have same : (startNames process).state.tables = process.tables :=
    startNames_leaves_tables process
  rw [openTable_eq, reserve_of_room (Config.fits_iff.mp fits).1,
    Action.bind_of_ok _ _ process () started]
  refine ⟨?_, ?_⟩
  · exact (newTable_answer (startNames_keeps sound).fit fits).trans (by rw [same])
  · exact (length_newTable config (startNames process).state).trans (by rw [same])

end Outcome

section Choice

variable {process : Process} {config : Config} {id : TableId}

theorem globalTable_of_chosen (chosen : process.global = some id) :
    globalTable process = ⟨.ok id, process, []⟩ := by
  rw [globalTable, Action.bind_read, chosen]
  rfl

/-- The global table is made with the defaults where it is needed first. -/
theorem globalTable_of_vacant (vacant : process.global = none)
    (opened : (openTable {} process).answer = .ok id) :
    globalTable process =
      ⟨.ok id, { (openTable {} process).state with global := some id },
        (openTable {} process).notices⟩ := by
  rw [globalTable, Action.bind_read, vacant]
  simp only [Action.bind_of_ok _ _ process id opened]
  exact congrArg (Outcome.mk _ _) (List.append_nil _)

theorem installGlobal_of_error {reason : Fault}
    (failed : (openTable config process).answer = .error reason) :
    installGlobal config process =
      ⟨.error reason, (openTable config process).state, (openTable config process).notices⟩ :=
  Action.bind_of_error _ _ process reason failed

/-- A second global table is made and then refused. -/
theorem installGlobal_of_chosen {made : TableId} (chosen : process.global = some id)
    (opened : (openTable config process).answer = .ok made) :
    installGlobal config process =
      ⟨.error (.signature .globalInstalled), (openTable config process).state,
        (openTable config process).notices⟩ := by
  have still := (openTable_leaves_global config process).trans chosen
  rw [installGlobal, Action.bind_of_ok _ _ process made opened, Action.bind_read, still]
  exact congrArg (Outcome.mk _ _) (List.append_nil _)

theorem installGlobal_of_vacant (vacant : process.global = none)
    (opened : (openTable config process).answer = .ok id) :
    installGlobal config process =
      ⟨.ok id, { (openTable config process).state with global := some id },
        (openTable config process).notices⟩ := by
  have still := (openTable_leaves_global config process).trans vacant
  rw [installGlobal, Action.bind_of_ok _ _ process id opened, Action.bind_read, still]
  exact congrArg (Outcome.mk _ _) (List.append_nil _)

/-- Whatever the reason of a refusal, no more has been done than to make a table. -/
theorem state_installGlobal_of_refused {reason : Fault}
    (refused : (installGlobal config process).answer = .error reason) :
    (installGlobal config process).state = (openTable config process).state := by
  cases opened : (openTable config process).answer with
  | error other => rw [installGlobal_of_error opened]
  | ok made =>
      cases chosen : process.global with
      | some other => rw [installGlobal_of_chosen chosen opened]
      | none =>
          rw [installGlobal_of_vacant chosen opened] at refused
          cases refused

end Choice

end CallShape.Process
