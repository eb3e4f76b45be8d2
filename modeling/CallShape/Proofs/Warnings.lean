import CallShape.Proofs.Intake

set_option autoImplicit false

namespace CallShape

/-- The warning, if the hook of this table was given one. -/
def Notice.deliveredTo? (id : TableId) : Notice → Option Warning
  | .delivered table warning => if table = id then some warning else none
  | _ => none

/-- What the hook of a table was given, in order. -/
def deliveredTo (id : TableId) (notices : List Notice) : List Warning :=
  notices.filterMap (Notice.deliveredTo? id)

theorem deliveredTo_append (id : TableId) (first second : List Notice) :
    deliveredTo id (first ++ second) = deliveredTo id first ++ deliveredTo id second :=
  List.filterMap_append

theorem deliveredTo_of_no_advice {notices : List Notice} (quiet : adviceOf notices = [])
    (id : TableId) : deliveredTo id notices = [] := by
  rw [adviceOf, List.filterMap_eq_nil_iff] at quiet
  rw [deliveredTo, List.filterMap_eq_nil_iff]
  intro notice member
  have silent := quiet notice member
  cases notice with
  | delivered table warning => cases silent
  | _ => rfl

namespace Sink

/-- A hook is given every warning; where there is none, the log has them. -/
def given : Sink → List Warning → List Warning
  | .log, _ => []
  | .hook _, warnings => warnings

@[simp]
theorem given_nil (sink : Sink) : sink.given [] = [] := by
  cases sink <;> rfl

@[simp]
theorem given_log (warnings : List Warning) : Sink.log.given warnings = [] := rfl

theorem given_append (sink : Sink) (first second : List Warning) :
    sink.given (first ++ second) = sink.given first ++ sink.given second := by
  cases sink <;> rfl

end Sink

namespace Action

variable {α β : Type}

/-- The action never fails on account of a hook. -/
def Unhooked (action : Action Process Fault α) : Prop :=
  ∀ process warning, (action process).answer ≠ .error (.hook warning)

theorem Unhooked.bind {first : Action Process Fault α} {next : α → Action Process Fault β}
    (start : first.Unhooked) (go : ∀ value, (next value).Unhooked) :
    (first >>= next).Unhooked := by
  intro process warning
  cases result : (first process).answer with
  | error reason =>
      rw [bind_of_error first next process reason result]
      intro failed
      cases failed
      exact start process warning result
  | ok value =>
      rw [bind_of_ok first next process value result]
      exact go value _ warning

/-- What follows the first action does not warn. -/
theorem deliveredTo_first (first : Action Process Fault α) {next : α → Action Process Fault β}
    (quiet : ∀ value, (next value).Quiet) (id : TableId) (process : Process) :
    deliveredTo id ((first >>= next) process).notices =
      deliveredTo id (first process).notices := by
  cases result : (first process).answer with
  | error reason => rw [bind_of_error first next process reason result]
  | ok value =>
      rw [bind_of_ok first next process value result, deliveredTo_append,
        deliveredTo_of_no_advice (quiet value _), List.append_nil]

end Action

namespace Process

variable {process : Process} {id : TableId} {table : Table}

section Unhooked

theorem conduct_unhooked : Conduct fun action => action.Unhooked where
  pure _ _ _ := nofun
  bind start go := start.bind go
  failing other _ warning same := other warning (Except.error.inj same)
  reading _ _ _ := nofun
  looking id process warning := by
    cases present : process.tables[id]? with
    | none => rw [table_of_absent present]; exact nofun
    | some own => rw [table_of_present present]; exact nofun

theorem enter_unhooked (id : TableId) (slots : List Slot) : (enter id slots).Unhooked := by
  intro process warning
  cases present : process.tables[id]? with
  | none => rw [enter_of_absent slots present]; exact nofun
  | some table =>
      obtain ⟨signature, answered⟩ := enter_ok present slots
      rw [answered]
      exact nofun

theorem onPool_unhooked {α : Type} (action : Action Interner InternError α) :
    (onPool action).Unhooked := by
  intro process warning failed
  obtain ⟨cause, other⟩ := onPool_error failed
  cases other

theorem startNames_unhooked : startNames.Unhooked := by
  intro process warning
  unfold startNames
  split <;> exact nofun

theorem openTable_unhooked (config : Config) : (openTable config).Unhooked :=
  conduct_unhooked.openTable startNames_unhooked (fun _ _ _ => nofun) enter_unhooked
    (fun _ _ _ _ => nofun) config

end Unhooked

section Arity

theorem deliveredTo_warn (who id : TableId) (warning : Warning) (sink : Sink)
    (process : Process) :
    deliveredTo who (warn id warning sink process).notices =
      if id = who then sink.given [warning] else [] := by
  rw [warn_eq]
  by_cases own : id = who
  · cases sink <;> simp [Sink.notice, Sink.given, deliveredTo, Notice.deliveredTo?, own]
  · cases sink <;> simp [Sink.notice, deliveredTo, Notice.deliveredTo?, own]

theorem unnamed_of_absent (absent : process.tables[id]? = none) (arity : Nat) :
    unnamed id arity process = ⟨.error .unknownTable, process, []⟩ := by
  have missing := table_of_absent absent
  rw [unnamed, Action.bind_of_error _ _ process .unknownTable (by rw [missing]), missing]

theorem deliveredTo_unnamed (present : process.tables[id]? = some table) (arity : Nat)
    (who : TableId) :
    deliveredTo who (unnamed id arity process).notices =
      if id = who ∧ table.unnamed.length ≤ arity then
        table.sink.given [.largeUnnamed arity table.unnamed.length]
      else [] := by
  by_cases inside : arity < table.unnamed.length
  · rw [unnamed_of_atHand present (List.getElem?_eq_getElem inside), if_neg (by omega)]
    rfl
  · have beyond := Nat.le_of_not_lt inside
    have rest : (enterUnnamed id arity).Quiet := conduct_quiet.enterUnnamed (enter_quiet id) arity
    rw [unnamed_of_beyond present (List.getElem?_eq_none beyond),
      Action.deliveredTo_first _ fun _ => rest, deliveredTo_warn]
    simp only [beyond, and_true]

/-- A request to one table is nothing to the hooks of the others. -/
theorem deliveredTo_unnamed_of_ne {who : TableId} (different : id ≠ who) (arity : Nat) :
    deliveredTo who (unnamed id arity process).notices = [] := by
  cases present : process.tables[id]? with
  | none => rw [unnamed_of_absent present]; rfl
  | some table =>
      rw [deliveredTo_unnamed present, if_neg]
      exact fun own => different own.1

/-- Only a hook that fails for the warning can fail a request by arity in that way, and nothing has
changed then. -/
theorem unnamed_of_hook {arity : Nat} {warning : Warning}
    (failed : (unnamed id arity process).answer = .error (.hook warning)) :
    (unnamed id arity process).state = process ∧
      ∀ table, process.tables[id]? = some table → table.sink.fails warning = true := by
  cases present : process.tables[id]? with
  | none =>
      rw [unnamed_of_absent present] at failed
      cases failed
  | some table =>
      have outlined : process.Outlines id table.outline := ⟨table, present, rfl⟩
      by_cases inside : arity < table.unnamed.length
      · rw [unnamed_of_atHand present (List.getElem?_eq_getElem inside)] at failed
        cases failed
      · cases fails : table.outline.sink.fails (.largeUnnamed arity table.outline.atHand) with
        | true =>
            rw [unnamed_of_fails outlined inside fails] at failed ⊢
            cases failed
            refine ⟨rfl, ?_⟩
            rintro own same
            cases same
            exact fails
        | false =>
            rw [unnamed_of_taken outlined inside fails] at failed
            have entering : (enterUnnamed id arity).Unhooked :=
              conduct_unhooked.enterUnnamed (enter_unhooked id) arity
            exact absurd failed (entering process warning)

end Arity

end Process

namespace Call

/-- The warning that the call, made in this state, earns from a table with this cache length. -/
def slow? (id : TableId) (cacheLength : Nat) (process : Process) (call : Call) :
    Option Warning :=
  if call.tableId? process = some id then
    (call.arity?.filter (cacheLength ≤ ·)).map (Warning.largeUnnamed · cacheLength)
  else none

theorem slow?_of_elsewhere {call : Call} {id : TableId} {process : Process}
    (elsewhere : call.tableId? process ≠ some id) (cacheLength : Nat) :
    call.slow? id cacheLength process = none := if_neg elsewhere

theorem slow?_unnamed {target : Target} {id : TableId} {process : Process} {arity : Nat}
    (own : (Call.unnamed target arity).tableId? process = some id) (cacheLength : Nat) :
    (Call.unnamed target arity).slow? id cacheLength process =
      if cacheLength ≤ arity then some (.largeUnnamed arity cacheLength) else none := by
  rw [slow?, if_pos own, arity?, Option.filter_some]
  simp only [decide_eq_true_eq]
  split <;> rfl

theorem slow?_of_arity_none {call : Call} (other : call.arity? = none) (id : TableId)
    (cacheLength : Nat) (process : Process) : call.slow? id cacheLength process = none := by
  rw [slow?, other]
  split <;> rfl

theorem perform_quiet {call : Call} (other : call.arity? = none) : call.perform.Quiet := by
  apply Process.conduct_quiet.perform Process.openTable_quiet (fun _ _ => rfl) Process.enter_quiet
    (fun text => Process.onPool_quiet (Interner.intern_quiet text))
    (fun labels => Process.onPool_quiet (Interner.slots_quiet labels))
  intro id arity asked
  rw [other] at asked
  cases asked

theorem perform_unhooked {call : Call} (other : call.arity? = none) : call.perform.Unhooked := by
  apply Process.conduct_unhooked.perform Process.openTable_unhooked (fun _ _ _ => nofun)
    Process.enter_unhooked (fun _ => Process.onPool_unhooked _)
    (fun _ => Process.onPool_unhooked _)
  intro id arity asked
  rw [other] at asked
  cases asked

end Call

namespace Process

variable {process : Process} {id : TableId} {table : Table}

section Step

/-- Settling the target tells no hook, and wrapping the answer up does not either. -/
theorem deliveredTo_perform_unnamed {target : Target} {own : TableId}
    (settled : (resolve target process).answer = .ok own) (arity : Nat) (id : TableId) :
    deliveredTo id ((Call.unnamed target arity).perform process).notices =
      deliveredTo id (unnamed own arity (resolve target process).state).notices := by
  have settling := conduct_quiet.resolve openTable_quiet (fun _ _ => rfl) target process
  rw [Call.perform, Action.bind_of_ok _ _ process own settled, deliveredTo_append,
    deliveredTo_of_no_advice settling, List.nil_append,
    Action.deliveredTo_first _ fun _ => Action.Quiet.pure _]

variable (sound : process.Sound)
include sound

theorem unnamed_delivers (target : Target) (arity : Nat) (id : TableId) :
    deliveredTo id ((Call.unnamed target arity).perform process).notices =
      match process.tables[id]? with
      | none => []
      | some table =>
          table.sink.given
            ((Call.unnamed target arity).slow? id table.unnamed.length process).toList := by
  obtain ⟨own, there | ⟨settled, new, made, present, hookless⟩⟩ := resolve_cases sound target
  · have settled := congrArg Outcome.answer there
    have sent : (Call.unnamed target arity).tableId? process = some own :=
      Call.tableId?_of_settled rfl settled
    rw [deliveredTo_perform_unnamed settled, there]
    by_cases same : own = id
    · subst same
      cases present : process.tables[own]? with
      | none => rw [unnamed_of_absent present]; rfl
      | some table =>
          rw [deliveredTo_unnamed present]
          simp only [true_and, Call.slow?_unnamed sent]
          split <;> simp
    · have elsewhere : (Call.unnamed target arity).tableId? process ≠ some id := by
        rw [sent]
        exact fun equal => same (Option.some.inj equal)
      rw [deliveredTo_unnamed_of_ne same]
      cases process.tables[id]? with
      | none => rfl
      | some table => simp [Call.slow?_of_elsewhere elsewhere]
  · -- the table that is made for the call has no hook, and the call is meant for no other
    have sent : (Call.unnamed target arity).tableId? process = some own :=
      Call.tableId?_of_settled rfl settled
    rw [deliveredTo_perform_unnamed settled, deliveredTo_unnamed present, hookless]
    simp only [Sink.given_log, ite_self]
    cases there : process.tables[id]? with
    | none => rfl
    | some table =>
        have elsewhere : (Call.unnamed target arity).tableId? process ≠ some id := by
          rw [sent]
          rintro ⟨⟩
          rw [new] at there
          cases there
        simp [Call.slow?_of_elsewhere elsewhere]

/-- One call: the hook of a table is told exactly if the call is slow for this table. -/
theorem perform_delivers (call : Call) (id : TableId) :
    deliveredTo id (call.perform process).notices =
      match process.tables[id]? with
      | none => []
      | some table => table.sink.given (call.slow? id table.unnamed.length process).toList := by
  cases asked : call.arity? with
  | none =>
      rw [deliveredTo_of_no_advice (Call.perform_quiet asked process)]
      cases process.tables[id]? with
      | none => rfl
      | some table => simp [Call.slow?_of_arity_none asked]
  | some arity =>
      cases call with
      | unnamed target arity => exact unnamed_delivers sound target arity id
      | _ => cases asked

/-- A call that fails on account of a hook has changed nothing. -/
theorem perform_of_hook {call : Call} {warning : Warning}
    (failed : (call.perform process).answer = .error (.hook warning)) :
    (call.perform process).state = process := by
  cases asked : call.arity? with
  | none => exact absurd failed (Call.perform_unhooked asked process warning)
  | some arity =>
      cases call with
      | unnamed target arity =>
          rw [Call.perform] at failed ⊢
          obtain ⟨own, there | ⟨settled, -, made, present, hookless⟩⟩ := resolve_cases sound target
          · rw [Action.bind_of_read there] at failed ⊢
            rw [Action.state_reply]
            exact (unnamed_of_hook (Action.error_of_reply failed)).1
          · rw [Action.bind_of_ok _ _ process own settled] at failed
            have fails := (unnamed_of_hook (Action.error_of_reply failed)).2 made present
            rw [hookless] at fails
            cases fails
      | _ => cases asked

/-- A slow call fails if the hook of the table does. -/
theorem perform_of_slow {call : Call} (present : process.tables[id]? = some table)
    {warning : Warning} (slow : call.slow? id table.unnamed.length process = some warning)
    (fails : table.sink.fails warning = true) :
    (call.perform process).answer = .error (.hook warning) := by
  have own : call.tableId? process = some id := by
    apply Classical.byContradiction
    intro elsewhere
    rw [Call.slow?_of_elsewhere elsewhere] at slow
    cases slow
  rw [perform_of_there sound present own]
  cases asked : call.arity? with
  | none =>
      rw [Call.slow?_of_arity_none asked] at slow
      cases slow
  | some arity =>
      cases call with
      | unnamed target arity =>
          rw [Call.slow?_unnamed own] at slow
          split at slow
          · rename_i beyond
            cases slow
            have failed := unnamed_of_fails ⟨table, present, rfl⟩ (Nat.not_lt.mpr beyond) fails
            have settled : resolve (.numbered id) process = ⟨.ok id, process, []⟩ := rfl
            rw [Call.sentTo, Call.perform, Action.bind_of_read settled,
              Action.bind_of_error _ _ process _ (congrArg Outcome.answer failed)]
            rfl
          · cases slow
      | _ => cases asked

end Step

section Run

/-- What the calls of a run earn from a table with this cache length, in order. -/
def slowRequests (id : TableId) (cacheLength : Nat) : List Call → Process → List Warning
  | [], _ => []
  | call :: rest, process =>
      (call.slow? id cacheLength process).toList ++
        slowRequests id cacheLength rest (call.perform process).state

theorem outcomes_append (first second : List Call) (process : Process) :
    outcomes (first ++ second) process =
      outcomes first process ++ outcomes second (after first process) := by
  induction first generalizing process with
  | nil => rfl
  | cons call rest ih => exact congrArg (call.perform process :: ·) (ih _)

theorem length_outcomes (calls : List Call) (process : Process) :
    (outcomes calls process).length = calls.length := by
  induction calls generalizing process with
  | nil => rfl
  | cons call rest ih => exact congrArg (· + 1) (ih _)

/-- From any state on: the hook of a table is told of the slow calls. -/
theorem after_delivers (sound : process.Sound) {calls : List Call}
    (admissible : Admissible calls process) (present : process.tables[id]? = some table) :
    deliveredTo id (noticesOf calls process) =
      table.sink.given (slowRequests id table.unnamed.length calls process) := by
  induction calls generalizing process table with
  | nil => exact (Sink.given_nil table.sink).symm
  | cons call rest ih =>
      have kept := Call.perform_keeps sound admissible.1
      obtain ⟨later, presentLater, extended⟩ := kept.grown.tables id table present
      rw [noticesOf, deliveredTo_append, perform_delivers sound, present,
        ih kept.fit admissible.2 presentLater, extended.unnamed, extended.sink, slowRequests,
        Sink.given_append]

/-- A table that is never there has no hook to be told. -/
theorem deliveredTo_of_absent (sound : process.Sound) {calls : List Call}
    (admissible : Admissible calls process) (absent : (after calls process).tables.length ≤ id) :
    deliveredTo id (noticesOf calls process) = [] := by
  induction calls generalizing process with
  | nil => rfl
  | cons call rest ih =>
      have kept := Call.perform_keeps sound admissible.1
      have grown := (Sound.after sound admissible).2
      have missing : process.tables[id]? = none := by
        rw [List.getElem?_eq_none_iff]
        exact Nat.le_of_not_lt fun inside => absurd (grown.inside inside) (Nat.not_lt.mpr absent)
      rw [noticesOf, deliveredTo_append, perform_delivers sound, missing,
        ih kept.fit admissible.2 absent]
      rfl

variable {calls : List Call} {index : Nat} {config : Config}

/-- A table keeps the settings that it was made with. -/
theorem Made.settings (admissible : Admissible calls {}) (made : Made calls index id config)
    {later : Nat} (ordered : index < later) :
    ∃ table, (stateAt calls later).tables[id]? = some table ∧
      table.unnamed.length = config.cacheLength ∧ table.sink = config.sink := by
  have inside := (stateAt_mono admissible (Nat.succ_le_of_lt ordered)).inside made.present
  have present := List.getElem?_eq_getElem inside
  obtain ⟨final, presentFinal, extended⟩ :=
    (stateAt_extends admissible later).tables id _ present
  obtain ⟨same, presentSame, outlined⟩ := made.outlines admissible
  rw [presentFinal] at presentSame
  cases presentSame
  obtain ⟨atHand, sink⟩ := Outline.settings_opened config (requested id calls {})
  rw [← outlined] at atHand sink
  exact ⟨_, present, (congrArg List.length extended.unnamed).symm.trans atHand,
    extended.sink.symm.trans sink⟩

/-- Leaving out a call that changed nothing leaves the other outcomes as they are. -/
theorem outcomes_eraseIdx {call : Call} (called : calls[index]? = some call)
    (still : (call.perform (stateAt calls index)).state = stateAt calls index) :
    outcomes (calls.eraseIdx index) {} = (outcomes calls {}).eraseIdx index := by
  obtain ⟨inside, rfl⟩ := List.getElem?_eq_some_iff.mp called
  have split : calls = calls.take index ++ calls[index] :: calls.drop (index + 1) := by
    rw [← List.drop_eq_getElem_cons inside, List.take_append_drop]
  have length : (outcomes (calls.take index) {}).length = index := by
    rw [length_outcomes, List.length_take, Nat.min_eq_left (Nat.le_of_lt inside)]
  have whole : outcomes calls {} = outcomes (calls.take index) {} ++
      calls[index].perform (stateAt calls index) ::
        outcomes (calls.drop (index + 1)) (stateAt calls index) := by
    conv => lhs; rw [split, outcomes_append]
    change _ ++ calls[index].perform (stateAt calls index) ::
      outcomes _ (calls[index].perform (stateAt calls index)).state = _
    rw [still]
  rw [whole, List.eraseIdx_append_of_length_le (Nat.le_of_eq length), length, Nat.sub_self,
    List.eraseIdx_zero, List.tail_cons, List.eraseIdx_eq_take_drop_succ, outcomes_append]
  rfl

end Run

/-- Over every run and for every table made in it: the hook of the table, if it has one, is told
of each later request by arity that is sent to the table and reaches its cache length, in order,
and of nothing else. If the hook fails for one of these warnings, the call fails, and it might as
well not have been made: the state is what it was before, and every other call has the outcome that
it has without this one. -/
theorem hook_told_of_slow_calls (calls : List Call) (admissible : Admissible calls {})
    (index : Nat) (id : TableId) (config : Config) (made : Made calls index id config) :
    deliveredTo id (noticesOf calls {}) =
      config.sink.given (slowRequests id config.cacheLength (calls.drop (index + 1))
        (stateAt calls (index + 1))) ∧
    (∀ later call, index < later → calls[later]? = some call →
      deliveredTo id (call.perform (stateAt calls later)).notices =
          config.sink.given (call.slow? id config.cacheLength (stateAt calls later)).toList ∧
        ∀ warning, call.slow? id config.cacheLength (stateAt calls later) = some warning →
          config.sink.fails warning = true →
            (call.perform (stateAt calls later)).answer = .error (.hook warning)) ∧
    (∀ later call warning, calls[later]? = some call →
      (call.perform (stateAt calls later)).answer = .error (.hook warning) →
        stateAt calls (later + 1) = stateAt calls later ∧
          outcomes (calls.eraseIdx later) {} = (outcomes calls {}).eraseIdx later) := by
  refine ⟨?_, ?_, ?_⟩
  · obtain ⟨call, called, -⟩ := made.config
    obtain ⟨table, present, length, sink⟩ := made.settings admissible (Nat.lt_succ_self index)
    have parts := admissible
    rw [← List.take_append_drop (index + 1) calls] at parts
    have later := after_delivers (stateAt_sound admissible (index + 1))
      (admissible_append parts).2 present
    have before := deliveredTo_of_absent new_sound (admissible_take admissible index) made.absent
    have making := perform_delivers (stateAt_sound admissible index) call id
    rw [List.getElem?_eq_none made.absent] at making
    have early : deliveredTo id (noticesOf (calls.take (index + 1)) {}) = [] := by
      rw [List.take_add_one, called, noticesOf_append, deliveredTo_append, before]
      exact (congrArg (deliveredTo id) (List.append_nil _)).trans making
    rw [length, sink] at later
    conv => lhs; rw [← List.take_append_drop (index + 1) calls]
    rw [noticesOf_append, deliveredTo_append, early]
    exact later
  · intro later call ordered called
    have sound := stateAt_sound admissible later
    obtain ⟨table, present, length, sink⟩ := made.settings admissible ordered
    have told := perform_delivers sound call id
    rw [present] at told
    rw [← length, ← sink]
    exact ⟨told, fun warning slow fails => perform_of_slow sound present slow fails⟩
  · intro later call warning called failed
    have still := perform_of_hook (stateAt_sound admissible later) failed
    exact ⟨(stateAt_succ called).trans still, outcomes_eraseIdx called still⟩

/-- A hook that fails for the arity zero only. -/
def touchy : Config :=
  { cacheLength := 0, sink := .hook fun warning => warning = .largeUnnamed 0 0 }

/-- A table with a hook and one whose hook fails for some warnings, with requests by arity on both
sides of the cache length, repeated ones among them, and requests of other kinds for the same
shapes. -/
def hooked : List Call :=
  [.openTable (.attended 2), .openTable touchy,
    .unnamed (.numbered 0) 1, .unnamed (.numbered 0) 2, .unnamed (.numbered 0) 2,
    .forNames (.numbered 0) [none, none, none], .unnamed (.numbered 1) 0,
    .forNames (.numbered 1) [], .unnamed (.numbered 1) 1, .unnamed (.numbered 1) 0,
    .unnamed .global 40, .unnamed (.numbered 0) 3]

theorem hook_told_of_slow_calls_hooked :
    Admissible hooked {} ∧
      Made hooked 0 0 (.attended 2) ∧
      deliveredTo 0 (noticesOf hooked {}) =
        [.largeUnnamed 2 2, .largeUnnamed 2 2, .largeUnnamed 3 2] ∧
      Made hooked 1 1 touchy ∧
      deliveredTo 1 (noticesOf hooked {}) =
        [.largeUnnamed 0 0, .largeUnnamed 1 0, .largeUnnamed 0 0] ∧
      stateAt hooked 7 = stateAt hooked 6 ∧
      outcomes (hooked.eraseIdx 6) {} = (outcomes hooked {}).eraseIdx 6 := by
  have admissible : Admissible hooked {} :=
    ⟨trivial, trivial, trivial, trivial, trivial, trivial, trivial, trivial, trivial, trivial,
      trivial, trivial, trivial⟩
  have first : Made hooked 0 0 (.attended 2) :=
    ⟨by decide, ⟨_, rfl, rfl⟩, by decide, by decide +kernel⟩
  have second : Made hooked 1 1 touchy :=
    ⟨by decide, ⟨_, rfl, rfl⟩, by decide +kernel, by decide +kernel⟩
  obtain ⟨told, -⟩ := hook_told_of_slow_calls hooked admissible 0 0 _ first
  obtain ⟨toldSecond, answered, traceless⟩ :=
    hook_told_of_slow_calls hooked admissible 1 1 _ second
  have failed := (answered 6 (.unnamed (.numbered 1) 0) (by decide) rfl).2
    (.largeUnnamed 0 0) (by decide +kernel) (by decide)
  refine ⟨admissible, first, told.trans ?_, second, toldSecond.trans ?_, ?_⟩
  · decide +kernel
  · decide +kernel
  · exact traceless 6 _ _ rfl failed

end Process

end CallShape
