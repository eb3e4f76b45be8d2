import CallShape.Proofs.Conduct
import CallShape.Proofs.History

set_option autoImplicit false

namespace CallShape

namespace Action

variable {σ ε α β : Type}

/-- What holds before the action holds after it, whether or not it answers. -/
def Preserves (action : Action σ ε α) (property : σ → Prop) : Prop :=
  ∀ state, property state → property (action state).state

theorem Preserves.of_still {action : Action σ ε α} (property : σ → Prop)
    (still : ∀ state, (action state).state = state) : action.Preserves property := by
  intro state before
  rw [still]
  exact before

theorem Preserves.bind {first : Action σ ε α} {next : α → Action σ ε β} {property : σ → Prop}
    (start : first.Preserves property) (go : ∀ value, (next value).Preserves property) :
    (first >>= next).Preserves property := by
  intro state before
  have between := start state before
  cases result : (first state).answer with
  | error reason =>
      rw [bind_of_error first next state reason result]
      exact between
  | ok value =>
      rw [bind_of_ok first next state value result]
      exact go value _ between

theorem Preserves.reply {action : Action σ ε α} {property : σ → Prop}
    (kept : action.Preserves property) (wrap : α → β) :
    (action >>= fun value => pure (wrap value)).Preserves property := by
  intro state before
  rw [state_reply]
  exact kept state before

end Action

namespace Call

/-- The same call, sent to the table with this number. -/
def sentTo (id : TableId) : Call → Call
  | .symbol _ text => .symbol (.numbered id) text
  | .forNames _ names => .forNames (.numbered id) names
  | .forFilledNames _ names => .forFilledNames (.numbered id) names
  | .forVector _ names => .forVector (.numbered id) names
  | .forSlots _ slots => .forSlots (.numbered id) slots
  | .unnamed _ arity => .unnamed (.numbered id) arity
  | .flatten _ supplied spread => .flatten (.numbered id) supplied spread
  | call => call

/-- The arity that the call asks for, if it asks by arity. -/
def arity? : Call → Option Nat
  | .unnamed _ arity => some arity
  | _ => none

/-- A call settles its target and is then a call to the table with that number. -/
theorem perform_eq_bind {call : Call} {target : Target} (sent : call.target? = some target) :
    call.perform = Process.resolve target >>= fun id => (call.sentTo id).perform := by
  cases call <;> cases sent <;> rfl

end Call

namespace Process

/-- What holds of the steps of a request holds of a call to the table. -/
theorem Conduct.sentTo {kind : ∀ {α : Type}, Action Process Fault α → Prop}
    (conduct : Conduct kind) {id : TableId} (entering : ∀ slots, kind (enter id slots))
    (interning : ∀ text, kind (onPool (Interner.intern text)))
    (naming : ∀ labels, kind (onPool (Interner.slots labels))) {call : Call} {target : Target}
    (sent : call.target? = some target)
    (asking : ∀ arity, call.arity? = some arity → kind (Process.unnamed id arity)) :
    kind (call.sentTo id).perform := by
  cases call with
  | openTable config => cases sent
  | installGlobal config => cases sent
  | globalTable => cases sent
  | symbol _ text => exact conduct.reply (conduct.symbol id (interning text)) Reply.symbol
  | forNames _ names => exact conduct.reply (conduct.request entering (naming _)) Reply.signature
  | forFilledNames _ names =>
      exact conduct.reply (conduct.request entering (naming _)) Reply.signature
  | forVector _ names =>
      apply conduct.bind (conduct.forVector entering naming names)
      intro signature
      cases signature <;> exact conduct.pure _
  | forSlots _ slots => exact conduct.reply (conduct.canonical entering slots) Reply.signature
  | unnamed _ arity => exact conduct.reply (asking arity rfl) Reply.signature
  | flatten _ supplied spread =>
      exact conduct.reply (conduct.flatten entering supplied spread) Reply.signature

/-- What holds of every step holds of every call. -/
theorem Conduct.perform {kind : ∀ {α : Type}, Action Process Fault α → Prop}
    (conduct : Conduct kind) (opening : ∀ config, kind (Process.openTable config))
    (choosing : ∀ id : TableId,
      kind (Action.modify ({ · with global := some id }) : Action Process Fault Unit))
    (entering : ∀ id slots, kind (enter id slots))
    (interning : ∀ text, kind (onPool (Interner.intern text)))
    (naming : ∀ labels, kind (onPool (Interner.slots labels))) {call : Call}
    (asking : ∀ id arity, call.arity? = some arity → kind (Process.unnamed id arity)) :
    kind call.perform := by
  cases sent : call.target? with
  | none =>
      cases call with
      | openTable config => exact conduct.reply (opening config) Reply.table
      | installGlobal config =>
          exact conduct.reply (conduct.installGlobal opening choosing config) Reply.table
      | globalTable => exact conduct.reply (conduct.globalTable opening choosing) Reply.table
      | _ => cases sent
  | some target =>
      rw [Call.perform_eq_bind sent]
      apply conduct.bind (conduct.resolve opening choosing target)
      intro id
      exact conduct.sentTo (entering id) interning naming sent (asking id)

theorem table_still (id : TableId) (process : Process) : (table id process).state = process := by
  cases present : process.tables[id]? with
  | none => rw [table_of_absent present]
  | some own => rw [table_of_present present]

theorem conduct_preserves (property : Process → Prop) :
    Conduct fun action => action.Preserves property where
  pure _ := Action.Preserves.of_still property fun _ => rfl
  bind start go := start.bind go
  failing _ := Action.Preserves.of_still property fun _ => rfl
  reading _ := Action.Preserves.of_still property fun _ => rfl
  looking id := Action.Preserves.of_still property (table_still id)

/-- What is done for a request preserves the property, as long as slots are entered only into
tables within reach. -/
structure Steady (property : Process → Prop) (reached : TableId → Prop) : Prop where
  naming : ∀ {α : Type} (action : Action Interner InternError α),
    (onPool action).Preserves property
  entering : ∀ id, reached id → ∀ slots, (enter id slots).Preserves property

namespace Steady

variable {property : Process → Prop} {reached : TableId → Prop}
  (steady : Steady property reached)
include steady

theorem symbol (id : TableId) (text : String) : (symbol id text).Preserves property :=
  (conduct_preserves property).symbol id (steady.naming _)

section Reach

variable {id : TableId} (inReach : reached id)
include inReach

theorem request (labels : List Label) : (request id labels).Preserves property :=
  (conduct_preserves property).request (steady.entering id inReach) (steady.naming _)

theorem unnamed (arity : Nat) : (unnamed id arity).Preserves property := by
  apply (conduct_preserves property).unnamed (steady.entering id inReach)
  intro warning sink
  exact Action.Preserves.of_still property fun process => by rw [warn_eq]

theorem sentTo {call : Call} {target : Target} (sent : call.target? = some target) :
    (call.sentTo id).perform.Preserves property :=
  (conduct_preserves property).sentTo (steady.entering id inReach) (fun _ => steady.naming _)
    (fun _ => steady.naming _) sent fun arity _ => steady.unnamed inReach arity

end Reach

end Steady

/-- Making tables and choosing the global one preserve the property too. -/
structure Invariant (property : Process → Prop) (reached : TableId → Prop) : Prop extends
    Steady property reached where
  opening : ∀ config, (openTable config).Preserves property
  choosing : ∀ process id, property process → property { process with global := some id }

namespace Invariant

variable {property : Process → Prop} {reached : TableId → Prop}
  (invariant : Invariant property reached)
include invariant

theorem choose (id : TableId) :
    (Action.modify ({ · with global := some id }) : Action Process Fault Unit).Preserves
      property :=
  fun process before => invariant.choosing process id before

theorem globalTable : globalTable.Preserves property :=
  (conduct_preserves property).globalTable invariant.opening invariant.choose

theorem installGlobal (config : Config) : (installGlobal config).Preserves property :=
  (conduct_preserves property).installGlobal invariant.opening invariant.choose config

theorem resolve (target : Target) : (resolve target).Preserves property :=
  (conduct_preserves property).resolve invariant.opening invariant.choose target

/-- A call preserves what its steps preserve, as long as it is not sent beyond reach. -/
theorem perform {process : Process} (before : property process) {call : Call}
    (inReach : ∀ id, call.tableId? process = some id → reached id) :
    property (call.perform process).state := by
  cases sent : call.target? with
  | none =>
      cases call with
      | openTable config => exact (invariant.opening config).reply Reply.table process before
      | installGlobal config =>
          exact (invariant.installGlobal config).reply Reply.table process before
      | globalTable => exact invariant.globalTable.reply Reply.table process before
      | _ => cases sent
  | some target =>
      have between := invariant.resolve target process before
      rw [Call.perform_eq_bind sent]
      cases result : (Process.resolve target process).answer with
      | error reason =>
          rw [Action.bind_of_error _ _ process reason result]
          exact between
      | ok id =>
          have settled := Call.tableId?_of_settled sent result
          rw [Action.bind_of_ok _ _ process id result]
          exact invariant.toSteady.sentTo (inReach id settled) sent _ between

end Invariant

section Other

/-- The table with this number is this one. -/
def TableIs (process : Process) (id : TableId) (table : Table) : Prop :=
  process.tables[id]? = some table

variable {id : TableId} {table : Table}

theorem enter_spares {other : TableId} (different : other ≠ id) (slots : List Slot) :
    (enter other slots).Preserves (·.TableIs id table) := by
  intro process present
  cases otherPresent : process.tables[other]? with
  | none =>
      rw [enter_of_absent slots otherPresent]
      exact present
  | some own =>
      cases found : own.find? slots with
      | some signature =>
          rw [enter_of_known otherPresent found]
          exact present
      | none =>
          rw [TableIs, enter_of_missing otherPresent found,
            tables_withSignature slots otherPresent, if_neg different]
          exact present

theorem newTable_spares (config : Config) : (newTable config).Preserves (·.TableIs id table) := by
  intro process present
  have inside := (List.getElem?_eq_some_iff.mp present).1
  have different : process.tables.length ≠ id := by omega
  have kept : (entered config process).state.TableIs id table := by
    apply Action.each_preserves _ (TableIs · id table)
    · intro arity _
      exact (Action.Preserves.of_still _ (reserve_still _ _)).bind fun _ => enter_spares different _
    · exact (List.getElem?_append_left inside).trans present
  cases result : (entered config process).answer with
  | error reason =>
      rw [newTable_of_error result]
      exact kept
  | ok unnamed =>
      rw [TableIs, newTable_of_ok result, tables_withAtHand, kept, Option.map_some,
        if_neg different]

theorem startNames_leaves_tables : startNames.Leaves Process.tables := by
  intro process
  unfold startNames
  cases process.names <;> rfl

theorem openTable_spares (config : Config) :
    (openTable config).Preserves (·.TableIs id table) := by
  have starting : startNames.Preserves (·.TableIs id table) := by
    intro process present
    rw [TableIs, startNames_leaves_tables]
    exact present
  rw [openTable_eq]
  apply starting.bind
  intro _
  apply (Action.Preserves.of_still (TableIs · id table) (reserve_still _ _)).bind
  intro _
  exact newTable_spares config

/-- A table is out of reach of what is done with the others. -/
theorem invariant_of_other (id : TableId) (table : Table) :
    Invariant (·.TableIs id table) (· ≠ id) where
  opening := openTable_spares
  choosing _ _ present := present
  naming _ _ present := present
  entering _ different slots := enter_spares different slots

/-- A call leaves every table as it is but the one that it was sent to. -/
theorem TableIs.of_elsewhere {process : Process} (present : process.TableIs id table) {call : Call}
    (elsewhere : call.tableId? process ≠ some id) :
    (call.perform process).state.TableIs id table := by
  apply (invariant_of_other id table).perform present
  rintro other sent rfl
  exact elsewhere sent

end Other

section Started

/-- The interner is there before the first table. -/
def Started (process : Process) : Prop := process.names = none → process.tables = []

theorem enter_started (id : TableId) (slots : List Slot) : (enter id slots).Preserves Started := by
  intro process started missing
  cases present : process.tables[id]? with
  | none =>
      rw [enter_of_absent slots present] at missing ⊢
      exact started missing
  | some table =>
      cases found : table.find? slots with
      | some signature =>
          rw [enter_of_known present found] at missing ⊢
          exact started missing
      | none =>
          rw [enter_of_missing present found] at missing
          rw [started missing] at present
          cases present

theorem names_startNames (process : Process) :
    (startNames process).state.names = some process.pool := by
  cases names : process.names with
  | some pool => simp only [startNames, names, Process.pool, Option.getD_some]
  | none => simp only [startNames, names, Process.pool, Option.getD_none]

/-- Making a table starts the interner, and leaves one that was started as it is. -/
theorem names_openTable (config : Config) (process : Process) :
    (openTable config process).state.names = some process.pool := by
  have later : ∀ _ : Unit, (do
      reserve config.cacheLength Capacity.signatureBytes
      newTable config).Leaves Process.names := by
    intro _
    apply Action.Leaves.bind
    · intro before
      rw [reserve_still]
    · intro _
      exact newTable_leaves (fun _ _ => rfl) (fun _ _ _ _ => rfl) (fun _ _ _ => rfl) config
  rw [openTable_eq]
  cases result : (startNames process).answer with
  | error reason =>
      rw [Action.bind_of_error _ _ process reason result]
      exact names_startNames process
  | ok started =>
      rw [Action.bind_of_ok _ _ process started result]
      exact (later started _).trans (names_startNames process)

theorem invariant_started : Invariant Started (fun _ => True) where
  opening config process _ missing := by
    rw [names_openTable] at missing
    cases missing
  choosing _ _ started := started
  naming _ _ _ missing := by cases missing
  entering id _ slots := enter_started id slots

theorem Started.after {process : Process} (started : process.Started) (calls : List Call) :
    (after calls process).Started := by
  induction calls generalizing process with
  | nil => exact started
  | cons call rest ih => exact ih (invariant_started.perform started fun _ _ => trivial)

theorem Reachable.started {process : Process} (reachable : process.Reachable) :
    process.Started := by
  obtain ⟨calls, -, rfl⟩ := reachable
  exact Started.after (fun _ => rfl) calls

theorem stateAt_started (calls : List Call) (index : Nat) : (stateAt calls index).Started :=
  Started.after (fun _ => rfl) (calls.take index)

/-- A process that has a table has its interner. -/
theorem Started.names_eq {process : Process} (started : process.Started) {id : TableId}
    {table : Table} (present : process.tables[id]? = some table) :
    process.names = some process.pool := by
  cases names : process.names with
  | some own => rw [pool, names, Option.getD_some]
  | none =>
      rw [started names] at present
      cases present

end Started

end Process

end CallShape
