import CallShape.Proofs.Entry
import CallShape.Proofs.Flattening
import CallShape.Proofs.Opening

set_option autoImplicit false

namespace CallShape

namespace Outline

variable {outline : Outline} {labels other : List Label} {shapes : List (List Label)}

theorem mem_enter :
    other ∈ (outline.enter labels).shapes ↔ other ∈ outline.shapes ∨ other = labels := by
  by_cases member : labels ∈ outline.shapes
  · rw [enter_of_mem member]
    constructor
    · exact Or.inl
    · rintro (old | rfl)
      · exact old
      · exact member
  · rw [enter_of_not_mem member, List.mem_append, List.mem_singleton]

theorem mem_enterAll :
    other ∈ (outline.enterAll shapes).shapes ↔ other ∈ outline.shapes ∨ other ∈ shapes := by
  induction shapes generalizing outline with
  | nil => simp only [enterAll, List.foldl_nil, List.not_mem_nil, or_false]
  | cons first rest ih =>
      change other ∈ ((outline.enter first).enterAll rest).shapes ↔ _
      rw [ih, mem_enter, List.mem_cons, or_assoc]

/-- Entering adds shapes and changes nothing else. -/
theorem settings_enterAll (outline : Outline) (shapes : List (List Label)) :
    (outline.enterAll shapes).atHand = outline.atHand ∧
      (outline.enterAll shapes).sink = outline.sink := by
  induction shapes generalizing outline with
  | nil => exact ⟨rfl, rfl⟩
  | cons first rest ih =>
      have entered : (outline.enter first).atHand = outline.atHand ∧
          (outline.enter first).sink = outline.sink := by
        unfold enter
        split <;> exact ⟨rfl, rfl⟩
      exact ⟨(ih _).1.trans entered.1, (ih _).2.trans entered.2⟩

theorem settings_opened (config : Config) (requests : List (List Label)) :
    ((opened config).enterAll requests).atHand = config.cacheLength ∧
      ((opened config).enterAll requests).sink = config.sink := by
  obtain ⟨atHand, sink⟩ := settings_enterAll (opened config) requests
  exact ⟨atHand, sink.trans (settings_enterAll (blank config.sink) _).2⟩

theorem enterAll_append (outline : Outline) (first second : List (List Label)) :
    outline.enterAll (first ++ second) = (outline.enterAll first).enterAll second :=
  List.foldl_append

end Outline

namespace Call

/-- The configuration of a table that the call makes. Only the global table is made without being
asked for, with the defaults. -/
def config : Call → Config
  | .openTable config => config
  | .installGlobal config => config
  | _ => {}

/-- The labels that the call asked for, if it was answered with a signature. -/
def gained (call : Call) : Except Fault Reply → Option (List Label)
  | .ok (.signature _) => call.labels?
  | _ => none

theorem gained_of_no_labels {call : Call} (unlabelled : call.labels? = none)
    (answer : Except Fault Reply) : call.gained answer = none := by
  unfold gained
  split
  · exact unlabelled
  · rfl

/-- The labels that the call, made in this state, asks this table for and gets. -/
def request? (id : TableId) (process : Process) (call : Call) : Option (List Label) :=
  if call.tableId? process = some id then call.gained (call.perform process).answer else none

theorem labels?_of_request? {call : Call} {id : TableId} {process : Process}
    {labels : List Label} (got : call.request? id process = some labels) :
    call.labels? = some labels := by
  unfold request? gained at got
  split at got
  · split at got
    · exact got
    · cases got
  · cases got

/-- A vector with names is asked for like the names: the optional answer in between is always
there. -/
theorem perform_forVector_some (id : TableId) (texts : List String) :
    (Call.forVector (.numbered id) (some texts)).perform =
      (do return Reply.signature (← Process.forFilledNames id (texts.map some))) := by
  simp only [Call.perform, Process.forVector, Label.map_ofVectorName, Action.bind_assoc]
  rfl

/-- What a caller can hand over, it can hand over later. -/
theorem Admissible.of_extends {call : Call} {before after : Process}
    (admissible : call.Admissible before) (sound : before.Sound) (soundAfter : after.Sound)
    (extended : before.Extends after) : call.Admissible after := by
  cases call with
  | forSlots target slots =>
      exact sound.pool.toOrderly.knows_of_grows soundAfter.pool.toOrderly extended.pool admissible
  | flatten target supplied spread =>
      exact ⟨admissible.1.of_extends extended,
        fun expansion member => (admissible.2 expansion member).of_extends extended⟩
  | _ => trivial

end Call

namespace Process

variable {process : Process} {id : TableId} {outline : Outline} {labels : List Label}

section Request

/-- The action either answers and has entered the labels into the table, or fails and has left all
tables as they were. -/
structure Registers (id : TableId) (outline : Outline) (labels : List Label)
    (action : Action Process Fault Signature) (process : Process) : Prop where
  entered : ∀ signature, (action process).answer = .ok signature →
    (action process).state.Outlines id (outline.enter labels)
  refused : ∀ reason, (action process).answer = .error reason →
    (action process).state.tables = process.tables

theorem Registers.of_attains {action : Action Process Fault Signature}
    (attained : discipline.Attains action process (Enters id outline labels)) :
    Registers id outline labels action process := by
  refine ⟨fun signature answered => (attained.answer signature answered).2, ?_⟩
  intro reason failed
  obtain ⟨signature, answered⟩ := attained.answers
  rw [answered] at failed
  cases failed

theorem Registers.of_error {action : Action Process Fault Signature} {reason : Fault}
    (failed : (action process).answer = .error reason)
    (still : (action process).state = process) : Registers id outline labels action process := by
  refine ⟨?_, fun _ _ => by rw [still]⟩
  intro signature answered
  rw [failed] at answered
  cases answered

section Sound

variable (sound : process.Sound) (outlined : process.Outlines id outline)
include sound outlined

theorem registers_request_of_room {labels : List Label} (room : labels.length ≤ 2 ^ 57) :
    Registers id outline labels (request id labels) process := by
  refine ⟨fun signature answered =>
    ((request_enters sound outlined room).1.answer signature answered).2, ?_⟩
  obtain ⟨table, present, -⟩ := outlined
  intro reason failed
  rw [request_of_room present room] at failed ⊢
  cases result : (onPool (Interner.slots labels) process).answer with
  | error cause =>
      rw [Action.bind_of_error _ _ process cause result]
      rfl
  | ok slots =>
      -- with the names interned, the table is sure to answer
      have presentStill : (onPool (Interner.slots labels) process).state.tables[id]? = some table :=
        present
      obtain ⟨signature, answered⟩ := canonical_ok presentStill slots
      rw [Action.bind_of_ok _ _ process slots result, answered] at failed
      cases failed

theorem registers_request (labels : List Label) :
    Registers id outline labels (request id labels) process := by
  by_cases room : labels.length ≤ 2 ^ 57
  · exact registers_request_of_room sound outlined room
  · obtain ⟨table, present, -⟩ := outlined
    have refused := request_of_full present room
    exact Registers.of_error (congrArg Outcome.answer refused) (congrArg Outcome.state refused)

theorem registers_unnamed (arity : Nat) :
    Registers id outline (List.replicate arity .positional) (unnamed id arity) process := by
  obtain ⟨table, present, rfl⟩ := outlined
  by_cases grants : table.Grants arity
  · obtain ⟨answer, state⟩ := sound.unnamed_agrees present grants
    have entered := Registers.of_attains (canonical_enters sound ⟨table, present, rfl⟩
      (Interner.knows_replicate_positional process.pool arity))
    rw [List.map_replicate, Slot.label] at entered
    refine ⟨?_, ?_⟩
    · rw [answer, state]
      exact entered.entered
    · rw [answer, state]
      exact entered.refused
  · obtain ⟨still, full | ⟨warning, failed⟩⟩ := unnamed_of_not_grants present grants
    · exact Registers.of_error full still
    · exact Registers.of_error failed still

theorem registers_flatten {supplied : Signature} {spread : Spread}
    (held : process.Holds supplied)
    (expansions : ∀ expansion, some expansion ∈ spread.groups → process.Holds expansion) :
    Registers id outline (spread.flattenedLabels supplied) (flatten id supplied spread)
      process := by
  by_cases covered : supplied.arity = spread.length
  · by_cases fits : spread.Fits
    · exact Registers.of_attains (flatten_enters sound outlined held expansions covered fits)
    · rw [flatten_of_full covered fits]
      exact Registers.of_error rfl rfl
  · rw [flatten_of_mismatch covered]
    exact Registers.of_error rfl rfl

end Sound

end Request

section Record

/-- After a call to the table: what the call has gained is entered, and without a gain all tables
are as they were. -/
structure Records (call : Call) (id : TableId) (outline : Outline) (before : Process)
    (answer : Except Fault Reply) (after : Process) : Prop where
  entered : after.Outlines id (outline.enterAll (call.gained answer).toList)
  refused : call.gained answer = none → after.tables = before.tables

variable {call : Call}

theorem Records.of_no_labels {before after : Process} (outlined : before.Outlines id outline)
    (unlabelled : call.labels? = none) (still : after.tables = before.tables)
    (answer : Except Fault Reply) : Records call id outline before answer after := by
  have nothing := Call.gained_of_no_labels unlabelled answer
  refine ⟨?_, fun _ => still⟩
  rw [nothing, Outlines, still]
  exact outlined

theorem Registers.records {action : Action Process Fault Signature}
    (registers : Registers id outline labels action process)
    (outlined : process.Outlines id outline) (asked : call.labels? = some labels) :
    Records call id outline process
      ((do return Reply.signature (← action) : Action Process Fault Reply) process).answer
      ((do return Reply.signature (← action) : Action Process Fault Reply) process).state := by
  cases result : (action process).answer with
  | ok signature =>
      rw [Action.bind_of_ok _ _ process signature result]
      refine ⟨?_, ?_⟩
      · change (action process).state.Outlines id (outline.enterAll call.labels?.toList)
        rw [asked]
        exact registers.entered signature result
      · intro nothing
        change call.labels? = none at nothing
        rw [asked] at nothing
        cases nothing
  | error reason =>
      have still := registers.refused reason result
      rw [Action.bind_of_error _ _ process reason result]
      refine ⟨?_, fun _ => still⟩
      change (action process).state.Outlines id outline
      rw [Outlines, still]
      exact outlined

/-- What is done for a request without entering slots leaves all tables alone. -/
theorem steady_tables (tables : List Table) : Steady (·.tables = tables) (fun _ => False) where
  naming _ _ same := same
  entering _ never := never.elim

/-- A call sent to the table by its number. -/
theorem sentTo_records (sound : process.Sound) (outlined : process.Outlines id outline)
    {target : Target} (sent : call.target? = some target) (admissible : call.Admissible process) :
    Records call id outline process ((call.sentTo id).perform process).answer
      ((call.sentTo id).perform process).state := by
  cases call with
  | openTable config => cases sent
  | installGlobal config => cases sent
  | globalTable => cases sent
  | symbol _ text =>
      apply Records.of_no_labels outlined rfl
      exact ((steady_tables process.tables).symbol id text).reply Reply.symbol process rfl
  | forNames _ names => exact (registers_request sound outlined _).records outlined rfl
  | forFilledNames _ names => exact (registers_request sound outlined _).records outlined rfl
  | forVector _ names =>
      cases names with
      | none =>
          apply Records.of_no_labels outlined rfl
          have still : (forVector id none).Preserves (·.tables = process.tables) :=
            (Action.Preserves.of_still _ (table_still id)).reply fun _ => none
          refine still.bind (fun signature => ?_) process rfl
          cases signature <;> exact Action.Preserves.of_still _ fun _ => rfl
      | some texts =>
          have registers := registers_request sound outlined
            ((texts.map some).map Label.ofFilledName)
          rw [Call.sentTo, Call.perform_forVector_some]
          exact registers.records outlined (by rw [Call.labels?, List.map_map]; rfl)
  | forSlots _ slots =>
      exact (Registers.of_attains (canonical_enters sound outlined admissible)).records outlined rfl
  | unnamed _ arity => exact (registers_unnamed sound outlined arity).records outlined rfl
  | flatten _ supplied spread =>
      exact (registers_flatten sound outlined admissible.1 admissible.2).records outlined rfl

end Record

section Step

variable {call : Call} (sound : process.Sound) (admissible : call.Admissible process)
include sound admissible

theorem perform_records {target : Target} (sent : call.target? = some target)
    (settled : (resolve target process).answer = .ok id)
    (outlined : (resolve target process).state.Outlines id outline) :
    Records call id outline (resolve target process).state (call.perform process).answer
      (call.perform process).state := by
  have kept := resolve_keeps sound target
  have later := admissible.of_extends sound kept.fit kept.grown
  rw [Call.perform_eq_bind sent, Action.bind_of_ok _ _ process id settled]
  exact sentTo_records kept.fit outlined sent later

/-- One call: a table that is there takes in what the call gets from it. -/
theorem step_outlines (outlined : process.Outlines id outline) :
    (call.perform process).state.Outlines id
      (outline.enterAll (call.request? id process).toList) := by
  obtain ⟨table, present, rfl⟩ := outlined
  by_cases own : call.tableId? process = some id
  · obtain ⟨target, sent, settled⟩ := Call.settled_of_tableId? own
    have between := (invariant_of_other id table).resolve target process present
    rw [Call.request?, if_pos own]
    exact (perform_records sound admissible sent settled ⟨table, between, rfl⟩).entered
  · rw [Call.request?, if_neg own]
    exact ⟨table, TableIs.of_elsewhere present own, rfl⟩

/-- A call that gets nothing from a table leaves it exactly as it is. -/
theorem step_spares {table : Table} (present : process.TableIs id table)
    (nothing : call.request? id process = none) :
    (call.perform process).state.TableIs id table := by
  by_cases own : call.tableId? process = some id
  · obtain ⟨target, sent, settled⟩ := Call.settled_of_tableId? own
    have between := (invariant_of_other id table).resolve target process present
    rw [Call.request?, if_pos own] at nothing
    rw [TableIs, (perform_records sound admissible sent settled ⟨table, between, rfl⟩).refused
      nothing]
    exact between
  · exact TableIs.of_elsewhere present own

/-- A table has to be there for a call to get something from it. -/
theorem request?_inside (got : call.request? id process = some labels) :
    id < (call.perform process).state.tables.length := by
  unfold Call.request? at got
  split at got
  · rename_i own
    have kept := Call.perform_keeps sound admissible
    unfold Call.gained at got
    split at got
    · rename_i signature answered
      obtain ⟨other, -, sent, -, ⟨table, present, -⟩, -⟩ := kept.answer _ answered signature rfl
      rw [own] at sent
      cases sent
      exact (List.getElem?_eq_some_iff.mp present).1
    · cases got
  · cases got

end Step

section Making

/-- There are as many tables as before, or one more that was made with this configuration. -/
def Gains (config : Config) (before after : Process) : Prop :=
  after.tables.length = before.tables.length ∨
    after.tables.length = before.tables.length + 1 ∧
      after.Outlines before.tables.length (Outline.opened config)

variable {config : Config}

theorem Gains.congr {before after other : Process} (gains : Gains config before after)
    (same : other.tables = after.tables) : Gains config before other := by
  rw [Gains, Outlines, same]
  exact gains

theorem Gains.outlines {before after : Process} (gains : Gains config before after) {id : Nat}
    (absent : before.tables.length ≤ id) (present : id < after.tables.length) :
    id = before.tables.length ∧ after.Outlines id (Outline.opened config) := by
  rcases gains with same | ⟨more, outlined⟩
  · omega
  · have last : id = before.tables.length := by omega
    rw [last]
    exact ⟨rfl, outlined⟩

variable (sound : process.Sound)
include sound

theorem openTable_gains (fits : config.Fits) :
    Gains config process (openTable config process).state := by
  obtain ⟨answer, length⟩ := openTable_last sound fits
  exact Or.inr ⟨length, (openTable_opens sound fits).answer _ answer⟩

theorem installGlobal_gains (fits : config.Fits) :
    Gains config process (installGlobal config process).state := by
  refine (openTable_gains sound fits).congr (Action.Leaves.last ?_ (openTable config) process)
  intro id
  apply Action.Leaves.bind (fun _ => rfl)
  intro chosen
  cases chosen <;> exact fun _ => rfl

theorem globalTable_gains : Gains {} process (globalTable process).state ∧
    ∃ own, (globalTable process).answer = .ok own ∧
      (process.tables.length < (globalTable process).state.tables.length →
        own = process.tables.length) := by
  cases chosen : process.global with
  | some id =>
      rw [globalTable_of_chosen chosen]
      exact ⟨Or.inl rfl, id, rfl, fun more => absurd more (Nat.lt_irrefl _)⟩
  | none =>
      have opened := (openTable_last sound Config.default_fits).1
      rw [globalTable_of_vacant chosen opened]
      exact ⟨(openTable_gains sound Config.default_fits).congr rfl, process.tables.length, rfl,
        fun _ => rfl⟩

/-- A target is always settled, and if that makes a table, it is the target. -/
theorem resolve_gains (target : Target) : Gains {} process (resolve target process).state ∧
    ∃ own, (resolve target process).answer = .ok own ∧
      (process.tables.length < (resolve target process).state.tables.length →
        own = process.tables.length) := by
  cases target with
  | numbered id => exact ⟨Or.inl rfl, id, rfl, fun more => absurd more (Nat.lt_irrefl _)⟩
  | global => exact globalTable_gains sound

/-- A target is there already, or it is made on the spot, without a hook. -/
theorem resolve_cases (target : Target) :
    ∃ own, resolve target process = ⟨.ok own, process, []⟩ ∨
      (resolve target process).answer = .ok own ∧ process.tables[own]? = none ∧
        ∃ table, (resolve target process).state.tables[own]? = some table ∧ table.sink = .log := by
  cases target with
  | numbered id => exact ⟨id, Or.inl rfl⟩
  | global =>
      cases chosen : process.global with
      | some id => exact ⟨id, Or.inl (globalTable_of_chosen chosen)⟩
      | none =>
          have opened := (openTable_last sound Config.default_fits).1
          obtain ⟨table, present, outlined⟩ :=
            (openTable_opens sound Config.default_fits).answer _ opened
          have hookless : table.sink = .log :=
            (congrArg Outline.sink outlined).trans (Outline.settings_opened {} []).2
          have made : resolve .global process = _ := globalTable_of_vacant chosen opened
          have new : process.tables[process.tables.length]? = none :=
            List.getElem?_eq_none (Nat.le_refl _)
          rw [made]
          exact ⟨process.tables.length, Or.inr ⟨rfl, new, table, present, hookless⟩⟩

/-- A call to a table that is there goes to it at once. -/
theorem perform_of_there {call : Call} {table : Table}
    (present : process.tables[id]? = some table) (own : call.tableId? process = some id) :
    call.perform process = (call.sentTo id).perform process := by
  obtain ⟨target, sent, settled⟩ := Call.settled_of_tableId? own
  rw [Call.perform_eq_bind sent]
  obtain ⟨other, there | ⟨otherwise, new, -⟩⟩ := resolve_cases sound target
  · rw [there] at settled
    cases settled
    exact Action.bind_of_read there
  · rw [settled] at otherwise
    cases otherwise
    rw [present] at new
    cases new

/-- The call that makes a table may also be the first to get something from it. -/
theorem making_outlines {call : Call} (admissible : call.Admissible process)
    (fits : call.config.Fits) (absent : process.tables.length ≤ id)
    (present : id < (call.perform process).state.tables.length) :
    (call.perform process).state.Outlines id
      ((Outline.opened call.config).enterAll (call.request? id process).toList) := by
  cases sent : call.target? with
  | none =>
      have nothing : call.request? id process = none := by
        rw [Call.request?, Call.tableId?, sent]
        rfl
      have gains : Gains call.config process (call.perform process).state := by
        cases call with
        | openTable config =>
            rw [Call.perform, Action.state_reply]
            exact openTable_gains sound fits
        | installGlobal config =>
            rw [Call.perform, Action.state_reply]
            exact installGlobal_gains sound fits
        | globalTable =>
            rw [Call.perform, Action.state_reply]
            exact (globalTable_gains sound).1
        | _ => cases sent
      rw [nothing]
      exact (gains.outlines absent present).2
  | some target =>
      have default : call.config = {} := by
        cases call with
        | openTable config => cases sent
        | installGlobal config => cases sent
        | _ => rfl
      obtain ⟨gains, own, settled, new⟩ := resolve_gains sound target
      -- what follows the settling of the target makes no table
      have count : (call.perform process).state.tables.length =
          (resolve target process).state.tables.length := by
        rw [Call.perform_eq_bind sent, Action.bind_of_ok _ _ process own settled]
        exact (steady_count _).sentTo trivial sent (resolve target process).state rfl
      rw [count] at present
      obtain ⟨last, outlined⟩ := gains.outlines absent present
      have same : own = id := (new (last ▸ present)).trans last.symm
      rw [same] at settled
      rw [default, Call.request?, if_pos (Call.tableId?_of_settled sent settled)]
      exact (perform_records sound admissible sent settled outlined).entered

end Making

section Run

/-- What a table was asked for and gave in a run, in order. -/
def requested (id : TableId) : List Call → Process → List (List Label)
  | [], _ => []
  | call :: rest, process =>
      (call.request? id process).toList ++ requested id rest (call.perform process).state

theorem requested_append (id : TableId) (first second : List Call) (process : Process) :
    requested id (first ++ second) process =
      requested id first process ++ requested id second (after first process) := by
  induction first generalizing process with
  | nil => rfl
  | cons call rest ih =>
      rw [List.cons_append, requested, requested, ih, List.append_assoc]
      rfl

/-- From any state on: a table takes in what the run gets from it. -/
theorem after_outlines (sound : process.Sound) {calls : List Call}
    (admissible : Admissible calls process) (outlined : process.Outlines id outline) :
    (after calls process).Outlines id (outline.enterAll (requested id calls process)) := by
  induction calls generalizing process outline with
  | nil => exact outlined
  | cons call rest ih =>
      have kept := Call.perform_keeps sound admissible.1
      rw [requested, Outline.enterAll_append]
      exact ih kept.fit admissible.2 (step_outlines sound admissible.1 outlined)

/-- Nothing is got from a table that is never there. -/
theorem requested_of_absent (sound : process.Sound) {calls : List Call}
    (admissible : Admissible calls process) (absent : (after calls process).tables.length ≤ id) :
    requested id calls process = [] := by
  induction calls generalizing process with
  | nil => rfl
  | cons call rest ih =>
      have kept := Call.perform_keeps sound admissible.1
      have grown := (Sound.after kept.fit admissible.2).2
      have nothing : call.request? id process = none := by
        rw [Option.eq_none_iff_forall_ne_some]
        intro labels got
        have inside := grown.inside (request?_inside sound admissible.1 got)
        exact absurd inside (Nat.not_lt.mpr absent)
      rw [requested, nothing, ih kept.fit admissible.2 absent]
      rfl

/-- Call number `index` of a run made the table with this number, with this configuration. A table
that does not fit is given up and not made. -/
structure Made (calls : List Call) (index : Nat) (id : TableId) (config : Config) : Prop where
  fits : config.Fits
  config : ∃ call, calls[index]? = some call ∧ call.config = config
  absent : (stateAt calls index).tables.length ≤ id
  present : id < (stateAt calls (index + 1)).tables.length

/-- A table is made of its configuration and of what the run gets from it. -/
theorem Made.outlines {calls : List Call} (admissible : Admissible calls {}) {index : Nat}
    {config : Config} (made : Made calls index id config) :
    (after calls {}).Outlines id
      ((Outline.opened config).enterAll (requested id calls {})) := by
  obtain ⟨call, called, rfl⟩ := made.config
  have sound := stateAt_sound admissible index
  have here := admissible_at admissible called
  have present := made.present
  rw [stateAt_succ called] at present
  have outlined := making_outlines sound here made.fits made.absent present
  obtain ⟨inside, rfl⟩ := List.getElem?_eq_some_iff.mp called
  -- before call number `index` nothing is got from the table, with it the table is made
  have split : calls = calls.take index ++ calls[index] :: calls.drop (index + 1) := by
    rw [← List.drop_eq_getElem_cons inside, List.take_append_drop]
  have parts := admissible
  rw [split] at parts
  obtain ⟨early, -, late⟩ := admissible_append parts
  have before := requested_of_absent new_sound early made.absent
  have later := after_outlines (Call.perform_keeps sound here).fit late outlined
  have requests : requested id calls {} = (calls[index].request? id (stateAt calls index)).toList ++
      requested id (calls.drop (index + 1)) (calls[index].perform (stateAt calls index)).state := by
    conv => lhs; rw [split, requested_append, before]
    rfl
  have final : after calls {} =
      after (calls.drop (index + 1)) (calls[index].perform (stateAt calls index)).state := by
    conv => lhs; rw [split, after_append]
    rfl
  rw [requests, final, Outline.enterAll_append]
  exact later

end Run

end Process

end CallShape
