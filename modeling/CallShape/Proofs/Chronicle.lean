import CallShape.Proofs.Journal
import CallShape.Trace.Record

set_option autoImplicit false

namespace CallShape

section Record

def Interner.Entry.record (entry : Interner.Entry) : Trace.Record :=
  ⟨.trace, "r_intern::interner", "interned name",
    [("name", .quoted entry.text), ("shard", .count entry.shard), ("total", .count entry.total)]⟩

def Signature.record (signature : Signature) : Trace.Record :=
  ⟨.trace, "r_args::table", "interned new signature",
    [("signature", .plain signature.display)]⟩

theorem records_of_names (log : List Notice) :
    (Trace.Record.ofNotices log).filter (·.message == "interned name") =
      (entriesOf log).map Interner.Entry.record := by
  rw [Trace.Record.ofNotices, List.filter_filterMap, entriesOf, List.map_filterMap]
  congr 1
  funext notice
  cases notice <;> rfl

theorem records_of_signatures (log : List Notice) :
    (Trace.Record.ofNotices log).filter (·.message == "interned new signature") =
      (additionsOf log).map fun addition => addition.2.record := by
  rw [Trace.Record.ofNotices, List.filter_filterMap, additionsOf, List.map_filterMap]
  congr 1
  funext notice
  cases notice <;> rfl

end Record

namespace Call

/-- The labels whose names the call has interned. -/
def named : Call → List Label
  | .symbol _ text => [.named text]
  | .forNames _ names => names.map Label.ofName
  | .forFilledNames _ names => names.map Label.ofFilledName
  | .forVector _ names => (names.getD []).map (Label.ofFilledName ∘ some)
  | _ => []

/-- The texts that the call has interned, from left to right. -/
def texts (call : Call) : List String := call.named.filterMap Label.text?

end Call

namespace Process

/-- Those of the texts that the shared interner holds. -/
def known (process : Process) (texts : List String) : List String :=
  (process.names.map (·.known texts)).getD []

/-- The texts that the calls of a run asked for and that were held then, in order. -/
def interned : List Call → Process → List String
  | [], _ => []
  | call :: rest, process =>
      (call.perform process).state.known call.texts ++ interned rest (call.perform process).state

/-- The names in the log of a process: none before the shared interner is made, its ledger since. -/
structure Enrolled (process : Process) (asked : List String) (entries : List Interner.Entry) :
    Prop where
  before : process.names = none → asked = [] ∧ entries = []
  since : ∀ pool, process.names = some pool → pool.Ledger (Interner.presets ++ asked) entries

variable {process : Process} {asked : List String} {entries : List Interner.Entry}

theorem Enrolled.congr (enrolled : process.Enrolled asked entries) {other : Process}
    (same : other.names = process.names) : other.Enrolled asked entries := by
  refine ⟨?_, ?_⟩
  · rw [same]
    exact enrolled.before
  · rw [same]
    exact enrolled.since

/-- To ask again for what is there makes no difference. -/
theorem Enrolled.known (enrolled : process.Enrolled asked entries) (texts : List String) :
    process.Enrolled (asked ++ process.known texts) entries := by
  cases names : process.names with
  | none =>
      rw [Process.known, names]
      exact (List.append_nil asked).symm ▸ enrolled
  | some pool =>
      rw [Process.known, names]
      have ledger := (enrolled.since pool names).known texts
      rw [List.append_assoc] at ledger
      refine ⟨?_, ?_⟩
      · intro missing
        rw [names] at missing
        cases missing
      · intro other same
        rw [names] at same
        cases same
        exact ledger

section Enrols

/-- The action asks for no name, and the log keeps up with the shared interner. -/
def Enrols {α : Type} (action : Action Process Fault α) : Prop :=
  ∀ process asked entries, process.Enrolled asked entries →
    (action process).state.Enrolled asked (entries ++ entriesOf (action process).notices)

theorem Enrols.of_still {α : Type} {action : Action Process Fault α}
    (still : action.Leaves Process.names)
    (silent : ∀ process, entriesOf (action process).notices = []) : Enrols action := by
  intro process asked entries enrolled
  rw [silent process, List.append_nil]
  exact enrolled.congr (still process)

theorem conduct_enrols : Conduct fun action => Enrols action where
  pure _ := Enrols.of_still (fun _ => rfl) fun _ => rfl
  bind := by
    intro α β first next start go process asked entries enrolled
    have between := start process asked entries enrolled
    cases result : (first process).answer with
    | error reason =>
        rw [Action.bind_of_error first next process reason result]
        exact between
    | ok value =>
        rw [Action.bind_of_ok first next process value result, entriesOf_append,
          ← List.append_assoc]
        exact go value _ _ _ between
  failing _ := Enrols.of_still (fun _ => rfl) fun _ => rfl
  reading _ := Enrols.of_still (fun _ => rfl) fun _ => rfl
  looking id := by
    apply Enrols.of_still
    · intro process
      rw [table_still]
    · intro process
      rw [notices_table]
      rfl

theorem enter_reports (id : TableId) (slots : List Slot) (process : Process) :
    ∃ signatures : List Signature,
      (enter id slots process).notices = signatures.map (Notice.signatureAdded id) ∧
        signatures.length ≤ 1 := by
  cases present : process.tables[id]? with
  | none => exact ⟨[], by rw [enter_of_absent slots present]; rfl, Nat.zero_le 1⟩
  | some table =>
      cases found : table.find? slots with
      | some signature => exact ⟨[], by rw [enter_of_known present found]; rfl, Nat.zero_le 1⟩
      | none =>
          exact ⟨[Signature.build process.nextSerial slots],
            by rw [enter_of_missing present found]; rfl, Nat.le_refl 1⟩

theorem entriesOf_signatures (id : TableId) (signatures : List Signature) :
    entriesOf (signatures.map (Notice.signatureAdded id)) = [] := by
  rw [entriesOf, List.filterMap_map, List.filterMap_eq_nil_iff]
  exact fun _ _ => rfl

theorem enter_enrols (id : TableId) (slots : List Slot) : Enrols (enter id slots) := by
  apply Enrols.of_still (enter_leaves (fun _ _ _ _ => rfl) id slots)
  intro process
  obtain ⟨signatures, reported, -⟩ := enter_reports id slots process
  rw [reported, entriesOf_signatures]

theorem warn_enrols (id : TableId) (warning : Warning) (sink : Sink) :
    Enrols (warn id warning sink) := by
  apply Enrols.of_still
  · intro process
    rw [warn_eq]
  · intro process
    rw [warn_eq]
    cases sink <;> rfl

/-- With the shared interner the presets come into the log. -/
theorem startNames_enrols : Enrols startNames := by
  intro process asked entries enrolled
  cases names : process.names with
  | some pool =>
      simp only [startNames, names]
      exact (List.append_nil entries).symm ▸ enrolled
  | none =>
      obtain ⟨rfl, rfl⟩ := enrolled.before names
      simp only [startNames, names]
      refine ⟨?_, ?_⟩
      · intro missing
        cases missing
      · intro pool own
        cases own
        exact Interner.initial_ledger

theorem openTable_enrols (config : Config) : Enrols (openTable config) :=
  conduct_enrols.openTable startNames_enrols
    (fun _ => Enrols.of_still (fun _ => rfl) fun _ => rfl) enter_enrols
    (fun _ _ => Enrols.of_still (fun _ => rfl) fun _ => rfl) config

theorem choose_enrols (id : TableId) :
    Enrols (Action.modify ({ · with global := some id }) : Action Process Fault Unit) :=
  Enrols.of_still (fun _ => rfl) fun _ => rfl

end Enrols

section Naming

/-- The action asks for these texts, and after it the log is up to date. -/
def UpToDate {α : Type} (action : Action Process Fault α) (texts : List String)
    (process : Process) (asked : List String) (entries : List Interner.Entry) : Prop :=
  (action process).state.Enrolled (asked ++ (action process).state.known texts)
    (entries ++ entriesOf (action process).notices)

theorem UpToDate.reply {α β : Type} {action : Action Process Fault α} {texts : List String}
    (current : UpToDate action texts process asked entries) (wrap : α → β) :
    UpToDate (action >>= fun value => pure (wrap value)) texts process asked entries := by
  rw [UpToDate, Action.state_reply, Action.notices_reply]
  exact current

/-- An action that asks for no text. -/
theorem Enrols.upToDate {α : Type} {action : Action Process Fault α} (enrols : Enrols action)
    (enrolled : process.Enrolled asked entries) : UpToDate action [] process asked entries :=
  (enrols process asked entries enrolled).known []

/-- What an interner takes in for the process. -/
theorem onPool_upToDate {α : Type} {action : Action Interner InternError α} {texts : List String}
    (takes : ∀ {pool : Interner} {asked entries}, pool.Ledger asked entries →
      (action pool).state.Ledger (asked ++ (action pool).state.known texts)
        (entries ++ entriesOf (action pool).notices))
    (enrolled : process.Enrolled asked entries) (names : process.names = some process.pool) :
    UpToDate (onPool action) texts process asked entries := by
  refine ⟨?_, ?_⟩
  · intro missing
    cases missing
  · intro pool own
    cases own
    rw [← List.append_assoc]
    exact takes (enrolled.since process.pool names)

variable {id : TableId}

/-- Without the table nothing is interned. -/
theorem upToDate_of_absent {α : Type} {next : Table → Action Process Fault α}
    (enrolled : process.Enrolled asked entries) (absent : process.tables[id]? = none)
    (texts : List String) : UpToDate (table id >>= next) texts process asked entries := by
  have missing := table_of_absent absent
  rw [UpToDate, Action.bind_of_error _ _ process .unknownTable (by rw [missing]), missing]
  exact (List.append_nil entries).symm ▸ enrolled.known texts

theorem symbol_upToDate (started : process.Started) (enrolled : process.Enrolled asked entries)
    (id : TableId) (text : String) :
    UpToDate (symbol id text) [text] process asked entries := by
  cases present : process.tables[id]? with
  | none => exact upToDate_of_absent enrolled present [text]
  | some table =>
      rw [UpToDate, symbol_of_present present]
      exact onPool_upToDate (fun ledger => Interner.intern_ledger ledger text) enrolled
        (started.names_eq present)

theorem canonical_leaves_names (id : TableId) (slots : List Slot) :
    (canonical id slots).Leaves Process.names := by
  intro process
  apply (conduct_preserves (·.names = process.names)).canonical _ slots process rfl
  intro entered before same
  exact (enter_leaves (fun _ _ _ _ => rfl) id entered before).trans same

theorem request_upToDate (started : process.Started) (enrolled : process.Enrolled asked entries)
    (id : TableId) (labels : List Label) :
    UpToDate (request id labels) (labels.filterMap Label.text?) process asked entries := by
  cases present : process.tables[id]? with
  | none => exact upToDate_of_absent enrolled present _
  | some table =>
      by_cases room : labels.length ≤ 2 ^ 57
      · have named : UpToDate (onPool (Interner.slots labels)) _ process asked entries :=
          onPool_upToDate (fun ledger => Interner.slots_ledger ledger labels) enrolled
            (started.names_eq present)
        rw [UpToDate, request_of_room present room]
        cases result : (onPool (Interner.slots labels) process).answer with
        | error reason =>
            rw [Action.bind_of_error _ _ process reason result]
            exact named
        | ok slots =>
            have later := conduct_enrols.canonical (enter_enrols id) slots _ _ _ named
            have names := canonical_leaves_names id slots
              (onPool (Interner.slots labels) process).state
            rw [Action.bind_of_ok _ _ process slots result, entriesOf_append, ← List.append_assoc,
              known, names]
            exact later
      · rw [UpToDate, request_of_full present room]
        exact (List.append_nil entries).symm ▸ enrolled.known _

end Naming

section Step

/-- A call sent to a table by its number. -/
theorem sentTo_upToDate (started : process.Started) (enrolled : process.Enrolled asked entries)
    (id : TableId) {call : Call} {target : Target} (sent : call.target? = some target) :
    UpToDate (call.sentTo id).perform call.texts process asked entries := by
  cases call with
  | openTable config => cases sent
  | installGlobal config => cases sent
  | globalTable => cases sent
  | symbol _ text => exact (symbol_upToDate started enrolled id text).reply Reply.symbol
  | forNames _ names => exact (request_upToDate started enrolled id _).reply Reply.signature
  | forFilledNames _ names => exact (request_upToDate started enrolled id _).reply Reply.signature
  | forVector _ names =>
      cases names with
      | none =>
          refine Enrols.upToDate ?_ enrolled
          apply conduct_enrols.bind (conduct_enrols.pure id)
          intro own
          have looked := conduct_enrols.looking own
          apply conduct_enrols.bind (conduct_enrols.reply looked fun _ => none)
          intro signature
          cases signature <;> exact conduct_enrols.pure _
      | some texts =>
          have named := request_upToDate started enrolled id
            ((texts.map some).map Label.ofFilledName)
          rw [Call.sentTo, Call.perform_forVector_some, Call.texts, Call.named, Option.getD_some,
            ← List.map_map]
          exact named.reply Reply.signature
  | forSlots _ slots =>
      have enrols := conduct_enrols.canonical (enter_enrols id) slots
      exact (enrols.upToDate enrolled).reply Reply.signature
  | unnamed _ arity =>
      have enrols := conduct_enrols.unnamed (enter_enrols id) (warn_enrols id) arity
      exact (enrols.upToDate enrolled).reply Reply.signature
  | flatten _ supplied spread =>
      have enrols := conduct_enrols.flatten (enter_enrols id) supplied spread
      exact (enrols.upToDate enrolled).reply Reply.signature

/-- One call: the log keeps up with the shared interner. -/
theorem perform_upToDate (started : process.Started) (enrolled : process.Enrolled asked entries)
    (call : Call) : UpToDate call.perform call.texts process asked entries := by
  cases sent : call.target? with
  | none =>
      cases call with
      | openTable config =>
          exact ((openTable_enrols config).upToDate enrolled).reply Reply.table
      | installGlobal config =>
          have enrols := conduct_enrols.installGlobal openTable_enrols choose_enrols config
          exact (enrols.upToDate enrolled).reply Reply.table
      | globalTable =>
          have enrols := conduct_enrols.globalTable openTable_enrols choose_enrols
          exact (enrols.upToDate enrolled).reply Reply.table
      | _ => cases sent
  | some target =>
      have between := conduct_enrols.resolve openTable_enrols choose_enrols target
        process asked entries enrolled
      rw [UpToDate, Call.perform_eq_bind sent]
      cases result : (resolve target process).answer with
      | error reason =>
          rw [Action.bind_of_error _ _ process reason result]
          exact between.known call.texts
      | ok id =>
          have startedStill := invariant_started.resolve target process started
          rw [Action.bind_of_ok _ _ process id result, entriesOf_append, ← List.append_assoc]
          exact sentTo_upToDate startedStill between id sent

/-- From any state on: the log of a run keeps up with the shared interner. -/
theorem after_enrolled (started : process.Started) (enrolled : process.Enrolled asked entries)
    (calls : List Call) :
    (after calls process).Enrolled (asked ++ interned calls process)
      (entries ++ entriesOf (noticesOf calls process)) := by
  induction calls generalizing process asked entries with
  | nil =>
      change process.Enrolled (asked ++ []) (entries ++ [])
      rw [List.append_nil, List.append_nil]
      exact enrolled
  | cons call rest ih =>
      have startedStill : (call.perform process).state.Started :=
        invariant_started.perform started fun _ _ => trivial
      rw [interned, noticesOf, entriesOf_append, ← List.append_assoc, ← List.append_assoc]
      exact ih startedStill (perform_upToDate started enrolled call)

/-- A call whose names are all there reports no name. -/
theorem entriesOf_of_held (started : process.Started) (enrolled : process.Enrolled asked entries)
    {id : TableId} {table : Table} (present : process.tables[id]? = some table) {call : Call}
    (held : ∀ text ∈ call.texts, (process.pool.find? text).isSome = true) :
    entriesOf (call.perform process).notices = [] := by
  have ledger := enrolled.since process.pool (started.names_eq present)
  have later := perform_upToDate started enrolled call
  cases names : (call.perform process).state.names with
  | none => exact (List.append_eq_nil_iff.mp (later.before names).2).2
  | some pool =>
      -- the order of first interning is what it was, so the ledger has no room for an entry
      have old : ∀ text ∈ (call.perform process).state.known call.texts,
          text = "" ∨ text ∈ Interner.presets ++ asked := by
        intro text member
        rw [known, names] at member
        exact (ledger.held text).mp (held text (List.mem_filter.mp member).1)
      have order := (later.since pool names).order
      rw [← List.append_assoc, Interner.firsts_append_of_old old, ← ledger.order,
        List.map_append] at order
      exact List.map_eq_nil_iff.mp (List.append_right_eq_self.mp order)

end Step

section Order

/-- Names first, from left to right, and after them one signature at most. -/
def Reports (id : TableId) (texts : List String) (notices : List Notice) : Prop :=
  ∃ (entries : List Interner.Entry) (signatures : List Signature),
    notices = entries.map Interner.Entry.notice ++ signatures.map (Notice.signatureAdded id) ∧
      (entries.map Interner.Entry.text).Sublist texts ∧ signatures.length ≤ 1

variable {id : TableId} {table : Table}

theorem Reports.nothing (id : TableId) (texts : List String) : Reports id texts [] :=
  ⟨[], [], rfl, List.nil_sublist texts, Nat.zero_le 1⟩

theorem canonical_reports (present : process.tables[id]? = some table) (slots : List Slot) :
    ∃ signatures : List Signature,
      (canonical id slots process).notices = signatures.map (Notice.signatureAdded id) ∧
        signatures.length ≤ 1 := by
  cases found : table.atHand? slots with
  | some signature =>
      exact ⟨[], by rw [canonical_of_atHand present found]; rfl, Nat.zero_le 1⟩
  | none =>
      rw [canonical_of_not_atHand present found]
      exact enter_reports id slots process

theorem Reports.reply {α β : Type} {action : Action Process Fault α} {texts : List String}
    (reports : Reports id texts (action process).notices) (wrap : α → β) :
    Reports id texts ((action >>= fun value => pure (wrap value)) process).notices := by
  rw [Action.notices_reply]
  exact reports

theorem Reports.of_signatures {notices : List Notice}
    (signed : ∃ signatures : List Signature,
      notices = signatures.map (Notice.signatureAdded id) ∧ signatures.length ≤ 1)
    (texts : List String) : Reports id texts notices := by
  obtain ⟨signatures, reported, few⟩ := signed
  exact ⟨[], signatures, reported, List.nil_sublist texts, few⟩

theorem symbol_reports (present : process.tables[id]? = some table) (text : String) :
    Reports id [text] (symbol id text process).notices := by
  obtain ⟨entries, reported, left⟩ := Interner.intern_reports text process.pool
  rw [symbol_of_present present]
  exact ⟨entries, [], reported.trans (List.append_nil _).symm, left, Nat.zero_le 1⟩

theorem request_reports (present : process.tables[id]? = some table) (labels : List Label) :
    Reports id (labels.filterMap Label.text?) (request id labels process).notices := by
  by_cases room : labels.length ≤ 2 ^ 57
  · obtain ⟨entries, reported, left⟩ := Interner.slots_reports labels process.pool
    rw [request_of_room present room]
    cases result : (onPool (Interner.slots labels) process).answer with
    | error reason =>
        rw [Action.bind_of_error _ _ process reason result]
        exact ⟨entries, [], reported.trans (List.append_nil _).symm, left, Nat.zero_le 1⟩
    | ok slots =>
        have presentStill :
            (onPool (Interner.slots labels) process).state.tables[id]? = some table := present
        obtain ⟨signatures, added, few⟩ := canonical_reports presentStill slots
        rw [Action.bind_of_ok _ _ process slots result, added]
        exact ⟨entries, signatures, congrArg (· ++ _) reported, left, few⟩
  · rw [request_of_full present room]
    exact Reports.nothing id _

theorem flatten_reports (present : process.tables[id]? = some table) (supplied : Signature)
    (spread : Spread) :
    ∃ signatures : List Signature,
      (flatten id supplied spread process).notices = signatures.map (Notice.signatureAdded id) ∧
        signatures.length ≤ 1 := by
  unfold flatten
  cases spread.expand supplied with
  | error cause => exact ⟨[], rfl, Nat.zero_le 1⟩
  | ok slots => exact canonical_reports present slots

/-- For a vector without names the table is only looked up. -/
theorem perform_forVector_none (present : process.tables[id]? = some table) :
    (Call.forVector (.numbered id) none).perform process = ⟨.ok .nothing, process, []⟩ := by
  have settled : resolve (.numbered id) process = ⟨.ok id, process, []⟩ := rfl
  have looked : forVector id none process = ⟨.ok none, process, []⟩ := by
    rw [forVector, Action.bind_of_read (table_of_present present)]
    rfl
  rw [Call.perform, Action.bind_of_read settled, Action.bind_of_read looked]
  rfl

/-- A call to a table that is there, by anything but an arity. -/
theorem perform_reports (sound : process.Sound) (present : process.tables[id]? = some table)
    {call : Call} (own : call.tableId? process = some id) (other : call.arity? = none) :
    Reports id call.texts (call.perform process).notices := by
  obtain ⟨target, sent, -⟩ := Call.settled_of_tableId? own
  rw [perform_of_there sound present own]
  cases call with
  | openTable config => cases sent
  | installGlobal config => cases sent
  | globalTable => cases sent
  | symbol _ text => exact (symbol_reports present text).reply Reply.symbol
  | forNames _ names => exact (request_reports present _).reply Reply.signature
  | forFilledNames _ names => exact (request_reports present _).reply Reply.signature
  | forVector _ names =>
      cases names with
      | none =>
          rw [Call.sentTo, perform_forVector_none present]
          exact Reports.nothing id []
      | some texts =>
          have reports := request_reports present ((texts.map some).map Label.ofFilledName)
          rw [Call.sentTo, Call.perform_forVector_some, Call.texts, Call.named, Option.getD_some,
            ← List.map_map]
          exact reports.reply Reply.signature
  | forSlots _ slots =>
      exact (Reports.of_signatures (canonical_reports present slots) []).reply Reply.signature
  | unnamed _ arity => cases other
  | flatten _ supplied spread =>
      exact (Reports.of_signatures (flatten_reports present supplied spread) []).reply
        Reply.signature

end Order

section Account

/-- What a call to a table reports, made in a state that has the table. -/
structure Account (call : Call) (id : TableId) (table : Table) (process : Process)
    (notices : List Notice) : Prop where
  /-- Texts that are there are not reported again. -/
  texts : (∀ text ∈ call.texts, (process.pool.find? text).isSome = true) →
    entriesOf notices = []
  /-- A shape that is there is not reported again. -/
  shapes : (∀ labels, call.labels? = some labels → labels ∈ table.signatures.map Signature.labels) →
    additionsOf notices = []
  /-- A spread that does not cover its call is refused without a word. -/
  mismatch : ∀ target supplied spread, call = .flatten target supplied spread →
    supplied.arity ≠ spread.length → notices = []
  /-- A vector without names asks for nothing. -/
  nameless : ∀ target, call = .forVector target none → notices = []
  order : call.arity? = none → Reports id call.texts notices

theorem account (sound : process.Sound) (started : process.Started)
    (enrolled : process.Enrolled asked entries) {call : Call}
    (admissible : call.Admissible process) {id : TableId} {table : Table}
    (present : process.tables[id]? = some table) (own : call.tableId? process = some id) :
    Account call id table process (call.perform process).notices where
  texts held := entriesOf_of_held started enrolled present held
  shapes held := additionsOf_of_held sound present own admissible held
  mismatch target supplied spread same differs := by
    subst same
    rw [perform_of_there sound present own]
    exact (Action.notices_reply (flatten id supplied spread) Reply.signature process).trans
      (congrArg (fun action => (action process).notices) (flatten_of_mismatch differs id))
  nameless target same := by
    subst same
    rw [perform_of_there sound present own, Call.sentTo, perform_forVector_none present]
  order other := perform_reports sound present own other

end Account

end Process

/-- The names in a log are the texts that an interner holds, other than the empty one: each once,
as a record of its own, and in the order of first interning. -/
structure Interner.Logged (pool : Interner) (asked : List String) (log : List Notice) : Prop where
  ledger : pool.Ledger asked (entriesOf log)
  once : ((entriesOf log).map Entry.text).Nodup
  texts : ∀ text, text ∈ (entriesOf log).map Entry.text ↔
    text ≠ "" ∧ (pool.find? text).isSome = true
  records : (Trace.Record.ofNotices log).filter (·.message == "interned name") =
    (entriesOf log).map Entry.record

theorem Interner.Ledger.logged {pool : Interner} {asked : List String} {log : List Notice}
    (ledger : pool.Ledger asked (entriesOf log)) : pool.Logged asked log :=
  ⟨ledger, ledger.distinct, ledger.mem_texts_iff, records_of_names log⟩

/-- The signatures that a log has for a table are those of the table, each once. -/
structure Table.Logged (table : Table) (id : TableId) (pool : Interner) (log : List Notice) :
    Prop where
  signatures : addedTo id log = table.signatures
  size : (addedTo id log).length = table.size
  once : ((addedTo id log).map Signature.slots).Nodup
  keys : ∀ slots, pool.Knows slots → ((table.find? slots).isSome = true ↔
    slots ∈ (addedTo id log).map Signature.slots)

theorem Table.Sound.logged {table : Table} {pool : Interner} {bound : Nat}
    (sound : table.Sound pool bound) (orderly : pool.Orderly) {id : TableId} {log : List Notice}
    (same : addedTo id log = table.signatures) : table.Logged id pool log := by
  refine ⟨same, congrArg List.length same, ?_, ?_⟩
  · rw [same]
    exact sound.distinct
  · intro slots known
    rw [same, Option.isSome_iff_ne_none, Ne, sound.find?_eq_none_iff orderly known, List.mem_map]
    simp only [not_forall, ne_eq, Classical.not_not, exists_prop]

namespace Interner

/-- A request for texts that are there reports nothing, and neither does one for no text. -/
theorem perform_silent {pool : Interner} {request : Request}
    (held : ∀ text ∈ request.texts, (pool.find? text).isSome = true) :
    (request.perform pool).notices = [] := by
  have found : ∀ text ∈ request.texts, (intern text pool).notices = [] := by
    intro text member
    obtain ⟨symbol, own⟩ := Option.isSome_iff_exists.mp (held text member)
    rw [intern_of_found own]
  cases request with
  | internSymbol text => exact found text (List.mem_singleton.mpr rfl)
  | internHandle text => exact found text (List.mem_singleton.mpr rfl)
  | find text => rfl
  | textAt handle => rfl

end Interner

namespace Process

theorem new_enrolled : ({} : Process).Enrolled [] [] := ⟨fun _ => ⟨rfl, rfl⟩, nofun⟩

theorem stateAt_enrolled (calls : List Call) (index : Nat) :
    (stateAt calls index).Enrolled (interned (calls.take index) {})
      (entriesOf (noticesOf (calls.take index) {})) :=
  after_enrolled (fun _ => rfl) new_enrolled (calls.take index)

/-- Over every run, of an interner of its own and of a process: the log has each growth step once.
Its names are the ledger of the interner, with the presets first; its signatures are, table by
table, those of the table, in the order in which their shapes were first got from it. Calls that
find what they ask for, that are refused or that only read report neither, and names come before
the signature that they are for. -/
theorem growth_logged_once (requests : List Interner.Request) (calls : List Call)
    (admissible : Admissible calls {}) :
    ((Interner.after requests Interner.initial).Logged
        (Interner.presets ++ Interner.interned requests Interner.initial)
        (Interner.start.notices ++ Interner.noticesOf requests Interner.initial) ∧
      ∀ (pool : Interner) (request : Interner.Request),
        (∀ text ∈ request.texts, (pool.find? text).isSome = true) →
          (request.perform pool).notices = []) ∧
    (((after calls {}).names = none → entriesOf (noticesOf calls {}) = []) ∧
      ∀ pool, (after calls {}).names = some pool →
        pool.Logged (Interner.presets ++ interned calls {}) (noticesOf calls {})) ∧
    ((Trace.Record.ofNotices (noticesOf calls {})).filter
        (·.message == "interned new signature") =
      (additionsOf (noticesOf calls {})).map fun addition => addition.2.record) ∧
    (∀ id table, (after calls {}).tables[id]? = some table →
      table.Logged id (after calls {}).pool (noticesOf calls {}) ∧
        ∀ index config, Made calls index id config →
          (addedTo id (noticesOf calls {})).map Signature.labels =
            (Outline.asked config.cacheLength (requested id calls {})).eraseDups) ∧
    (∀ index call id table, calls[index]? = some call →
      (stateAt calls index).tables[id]? = some table →
      call.tableId? (stateAt calls index) = some id →
        Account call id table (stateAt calls index)
          (call.perform (stateAt calls index)).notices) ∧
    (∀ index, calls[index]? = some .globalTable → (stateAt calls index).global ≠ none →
      (Call.globalTable.perform (stateAt calls index)).notices = []) := by
  have sound := (new_sound.after admissible).1
  have enrolled := after_enrolled (fun _ => rfl) new_enrolled calls
  refine ⟨⟨?_, ?_⟩, ⟨?_, ?_⟩, records_of_signatures _, ?_, ?_, ?_⟩
  · apply Interner.Ledger.logged
    rw [entriesOf_append]
    exact Interner.after_ledger Interner.initial_ledger requests
  · exact fun pool request => Interner.perform_silent
  · exact fun names => (enrolled.before names).2
  · exact fun pool names => (enrolled.since pool names).logged
  · intro id table present
    have journal : addedTo id (noticesOf calls {}) = table.signatures := by
      have gained := after_journals calls {} id
      rw [signaturesOf, present] at gained
      exact gained.symm
    refine ⟨(sound.tables id table present).logged sound.pool.toOrderly journal, ?_⟩
    intro index config made
    obtain ⟨same, presentSame, outlined⟩ := made.outlines admissible
    rw [present] at presentSame
    cases presentSame
    rw [journal]
    exact (congrArg Outline.shapes outlined).trans (Outline.shapes_opened_enterAll config _)
  · intro index call id table called present own
    exact account (stateAt_sound admissible index) (stateAt_started calls index)
      (stateAt_enrolled calls index) (admissible_at admissible called) present own
  · intro index _ chosen
    obtain ⟨id, global⟩ := Option.ne_none_iff_exists'.mp chosen
    exact (Action.notices_reply globalTable Reply.table _).trans
      (congrArg Outcome.notices (globalTable_of_chosen global))

/-- New names among presets, repeated names, a shape that is asked for twice, and a name that no
signature needs. -/
def growing : List Call :=
  [.openTable { cacheLength := 2 },
    .forNames (.numbered 0) [some "b", some "x", none, some "a", some "b"],
    .forNames (.numbered 0) [some "b", some "x", none, some "a", some "b"],
    .symbol (.numbered 0) "c", .forFilledNames (.numbered 0) [some ""],
    .forVector (.numbered 0) (some ["", "c"])]

/-- An interner of its own that is asked for one text in both ways, and for another only to look. -/
def askedAlone : List Interner.Request :=
  [.internSymbol "a", .find "b", .internHandle "x", .internHandle "a"]

theorem growth_logged_once_growing :
    Admissible growing {} ∧
      (entriesOf (Interner.start.notices ++
          Interner.noticesOf askedAlone Interner.initial)).map Interner.Entry.text =
        Interner.presets ++ ["a"] ∧
      (∃ pool, (after growing {}).names = some pool ∧ pool.total = 34 ∧
        (entriesOf (noticesOf growing {})).map Interner.Entry.text =
          Interner.presets ++ ["b", "a", "c"]) ∧
      (addedTo 0 (noticesOf growing {})).map Signature.labels =
        [[], [.positional], [.named "b", .named "x", .positional, .named "a", .named "b"],
          [.positional, .named "c"]] ∧
      ∃ call, growing[2]? = some call ∧
        entriesOf (call.perform (stateAt growing 2)).notices = [] ∧
        additionsOf (call.perform (stateAt growing 2)).notices = [] := by
  have admissible : Admissible growing {} :=
    ⟨trivial, trivial, trivial, trivial, trivial, trivial, trivial⟩
  have made : Made growing 0 0 { cacheLength := 2 } :=
    ⟨by decide, ⟨_, rfl, rfl⟩, by decide, by decide +kernel⟩
  obtain ⟨⟨alone, -⟩, ⟨-, names⟩, -, tables, calls, -⟩ :=
    growth_logged_once askedAlone growing admissible
  obtain ⟨table, present, -⟩ := made.outlines admissible
  have started : (after growing {}).Started := Started.after (fun _ => rfl) growing
  have there := started.names_eq present
  refine ⟨admissible, alone.ledger.order.trans (by decide +kernel),
    ⟨_, there, by decide +kernel, ?_⟩, ?_, _, rfl, ?_⟩
  · exact (names _ there).ledger.order.trans (by decide +kernel)
  · exact ((tables 0 table present).2 0 _ made).trans (by decide +kernel)
  · obtain ⟨earlier, presentEarlier, shape⟩ : ∃ earlier,
        (stateAt growing 2).tables[0]? = some earlier ∧
          [Label.named "b", .named "x", .positional, .named "a", .named "b"] ∈
            earlier.signatures.map Signature.labels := ⟨_, rfl, by decide +kernel⟩
    have account := calls 2 _ 0 earlier rfl presentEarlier rfl
    refine ⟨account.texts (by decide +kernel), account.shapes ?_⟩
    rintro labels ⟨⟩
    exact shape

end Process

end CallShape
