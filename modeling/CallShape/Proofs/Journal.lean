import CallShape.Proofs.Inventory
import CallShape.Proofs.Ledger

set_option autoImplicit false

namespace CallShape

def Notice.addition? : Notice → Option (TableId × Signature)
  | .signatureAdded table signature => some (table, signature)
  | _ => none

/-- The signatures that were reported as new, in order, each with its table. -/
def additionsOf (notices : List Notice) : List (TableId × Signature) :=
  notices.filterMap Notice.addition?

theorem additionsOf_append (first second : List Notice) :
    additionsOf (first ++ second) = additionsOf first ++ additionsOf second :=
  List.filterMap_append

/-- The signatures that were reported as new to a table, in order. -/
def addedTo (id : TableId) (notices : List Notice) : List Signature :=
  ((additionsOf notices).filter (·.1 = id)).map Prod.snd

theorem addedTo_append (id : TableId) (first second : List Notice) :
    addedTo id (first ++ second) = addedTo id first ++ addedTo id second := by
  rw [addedTo, additionsOf_append, List.filter_append, List.map_append]
  rfl

theorem addedTo_of_no_additions {notices : List Notice} (silent : additionsOf notices = [])
    (id : TableId) : addedTo id notices = [] := by
  rw [addedTo, silent]
  rfl

theorem additionsOf_eq_nil {notices : List Notice} (nothing : ∀ id, addedTo id notices = []) :
    additionsOf notices = [] := by
  rw [List.eq_nil_iff_forall_not_mem]
  rintro ⟨id, signature⟩ member
  have added : signature ∈ addedTo id notices :=
    List.mem_map.mpr ⟨(id, signature), List.mem_filter.mpr ⟨member, decide_eq_true rfl⟩, rfl⟩
  rw [nothing id] at added
  cases added

theorem additionsOf_names (entries : List Interner.Entry) :
    additionsOf (entries.map Interner.Entry.notice) = [] := by
  rw [additionsOf, List.filterMap_map, List.filterMap_eq_nil_iff]
  exact fun _ _ => rfl

namespace Process

/-- The signatures of a table; one that is not there has none. -/
def signaturesOf (process : Process) (id : TableId) : List Signature :=
  (process.tables[id]?.map Table.signatures).getD []

/-- What the action adds to the tables it reports, and nothing else. -/
def Journals {α : Type} (action : Action Process Fault α) : Prop :=
  ∀ process id, (action process).state.signaturesOf id =
    process.signaturesOf id ++ addedTo id (action process).notices

theorem Journals.of_still {α : Type} {action : Action Process Fault α}
    (still : ∀ process, (action process).state.tables = process.tables)
    (silent : ∀ process, additionsOf (action process).notices = []) : Journals action := by
  intro process id
  rw [addedTo_of_no_additions (silent process), List.append_nil, signaturesOf, still]
  rfl

theorem Journals.bind {α β : Type} {first : Action Process Fault α}
    {next : α → Action Process Fault β} (start : Journals first)
    (go : ∀ value, Journals (next value)) : Journals (first >>= next) := by
  intro process id
  cases result : (first process).answer with
  | error reason =>
      rw [Action.bind_of_error first next process reason result]
      exact start process id
  | ok value =>
      rw [Action.bind_of_ok first next process value result, addedTo_append, ← List.append_assoc,
        ← start process id]
      exact go value _ id

theorem conduct_journals : Conduct fun action => Journals action where
  pure _ := Journals.of_still (fun _ => rfl) fun _ => rfl
  bind := Journals.bind
  failing _ := Journals.of_still (fun _ => rfl) fun _ => rfl
  reading _ := Journals.of_still (fun _ => rfl) fun _ => rfl
  looking id := by
    apply Journals.of_still
    · intro process
      rw [table_still]
    · intro process
      rw [notices_table]
      rfl

/-- The names that an interner reports are no signatures. -/
theorem onPool_journals {α : Type} {action : Action Interner InternError α}
    (naming : ∀ pool, ∃ entries : List Interner.Entry,
      (action pool).notices = entries.map Interner.Entry.notice) : Journals (onPool action) := by
  apply Journals.of_still (fun _ => rfl)
  intro process
  obtain ⟨entries, reported⟩ := naming process.pool
  change additionsOf (action process.pool).notices = []
  rw [reported, additionsOf_names]

theorem enter_journals (id : TableId) (slots : List Slot) : Journals (enter id slots) := by
  intro process other
  cases present : process.tables[id]? with
  | none =>
      rw [enter_of_absent slots present]
      exact (List.append_nil _).symm
  | some table =>
      cases found : table.find? slots with
      | some signature =>
          rw [enter_of_known present found]
          exact (List.append_nil _).symm
      | none =>
          rw [enter_of_missing present found, signaturesOf, signaturesOf,
            tables_withSignature slots present]
          by_cases own : id = other
          · subst own
            rw [if_pos rfl, present]
            simp [addedTo, additionsOf, Notice.addition?, Table.add]
          · rw [if_neg own]
            simp [addedTo, additionsOf, Notice.addition?, own]

theorem addTable_journals (sink : Sink) : Journals (addTable sink) := by
  intro process id
  change ((process.tables ++ [Table.blank sink])[id]?.map Table.signatures).getD [] =
    process.signaturesOf id ++ []
  rw [List.append_nil, signaturesOf, List.getElem?_append]
  split
  · rfl
  · rename_i beyond
    rw [List.getElem?_eq_none (Nat.le_of_not_lt beyond), List.getElem?_singleton]
    split <;> rfl

theorem keepAtHand_journals (id : TableId) (unnamed : List Signature) :
    Journals (keepAtHand id unnamed) := by
  intro process other
  change (process.withAtHand id unnamed).signaturesOf other = process.signaturesOf other ++ []
  rw [List.append_nil, signaturesOf, signaturesOf, tables_withAtHand, Option.map_map]
  congr 2
  funext table
  simp only [Function.comp_apply]
  split <;> rfl

theorem startNames_journals : Journals startNames := by
  apply Journals.of_still startNames_leaves_tables
  intro process
  cases names : process.names with
  | some pool => simp only [startNames, names]; rfl
  | none =>
      obtain ⟨entries, reported, -⟩ :=
        Interner.each_intern_reports Interner.presets Interner.blank
      simp only [startNames, names, Interner.start, reported]
      exact additionsOf_names entries

theorem warn_journals (id : TableId) (warning : Warning) (sink : Sink) :
    Journals (warn id warning sink) := by
  apply Journals.of_still
  · intro process
    rw [warn_eq]
  · intro process
    rw [warn_eq]
    cases sink <;> rfl

theorem perform_journals (call : Call) : Journals call.perform := by
  apply conduct_journals.perform
  · exact conduct_journals.openTable startNames_journals addTable_journals enter_journals
      keepAtHand_journals
  · exact fun _ => Journals.of_still (fun _ => rfl) fun _ => rfl
  · exact enter_journals
  · exact fun text => onPool_journals fun pool =>
      (Interner.intern_reports text pool).imp fun _ reported => reported.1
  · exact fun labels => onPool_journals fun pool =>
      (Interner.slots_reports labels pool).imp fun _ reported => reported.1
  · exact fun id arity _ => conduct_journals.unnamed (enter_journals id) (warn_journals id) arity

/-- From any state on: what a run reports for a table is what the table gains. -/
theorem after_journals (calls : List Call) (process : Process) (id : TableId) :
    (after calls process).signaturesOf id =
      process.signaturesOf id ++ addedTo id (noticesOf calls process) := by
  induction calls generalizing process with
  | nil => exact (List.append_nil _).symm
  | cons call rest ih =>
      rw [noticesOf, addedTo_append, ← List.append_assoc, ← perform_journals call process id]
      exact ih _

end Process

namespace Outline

/-- Entering goes by first requests. -/
theorem shapes_enterAll {outline : Outline} {seen : List (List Label)}
    (sofar : outline.shapes = seen.eraseDups) (requests : List (List Label)) :
    (outline.enterAll requests).shapes = (seen ++ requests).eraseDups := by
  induction requests generalizing outline seen with
  | nil => rw [List.append_nil, ← sofar]; rfl
  | cons labels rest ih =>
      have entered : (outline.enter labels).shapes = (seen ++ [labels]).eraseDups := by
        rw [eraseDups_concat]
        by_cases old : labels ∈ seen
        · rw [if_pos old, enter_of_mem (by rw [sofar, List.mem_eraseDups]; exact old), sofar]
        · rw [if_neg old, enter_of_not_mem (by rw [sofar, List.mem_eraseDups]; exact old), sofar]
      have whole := ih entered
      rw [List.append_assoc] at whole
      exact whole

theorem shapes_opened_enterAll (config : Config) (requests : List (List Label)) :
    ((opened config).enterAll requests).shapes =
      (asked config.cacheLength requests).eraseDups := by
  have start : (opened config).shapes =
      ((List.range config.cacheLength).map (List.replicate · Label.positional)).eraseDups := by
    rw [← List.nil_append ((List.range _).map _)]
    exact shapes_enterAll rfl _
  exact shapes_enterAll start requests

end Outline

namespace Process

variable {process : Process} {id : TableId} {table : Table} {call : Call}

section There

variable (sound : process.Sound) (present : process.tables[id]? = some table)
  (own : call.tableId? process = some id)
include sound present own

theorem signaturesOf_elsewhere {other : TableId} (different : other ≠ id) :
    (call.perform process).state.signaturesOf other = process.signaturesOf other := by
  cases there : process.tables[other]? with
  | some elsewhere =>
      have spared : call.tableId? process ≠ some other := by
        rw [own]
        exact fun same => different (Option.some.inj same).symm
      have still : (call.perform process).state.tables[other]? = some elsewhere :=
        TableIs.of_elsewhere there spared
      rw [signaturesOf, signaturesOf, still, there]
  | none =>
      obtain ⟨target, sent, -⟩ := Call.settled_of_tableId? own
      have count : (call.perform process).state.tables.length = process.tables.length := by
        rw [perform_of_there sound present own]
        exact (steady_count _).sentTo trivial sent process rfl
      have absent : (call.perform process).state.tables[other]? = none := by
        rw [List.getElem?_eq_none_iff, count]
        exact List.getElem?_eq_none_iff.mp there
      rw [signaturesOf, signaturesOf, absent, there]

/-- A call for a shape that its table has reports no new signature, and neither does a call for no
shape at all. -/
theorem additionsOf_of_held (admissible : call.Admissible process)
    (held : ∀ labels, call.labels? = some labels → labels ∈ table.outline.shapes) :
    additionsOf (call.perform process).notices = [] := by
  apply additionsOf_eq_nil
  intro other
  have gained := perform_journals call process other
  by_cases same : other = id
  · subst same
    have outline : table.outline.enterAll (call.request? other process).toList =
        table.outline := by
      cases got : call.request? other process with
      | none => rfl
      | some labels => exact Outline.enter_of_mem (held labels (Call.labels?_of_request? got))
    obtain ⟨later, presentLater, outlined⟩ := step_outlines sound admissible ⟨table, present, rfl⟩
    rw [outline] at outlined
    have length : later.signatures.length = table.signatures.length := by
      have shapes := congrArg (List.length ∘ Outline.shapes) outlined
      simpa [Table.outline] using shapes
    rw [signaturesOf, signaturesOf, presentLater, present] at gained
    change later.signatures = table.signatures ++ _ at gained
    rw [gained, List.length_append] at length
    exact List.length_eq_zero_iff.mp (by omega)
  · rw [signaturesOf_elsewhere sound present own same] at gained
    exact List.self_eq_append_right.mp gained

end There

end Process

end CallShape
