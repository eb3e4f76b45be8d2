import CallShape.Proofs.Conduct
import CallShape.Proofs.Spread

set_option autoImplicit false

namespace CallShape

structure Outline where
  /-- The labels of the signatures, in the order in which they were added. -/
  shapes : List (List Label)
  /-- How many all-positional signatures are at hand. -/
  atHand : Nat
  sink : Sink

namespace Outline

def blank (sink : Sink) : Outline := ⟨[], 0, sink⟩

/-- A shape is added unless it is there. -/
def enter (outline : Outline) (labels : List Label) : Outline :=
  if labels ∈ outline.shapes then outline
  else { outline with shapes := outline.shapes ++ [labels] }

theorem enter_of_mem {outline : Outline} {labels : List Label}
    (member : labels ∈ outline.shapes) : outline.enter labels = outline := if_pos member

theorem enter_of_not_mem {outline : Outline} {labels : List Label}
    (missing : labels ∉ outline.shapes) :
    outline.enter labels = { outline with shapes := outline.shapes ++ [labels] } := if_neg missing

/-- All these shapes, one after the other. -/
def enterAll (outline : Outline) (shapes : List (List Label)) : Outline :=
  shapes.foldl enter outline

/-- A new table: the all-positional shapes of the arities below the cache length are entered, and
then they are at hand. -/
def opened (config : Config) : Outline :=
  { (blank config.sink).enterAll
      ((List.range config.cacheLength).map (List.replicate · Label.positional)) with
    atHand := config.cacheLength }

end Outline

namespace Table

def outline (table : Table) : Outline :=
  ⟨table.signatures.map Signature.labels, table.unnamed.length, table.sink⟩

theorem outline_add (table : Table) (signature : Signature) :
    (table.add signature).outline =
      { table.outline with shapes := table.outline.shapes ++ [signature.labels] } := by
  simp only [outline, add, List.map_append, List.map_cons, List.map_nil]

namespace Sound

variable {table : Table} {pool : Interner} {bound : Nat}

/-- The search goes by handles and finds what the outline has by texts. -/
theorem mem_shapes_iff (sound : table.Sound pool bound) (orderly : pool.Orderly)
    {slots : List Slot} (known : pool.Knows slots) :
    slots.map Slot.label ∈ table.outline.shapes ↔ table.find? slots ≠ none := by
  rw [Ne, sound.find?_eq_none_iff orderly known, outline, List.mem_map]
  constructor
  · rintro ⟨signature, member, same⟩ absent
    exact absent signature member ((sound.genuine signature member).known.eq_of_labels known same)
  · intro present
    simp only [not_forall, ne_eq, Classical.not_not] at present
    obtain ⟨signature, member, same⟩ := present
    exact ⟨signature, member, by rw [Signature.labels, same]⟩

/-- What is at hand is in the outline. -/
theorem replicate_mem_shapes (sound : table.Sound pool bound) {arity : Nat}
    (inside : arity < table.outline.atHand) :
    List.replicate arity Label.positional ∈ table.outline.shapes := by
  obtain ⟨member, slots⟩ := sound.atHand arity _ (List.getElem?_eq_getElem inside)
  refine List.mem_map.mpr ⟨_, member, ?_⟩
  rw [Signature.labels, slots, List.map_replicate, Slot.label]

end Sound

end Table

/-- Where a warning goes. -/
inductive Outlet where
  | log
  | hook
  deriving DecidableEq, Repr

namespace Sink

def outlet : Sink → Outlet
  | .log => .log
  | .hook _ => .hook

end Sink

/-- Of any cache length, with a hook that takes every warning. -/
def Config.attended (cacheLength : Nat) : Config := ⟨cacheLength, .hook fun _ => false⟩

/-- A warning, and where it went. -/
def Notice.advice? : Notice → Option (Outlet × Warning)
  | .logged _ warning => some (.log, warning)
  | .delivered _ warning => some (.hook, warning)
  | .nameAdded _ _ _ => none
  | .signatureAdded _ _ => none

theorem Sink.advice?_notice (id : TableId) (warning : Warning) (sink : Sink) :
    (sink.notice id warning).advice? = some (sink.outlet, warning) := by
  cases sink <;> rfl

/-- The warnings among the notices. -/
def adviceOf (notices : List Notice) : List (Outlet × Warning) := notices.filterMap Notice.advice?

theorem adviceOf_append (first second : List Notice) :
    adviceOf (first ++ second) = adviceOf first ++ adviceOf second :=
  List.filterMap_append

namespace Action

variable {σ τ ε δ α β : Type}

/-- The action never warns. -/
def Quiet (action : Action σ ε α) : Prop := ∀ state, adviceOf (action state).notices = []

theorem Quiet.pure (value : α) : (Pure.pure value : Action σ ε α).Quiet := fun _ => rfl

theorem Quiet.bind {first : Action σ ε α} {next : α → Action σ ε β} (start : first.Quiet)
    (go : ∀ value, (next value).Quiet) : (first >>= next).Quiet := by
  intro state
  cases result : (first state).answer with
  | error reason =>
      rw [bind_of_error first next state reason result]
      exact start state
  | ok value =>
      rw [bind_of_ok first next state value result, adviceOf_append, start state, go value _]
      rfl

theorem Quiet.each {action : α → Action σ ε β} (step : ∀ item, (action item).Quiet)
    (items : List α) : (Action.each action items).Quiet := by
  induction items with
  | nil => exact Quiet.pure []
  | cons item rest ih =>
      exact (step item).bind fun value => ih.bind fun values => Quiet.pure (value :: values)

end Action

namespace Interner

theorem intern_quiet (text : String) : (intern text).Quiet := by
  intro pool
  cases missing : pool.find? text with
  | some symbol =>
      rw [intern_of_found missing]
      rfl
  | none =>
      by_cases room : (pool.shardFor text).length ≤ Handle.maxPosition
      · rw [intern_of_room missing room]
        rfl
      · rw [intern_of_full missing room]
        rfl

theorem slots_quiet (labels : List Label) : (slots labels).Quiet := by
  apply Action.Quiet.each
  intro label
  cases label with
  | named text => exact (intern_quiet text).bind fun symbol => Action.Quiet.pure _
  | positional => exact Action.Quiet.pure _
  | unmatched => exact Action.Quiet.pure _

end Interner

namespace Process

/-- The table with this number has this outline. -/
def Outlines (process : Process) (id : TableId) (outline : Outline) : Prop :=
  ∃ table, process.tables[id]? = some table ∧ table.outline = outline

/-- An instance of the table with these labels, and the table with that shape entered. -/
def Enters (id : TableId) (outline : Outline) (labels : List Label) (signature : Signature)
    (process : Process) : Prop :=
  Answers id labels signature process ∧ process.Outlines id (outline.enter labels)

section Quiet

theorem onPool_quiet {α : Type} {action : Action Interner InternError α} (quiet : action.Quiet) :
    (onPool action).Quiet := fun process => quiet process.pool

theorem conduct_quiet : Conduct fun action => action.Quiet where
  pure := Action.Quiet.pure
  bind start go := start.bind go
  failing _ _ := rfl
  reading _ _ := rfl
  looking id process := by
    rw [notices_table]
    rfl

theorem enter_quiet (id : TableId) (slots : List Slot) : (enter id slots).Quiet := by
  intro process
  cases present : process.tables[id]? with
  | none => rw [enter_of_absent slots present]; rfl
  | some table =>
      cases found : table.find? slots with
      | some signature => rw [enter_of_known present found]; rfl
      | none => rw [enter_of_missing present found]; rfl

theorem symbol_quiet (id : TableId) (text : String) : (symbol id text).Quiet :=
  conduct_quiet.symbol id (onPool_quiet (Interner.intern_quiet text))

theorem canonical_quiet (id : TableId) (slots : List Slot) : (canonical id slots).Quiet :=
  conduct_quiet.canonical (enter_quiet id) slots

theorem request_quiet (id : TableId) (labels : List Label) : (request id labels).Quiet :=
  conduct_quiet.request (enter_quiet id) (onPool_quiet (Interner.slots_quiet labels))

theorem flatten_quiet (id : TableId) (supplied : Signature) (spread : Spread) :
    (flatten id supplied spread).Quiet :=
  conduct_quiet.flatten (enter_quiet id) supplied spread

theorem startNames_quiet : startNames.Quiet := by
  intro process
  cases names : process.names with
  | some pool => simp only [startNames, names]; rfl
  | none =>
      simp only [startNames, names]
      exact Action.Quiet.each Interner.intern_quiet Interner.presets Interner.blank

theorem openTable_quiet (config : Config) : (openTable config).Quiet :=
  conduct_quiet.openTable startNames_quiet (fun _ _ => rfl) enter_quiet (fun _ _ _ => rfl) config

end Quiet

section Spec

variable {process : Process} {id : TableId} {outline : Outline}

/-- Entering goes by texts: known slots are found exactly when their labels are in the outline. -/
theorem enter_enters (sound : process.Sound) (outlined : process.Outlines id outline)
    {slots : List Slot} (known : process.pool.Knows slots) :
    discipline.Attains (enter id slots) process (Enters id outline (slots.map Slot.label)) := by
  obtain ⟨table, present, rfl⟩ := outlined
  have own := sound.tables id table present
  refine ⟨?_, enter_ok present slots⟩
  have kept := enter_keeps sound id known
  refine ⟨kept.fit, kept.grown, ?_⟩
  intro signature answered
  obtain ⟨held, read⟩ := kept.answer signature answered
  refine ⟨⟨held, by rw [Signature.labels, read]⟩, ?_⟩
  cases found : table.find? slots with
  | some other =>
      have member : slots.map Slot.label ∈ table.outline.shapes :=
        (own.mem_shapes_iff sound.pool.toOrderly known).mpr
          (by rw [found]; exact Option.some_ne_none other)
      rw [enter_of_known present found, Outline.enter_of_mem member]
      exact ⟨table, present, rfl⟩
  | none =>
      have missing : slots.map Slot.label ∉ table.outline.shapes := fun member =>
        (own.mem_shapes_iff sound.pool.toOrderly known).mp member found
      rw [enter_of_missing present found, Outline.enter_of_not_mem missing]
      refine ⟨_, (tables_withSignature slots present id).trans (if_pos rfl), ?_⟩
      rw [Table.outline_add, Signature.labels, Signature.slots_build]

/-- The instances at hand are those that entering would find. -/
theorem canonical_enters (sound : process.Sound) (outlined : process.Outlines id outline)
    {slots : List Slot} (known : process.pool.Knows slots) :
    discipline.Attains (canonical id slots) process
      (Enters id outline (slots.map Slot.label)) := by
  obtain ⟨table, present, rfl⟩ := outlined
  cases found : table.atHand? slots with
  | none =>
      exact (enter_enters sound ⟨table, present, rfl⟩ known).congr
        (canonical_of_not_atHand present found)
  | some signature =>
      obtain ⟨member, read⟩ := (sound.tables id table present).atHand? found
      have labels : signature.labels = slots.map Slot.label := by rw [Signature.labels, read]
      have shape : slots.map Slot.label ∈ table.outline.shapes := by
        rw [← labels]
        exact List.mem_map_of_mem member
      refine ⟨Discipline.Keeps.of_ok (canonical_of_atHand present found) sound
        (Extends.refl process) ⟨⟨⟨table, present, member⟩, labels⟩, table, present, ?_⟩,
        canonical_ok present slots⟩
      rw [Outline.enter_of_mem shape]

/-- Interning leaves every outline as it is. -/
theorem onPool_outlines {α : Type} {action : Action Interner InternError α}
    (outlined : process.Outlines id outline) :
    (onPool action process).state.Outlines id outline := outlined

theorem onPool_error {α : Type} {action : Action Interner InternError α} {reason : Fault}
    (failed : (onPool action process).answer = .error reason) :
    ∃ cause, reason = .intern cause := by
  change (action process.pool).answer.mapError Fault.intern = .error reason at failed
  cases result : (action process.pool).answer with
  | ok value =>
      rw [result] at failed
      cases failed
  | error cause =>
      rw [result] at failed
      cases failed
      exact ⟨cause, rfl⟩

theorem symbol_of_present {table : Table} (present : process.tables[id]? = some table)
    (text : String) :
    symbol id text process = onPool (Interner.intern text) process :=
  Action.bind_of_read (table_of_present present)

theorem reserve_of_room {count size : Nat} (room : Capacity.admits count size = true) :
    reserve count size = Pure.pure () := if_pos room

theorem reserve_of_full {count size : Nat} (full : ¬ Capacity.admits count size = true) :
    reserve count size = Action.fail .capacity := if_neg full

theorem request_of_room {table : Table} (present : process.tables[id]? = some table)
    {labels : List Label} (room : labels.length ≤ 2 ^ 57) :
    request id labels process =
      (do
        let slots ← onPool (Interner.slots labels)
        canonical id slots : Action Process Fault Signature) process := by
  rw [request, Action.bind_of_read (table_of_present present),
    reserve_of_room (Capacity.admits_roundUp_iff.mpr room)]
  rfl

/-- Too long a request is refused before a name is interned. -/
theorem request_of_full {table : Table} (present : process.tables[id]? = some table)
    {labels : List Label} (full : ¬ labels.length ≤ 2 ^ 57) :
    request id labels process = ⟨.error .capacity, process, []⟩ := by
  rw [request, Action.bind_of_read (table_of_present present),
    reserve_of_full (mt Capacity.admits_roundUp_iff.mp full)]
  rfl

/-- Where there is room, only a full shard keeps a table from answering a request. -/
theorem request_enters (sound : process.Sound) (outlined : process.Outlines id outline)
    {labels : List Label} (room : labels.length ≤ 2 ^ 57) :
    discipline.Keeps (request id labels) process (Enters id outline labels) ∧
      ∀ reason, (request id labels process).answer = .error reason →
        ∃ cause, reason = .intern cause := by
  obtain ⟨table, present, rfl⟩ := outlined
  have named := onPool_keeps sound (Interner.slots_keeps sound.pool labels)
  have outlinedStill : (onPool (Interner.slots labels) process).state.Outlines id table.outline :=
    onPool_outlines ⟨table, present, rfl⟩
  have same := request_of_room present room
  refine ⟨Discipline.Keeps.congr same (named.bind ?_), ?_⟩
  · intro slots _ answers fit _
    obtain ⟨own, known⟩ := answers
    have entered := (canonical_enters fit outlinedStill known).toKeeps
    rw [own] at entered
    exact entered
  · intro reason failed
    rw [same] at failed
    cases result : (onPool (Interner.slots labels) process).answer with
    | error cause =>
        rw [Action.bind_of_error _ _ process cause result] at failed
        cases failed
        exact onPool_error result
    | ok slots =>
        obtain ⟨-, known⟩ := named.answer slots result
        obtain ⟨signature, success⟩ := (canonical_enters named.fit outlinedStill known).answers
        rw [Action.bind_of_ok _ _ process slots result, success] at failed
        cases failed

/-- A spread that covers the call enters the flattened labels, if there is room for them. -/
theorem flatten_enters (sound : process.Sound) (outlined : process.Outlines id outline)
    {supplied : Signature} {spread : Spread} (held : process.Holds supplied)
    (expansions : ∀ expansion, some expansion ∈ spread.groups → process.Holds expansion)
    (covered : supplied.arity = spread.length) (fits : spread.Fits) :
    discipline.Attains (flatten id supplied spread) process
      (Enters id outline (spread.flattenedLabels supplied)) := by
  have genuine := sound.genuine held
  have known : process.pool.Knows (spread.flattenedSlots supplied) :=
    Spread.knows_flattenWith genuine.known fun expansion member =>
      (sound.genuine (expansions expansion member)).known
  rw [flatten_of_fits genuine covered fits, ← Spread.labels_flattenedSlots]
  exact canonical_enters sound outlined known

theorem unnamed_of_atHand {table : Table} (present : process.tables[id]? = some table)
    {arity : Nat} {signature : Signature} (found : table.unnamed[arity]? = some signature) :
    unnamed id arity process = ⟨.ok signature, process, []⟩ := by
  rw [unnamed, Action.bind_of_read (table_of_present present)]
  simp only [found]
  rfl

theorem unnamed_of_beyond {table : Table} (present : process.tables[id]? = some table)
    {arity : Nat} (beyond : table.unnamed[arity]? = none) :
    unnamed id arity process =
      (do
        warn id (.largeUnnamed arity table.unnamed.length) table.sink
        enterUnnamed id arity : Action Process Fault Signature) process := by
  rw [unnamed, Action.bind_of_read (table_of_present present)]
  simp only [beyond]

/-- Below the cache length nothing is warned about, and nothing is added. -/
theorem unnamed_within (sound : process.Sound) (outlined : process.Outlines id outline)
    {arity : Nat} (inside : arity < outline.atHand) :
    discipline.Attains (unnamed id arity) process
        (Enters id outline (List.replicate arity .positional)) ∧
      adviceOf (unnamed id arity process).notices = [] := by
  obtain ⟨table, present, rfl⟩ := outlined
  have found := List.getElem?_eq_getElem inside
  have same := unnamed_of_atHand present found
  have own := sound.tables id table present
  obtain ⟨member, slots⟩ := own.atHand arity _ found
  refine ⟨⟨Discipline.Keeps.of_ok same sound (Extends.refl process) ⟨⟨⟨table, present, member⟩, ?_⟩,
    table, present, ?_⟩, ?_⟩, ?_⟩
  · rw [Signature.labels, slots, List.map_replicate, Slot.label]
  · rw [Outline.enter_of_mem (own.replicate_mem_shapes inside)]
  · exact ⟨_, by rw [same]⟩
  · rw [same]
    rfl

theorem unnamed_of_fails (outlined : process.Outlines id outline) {arity : Nat}
    (beyond : ¬ arity < outline.atHand)
    (fails : outline.sink.fails (.largeUnnamed arity outline.atHand) = true) :
    unnamed id arity process =
      ⟨.error (.hook (.largeUnnamed arity outline.atHand)), process,
        [outline.sink.notice id (.largeUnnamed arity outline.atHand)]⟩ := by
  obtain ⟨table, present, rfl⟩ := outlined
  change table.sink.fails (.largeUnnamed arity table.unnamed.length) = true at fails
  have warned := warn_eq id (.largeUnnamed arity table.unnamed.length) table.sink process
  rw [if_pos fails] at warned
  rw [unnamed_of_beyond present (List.getElem?_eq_none (Nat.le_of_not_lt beyond)),
    Action.bind_of_error _ _ process _ (congrArg Outcome.answer warned), warned]
  rfl

/-- Beyond the cache length, with a sink that takes the warning: room is asked for after it. -/
theorem unnamed_of_taken (outlined : process.Outlines id outline) {arity : Nat}
    (beyond : ¬ arity < outline.atHand)
    (takes : outline.sink.fails (.largeUnnamed arity outline.atHand) = false) :
    unnamed id arity process =
      ⟨(enterUnnamed id arity process).answer, (enterUnnamed id arity process).state,
        outline.sink.notice id (.largeUnnamed arity outline.atHand) ::
          (enterUnnamed id arity process).notices⟩ := by
  obtain ⟨table, present, rfl⟩ := outlined
  change table.sink.fails (.largeUnnamed arity table.unnamed.length) = false at takes
  have warned := warn_eq id (.largeUnnamed arity table.unnamed.length) table.sink process
  rw [if_neg (Bool.eq_false_iff.mp takes)] at warned
  rw [unnamed_of_beyond present (List.getElem?_eq_none (Nat.le_of_not_lt beyond)),
    Action.bind_of_ok _ _ process () (congrArg Outcome.answer warned), warned]
  rfl

theorem enterUnnamed_of_room {arity : Nat} (room : arity < 2 ^ 58) (id : TableId) :
    enterUnnamed id arity = enter id (List.replicate arity .positional) := by
  rw [enterUnnamed, reserve_of_room (Capacity.admits_slots_iff.mpr room)]
  rfl

theorem enterUnnamed_of_full {arity : Nat} (full : ¬ arity < 2 ^ 58) (id : TableId) :
    enterUnnamed id arity = Action.fail .capacity := by
  rw [enterUnnamed, reserve_of_full (mt Capacity.admits_slots_iff.mp full)]
  rfl

/-- Beyond the cache length, with room for that many slots: the warning, and then like entering. -/
theorem unnamed_of_room (outlined : process.Outlines id outline) {arity : Nat}
    (beyond : ¬ arity < outline.atHand)
    (takes : outline.sink.fails (.largeUnnamed arity outline.atHand) = false)
    (room : arity < 2 ^ 58) :
    unnamed id arity process =
      ⟨(enter id (List.replicate arity .positional) process).answer,
        (enter id (List.replicate arity .positional) process).state,
        outline.sink.notice id (.largeUnnamed arity outline.atHand) ::
          (enter id (List.replicate arity .positional) process).notices⟩ := by
  rw [unnamed_of_taken outlined beyond takes, enterUnnamed_of_room room]

theorem unnamed_beyond (sound : process.Sound) (outlined : process.Outlines id outline)
    {arity : Nat} (beyond : ¬ arity < outline.atHand)
    (takes : outline.sink.fails (.largeUnnamed arity outline.atHand) = false)
    (room : arity < 2 ^ 58) :
    discipline.Attains (unnamed id arity) process
        (Enters id outline (List.replicate arity .positional)) ∧
      adviceOf (unnamed id arity process).notices =
        [(outline.sink.outlet, .largeUnnamed arity outline.atHand)] := by
  have outcome := unnamed_of_room outlined beyond takes room
  have entered := enter_enters sound outlined
    (Interner.knows_replicate_positional process.pool arity)
  rw [List.map_replicate, Slot.label] at entered
  refine ⟨⟨⟨?_, ?_, ?_⟩, ?_⟩, ?_⟩
  · rw [outcome]
    exact entered.fit
  · rw [outcome]
    exact entered.grown
  · rw [outcome]
    exact entered.answer
  · rw [outcome]
    exact entered.answers
  · rw [outcome]
    have quiet := enter_quiet id (List.replicate arity .positional) process
    rw [adviceOf] at quiet ⊢
    rw [List.filterMap_cons_some (Sink.advice?_notice _ _ _), quiet]

/-- The warning is given although there is no room. -/
theorem unnamed_refused (outlined : process.Outlines id outline)
    {arity : Nat} (beyond : ¬ arity < outline.atHand)
    (takes : outline.sink.fails (.largeUnnamed arity outline.atHand) = false)
    (full : ¬ arity < 2 ^ 58) :
    unnamed id arity process =
      ⟨.error .capacity, process,
        [outline.sink.notice id (.largeUnnamed arity outline.atHand)]⟩ := by
  rw [unnamed_of_taken outlined beyond takes, enterUnnamed_of_full full]
  rfl

theorem outlines_withTable (process : Process) (sink : Sink) :
    (process.withTable sink).Outlines process.tables.length (Outline.blank sink) :=
  ⟨Table.blank sink, List.getElem?_concat_length, rfl⟩

/-- Each arity enters its shape, one after the other. -/
theorem each_enterUnnamed_outlines (sound : process.Sound)
    (outlined : process.Outlines id outline) {arities : List Nat}
    (room : ∀ arity ∈ arities, arity < 2 ^ 58) :
    discipline.Attains (Action.each (enterUnnamed id) arities) process
      (fun signatures after => signatures.length = arities.length ∧
        after.Outlines id
          (outline.enterAll (arities.map (List.replicate · Label.positional)))) := by
  induction arities generalizing process outline with
  | nil => exact Discipline.Attains.pure sound ⟨rfl, outlined⟩
  | cons arity arities ih =>
      have first := enter_enters sound outlined
        (Interner.knows_replicate_positional process.pool arity)
      rw [List.map_replicate, Slot.label, ← enterUnnamed_of_room (room arity List.mem_cons_self)]
        at first
      apply first.bind
      intro signature entered fit _
      apply (ih fit entered.2 fun other member => room other (List.mem_cons_of_mem _ member)).bind
      intro signatures rest fitStill _
      exact Discipline.Attains.pure fitStill ⟨congrArg (· + 1) rest.1, rest.2⟩

/-- One arity without room is enough for the rest not to be entered. -/
theorem each_enterUnnamed_refused (sound : process.Sound)
    (outlined : process.Outlines id outline) {arities : List Nat}
    (full : ¬ ∀ arity ∈ arities, arity < 2 ^ 58) :
    (Action.each (enterUnnamed id) arities process).answer = .error .capacity := by
  induction arities generalizing process outline with
  | nil => exact absurd (fun _ member => absurd member List.not_mem_nil) full
  | cons arity arities ih =>
      by_cases room : arity < 2 ^ 58
      · have entered := enter_enters sound outlined
          (Interner.knows_replicate_positional process.pool arity)
        rw [← enterUnnamed_of_room room] at entered
        obtain ⟨signature, answered, -, outlinedStill⟩ := entered.answered
        have later := ih entered.fit outlinedStill fun each =>
          full (List.forall_mem_cons.mpr ⟨room, each⟩)
        rw [Action.each, Action.bind_of_ok _ _ process signature answered,
          Action.bind_of_error _ _ _ .capacity later]
      · rw [Action.each_cons_of_error _ arity arities process .capacity]
        rw [enterUnnamed_of_full room]
        rfl

/-- Entering the all-positional shapes into the blank table does not fail if they all fit. -/
theorem entered_opens (sound : process.Sound) {config : Config} (fits : config.Fits) :
    ∃ unnamed, (entered config process).answer = .ok unnamed ∧
      unnamed.length = config.cacheLength ∧
      (entered config process).state.Outlines process.tables.length
        ((Outline.blank config.sink).enterAll
          ((List.range config.cacheLength).map (List.replicate · Label.positional))) := by
  have room := (Config.fits_iff.mp fits).2
  obtain ⟨unnamed, success, length, outlined⟩ :=
    (each_enterUnnamed_outlines (sound.withTable config.sink) (outlines_withTable process _)
      room).answered
  exact ⟨unnamed, success, length.trans List.length_range, outlined⟩

theorem newTable_opens (sound : process.Sound) {config : Config} (fits : config.Fits) :
    discipline.Attains (newTable config) process
      (fun id after => after.Outlines id (Outline.opened config)) := by
  obtain ⟨unnamed, success, length, table, present, own⟩ := entered_opens sound fits
  have made := newTable_of_ok success
  have kept := newTable_keeps sound config
  refine ⟨⟨kept.fit, kept.grown, ?_⟩, ⟨_, congrArg Outcome.answer made⟩⟩
  intro id answered
  rw [made] at answered ⊢
  cases answered
  refine ⟨{ table with unnamed := unnamed }, ?_, ?_⟩
  · rw [tables_withAtHand, present, Option.map_some, if_pos rfl]
  · rw [Outline.opened, ← own, ← length]
    rfl

theorem startNames_starts (sound : process.Sound) :
    discipline.Attains startNames process (fun _ _ => True) := by
  refine ⟨startNames_keeps sound, (), ?_⟩
  cases names : process.names <;> simp only [startNames, names]

/-- With room for the all-positional signatures, the new table is there, whatever the process had
before. -/
theorem openTable_opens (sound : process.Sound) {config : Config} (fits : config.Fits) :
    discipline.Attains (openTable config) process
      (fun id after => after.Outlines id (Outline.opened config)) := by
  rw [openTable_eq, reserve_of_room (Config.fits_iff.mp fits).1]
  apply (startNames_starts sound).bind
  intro _ _ started _
  exact newTable_opens started fits

/-- Without room for all of them, whether for the list or for the slots of one, there is no
answer. -/
theorem openTable_refused {config : Config} (sound : process.Sound) (full : ¬ config.Fits) :
    (openTable config process).answer = .error .capacity := by
  obtain ⟨_, started, -⟩ := (startNames_starts sound).answered
  rw [openTable_eq, Action.bind_of_ok _ _ process () started]
  by_cases listed : Capacity.admits config.cacheLength Capacity.signatureBytes = true
  · have refused := each_enterUnnamed_refused ((startNames_keeps sound).fit.withTable config.sink)
      (outlines_withTable (startNames process).state config.sink)
      (fun room => full (Config.fits_iff.mpr ⟨listed, room⟩))
    rw [reserve_of_room listed]
    exact congrArg Outcome.answer (newTable_of_error refused)
  · rw [reserve_of_full listed]
    rfl

end Spec

end Process

end CallShape
