import CallShape.Proofs.Dialogue
import CallShape.Proofs.History

set_option autoImplicit false

namespace CallShape.Dialogue

/-- A dialogue as far as texts tell: the outline of the table, and bare answers. -/
structure Sketch where
  outline : Outline
  memory : Memory := {}

/-- What comes of a question by the sketch. -/
structure Forecast where
  report : Report
  outline : Outline

namespace Sketch

/-- The table stays as it is. -/
def still (sketch : Sketch) (answer : Except Fault Gain) : Forecast :=
  ⟨⟨answer, []⟩, sketch.outline⟩

/-- The table answers with the instance for these labels. -/
def entering (sketch : Sketch) (labels : List Label) (warnings : List (Outlet × Warning)) :
    Forecast :=
  ⟨⟨.ok (.signature (Signature.ofLabels labels)), warnings⟩, sketch.outline.enter labels⟩

def request (sketch : Sketch) (labels : List Label) : Forecast :=
  if labels.length ≤ 2 ^ 57 then sketch.entering labels [] else sketch.still (.error .capacity)

/-- Beyond the cache length there is a warning first, then room is needed. -/
def unnamed (sketch : Sketch) (arity : Nat) : Forecast :=
  let labels := List.replicate arity Label.positional
  let warning := Warning.largeUnnamed arity sketch.outline.atHand
  let warnings := [(sketch.outline.sink.outlet, warning)]
  if arity < sketch.outline.atHand then sketch.entering labels []
  else if sketch.outline.sink.fails warning then
    ⟨⟨.error (.hook warning), warnings⟩, sketch.outline⟩
  else if arity < 2 ^ 58 then sketch.entering labels warnings
  else ⟨⟨.error .capacity, warnings⟩, sketch.outline⟩

def flatten (sketch : Sketch) (supplied : Signature) (spread : Spread) : Forecast :=
  if supplied.arity = spread.length then
    if spread.Fits then sketch.entering (spread.flattenedLabels supplied) []
    else sketch.still (.error spread.shortage)
  else sketch.still (.error (.signature (.spreadLength supplied.arity spread.length)))

def forecast (sketch : Sketch) : Question → Forecast
  | .symbol text => sketch.still (.ok (.symbol ⟨.empty, text⟩))
  | .forNames names => sketch.request (names.map Label.ofName)
  | .forFilledNames names => sketch.request (names.map Label.ofFilledName)
  | .forVector none => sketch.still (.ok .nothing)
  | .forVector (some texts) => sketch.request (texts.map Label.ofVectorName)
  | .forSlots mentions =>
      match sketch.memory.slots? mentions with
      | some slots => sketch.entering (slots.map Slot.label) []
      | none => sketch.still (.ok .nothing)
  | .unnamed arity => sketch.unnamed arity
  | .flatten supplied groups =>
      match sketch.memory.signatures[supplied]?, sketch.memory.spread? groups with
      | some supplied, some spread => sketch.flatten supplied spread
      | _, _ => sketch.still (.ok .nothing)
  | .size => sketch.still (.ok (.finding (.number sketch.outline.shapes.length)))
  | .isEmpty => sketch.still (.ok (.finding (.flag sketch.outline.shapes.isEmpty)))
  | .review earlier => sketch.still (earlier.ask byText sketch.memory)

def after (sketch : Sketch) (question : Question) : Sketch where
  outline := (sketch.forecast question).outline
  memory := sketch.memory.record (sketch.forecast question).report.answer

def reports : List Question → Sketch → List Report
  | [], _ => []
  | question :: rest, sketch =>
      (sketch.forecast question).report :: reports rest (sketch.after question)

/-- The reports of a dialogue, by its configuration and its questions. -/
def converse (config : Config) (questions : List Question) : List Report :=
  if config.Fits then
    ⟨.ok .nothing, []⟩ :: reports questions { outline := Outline.opened config }
  else [⟨.error .capacity, []⟩]

end Sketch

section Step

/-- What came of a question is as the sketch has it. -/
structure Meets (outcome : Outcome Process Fault Gain) (before : Process) (table : TableId)
    (forecast : Forecast) : Prop where
  sound : outcome.state.Sound
  grown : before.Extends outcome.state
  outlined : outcome.state.Outlines table forecast.outline
  held : ∀ gain, outcome.answer = .ok gain → gain.Held table outcome.state
  report : Report.of outcome = forecast.report

/-- The sketch is one of this dialogue. -/
structure State.Draws (state : State) (sketch : Sketch) : Prop where
  sound : state.process.Sound
  outlined : state.process.Outlines state.table sketch.outline
  held : state.memory.Held state.table state.process
  bare : state.memory.bare = sketch.memory

theorem State.Draws.after {state : State} {sketch : Sketch} (drawn : state.Draws sketch)
    {question : Question}
    (met : Meets (state.outcome question) state.process state.table (sketch.forecast question)) :
    (state.after question).Draws (sketch.after question) := by
  have held := drawn.held.of_extends drawn.sound met.sound met.grown
  refine ⟨met.sound, met.outlined, held.record met.held, ?_⟩
  rw [State.after, Sketch.after, Memory.record_bare, drawn.bare, ← met.report]
  rfl

theorem give_of_ok {action : Action Process Fault Signature} {process : Process}
    {signature : Signature} (success : (action process).answer = .ok signature) :
    give action process =
      ⟨.ok (.signature signature), (action process).state, (action process).notices⟩ := by
  rw [give, Action.bind_of_ok _ _ process signature success]
  exact congrArg (Outcome.mk _ _) (List.append_nil _)

theorem give_of_error {action : Action Process Fault Signature} {process : Process}
    {reason : Fault} (failed : (action process).answer = .error reason) :
    give action process = ⟨.error reason, (action process).state, (action process).notices⟩ :=
  Action.bind_of_error _ _ process reason failed

theorem give_forVector (table : TableId) (texts : List String) (memory : Memory)
    (process : Process) :
    (Question.forVector (some texts)).pose table memory process =
      give (Process.request table (texts.map Label.ofVectorName)) process := by
  simp only [Question.pose, give, Process.forVector, Action.bind_assoc]
  rfl

variable {table : TableId} {process : Process} {sketch : Sketch}

theorem meets_still (sound : process.Sound) (outlined : process.Outlines table sketch.outline)
    {answer : Except Fault Gain} (held : ∀ gain, answer = .ok gain → gain.Held table process)
    (notices : List Notice) :
    Meets ⟨answer, process, notices⟩ process table
      ⟨⟨answer.map Gain.bare, adviceOf notices⟩, sketch.outline⟩ :=
  ⟨sound, Process.Extends.refl process, outlined, held, rfl⟩

/-- An answer that takes no action. -/
theorem meets_told (sound : process.Sound) (outlined : process.Outlines table sketch.outline)
    {gain : Gain} (held : gain.Held table process) :
    Meets ⟨.ok gain, process, []⟩ process table (sketch.still (.ok gain.bare)) := by
  apply meets_still sound outlined _ []
  intro other given
  cases given
  exact held

theorem meets_entering {action : Action Process Fault Signature} {labels : List Label}
    {warnings : List (Outlet × Warning)}
    (attained : Process.discipline.Attains action process
      (Process.Enters table sketch.outline labels))
    (advice : adviceOf (action process).notices = warnings) :
    Meets (give action process) process table (sketch.entering labels warnings) := by
  obtain ⟨signature, success, ⟨held, read⟩, outlined⟩ := attained.answered
  have genuine := Process.Sound.genuine attained.fit held.holds
  rw [give_of_ok success]
  refine ⟨attained.fit, attained.grown, outlined, ?_, ?_⟩
  · intro gain same
    cases same
    exact held
  · rw [Report.of, Except.map, Gain.bare, genuine.bare_eq, read, advice, Sketch.entering]

/-- An action that was refused as forecast. -/
theorem meets_refused (sound : process.Sound) (outlined : process.Outlines table sketch.outline)
    {action : Action Process Fault Signature} {reason : Fault} {notices : List Notice}
    (refused : action process = ⟨.error reason, process, notices⟩) :
    Meets (give action process) process table
      ⟨⟨.error reason, adviceOf notices⟩, sketch.outline⟩ := by
  rw [give_of_error (congrArg Outcome.answer refused), refused]
  exact meets_still sound outlined (fun gain given => by cases given) notices

/-- A request that was answered is as forecast; one that was not met a full shard, unless there was
no room for it. -/
theorem meets_request (sound : process.Sound) (outlined : process.Outlines table sketch.outline)
    (labels : List Label)
    (fits : (Report.of (give (Process.request table labels) process)).overflows = false) :
    Meets (give (Process.request table labels) process) process table
      (sketch.request labels) := by
  rw [Sketch.request]
  split
  · rename_i room
    obtain ⟨kept, only⟩ := Process.request_enters sound outlined room
    refine meets_entering ⟨kept, ?_⟩ (Process.request_quiet table labels process)
    cases result : (Process.request table labels process).answer with
    | ok signature => exact ⟨signature, rfl⟩
    | error reason =>
        obtain ⟨cause, rfl⟩ := only reason result
        rw [give_of_error result] at fits
        cases fits
  · rename_i full
    obtain ⟨own, present, -⟩ := id outlined
    exact meets_refused sound outlined (Process.request_of_full present full)

theorem meets_symbol (sound : process.Sound) (outlined : process.Outlines table sketch.outline)
    (text : String) {memory : Memory}
    (fits : (Report.of ((Question.symbol text).pose table memory process)).overflows = false) :
    Meets ((Question.symbol text).pose table memory process) process table
      (sketch.forecast (.symbol text)) := by
  have kept := Process.symbol_keeps sound table text
  have outlinedStill : (Process.symbol table text process).state.Outlines table sketch.outline := by
    obtain ⟨own, present, same⟩ := outlined
    rw [Process.symbol_of_present present]
    exact Process.onPool_outlines ⟨own, present, same⟩
  have quiet := Process.symbol_quiet table text process
  cases result : (Process.symbol table text process).answer with
  | ok symbol =>
      have found := kept.answer symbol result
      have same : symbol.text = text := Interner.find?_text found
      have outcome : (Question.symbol text).pose table memory process =
          ⟨.ok (.symbol symbol), (Process.symbol table text process).state,
            (Process.symbol table text process).notices⟩ := by
        rw [Question.pose, Action.bind_of_ok _ _ process symbol result]
        exact congrArg (Outcome.mk _ _) (List.append_nil _)
      rw [outcome]
      refine ⟨kept.fit, kept.grown, outlinedStill, ?_, ?_⟩
      · intro gain given
        cases given
        rw [Gain.Held, same]
        exact found
      · rw [Report.of, quiet, ← same]
        rfl
  | error reason =>
      obtain ⟨own, present, -⟩ := outlined
      rw [Question.pose, Action.bind_of_error _ _ process reason result] at fits
      rw [Process.symbol_of_present present] at result
      obtain ⟨cause, rfl⟩ := Process.onPool_error result
      cases fits

theorem meets_unnamed (sound : process.Sound) (outlined : process.Outlines table sketch.outline)
    (arity : Nat) :
    Meets (give (Process.unnamed table arity) process) process table (sketch.unnamed arity) := by
  have warnings : adviceOf
        [sketch.outline.sink.notice table (.largeUnnamed arity sketch.outline.atHand)] =
      [(sketch.outline.sink.outlet, .largeUnnamed arity sketch.outline.atHand)] :=
    List.filterMap_cons_some (Sink.advice?_notice _ _ _)
  simp only [Sketch.unnamed, ← warnings]
  split
  · rename_i inside
    obtain ⟨attained, advice⟩ := Process.unnamed_within sound outlined inside
    exact meets_entering attained advice
  · rename_i beyond
    split
    · rename_i fails
      exact meets_refused sound outlined (Process.unnamed_of_fails outlined beyond fails)
    · rename_i takes
      have taken := Bool.eq_false_of_not_eq_true takes
      split
      · rename_i room
        obtain ⟨attained, advice⟩ := Process.unnamed_beyond sound outlined beyond taken room
        exact meets_entering attained (advice.trans warnings.symm)
      · rename_i full
        exact meets_refused sound outlined (Process.unnamed_refused outlined beyond taken full)

theorem meets_flatten (sound : process.Sound) (outlined : process.Outlines table sketch.outline)
    {supplied : Signature} {spread : Spread} (held : process.Holds supplied)
    (expansions : ∀ expansion, some expansion ∈ spread.groups → process.Holds expansion) :
    Meets (give (Process.flatten table supplied spread) process) process table
      (sketch.flatten supplied.bare spread.bare) := by
  have arity : supplied.bare.arity = supplied.arity := rfl
  simp only [Sketch.flatten, Spread.length_bare, Spread.flattenedLabels_bare, Spread.fits_bare,
    Spread.shortage_bare, arity]
  split
  · rename_i covered
    split
    · rename_i fits
      have attained := Process.flatten_enters sound outlined held expansions covered fits
      exact meets_entering attained (Process.flatten_quiet table supplied spread process)
    · rename_i full
      exact meets_refused sound outlined
        (congrFun (Process.flatten_of_full covered full table) process)
  · rename_i mismatch
    exact meets_refused sound outlined
      (congrFun (Process.flatten_of_mismatch mismatch table) process)

/-- As long as no shard is full, every question is answered as the sketch has it. -/
theorem State.Draws.meets {state : State} (drawn : state.Draws sketch) (question : Question)
    (fits : (Report.of (state.outcome question)).overflows = false) :
    Meets (state.outcome question) state.process state.table (sketch.forecast question) := by
  obtain ⟨sound, outlined, held, bare⟩ := drawn
  obtain ⟨own, present, same⟩ := id outlined
  -- The answer to questions about what was never given.
  have nothing : Meets ⟨.ok .nothing, state.process, []⟩ state.process state.table
      (sketch.still (.ok .nothing)) := meets_told sound outlined trivial
  cases question with
  | symbol text => exact meets_symbol sound outlined text fits
  | forNames names => exact meets_request sound outlined _ fits
  | forFilledNames names => exact meets_request sound outlined _ fits
  | forVector names =>
      cases names with
      | none =>
          have read : Process.forVector state.table none state.process =
              ⟨.ok none, state.process, []⟩ :=
            Action.bind_of_read (Process.table_of_present present)
          have outcome : state.outcome (.forVector none) = ⟨.ok .nothing, state.process, []⟩ :=
            Action.bind_of_read read
          rw [outcome]
          exact nothing
      | some texts =>
          have outcome := give_forVector state.table texts state.memory state.process
          rw [State.outcome, outcome] at fits ⊢
          exact meets_request sound outlined _ fits
  | forSlots mentions =>
      rw [Sketch.forecast, ← bare, Memory.slots?_bare]
      simp only [State.outcome, Question.pose]
      cases meant : state.memory.slots? mentions with
      | none => exact nothing
      | some slots =>
          have attained := Process.canonical_enters sound outlined (held.knows meant)
          have labels : (slots.map Slot.bare).map Slot.label = slots.map Slot.label := by
            rw [List.map_map]
            exact List.map_congr_left fun slot _ => slot.label_bare
          simp only [Option.map_some, labels]
          exact meets_entering attained (Process.canonical_quiet state.table slots _)
  | unnamed arity => exact meets_unnamed sound outlined arity
  | flatten supplied groups =>
      rw [Sketch.forecast, ← bare, Memory.spread?_bare]
      simp only [State.outcome, Question.pose, Memory.bare, List.getElem?_map]
      cases found : state.memory.signatures[supplied]? with
      | none => exact nothing
      | some supplied =>
          cases meant : state.memory.spread? groups with
          | none => exact nothing
          | some spread =>
              have suppliedHeld := held.signatures supplied (List.mem_of_getElem? found)
              exact meets_flatten sound outlined suppliedHeld.holds (held.expansions meant)
  | size =>
      have outcome : state.outcome .size =
          ⟨.ok (.finding (.number own.size)), state.process, []⟩ :=
        Action.bind_of_read (Process.table_of_present present)
      rw [outcome, Sketch.forecast, ← same, Table.outline, List.length_map]
      exact meets_told sound outlined trivial
  | isEmpty =>
      have outcome : state.outcome .isEmpty =
          ⟨.ok (.finding (.flag own.isEmpty)), state.process, []⟩ :=
        Action.bind_of_read (Process.table_of_present present)
      rw [outcome, Sketch.forecast, ← same, Table.outline, List.isEmpty_map]
      exact meets_told sound outlined trivial
  | review earlier =>
      have outcome : state.outcome (.review earlier) =
          ⟨earlier.ask byNumber state.memory, state.process, []⟩ := by
        simp only [State.outcome, Question.pose]
        cases earlier.ask byNumber state.memory <;> rfl
      rw [outcome, Sketch.forecast, ← bare, ← Review.ask_bare,
        ← Review.ask_byNumber sound held earlier]
      exact meets_still sound outlined (fun gain => Review.held sound held) []

end Step

section Run

/-- Question by question, the reports are those of the sketch. -/
theorem State.Draws.reports {state : State} {sketch : Sketch} (drawn : state.Draws sketch)
    {questions : List Question}
    (fits : ∀ report ∈ Dialogue.reports questions state, report.overflows = false) :
    Dialogue.reports questions state = sketch.reports questions := by
  induction questions generalizing state sketch with
  | nil => rfl
  | cons question rest ih =>
      -- The sketch keeps up with the dialogue, so the rest starts from a drawn state again.
      have met := drawn.meets question (fits _ List.mem_cons_self)
      have later := ih (drawn.after met) fun report member =>
        fits report (List.mem_cons_of_mem _ member)
      rw [Dialogue.reports, Sketch.reports, later, met.report]

/-- A dialogue with a new table goes as the configuration and the questions say. -/
theorem converse_eq_sketch {process : Process} (sound : process.Sound) (config : Config)
    (questions : List Question)
    (fits : ∀ report ∈ converse config questions process, report.overflows = false) :
    converse config questions process = Sketch.converse config questions := by
  have quiet := Process.openTable_quiet config process
  by_cases room : config.Fits
  · have opened := Process.openTable_opens sound room
    obtain ⟨table, success, outlined⟩ := opened.answered
    have drawn : State.Draws ⟨(Process.openTable config process).state, table, {}⟩
        { outline := Outline.opened config } :=
      ⟨opened.fit, outlined, ⟨by simp, by simp⟩, rfl⟩
    simp only [converse, success] at fits ⊢
    have later := drawn.reports fun report member => fits report (List.mem_cons_of_mem _ member)
    rw [later, quiet, Sketch.converse, if_pos room]
  · have refused := Process.openTable_refused sound room
    simp only [converse, refused, Sketch.converse, if_neg room, quiet]

/-- Whatever two processes have done before, a dialogue with a new table goes the same way in
both, as long as no shard is full. -/
theorem history_leaves_no_trace (one two : Process) (oneReachable : one.Reachable)
    (twoReachable : two.Reachable) (config : Config) (questions : List Question)
    (oneFits : ∀ report ∈ converse config questions one, report.overflows = false)
    (twoFits : ∀ report ∈ converse config questions two, report.overflows = false) :
    converse config questions one = converse config questions two := by
  rw [converse_eq_sketch oneReachable.sound config questions oneFits,
    converse_eq_sketch twoReachable.sound config questions twoFits]

/-- With "q" in the same shard as "a", so that "a" comes to another place than in a new process. -/
def shifted : List Call :=
  [.openTable { cacheLength := 2 }, .symbol (.numbered 0) "q", .forNames .global [some "b", none]]

/-- A name, its slots by name and by symbol, a warning, a spread call, and questions about them. -/
def interview : List Question :=
  [.symbol "a", .forNames [some "a", none, some "..."],
    .review (.symbolAt 0 2), .forSlots [.symbol 0, .positional, .symbol 1], .unnamed 3,
    .flatten 0 [none, some 2, some 0], .size, .review (.sameSignature 0 1),
    .review (.sameSignature 0 3), .review (.indexOfSymbol 3 1), .review (.look 3 .restIndex),
    .review (.look 3 .display)]

theorem history_leaves_no_trace_shifted :
    ((Interner.intern "a" ({} : Process).pool).answer.toOption.map Symbol.handle ≠
      (Interner.intern "a" (Process.after shifted {}).pool).answer.toOption.map Symbol.handle) ∧
    (converse (.attended 1) interview {}).length = 13 ∧
    converse (.attended 1) interview {} =
      converse (.attended 1) interview (Process.after shifted {}) := by
  refine ⟨by decide +kernel, by decide +kernel, ?_⟩
  apply history_leaves_no_trace
  · exact ⟨[], trivial, rfl⟩
  · exact ⟨shifted, ⟨trivial, trivial, trivial, trivial⟩, rfl⟩
  · decide +kernel
  · decide +kernel

end Run

end CallShape.Dialogue
