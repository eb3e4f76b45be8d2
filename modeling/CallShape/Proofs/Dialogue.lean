import CallShape.Proofs.Outline
import CallShape.Proofs.Reading

set_option autoImplicit false

namespace CallShape.Dialogue

/-- What the caller was given so far, in the order of the answers. -/
structure Memory where
  symbols : List Symbol := []
  signatures : List Signature := []

/-- A slot as the caller spells it; a name is a symbol from an earlier answer, by number. -/
inductive Mention where
  | symbol (number : Nat)
  | positional
  | unmatched
  deriving DecidableEq, Repr

/-- An answer. -/
inductive Gain where
  | nothing
  | symbol (symbol : Symbol)
  | signature (signature : Signature)
  | finding (finding : Finding)

/-- The answer without handles and serials. -/
def Gain.bare : Gain → Gain
  | .nothing => .nothing
  | .symbol given => .symbol given.bare
  | .signature given => .signature given.bare
  | .finding given => .finding given

namespace Memory

def keep (memory : Memory) : Gain → Memory
  | .nothing => memory
  | .symbol symbol => { memory with symbols := memory.symbols ++ [symbol] }
  | .signature signature => { memory with signatures := memory.signatures ++ [signature] }
  | .finding _ => memory

/-- A failure gives nothing to keep. -/
def record (memory : Memory) : Except Fault Gain → Memory
  | .ok gain => memory.keep gain
  | .error _ => memory

def slot? (memory : Memory) : Mention → Option Slot
  | .symbol number => memory.symbols[number]?.map Slot.named
  | .positional => some .positional
  | .unmatched => some .unmatched

def slots? (memory : Memory) (mentions : List Mention) : Option (List Slot) :=
  mentions.mapM memory.slot?

/-- An ordinary slot, or one that is spread to the earlier signature with this number. -/
def group? (memory : Memory) : Option Nat → Option (Option Signature)
  | none => some none
  | some number => memory.signatures[number]?.map some

def spread? (memory : Memory) (groups : List (Option Nat)) : Option Spread :=
  (groups.mapM memory.group?).map Spread.mk

end Memory

/-- A question about earlier answers, by number. The table is not asked. -/
inductive Review where
  | look (signature : Nat) (query : Query)
  | symbolAt (signature index : Nat)
  | indexOfSymbol (signature symbol : Nat)
  | sameSignature (first second : Nat)
  | sameSymbol (first second : Nat)
  deriving DecidableEq, Repr

/-- How symbols and signatures are told apart. -/
structure Comparison where
  indexOf : Signature → Symbol → Option Nat
  signatures : Signature → Signature → Bool
  symbols : Symbol → Symbol → Bool

/-- Symbols by handle and signatures by serial. -/
def byNumber : Comparison := ⟨Signature.indexOfSymbol, (· == ·), (· == ·)⟩

def byText : Comparison :=
  ⟨fun signature symbol => signature.indexOfName symbol.text,
    fun first second => first.labels = second.labels,
    fun first second => first.text = second.text⟩

/-- What is found out about two earlier answers together. -/
def relate {α β : Type} (first : Option α) (second : Option β) (tell : α → β → Finding) : Gain :=
  match first, second with
  | some first, some second => .finding (tell first second)
  | _, _ => .nothing

/-- About an answer that was never given there is nothing to say. -/
def Review.ask (comparison : Comparison) (memory : Memory) : Review → Except Fault Gain
  | .look signature query =>
      match memory.signatures[signature]? with
      | some signature => ((query.ask signature).map Gain.finding).mapError Fault.signature
      | none => .ok .nothing
  | .symbolAt signature index =>
      match memory.signatures[signature]? with
      | some signature =>
          ((signature.symbolAt index).map (·.elim .nothing Gain.symbol)).mapError Fault.signature
      | none => .ok .nothing
  | .indexOfSymbol signature symbol =>
      .ok (relate memory.signatures[signature]? memory.symbols[symbol]?
        fun signature symbol => .index (comparison.indexOf signature symbol))
  | .sameSignature first second =>
      .ok (relate memory.signatures[first]? memory.signatures[second]?
        fun first second => .flag (comparison.signatures first second))
  | .sameSymbol first second =>
      .ok (relate memory.symbols[first]? memory.symbols[second]?
        fun first second => .flag (comparison.symbols first second))

inductive Question where
  | symbol (text : String)
  | forNames (names : List (Option String))
  | forFilledNames (names : List (Option String))
  | forVector (names : Option (List String))
  | forSlots (mentions : List Mention)
  | unnamed (arity : Nat)
  | flatten (supplied : Nat) (groups : List (Option Nat))
  | size
  | isEmpty
  | review (earlier : Review)
  deriving DecidableEq, Repr

def give (action : Action Process Fault Signature) : Action Process Fault Gain := do
  return .signature (← action)

/-- What the process does for a question. -/
def Question.pose (table : TableId) (memory : Memory) : Question → Action Process Fault Gain
  | .symbol text => do return .symbol (← Process.symbol table text)
  | .forNames names => give (Process.forNames table names)
  | .forFilledNames names => give (Process.forFilledNames table names)
  | .forVector names => do return (← Process.forVector table names).elim .nothing .signature
  | .forSlots mentions =>
      match memory.slots? mentions with
      | some slots => give (Process.canonical table slots)
      | none => return .nothing
  | .unnamed arity => give (Process.unnamed table arity)
  | .flatten supplied groups =>
      match memory.signatures[supplied]?, memory.spread? groups with
      | some supplied, some spread => give (Process.flatten table supplied spread)
      | _, _ => return .nothing
  | .size => do return .finding (.number (← Process.table table).size)
  | .isEmpty => do return .finding (.flag (← Process.table table).isEmpty)
  | .review earlier => Action.ofExcept (earlier.ask byNumber memory)

/-- What the caller sees of an outcome. -/
structure Report where
  answer : Except Fault Gain
  warnings : List (Outlet × Warning)

def Report.of (outcome : Outcome Process Fault Gain) : Report :=
  ⟨outcome.answer.map Gain.bare, adviceOf outcome.notices⟩

/-- Whether a shard was full. -/
def Report.overflows (report : Report) : Bool :=
  match report.answer with
  | .error (.intern _) => true
  | _ => false

structure State where
  process : Process
  table : TableId
  memory : Memory

def State.outcome (state : State) (question : Question) : Outcome Process Fault Gain :=
  question.pose state.table state.memory state.process

def State.after (state : State) (question : Question) : State where
  process := (state.outcome question).state
  table := state.table
  memory := state.memory.record (state.outcome question).answer

/-- One report for each question. -/
def reports : List Question → State → List Report
  | [], _ => []
  | question :: rest, state =>
      Report.of (state.outcome question) :: reports rest (state.after question)

/-- A new table is opened and asked the questions; the first report is about the opening. -/
def converse (config : Config) (questions : List Question) (process : Process) : List Report :=
  let opening := Process.openTable config process
  match opening.answer with
  | .error reason => [⟨.error reason, adviceOf opening.notices⟩]
  | .ok table =>
      ⟨.ok .nothing, adviceOf opening.notices⟩ :: reports questions ⟨opening.state, table, {}⟩

section Bare

theorem mapM_map {α β γ : Type} (f : α → Option β) (g : β → γ) (items : List α) :
    items.mapM (fun item => (f item).map g) = (items.mapM f).map (List.map g) := by
  induction items with
  | nil => rfl
  | cons item rest ih =>
      rw [List.mapM_cons, List.mapM_cons, ih]
      cases f item with
      | none => rfl
      | some value => cases rest.mapM f <;> rfl

theorem forall_of_mapM {α β : Type} {f : α → Option β} {property : β → Prop}
    (each : ∀ item value, f item = some value → property value) {items : List α}
    {values : List β} (all : items.mapM f = some values) : ∀ value ∈ values, property value := by
  induction items generalizing values with
  | nil =>
      cases all
      exact fun value member => absurd member List.not_mem_nil
  | cons item rest ih =>
      rw [List.mapM_cons] at all
      obtain ⟨first, own, all⟩ := Option.bind_eq_some_iff.mp all
      obtain ⟨later, ofRest, same⟩ := Option.bind_eq_some_iff.mp all
      cases same
      intro value member
      rcases List.mem_cons.mp member with rfl | old
      · exact each item value own
      · exact ih ofRest value old

namespace Memory

def bare (memory : Memory) : Memory :=
  ⟨memory.symbols.map Symbol.bare, memory.signatures.map Signature.bare⟩

theorem record_bare (memory : Memory) (answer : Except Fault Gain) :
    (memory.record answer).bare = memory.bare.record (answer.map Gain.bare) := by
  cases answer with
  | error reason => rfl
  | ok gain =>
      cases gain <;>
        simp only [record, keep, bare, Except.map, Gain.bare, List.map_append, List.map_cons,
          List.map_nil]

theorem slots?_bare (memory : Memory) (mentions : List Mention) :
    memory.bare.slots? mentions = (memory.slots? mentions).map (List.map Slot.bare) := by
  have slot : memory.bare.slot? = fun mention => (memory.slot? mention).map Slot.bare := by
    funext mention
    cases mention with
    | symbol number =>
        simp only [slot?, bare, List.getElem?_map, Option.map_map]
        rfl
    | positional => rfl
    | unmatched => rfl
  rw [slots?, slot, mapM_map, slots?]

theorem spread?_bare (memory : Memory) (groups : List (Option Nat)) :
    memory.bare.spread? groups = (memory.spread? groups).map Spread.bare := by
  have group : memory.bare.group? =
      fun group => (memory.group? group).map (Option.map Signature.bare) := by
    funext group
    cases group with
    | none => rfl
    | some number =>
        simp only [group?, bare, List.getElem?_map, Option.map_map]
        rfl
  rw [spread?, group, mapM_map, Option.map_map, spread?, Option.map_map]
  rfl

end Memory

theorem relate_bare {α β : Type} (strip : α → α) (stripSecond : β → β) {tell : α → β → Finding}
    (same : ∀ first second, tell (strip first) (stripSecond second) = tell first second)
    (first : Option α) (second : Option β) :
    (relate first second tell).bare =
      relate (first.map strip) (second.map stripSecond) tell := by
  cases first with
  | none => rfl
  | some first =>
      cases second with
      | none => rfl
      | some second => exact congrArg Gain.finding (same first second).symm

theorem Review.ask_bare (memory : Memory) (review : Review) :
    (review.ask byText memory).map Gain.bare = review.ask byText memory.bare := by
  cases review with
  | look signature query =>
      simp only [ask, Memory.bare, List.getElem?_map]
      cases memory.signatures[signature]? with
      | none => rfl
      | some signature =>
          simp only [Option.map_some, Signature.ask_bare]
          cases query.ask signature <;> rfl
  | symbolAt signature index =>
      simp only [ask, Memory.bare, List.getElem?_map]
      cases memory.signatures[signature]? with
      | none => rfl
      | some signature =>
          simp only [Option.map_some, Signature.symbolAt, Signature.slotAt_bare]
          cases signature.slotAt index with
          | error cause => rfl
          | ok slot => cases slot <;> rfl
  | indexOfSymbol signature symbol =>
      simp only [ask, Memory.bare, List.getElem?_map]
      refine congrArg Except.ok (relate_bare Signature.bare Symbol.bare ?_ _ _)
      intro signature symbol
      exact congrArg Finding.index (signature.indexOfName_bare symbol.text)
  | sameSignature first second =>
      simp only [ask, Memory.bare, List.getElem?_map]
      refine congrArg Except.ok (relate_bare Signature.bare Signature.bare ?_ _ _)
      intro first second
      simp only [byText, Signature.labels_bare]
  | sameSymbol first second =>
      simp only [ask, Memory.bare, List.getElem?_map]
      exact congrArg Except.ok (relate_bare Symbol.bare Symbol.bare (fun _ _ => rfl) _ _)

end Bare

section Held

variable {table : TableId} {process : Process} {memory : Memory}

/-- The answer is the table's own. -/
def Gain.Held (table : TableId) (process : Process) : Gain → Prop
  | .nothing => True
  | .symbol given => process.pool.find? given.text = some given
  | .signature given => process.HeldBy table given
  | .finding _ => True

structure Memory.Held (memory : Memory) (table : TableId) (process : Process) : Prop where
  symbols : ∀ symbol ∈ memory.symbols, process.pool.find? symbol.text = some symbol
  signatures : ∀ signature ∈ memory.signatures, process.HeldBy table signature

namespace Memory.Held

theorem of_extends (held : memory.Held table process) (sound : process.Sound) {after : Process}
    (soundAfter : after.Sound) (extended : process.Extends after) : memory.Held table after :=
  ⟨fun symbol member => sound.pool.toOrderly.find?_of_grows soundAfter.pool.toOrderly
      extended.pool (held.symbols symbol member),
    fun signature member => (held.signatures signature member).of_extends extended⟩

theorem record (held : memory.Held table process) {answer : Except Fault Gain}
    (given : ∀ gain, answer = .ok gain → gain.Held table process) :
    (memory.record answer).Held table process := by
  cases answer with
  | error reason => exact held
  | ok gain =>
      have own := given gain rfl
      cases gain with
      | nothing => exact held
      | finding _ => exact held
      | symbol symbol =>
          refine ⟨?_, held.signatures⟩
          intro other member
          rcases List.mem_append.mp member with old | new
          · exact held.symbols other old
          · rw [List.mem_singleton.mp new]
            exact own
      | signature signature =>
          refine ⟨held.symbols, ?_⟩
          intro other member
          rcases List.mem_append.mp member with old | new
          · exact held.signatures other old
          · rw [List.mem_singleton.mp new]
            exact own

theorem knows (held : memory.Held table process) {mentions : List Mention} {slots : List Slot}
    (meant : memory.slots? mentions = some slots) : process.pool.Knows slots := by
  have each : ∀ mention slot, memory.slot? mention = some slot → process.pool.Knows [slot] := by
    intro mention slot found symbol member
    cases List.mem_singleton.mp member
    cases mention with
    | symbol number =>
        obtain ⟨own, present, same⟩ := Option.map_eq_some_iff.mp found
        cases same
        exact held.symbols _ (List.mem_of_getElem? present)
    | positional => cases found
    | unmatched => cases found
  intro symbol member
  exact forall_of_mapM each meant _ member symbol List.mem_cons_self

theorem expansions (held : memory.Held table process) {groups : List (Option Nat)}
    {spread : Spread} (meant : memory.spread? groups = some spread) :
    ∀ expansion, some expansion ∈ spread.groups → process.Holds expansion := by
  have each : ∀ number group, memory.group? number = some group →
      ∀ expansion, group = some expansion → process.HeldBy table expansion := by
    intro number group found expansion same
    cases number with
    | none =>
        cases found
        cases same
    | some number =>
        obtain ⟨own, present, rfl⟩ := Option.map_eq_some_iff.mp found
        cases same
        exact held.signatures _ (List.mem_of_getElem? present)
  obtain ⟨own, meantGroups, rfl⟩ := Option.map_eq_some_iff.mp meant
  intro expansion member
  exact (forall_of_mapM each meantGroups _ member expansion rfl).holds

end Memory.Held

theorem relate_congr {α β : Type} {first : Option α} {second : Option β}
    {tell other : α → β → Finding}
    (same : ∀ one two, first = some one → second = some two → tell one two = other one two) :
    relate first second tell = relate first second other := by
  cases first with
  | none => rfl
  | some one =>
      cases second with
      | none => rfl
      | some two => exact congrArg Gain.finding (same one two rfl rfl)

theorem relate_held {α β : Type} (first : Option α) (second : Option β)
    (tell : α → β → Finding) : (relate first second tell).Held table process := by
  cases first <;> cases second <;> trivial

namespace Review

/-- Among the answers of one table, comparing numbers and comparing texts is the same. -/
theorem ask_byNumber (sound : process.Sound) (held : memory.Held table process)
    (review : Review) : review.ask byNumber memory = review.ask byText memory := by
  have orderly := sound.pool.toOrderly
  cases review with
  | look signature query => rfl
  | symbolAt signature index => rfl
  | indexOfSymbol signature symbol =>
      refine congrArg Except.ok (relate_congr ?_)
      intro signature symbol present named
      have own := held.signatures signature (List.mem_of_getElem? present)
      have known := held.symbols symbol (List.mem_of_getElem? named)
      exact congrArg Finding.index ((sound.genuine own.holds).indexOfSymbol_eq orderly known)
  | sameSignature first second =>
      refine congrArg Except.ok (relate_congr ?_)
      intro one two firstPresent secondPresent
      have same := sound.beq_iff_labels (held.signatures one (List.mem_of_getElem? firstPresent))
        (held.signatures two (List.mem_of_getElem? secondPresent))
      simp only [byNumber, byText, ← same, Bool.decide_eq_true]
  | sameSymbol first second =>
      refine congrArg Except.ok (relate_congr ?_)
      intro one two firstPresent secondPresent
      have same := orderly.symbol_beq_iff (held.symbols one (List.mem_of_getElem? firstPresent))
        (held.symbols two (List.mem_of_getElem? secondPresent))
      simp only [byNumber, byText, ← same, Bool.decide_eq_true]

theorem held (sound : process.Sound) (held : memory.Held table process) {review : Review}
    {gain : Gain} (answered : review.ask byNumber memory = .ok gain) :
    gain.Held table process := by
  cases review with
  | look signature query =>
      simp only [ask] at answered
      split at answered
      · rename_i own _
        cases result : query.ask own with
        | error cause =>
            rw [result] at answered
            cases answered
        | ok finding =>
            rw [result] at answered
            cases answered
            trivial
      · cases answered
        trivial
  | symbolAt signature index =>
      simp only [ask] at answered
      split at answered
      · rename_i own present
        have genuine := sound.genuine (held.signatures own (List.mem_of_getElem? present)).holds
        rw [Signature.symbolAt] at answered
        cases read : own.slotAt index with
        | error cause =>
            rw [read] at answered
            cases answered
        | ok slot =>
            rw [read] at answered
            cases answered
            cases slot with
            | named symbol => exact genuine.known symbol (genuine.mem_of_slotAt read)
            | positional => trivial
            | unmatched => trivial
      · cases answered
        trivial
  | indexOfSymbol signature symbol =>
      cases answered
      exact relate_held _ _ _
  | sameSignature first second =>
      cases answered
      exact relate_held _ _ _
  | sameSymbol first second =>
      cases answered
      exact relate_held _ _ _

end Review

end Held

end CallShape.Dialogue
