import CallShape.Proofs.Process

set_option autoImplicit false

namespace CallShape

theorem Label.ofVectorName_eq (text : String) :
    Label.ofVectorName text = Label.ofFilledName (some text) := by
  by_cases blank : text = ""
  · rw [blank]
    rfl
  · rw [Label.ofFilledName, if_neg blank, Label.ofVectorName]
    exact blank

theorem Label.map_ofVectorName (texts : List String) :
    texts.map Label.ofVectorName = (texts.map some).map Label.ofFilledName := by
  rw [List.map_map]
  exact List.map_congr_left fun text _ => Label.ofVectorName_eq text

namespace Sink

/-- Whether there is a hook that fails for this warning. -/
def fails : Sink → Warning → Bool
  | .log, _ => false
  | .hook fails, warning => fails warning

/-- What is seen of a warning. -/
def notice (id : TableId) (warning : Warning) : Sink → Notice
  | .log => .logged id warning
  | .hook _ => .delivered id warning

end Sink

namespace Process

/-- An instance of the table, with these slots. -/
def Gives (id : TableId) (slots : List Slot) (signature : Signature) (process : Process) : Prop :=
  process.HeldBy id signature ∧ signature.slots = slots

/-- An instance of the table, with these labels. -/
def Answers (id : TableId) (labels : List Label) (signature : Signature) (process : Process) :
    Prop :=
  process.HeldBy id signature ∧ signature.labels = labels

theorem Sound.withNames {process : Process} (sound : process.Sound) {pool : Interner}
    (fit : pool.Sound) (grown : process.pool.Grows pool) :
    ({ process with names := some pool } : Process).Sound := by
  refine ⟨fit, ?_, sound.apart, sound.global⟩
  intro id table present
  exact (sound.tables id table present).mono sound.pool.toOrderly fit.toOrderly grown
    (Nat.le_refl _)

theorem extends_withNames {process : Process} {pool : Interner}
    (grown : process.pool.Grows pool) :
    process.Extends { process with names := some pool } :=
  ⟨grown, fun _ table present => ⟨table, present, Table.Extends.refl table⟩,
    fun _ chosen => chosen⟩

theorem onPool_answer_iff {α : Type} (action : Action Interner InternError α) (process : Process)
    (value : α) :
    (onPool action process).answer = .ok value ↔ (action process.pool).answer = .ok value := by
  change (action process.pool).answer.mapError Fault.intern = .ok value ↔ _
  cases (action process.pool).answer with
  | error reason => simp [Except.mapError]
  | ok other => simp [Except.mapError]

theorem onPool_keeps {α : Type} {process : Process} (sound : process.Sound)
    {action : Action Interner InternError α} {holds : α → Interner → Prop}
    (kept : Interner.discipline.Keeps action process.pool holds) :
    discipline.Keeps (onPool action) process (fun value after => holds value after.pool) := by
  refine ⟨sound.withNames kept.fit kept.grown, extends_withNames kept.grown, ?_⟩
  intro value answered
  exact kept.answer value ((onPool_answer_iff action process value).mp answered)

theorem table_of_absent {process : Process} {id : TableId}
    (absent : process.tables[id]? = none) :
    table id process = ⟨.error .unknownTable, process, []⟩ := by
  simp only [table, absent]

theorem table_of_present {process : Process} {id : TableId} {own : Table}
    (present : process.tables[id]? = some own) : table id process = ⟨.ok own, process, []⟩ := by
  simp only [table, present]

theorem table_keeps {process : Process} (sound : process.Sound) (id : TableId) :
    discipline.Keeps (table id) process (fun table after => after.tables[id]? = some table) := by
  cases present : process.tables[id]? with
  | none => exact .of_error (table_of_absent present) sound (Extends.refl process)
  | some table => exact .of_ok (table_of_present present) sound (Extends.refl process) present

theorem reserve_keeps {process : Process} (sound : process.Sound) (count size : Nat) :
    discipline.Keeps (reserve count size) process (fun _ _ => True) := by
  unfold reserve
  split
  · exact Discipline.Keeps.pure sound trivial
  · exact Discipline.Keeps.fail sound

theorem enter_of_absent {process : Process} {id : TableId} (slots : List Slot)
    (absent : process.tables[id]? = none) :
    enter id slots process = ⟨.error .unknownTable, process, []⟩ := by
  simp only [enter, absent]

theorem enter_of_known {process : Process} {id : TableId} {table : Table} {slots : List Slot}
    {signature : Signature} (present : process.tables[id]? = some table)
    (found : table.find? slots = some signature) :
    enter id slots process = ⟨.ok signature, process, []⟩ := by
  simp only [enter, present, found]

theorem enter_of_missing {process : Process} {id : TableId} {table : Table} {slots : List Slot}
    (present : process.tables[id]? = some table) (missing : table.find? slots = none) :
    enter id slots process =
      ⟨.ok (Signature.build process.nextSerial slots), process.withSignature id table slots,
        [.signatureAdded id (Signature.build process.nextSerial slots)]⟩ := by
  simp only [enter, present, missing, Table.publish_of_missing missing]
  rfl

theorem enter_keeps {process : Process} (sound : process.Sound) (id : TableId)
    {slots : List Slot} (known : process.pool.Knows slots) :
    discipline.Keeps (enter id slots) process (Gives id slots) := by
  cases present : process.tables[id]? with
  | none => exact .of_error (enter_of_absent slots present) sound (Extends.refl process)
  | some table =>
      have own := sound.tables id table present
      cases found : table.find? slots with
      | some signature =>
          have old := (own.find?_eq_some_iff sound.pool.toOrderly known signature).mp found
          apply Discipline.Keeps.of_ok (enter_of_known present found) sound (Extends.refl process)
          exact ⟨⟨table, present, old.1⟩, old.2⟩
      | none =>
          apply Discipline.Keeps.of_ok (enter_of_missing present found)
          · exact sound.withSignature present known found
          · exact extends_withSignature slots present
          · refine ⟨⟨_, (tables_withSignature slots present id).trans (if_pos rfl), ?_⟩,
              Signature.slots_build _ slots⟩
            exact List.mem_append_right _ (List.mem_singleton.mpr rfl)

/-- With a table to enter into, entering never fails. -/
theorem enter_ok {process : Process} {id : TableId} {table : Table}
    (present : process.tables[id]? = some table) (slots : List Slot) :
    ∃ signature, (enter id slots process).answer = .ok signature := by
  cases found : table.find? slots with
  | some signature => exact ⟨signature, by rw [enter_of_known present found]⟩
  | none => exact ⟨_, by rw [enter_of_missing present found]⟩

/-- Entering leaves alone what one signature more makes no difference to. -/
theorem enter_leaves {γ : Type} {view : Process → γ}
    (entering : ∀ process id table slots,
      view (withSignature process id table slots) = view process)
    (id : TableId) (slots : List Slot) : (enter id slots).Leaves view := by
  intro process
  cases present : process.tables[id]? with
  | none => rw [enter_of_absent slots present]
  | some table =>
      cases found : table.find? slots with
      | some signature => rw [enter_of_known present found]
      | none =>
          rw [enter_of_missing present found]
          exact entering process id table slots

theorem reserve_still (count size : Nat) (process : Process) :
    (reserve count size process).state = process := by
  unfold reserve
  split <;> rfl

theorem enterUnnamed_leaves {γ : Type} {view : Process → γ}
    (entering : ∀ process id table slots,
      view (withSignature process id table slots) = view process)
    (id : TableId) (arity : Nat) : (enterUnnamed id arity).Leaves view :=
  Action.Leaves.bind (fun process => by rw [reserve_still]) fun _ => enter_leaves entering id _

theorem startNames_keeps {process : Process} (sound : process.Sound) :
    discipline.Keeps startNames process (fun _ _ => True) := by
  cases names : process.names with
  | some pool =>
      have same : startNames process = ⟨.ok (), process, []⟩ := by simp only [startNames, names]
      exact .of_ok same sound (Extends.refl process) trivial
  | none =>
      have grown : process.pool.Grows Interner.initial := by
        rw [pool, names]
        exact Interner.Grows.refl _
      have started : startNames process = ⟨.ok (),
          { process with names := some Interner.initial }, Interner.start.notices⟩ := by
        simp only [startNames, names]
      exact .of_ok started (sound.withNames Interner.initial_sound grown)
        (extends_withNames grown) trivial

/-- The process with a table more that has no signatures. -/
def withTable (process : Process) (sink : Sink) : Process :=
  { process with tables := process.tables ++ [Table.blank sink] }

theorem tables_withTable {process : Process} {sink : Sink} {id : TableId} {table : Table}
    (present : (process.withTable sink).tables[id]? = some table) :
    process.tables[id]? = some table ∨ table = Table.blank sink := by
  rw [withTable, List.getElem?_append] at present
  split at present
  · exact Or.inl present
  · exact Or.inr (List.mem_singleton.mp (List.mem_of_getElem? present))

theorem extends_withTable (process : Process) (sink : Sink) :
    process.Extends (process.withTable sink) := by
  refine ⟨Interner.Grows.refl _, ?_, fun _ chosen => chosen⟩
  intro id table present
  have inside := (List.getElem?_eq_some_iff.mp present).1
  exact ⟨table, (List.getElem?_append_left inside).trans present, Table.Extends.refl table⟩

theorem Sound.withTable {process : Process} (sound : process.Sound) (sink : Sink) :
    (process.withTable sink).Sound := by
  have held : ∀ {id : TableId} {signature : Signature},
      (process.withTable sink).HeldBy id signature → process.HeldBy id signature := by
    intro id signature both
    obtain ⟨table, present, member⟩ := both
    rcases tables_withTable present with old | new
    · exact ⟨table, old, member⟩
    · rw [new] at member
      cases member
  refine ⟨sound.pool, ?_, ?_, ?_⟩
  · intro id table present
    rcases tables_withTable present with old | new
    · exact sound.tables id table old
    · rw [new]
      exact Table.blank_sound sink _ _
  · intro id other signature otherSignature one two same
    exact sound.apart id other signature otherSignature (held one) (held two) same
  · intro id chosen
    rw [Process.withTable, List.length_append]
    exact Nat.lt_of_lt_of_le (sound.global id chosen) (Nat.le_add_right _ _)

/-- The process with these signatures at hand in one table. -/
def withAtHand (process : Process) (id : TableId) (unnamed : List Signature) : Process :=
  { process with tables := process.tables.modify id ({ · with unnamed := unnamed }) }

theorem tables_withAtHand (process : Process) (id other : TableId) (unnamed : List Signature) :
    (process.withAtHand id unnamed).tables[other]? =
      process.tables[other]?.map
        (fun table => if id = other then { table with unnamed := unnamed } else table) := by
  rw [withAtHand, List.getElem?_modify]
  rfl

theorem heldBy_withAtHand {process : Process} {id other : TableId} {unnamed : List Signature}
    {signature : Signature} :
    (process.withAtHand id unnamed).HeldBy other signature ↔ process.HeldBy other signature := by
  simp only [HeldBy, tables_withAtHand, Option.map_eq_some_iff]
  constructor
  · rintro ⟨-, ⟨table, present, rfl⟩, member⟩
    refine ⟨table, present, ?_⟩
    split at member <;> exact member
  · intro held
    obtain ⟨table, present, member⟩ := held
    refine ⟨_, ⟨table, present, rfl⟩, ?_⟩
    split <;> exact member

/-- All-positional signatures that a table has may be kept at hand, each under its arity. -/
theorem Sound.withAtHand {process : Process} (sound : process.Sound) {id : TableId}
    {unnamed : List Signature}
    (entered : ∀ arity signature, unnamed[arity]? = some signature →
      Gives id (List.replicate arity .positional) signature process) :
    (process.withAtHand id unnamed).Sound := by
  refine ⟨sound.pool, ?_, ?_, ?_⟩
  · intro other later present
    rw [tables_withAtHand, Option.map_eq_some_iff] at present
    obtain ⟨table, presentBefore, rfl⟩ := present
    have own := sound.tables other table presentBefore
    split
    · rename_i same
      subst same
      refine ⟨own.genuine, own.distinct, own.serials, own.below, ?_⟩
      intro arity signature kept
      obtain ⟨⟨holder, presentHolder, member⟩, slots⟩ := entered arity signature kept
      rw [presentBefore] at presentHolder
      cases presentHolder
      exact ⟨member, slots⟩
    · exact own
  · intro one other signature otherSignature held otherHeld same
    exact sound.apart one other signature otherSignature (heldBy_withAtHand.mp held)
      (heldBy_withAtHand.mp otherHeld) same
  · intro chosen global
    rw [Process.withAtHand, List.length_modify]
    exact sound.global chosen global

theorem enterUnnamed_keeps {process : Process} (sound : process.Sound) (id : TableId)
    (arity : Nat) :
    discipline.Keeps (enterUnnamed id arity) process
      (Gives id (List.replicate arity .positional)) := by
  apply (reserve_keeps sound arity Capacity.slotBytes).bind
  intro _ _ _ reserved _
  exact enter_keeps reserved id (Interner.knows_replicate_positional _ arity)

/-- Entering one signature for each arity, in order. -/
theorem each_enterUnnamed_keeps {process : Process} (sound : process.Sound) (id : TableId)
    (arities : List Nat) :
    discipline.Keeps (Action.each (enterUnnamed id) arities) process
      (fun signatures after => List.Forall₂
        (fun arity signature => Gives id (List.replicate arity .positional) signature after)
        arities signatures) := by
  apply Discipline.Keeps.each
  · intro arity signature before after _ _ grown gives
    exact ⟨gives.1.of_extends grown, gives.2⟩
  · intro arity before fit _
    exact enterUnnamed_keeps fit id arity
  · exact sound

/-- A table that is not there yet is out of reach of what was before. -/
theorem Extends.withAtHand {before after : Process} (extended : before.Extends after)
    {id : TableId} (unnamed : List Signature) (new : before.tables[id]? = none) :
    before.Extends (after.withAtHand id unnamed) := by
  refine ⟨extended.pool, ?_, extended.global⟩
  intro other table present
  obtain ⟨later, presentLater, tableExtended⟩ := extended.tables other table present
  have different : ¬ id = other := by
    intro same
    rw [← same, new] at present
    cases present
  refine ⟨later, ?_, tableExtended⟩
  rw [tables_withAtHand, presentLater, Option.map_some, if_neg different]

/-- The last part of `openTable`, once names are there and room is reserved. -/
def newTable (config : Config) : Action Process Fault TableId := do
  let id ← addTable config.sink
  let unnamed ← Action.each (enterUnnamed id) (List.range config.cacheLength)
  keepAtHand id unnamed
  return id

theorem openTable_eq (config : Config) :
    openTable config = (do
      startNames
      reserve config.cacheLength Capacity.signatureBytes
      newTable config) := rfl

/-- The first part of `newTable`: the all-positional signatures entered into the table. -/
def entered (config : Config) (process : Process) : Outcome Process Fault (List Signature) :=
  Action.each (enterUnnamed process.tables.length) (List.range config.cacheLength)
    (process.withTable config.sink)

theorem entered_keeps {process : Process} (sound : process.Sound) (config : Config) :
    discipline.Keeps (fun _ => entered config process) (process.withTable config.sink)
      (fun unnamed after => ∀ arity signature, unnamed[arity]? = some signature →
        Gives process.tables.length (List.replicate arity .positional) signature after) := by
  have kept := each_enterUnnamed_keeps (sound.withTable config.sink) process.tables.length
    (List.range config.cacheLength)
  refine ⟨kept.fit, kept.grown, ?_⟩
  intro unnamed answered arity signature present
  obtain ⟨lengths, pointwise⟩ := List.forall₂_iff_get.mp (kept.answer unnamed answered)
  obtain ⟨inside, rfl⟩ := List.getElem?_eq_some_iff.mp present
  have own := pointwise arity (lengths ▸ inside) inside
  simp only [List.get_eq_getElem, List.getElem_range] at own
  exact own

theorem entered_table {process : Process} (sound : process.Sound) (config : Config) :
    ∃ table, (entered config process).state.tables[process.tables.length]? = some table := by
  have blank : (process.withTable config.sink).tables[process.tables.length]? =
      some (Table.blank config.sink) := List.getElem?_concat_length
  obtain ⟨table, present, -⟩ := (entered_keeps sound config).grown.tables _ _ blank
  exact ⟨table, present⟩

theorem newTable_eq (config : Config) (process : Process) :
    newTable config process =
      (do
        let unnamed ← Action.each (enterUnnamed process.tables.length)
          (List.range config.cacheLength)
        keepAtHand process.tables.length unnamed
        return process.tables.length : Action Process Fault TableId)
      (process.withTable config.sink) := rfl

theorem newTable_of_error {config : Config} {process : Process} {reason : Fault}
    (failed : (entered config process).answer = .error reason) :
    newTable config process =
      ⟨.error reason, (entered config process).state, (entered config process).notices⟩ := by
  rw [newTable_eq]
  exact Action.bind_of_error _ _ (process.withTable config.sink) reason failed

theorem newTable_of_ok {config : Config} {process : Process} {unnamed : List Signature}
    (success : (entered config process).answer = .ok unnamed) :
    newTable config process =
      ⟨.ok process.tables.length,
        (entered config process).state.withAtHand process.tables.length unnamed,
        (entered config process).notices⟩ := by
  rw [newTable_eq, Action.bind_of_ok _ _ (process.withTable config.sink) unnamed success]
  exact congrArg (Outcome.mk _ _) (List.append_nil _)

theorem newTable_keeps {process : Process} (sound : process.Sound) (config : Config) :
    discipline.Keeps (newTable config) process
      (fun id after => ∃ table, after.tables[id]? = some table) := by
  have kept := entered_keeps sound config
  have grown : process.Extends (entered config process).state :=
    (extends_withTable process config.sink).trans kept.grown
  cases result : (entered config process).answer with
  | error reason => exact .of_error (newTable_of_error result) kept.fit grown
  | ok unnamed =>
      obtain ⟨table, present⟩ := entered_table sound config
      apply Discipline.Keeps.of_ok (newTable_of_ok result)
      · exact Sound.withAtHand kept.fit (kept.answer unnamed result)
      · exact grown.withAtHand unnamed (List.getElem?_eq_none (Nat.le_refl _))
      · exact ⟨_, by rw [tables_withAtHand, present, Option.map_some]⟩

theorem openTable_keeps {process : Process} (sound : process.Sound) (config : Config) :
    discipline.Keeps (openTable config) process
      (fun id after => ∃ table, after.tables[id]? = some table) := by
  rw [openTable_eq]
  apply (startNames_keeps sound).bind
  intro _ _ _ started _
  apply (reserve_keeps started config.cacheLength Capacity.signatureBytes).bind
  intro _ _ _ reserved _
  exact newTable_keeps reserved config

theorem newTable_leaves {γ : Type} {view : Process → γ}
    (adding : ∀ process sink, view (withTable process sink) = view process)
    (entering : ∀ process id table slots,
      view (withSignature process id table slots) = view process)
    (keeping : ∀ process id unnamed, view (withAtHand process id unnamed) = view process)
    (config : Config) : (newTable config).Leaves view := by
  apply Action.Leaves.bind (fun process => adding process config.sink)
  intro id
  apply Action.Leaves.bind (Action.Leaves.each (enterUnnamed_leaves entering id) _)
  intro unnamed
  exact Action.Leaves.bind (fun process => keeping process id unnamed) (fun _ _ => rfl)

theorem openTable_leaves_global (config : Config) : (openTable config).Leaves Process.global := by
  rw [openTable_eq]
  apply Action.Leaves.bind
  · intro process
    unfold startNames
    cases process.names <;> rfl
  · intro _
    apply Action.Leaves.bind
    · intro process
      rw [reserve_still]
    · intro _
      exact newTable_leaves (fun _ _ => rfl) (fun _ _ _ _ => rfl) (fun _ _ _ => rfl) config

theorem choose_keeps {process : Process} (sound : process.Sound) {id : TableId} {table : Table}
    (present : process.tables[id]? = some table) (vacant : process.global = none) :
    discipline.Keeps
      (do
        Action.modify ({ · with global := some id })
        return id : Action Process Fault TableId)
      process (fun id after => ∃ table, after.tables[id]? = some table) := by
  have inside := (List.getElem?_eq_some_iff.mp present).1
  refine .of_ok rfl ?_ ?_ ?_
  · refine ⟨sound.pool, sound.tables, sound.apart, ?_⟩
    intro other chosen
    cases chosen
    exact inside
  · refine ⟨Interner.Grows.refl _,
      fun _ table present => ⟨table, present, Table.Extends.refl table⟩, ?_⟩
    intro other chosen
    rw [vacant] at chosen
    cases chosen
  · exact ⟨table, present⟩

theorem globalTable_keeps {process : Process} (sound : process.Sound) :
    discipline.Keeps globalTable process
      (fun id after => ∃ table, after.tables[id]? = some table) := by
  apply (Discipline.Keeps.read sound).bind
  rintro chosen _ rfl _ _
  change discipline.Keeps _ process _
  cases chosen : process.global with
  | some id =>
      have inside := sound.global id chosen
      exact Discipline.Keeps.pure sound ⟨_, List.getElem?_eq_getElem inside⟩
  | none =>
      apply (openTable_keeps sound {}).bind
      rintro id _ ⟨table, present⟩ opened _
      exact choose_keeps opened present ((openTable_leaves_global {} process).trans chosen)

theorem installGlobal_keeps {process : Process} (sound : process.Sound) (config : Config) :
    discipline.Keeps (installGlobal config) process
      (fun id after => ∃ table, after.tables[id]? = some table) := by
  apply (openTable_keeps sound config).bind
  rintro id _ ⟨table, present⟩ opened _
  apply (Discipline.Keeps.read opened).bind
  rintro chosen _ rfl _ _
  change discipline.Keeps _ (openTable config process).state _
  cases chosen : (openTable config process).state.global with
  | some other => exact Discipline.Keeps.fail opened
  | none => exact choose_keeps opened present chosen

theorem resolve_keeps {process : Process} (sound : process.Sound) (target : Target) :
    discipline.Keeps (resolve target) process (fun _ _ => True) := by
  cases target with
  | numbered id => exact Discipline.Keeps.pure sound trivial
  | global => exact (globalTable_keeps sound).mono fun _ _ _ _ _ => trivial

theorem symbol_keeps {process : Process} (sound : process.Sound) (id : TableId) (text : String) :
    discipline.Keeps (symbol id text) process
      (fun symbol after => after.pool.find? text = some symbol) := by
  apply (table_keeps sound id).bind
  intro _ _ _ fit _
  exact onPool_keeps fit (Interner.intern_keeps fit.pool text)

theorem canonical_keeps {process : Process} (sound : process.Sound) (id : TableId)
    {slots : List Slot} (known : process.pool.Knows slots) :
    discipline.Keeps (canonical id slots) process (Gives id slots) := by
  apply (table_keeps sound id).bind
  intro table _ present fit grown
  have knownStill := sound.pool.toOrderly.knows_of_grows fit.pool.toOrderly grown.pool known
  cases found : table.atHand? slots with
  | some signature =>
      have own := (fit.tables id table present).atHand? found
      exact Discipline.Keeps.pure fit ⟨⟨table, present, own.1⟩, own.2⟩
  | none => exact enter_keeps fit id knownStill

theorem canonical_of_atHand {process : Process} {id : TableId} {table : Table}
    {slots : List Slot} {signature : Signature} (present : process.tables[id]? = some table)
    (found : table.atHand? slots = some signature) :
    canonical id slots process = ⟨.ok signature, process, []⟩ := by
  rw [canonical, Action.bind_of_read (table_of_present present)]
  simp only [found]
  rfl

theorem canonical_of_not_atHand {process : Process} {id : TableId} {table : Table}
    {slots : List Slot} (present : process.tables[id]? = some table)
    (missing : table.atHand? slots = none) :
    canonical id slots process = enter id slots process := by
  rw [canonical, Action.bind_of_read (table_of_present present)]
  simp only [missing]

/-- With a table to look in, the instance for raw slots is always given. -/
theorem canonical_ok {process : Process} {id : TableId} {table : Table}
    (present : process.tables[id]? = some table) (slots : List Slot) :
    ∃ signature, (canonical id slots process).answer = .ok signature := by
  cases found : table.atHand? slots with
  | some signature => exact ⟨signature, by rw [canonical_of_atHand present found]⟩
  | none =>
      rw [canonical_of_not_atHand present found]
      exact enter_ok present slots

/-- Asked for the slots of an instance that it has, a table answers with that instance and is left
as it was. -/
theorem Sound.canonical_of_held {process : Process} (sound : process.Sound) {id : TableId}
    {signature : Signature} (held : process.HeldBy id signature) :
    canonical id signature.slots process = ⟨.ok signature, process, []⟩ := by
  obtain ⟨table, present, member⟩ := held
  have own := sound.tables id table present
  have known := (own.genuine signature member).known
  cases found : table.atHand? signature.slots with
  | some other =>
      obtain ⟨otherMember, same⟩ := own.atHand? found
      rw [canonical_of_atHand present found, own.eq_of_slots otherMember member same]
  | none =>
      rw [canonical_of_not_atHand present found]
      apply enter_of_known present
      exact (own.find?_eq_some_iff sound.pool.toOrderly known signature).mpr ⟨member, rfl⟩

theorem request_keeps {process : Process} (sound : process.Sound) (id : TableId)
    (labels : List Label) :
    discipline.Keeps (request id labels) process (Answers id labels) := by
  apply (table_keeps sound id).bind
  intro _ _ _ found _
  apply (reserve_keeps found (Capacity.roundUp labels.length) Capacity.slotBytes).bind
  intro _ _ _ fit _
  apply (onPool_keeps fit (Interner.slots_keeps fit.pool labels)).bind
  rintro slots _ ⟨own, known⟩ named _
  apply (canonical_keeps named id known).mono
  rintro signature after _ _ ⟨held, read⟩
  refine ⟨held, ?_⟩
  rw [Signature.labels, read, own]

theorem forVector_keeps {process : Process} (sound : process.Sound) (id : TableId)
    (names : Option (List String)) :
    discipline.Keeps (forVector id names) process
      (fun signature after => ∀ given, signature = some given → ∃ texts, names = some texts ∧
        Answers id (texts.map (Label.ofFilledName ∘ some)) given after) := by
  cases names with
  | none =>
      apply (table_keeps sound id).bind
      intro _ _ _ fit _
      exact Discipline.Keeps.pure fit (fun given impossible => by cases impossible)
  | some texts =>
      apply (request_keeps sound id _).bind
      intro signature _ answers fit _
      refine Discipline.Keeps.pure fit ?_
      intro given same
      cases same
      refine ⟨texts, rfl, ?_⟩
      rw [← List.map_map, ← Label.map_ofVectorName]
      exact answers

/-- The warning is given to the sink, and the sink decides whether the call goes on. -/
theorem warn_eq (id : TableId) (warning : Warning) (sink : Sink) (process : Process) :
    warn id warning sink process =
      ⟨if sink.fails warning = true then .error (.hook warning) else .ok (), process,
        [sink.notice id warning]⟩ := by
  cases sink with
  | log => rfl
  | hook fails =>
      rw [warn, Sink.fails]
      cases fails warning <;> rfl

theorem warn_keeps {process : Process} (sound : process.Sound) (id : TableId) (warning : Warning)
    (sink : Sink) : discipline.Keeps (warn id warning sink) process (fun _ _ => True) := by
  refine ⟨?_, ?_, fun _ _ => trivial⟩
  · rw [warn_eq]
    exact sound
  · rw [warn_eq]
    exact Extends.refl process

theorem unnamed_keeps {process : Process} (sound : process.Sound) (id : TableId) (arity : Nat) :
    discipline.Keeps (unnamed id arity) process
      (Gives id (List.replicate arity .positional)) := by
  apply (table_keeps sound id).bind
  intro table _ present fit _
  cases kept : table.unnamed[arity]? with
  | some signature =>
      have own := (fit.tables id table present).atHand arity signature kept
      exact Discipline.Keeps.pure fit ⟨⟨table, present, own.1⟩, own.2⟩
  | none =>
      apply (warn_keeps fit id _ table.sink).bind
      intro _ _ _ warned _
      exact enterUnnamed_keeps warned id arity

end Process

end CallShape
