import CallShape.Proofs.Intake

set_option autoImplicit false

namespace CallShape

namespace Call

/-- The configuration of the global table that the call makes if there is none. -/
def founds? : Call → Option Config
  | .installGlobal config => if config.Fits then some config else none
  | .globalTable => some {}
  | call => if call.target? = some .global then some {} else none

theorem founds?_of_global {call : Call} (sent : call.target? = some .global) :
    call.founds? = some {} := by
  cases call with
  | openTable config => cases sent
  | installGlobal config => cases sent
  | globalTable => rfl
  | _ => exact if_pos sent

theorem founds?_of_numbered {call : Call} {id : TableId}
    (sent : call.target? = some (.numbered id)) : call.founds? = none := by
  cases call with
  | openTable config => rfl
  | installGlobal config => cases sent
  | globalTable => cases sent
  | _ => cases sent; rfl

theorem config_of_founds {call : Call} {config : Config} (founds : call.founds? = some config) :
    call.config = config ∧ config.Fits := by
  cases call with
  | openTable other => cases founds
  | installGlobal other =>
      obtain ⟨fits, same⟩ := Option.ite_none_right_eq_some.mp founds
      cases same
      exact ⟨rfl, fits⟩
  | globalTable =>
      cases founds
      exact ⟨rfl, Config.default_fits⟩
  | _ =>
      obtain ⟨-, same⟩ := Option.ite_none_right_eq_some.mp founds
      cases same
      exact ⟨rfl, Config.default_fits⟩

end Call

namespace Process

variable {process : Process}

/-- Requests leave the choice of the global table alone. -/
theorem steady_global (chosen : Option TableId) : Steady (·.global = chosen) (fun _ => True) where
  naming _ _ same := same
  entering id _ slots before same :=
    (enter_leaves (fun _ _ _ _ => rfl) id slots before).trans same

section Step

variable {call : Call} {config : Config} (sound : process.Sound)
include sound

theorem globalTable_founds (vacant : process.global = none) :
    (globalTable process).answer = .ok process.tables.length ∧
      (globalTable process).state.global = some process.tables.length := by
  have opened := (openTable_last sound Config.default_fits).1
  rw [globalTable_of_vacant vacant opened]
  exact ⟨rfl, rfl⟩

theorem installGlobal_founds (vacant : process.global = none) (fits : config.Fits) :
    (installGlobal config process).answer = .ok process.tables.length ∧
      (installGlobal config process).state.global = some process.tables.length := by
  have opened := (openTable_last sound fits).1
  rw [installGlobal_of_vacant vacant opened]
  exact ⟨rfl, rfl⟩

/-- The first call that needs the global table or installs it makes it. -/
theorem founding_step (vacant : process.global = none) (founds : call.founds? = some config) :
    (call.perform process).state.global = some process.tables.length := by
  cases sent : call.target? with
  | none =>
      cases call with
      | openTable other => cases founds
      | installGlobal other =>
          obtain ⟨fits, -⟩ := Option.ite_none_right_eq_some.mp founds
          rw [Call.perform, Action.state_reply]
          exact (installGlobal_founds sound vacant fits).2
      | globalTable =>
          rw [Call.perform, Action.state_reply]
          exact (globalTable_founds sound vacant).2
      | _ => cases sent
  | some target =>
      cases target with
      | numbered id =>
          rw [Call.founds?_of_numbered sent] at founds
          cases founds
      | global =>
          obtain ⟨settled, chosen⟩ := globalTable_founds sound vacant
          rw [Call.perform_eq_bind sent, resolve,
            Action.bind_of_ok _ _ process process.tables.length settled]
          exact (steady_global _).sentTo trivial sent _ chosen

/-- A call that neither needs nor installs the global table makes none. -/
theorem vacant_step (vacant : process.global = none) (founds : call.founds? = none) :
    (call.perform process).state.global = none := by
  cases sent : call.target? with
  | none =>
      cases call with
      | openTable other =>
          rw [Call.perform, Action.state_reply]
          exact (openTable_leaves_global other process).trans vacant
      | installGlobal other =>
          have full : ¬ other.Fits := fun fits => by
            rw [Call.founds?, if_pos fits] at founds
            cases founds
          rw [Call.perform, Action.state_reply,
            installGlobal_of_error (openTable_refused sound full)]
          exact (openTable_leaves_global other process).trans vacant
      | globalTable => cases founds
      | _ => cases sent
  | some target =>
      cases target with
      | numbered id =>
          rw [Call.perform_eq_bind sent]
          exact (steady_global none).sentTo trivial sent process vacant
      | global =>
          rw [Call.founds?_of_global sent] at founds
          cases founds

/-- The call that makes the global table is the first to be sent there, or answers with it. -/
theorem founding_settles (vacant : process.global = none) (founds : call.founds? = some config) :
    (call.target? = none → (call.perform process).answer = .ok (.table process.tables.length)) ∧
      (call.target? = some .global → call.tableId? process = some process.tables.length) := by
  refine ⟨?_, fun sent => Call.tableId?_of_settled sent (globalTable_founds sound vacant).1⟩
  intro sent
  cases call with
  | openTable other => cases founds
  | installGlobal other =>
      obtain ⟨fits, -⟩ := Option.ite_none_right_eq_some.mp founds
      rw [Call.perform, Action.bind_of_ok _ _ process _ (installGlobal_founds sound vacant fits).1]
      rfl
  | globalTable =>
      rw [Call.perform, Action.bind_of_ok _ _ process _ (globalTable_founds sound vacant).1]
      rfl
  | _ => cases sent

theorem installGlobal_answer (config : Config) :
    ((Call.installGlobal config).perform process).answer =
      if config.Fits then
        match process.global with
        | none => .ok (.table process.tables.length)
        | some _ => .error (.signature .globalInstalled)
      else .error .capacity := by
  by_cases fits : config.Fits
  · have opened := (openTable_last sound fits).1
    rw [if_pos fits, Call.perform]
    cases chosen : process.global with
    | none =>
        have installed := installGlobal_of_vacant chosen opened
        rw [Action.bind_of_ok _ _ process process.tables.length (by rw [installed])]
        rfl
    | some id =>
        have refused := installGlobal_of_chosen chosen opened
        rw [Action.bind_of_error _ _ process _ (congrArg Outcome.answer refused)]
  · have refused := openTable_refused sound fits
    rw [if_neg fits, Call.perform,
      Action.bind_of_error _ _ process _ (congrArg Outcome.answer (installGlobal_of_error refused))]

end Step

/-- An installation that is refused leaves the names, the choice and every table as they are. -/
theorem install_refused {config : Config} {reason : Fault}
    (refused : ((Call.installGlobal config).perform process).answer = .error reason) :
    ((Call.installGlobal config).perform process).state.names = some process.pool ∧
      ((Call.installGlobal config).perform process).state.global = process.global ∧
      ∀ other table, process.TableIs other table →
        ((Call.installGlobal config).perform process).state.TableIs other table := by
  rw [Call.perform, Action.state_reply,
    state_installGlobal_of_refused (Action.error_of_reply refused)]
  exact ⟨names_openTable config process, openTable_leaves_global config process,
    fun other table => openTable_spares config process⟩

/-- With a global table chosen, calls that need it go there at once. -/
theorem perform_of_chosen {call : Call} {id : TableId} (chosen : process.global = some id) :
    (call = .globalTable → call.perform process = ⟨.ok (.table id), process, []⟩) ∧
      (call.target? = some .global → call.perform process = (call.sentTo id).perform process) := by
  have read := globalTable_of_chosen chosen
  refine ⟨?_, ?_⟩
  · rintro rfl
    rw [Call.perform, Action.bind_of_read read]
    rfl
  · intro sent
    rw [Call.perform_eq_bind sent, resolve, Action.bind_of_read read]

section Run

/-- Before call number `index` of a run, a call has needed the global table or installed it. -/
def Founded (calls : List Call) (index : Nat) : Prop :=
  ∃ earlier call, earlier < index ∧ calls[earlier]? = some call ∧ call.founds? ≠ none

/-- Call number `index` of a run was answered in this way. -/
def Answered (calls : List Call) (index : Nat) (call : Call) (answer : Except Fault Reply) : Prop :=
  calls[index]? = some call ∧ (call.perform (stateAt calls index)).answer = answer

/-- The global table is this one, with this configuration. -/
def Serves (process : Process) (id : TableId) (config : Config) : Prop :=
  process.global = some id ∧ ∃ table, process.tables[id]? = some table ∧
    table.unnamed.length = config.cacheLength ∧ table.sink = config.sink

variable {calls : List Call}

theorem not_founded_zero (calls : List Call) : ¬ Founded calls 0 := by
  rintro ⟨earlier, -, before, -⟩
  exact absurd before (Nat.not_lt_zero earlier)

theorem founded_succ (calls : List Call) (index : Nat) : Founded calls (index + 1) ↔
    Founded calls index ∨ ∃ call, calls[index]? = some call ∧ call.founds? ≠ none := by
  constructor
  · rintro ⟨earlier, call, before, made, founds⟩
    rcases Nat.lt_succ_iff_lt_or_eq.mp before with older | rfl
    · exact Or.inl ⟨earlier, call, older, made, founds⟩
    · exact Or.inr ⟨call, made, founds⟩
  · rintro (⟨earlier, call, before, made, founds⟩ | ⟨call, made, founds⟩)
    · exact ⟨earlier, call, Nat.lt_succ_of_lt before, made, founds⟩
    · exact ⟨index, call, Nat.lt_succ_self index, made, founds⟩

variable (admissible : Admissible calls {})
include admissible

/-- There is a global table exactly if some call has needed or installed one. -/
theorem global_iff_founded (index : Nat) :
    (stateAt calls index).global ≠ none ↔ Founded calls index := by
  induction index with
  | zero =>
      constructor
      · exact fun chosen => absurd rfl chosen
      · exact fun founded => absurd founded (not_founded_zero calls)
  | succ index ih =>
      rw [founded_succ, ← ih]
      cases made : calls[index]? with
      | none =>
          rw [stateAt, List.take_add_one, made, Option.toList_none, List.append_nil, ← stateAt]
          simp only [reduceCtorEq, false_and, exists_false, or_false]
      | some call =>
          have sound := stateAt_sound admissible index
          rw [stateAt_succ made]
          cases chosen : (stateAt calls index).global with
          | some id =>
              have kept := Call.perform_keeps sound (admissible_at admissible made)
              rw [kept.grown.global id chosen]
              simp only [ne_eq, reduceCtorEq, not_false_eq_true, true_or]
          | none =>
              cases founds : call.founds? with
              | none =>
                  rw [vacant_step sound chosen founds]
                  simp [founds]
              | some config =>
                  rw [founding_step sound chosen founds]
                  simp [founds]

theorem vacant_of_not_founded {index : Nat} (unfounded : ¬ Founded calls index) :
    (stateAt calls index).global = none :=
  Classical.not_not.mp (mt (global_iff_founded admissible index).mp unfounded)

/-- An installation succeeds, comes too late or lacks room. -/
theorem install_answered {index : Nat} {config : Config}
    (made : calls[index]? = some (.installGlobal config)) :
    ((∃ id, Answered calls index (.installGlobal config) (.ok (.table id))) ↔
        config.Fits ∧ ¬ Founded calls index) ∧
      (Answered calls index (.installGlobal config) (.error (.signature .globalInstalled)) ↔
        config.Fits ∧ Founded calls index) ∧
      (Answered calls index (.installGlobal config) (.error .capacity) ↔ ¬ config.Fits) := by
  have answer := installGlobal_answer (stateAt_sound admissible index) config
  simp only [Answered, made, true_and]
  rw [answer, ← global_iff_founded admissible index]
  by_cases fits : config.Fits
  · cases chosen : (stateAt calls index).global with
    | none => simp [fits]
    | some id => simp [fits]
  · simp [fits]

theorem Answered.unique {first second : Nat} {config other : Config} {id another : TableId}
    (one : Answered calls first (.installGlobal config) (.ok (.table id)))
    (two : Answered calls second (.installGlobal other) (.ok (.table another))) :
    ¬ first < second := by
  intro before
  obtain ⟨fits, -⟩ := (install_answered admissible one.1).1.mp ⟨id, one⟩
  obtain ⟨-, unfounded⟩ := (install_answered admissible two.1).1.mp ⟨another, two⟩
  apply unfounded
  refine ⟨first, _, before, one.1, ?_⟩
  rw [Call.founds?, if_pos fits]
  exact Option.some_ne_none config

/-- The table that the first call makes serves from then on. -/
theorem serves_of_founds {first : Nat} {call : Call} {config : Config}
    (made : calls[first]? = some call) (founds : call.founds? = some config)
    (unfounded : ¬ Founded calls first) {later : Nat} (after : first < later) :
    (stateAt calls later).Serves (stateAt calls first).tables.length config := by
  have sound := stateAt_sound admissible first
  have here := admissible_at admissible made
  have chosen := founding_step sound (vacant_of_not_founded admissible unfounded) founds
  obtain ⟨rfl, fits⟩ := Call.config_of_founds founds
  have kept := Call.perform_keeps sound here
  obtain ⟨table, present, outlined⟩ :=
    making_outlines sound here fits (Nat.le_refl _) (Sound.global kept.fit _ chosen)
  obtain ⟨atHand, sink⟩ := Outline.settings_opened call.config
    (call.request? (stateAt calls first).tables.length (stateAt calls first)).toList
  rw [← outlined] at atHand sink
  have extended := stateAt_mono admissible (Nat.succ_le_of_lt after)
  rw [stateAt_succ made] at extended
  obtain ⟨now, presentNow, grown⟩ := extended.tables _ table present
  refine ⟨extended.global _ chosen, now, presentNow, ?_, ?_⟩
  · rw [grown.unnamed]
    exact atHand
  · rw [grown.sink]
    exact sink

/-- What a table has answered with stays its instance for these slots. -/
theorem Returned.canonical_later {earlier later : Nat} {id : TableId} {call : Call}
    {signature : Signature} (returned : Returned calls earlier id call signature)
    (before : earlier < later) :
    canonical id signature.slots (stateAt calls later) =
      ⟨.ok signature, stateAt calls later, []⟩ := by
  have same : stateAt (calls.take later) earlier = stateAt calls earlier := by
    rw [stateAt, List.take_take, Nat.min_eq_left (Nat.le_of_lt before), stateAt]
  have returnedThere : Returned (calls.take later) earlier id call signature := by
    refine ⟨?_, ?_, ?_⟩
    · rw [List.getElem?_take_of_lt before]
      exact returned.made
    · rw [same]
      exact returned.sent
    · rw [same]
      exact returned.answer
  obtain ⟨-, -, held, -⟩ := returnedThere.answers (admissible_take admissible later)
  exact (stateAt_sound admissible later).canonical_of_held held

end Run

/-- Over every run: an installation succeeds exactly if there is room and no call has needed or
installed the global table before; so at most one does. The first call that needs or installs it
settles which table it is and how it is configured, and all later ones are sent there. An
installation that comes too late or lacks room leaves the names, the choice and every table as they
are, and every signature that was given out stays the instance for its slots. -/
theorem global_installed_once (calls : List Call) (admissible : Admissible calls {}) :
    (∀ index, (stateAt calls index).global ≠ none ↔ Founded calls index) ∧
    (∀ index config, calls[index]? = some (.installGlobal config) →
      ((∃ id, Answered calls index (.installGlobal config) (.ok (.table id))) ↔
          config.Fits ∧ ¬ Founded calls index) ∧
        (Answered calls index (.installGlobal config) (.error (.signature .globalInstalled)) ↔
          config.Fits ∧ Founded calls index) ∧
        (Answered calls index (.installGlobal config) (.error .capacity) ↔ ¬ config.Fits)) ∧
    (∀ first second config other id another,
      Answered calls first (.installGlobal config) (.ok (.table id)) →
      Answered calls second (.installGlobal other) (.ok (.table another)) → first = second) ∧
    (∀ first call config, calls[first]? = some call → call.founds? = some config →
      ¬ Founded calls first → ∃ id,
        (call.target? = none → Answered calls first call (.ok (.table id))) ∧
        (call.target? = some .global → call.tableId? (stateAt calls first) = some id) ∧
        ∀ later, first < later → (stateAt calls later).Serves id config ∧
          ∀ use, calls[later]? = some use →
            (use = .globalTable →
              use.perform (stateAt calls later) = ⟨.ok (.table id), stateAt calls later, []⟩) ∧
            (use.target? = some .global → use.perform (stateAt calls later) =
              (use.sentTo id).perform (stateAt calls later))) ∧
    (∀ index config,
      Answered calls index (.installGlobal config) (.error (.signature .globalInstalled)) →
        (stateAt calls (index + 1)).names = (stateAt calls index).names ∧
        (stateAt calls (index + 1)).global = (stateAt calls index).global ∧
        (∀ id table, (stateAt calls index).TableIs id table →
          (stateAt calls (index + 1)).TableIs id table) ∧
        ∀ earlier id call signature, earlier < index → Returned calls earlier id call signature →
          canonical id signature.slots (stateAt calls (index + 1)) =
            ⟨.ok signature, stateAt calls (index + 1), []⟩) ∧
    (∀ index config, Answered calls index (.installGlobal config) (.error .capacity) →
      (stateAt calls (index + 1)).pool = (stateAt calls index).pool ∧
        (stateAt calls (index + 1)).global = (stateAt calls index).global ∧
        (∀ id table, (stateAt calls index).TableIs id table →
          (stateAt calls (index + 1)).TableIs id table) ∧
        ∀ earlier id call signature, earlier < index → Returned calls earlier id call signature →
          canonical id signature.slots (stateAt calls (index + 1)) =
            ⟨.ok signature, stateAt calls (index + 1), []⟩) := by
  refine ⟨global_iff_founded admissible, fun index config => install_answered admissible,
    ?_, ?_, ?_, ?_⟩
  · intro first second config other id another one two
    exact Nat.le_antisymm (Nat.le_of_not_lt (two.unique admissible one))
      (Nat.le_of_not_lt (one.unique admissible two))
  · intro first call config made founds unfounded
    have vacant := vacant_of_not_founded admissible unfounded
    obtain ⟨answer, sent⟩ := founding_settles (stateAt_sound admissible first) vacant founds
    refine ⟨_, fun untargeted => ⟨made, answer untargeted⟩, sent, ?_⟩
    intro later after
    have serves := serves_of_founds admissible made founds unfounded after
    exact ⟨serves, fun use _ => perform_of_chosen serves.1⟩
  · intro index config refused
    obtain ⟨-, founded⟩ := (install_answered admissible refused.1).2.1.mp refused
    obtain ⟨id, chosen⟩ :=
      Option.ne_none_iff_exists'.mp ((global_iff_founded admissible index).mpr founded)
    have present := List.getElem?_eq_getElem ((stateAt_sound admissible index).global id chosen)
    obtain ⟨names, global, tables⟩ := install_refused refused.2
    rw [← stateAt_succ refused.1] at names global tables
    refine ⟨?_, global, tables, fun earlier id call signature before returned =>
      returned.canonical_later admissible (Nat.lt_succ_of_lt before)⟩
    rw [names, (stateAt_started calls index).names_eq present]
  · intro index config refused
    obtain ⟨names, global, tables⟩ := install_refused refused.2
    rw [← stateAt_succ refused.1] at names global tables
    refine ⟨?_, global, tables, fun earlier id call signature before returned =>
      returned.canonical_later admissible (Nat.lt_succ_of_lt before)⟩
    rw [pool, names, Option.getD_some]

/-- A table is installed, used and asked to be installed again; private tables are in between. -/
def installedTwice : List Call :=
  [.openTable { cacheLength := 1 }, .installGlobal (.attended 2),
    .forNames .global [some "a"], .forNames (.numbered 0) [some "a", none],
    .installGlobal { cacheLength := 3 }, .globalTable]

theorem global_installed_once_asked_again :
    Admissible installedTwice {} ∧
      (∃ id, Answered installedTwice 1 (.installGlobal (.attended 2)) (.ok (.table id))) ∧
      Answered installedTwice 4 (.installGlobal { cacheLength := 3 })
        (.error (.signature .globalInstalled)) ∧
      (stateAt installedTwice 6).Serves 1 (.attended 2) ∧
      (stateAt installedTwice 5).names = (stateAt installedTwice 4).names ∧
      ∃ signature, Returned installedTwice 2 1 (.forNames .global [some "a"]) signature ∧
        canonical 1 signature.slots (stateAt installedTwice 5) =
          ⟨.ok signature, stateAt installedTwice 5, []⟩ := by
  have admissible : Admissible installedTwice {} :=
    ⟨trivial, trivial, trivial, trivial, trivial, trivial, trivial⟩
  have returned : Returned installedTwice 2 1 _ _ := ⟨rfl, rfl, rfl⟩
  have answered : Answered installedTwice 1 (.installGlobal (.attended 2)) (.ok (.table 1)) :=
    ⟨rfl, rfl⟩
  have refused : Answered installedTwice 4 (.installGlobal { cacheLength := 3 })
      (.error (.signature .globalInstalled)) := ⟨rfl, rfl⟩
  obtain ⟨-, answers, -, founding, late, -⟩ := global_installed_once installedTwice admissible
  obtain ⟨-, unfounded⟩ := (answers 1 _ rfl).1.mp ⟨1, answered⟩
  obtain ⟨id, own, -, serves⟩ := founding 1 _ _ rfl rfl unfounded
  have same : id = 1 := by
    have twice := (own rfl).2.symm.trans answered.2
    cases twice
    rfl
  obtain ⟨names, -, -, canonical⟩ := late 4 _ refused
  exact ⟨admissible, ⟨1, answered⟩, refused, same ▸ (serves 6 (by decide)).1, names, _, returned,
    canonical 2 1 _ _ (by decide) returned⟩

/-- An installation can fail although no call has made a global table before. -/
theorem global_not_installed_without_room :
    ¬ ∀ calls : List Call, Admissible calls {} → ∀ index config,
      calls[index]? = some (.installGlobal config) →
        ((∃ id, Answered calls index (.installGlobal config) (.ok (.table id))) ↔
          ¬ Founded calls index) := by
  intro installs
  have answer := installGlobal_answer new_sound { cacheLength := 2 ^ 64 - 1 }
  rw [if_neg (by decide)] at answer
  obtain ⟨id, -, answered⟩ := (installs [.installGlobal { cacheLength := 2 ^ 64 - 1 }]
    ⟨trivial, trivial⟩ 0 _ rfl).mpr (not_founded_zero _)
  have twice := answer.symm.trans answered
  cases twice

end Process

end CallShape
