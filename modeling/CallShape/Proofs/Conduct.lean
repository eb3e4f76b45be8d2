import CallShape.Proofs.Capacity
import CallShape.Proofs.Operation

set_option autoImplicit false

namespace CallShape

/-- No hook has a part in flattening. -/
theorem Spread.expand_unhooked {spread : Spread} {supplied : Signature} {reason : Fault}
    (failed : spread.expand supplied = .error reason) (warning : Warning) :
    reason ≠ .hook warning := by
  rintro rfl
  rw [expand, reserve_slots, shortage] at failed
  split at failed
  · split at failed
    · cases expanded : expandFrom supplied 0 spread.groups <;> rw [expanded] at failed <;>
        cases failed
    · split at failed <;> cases failed
  · cases failed

namespace Process

/-- Looking a table up reports nothing. -/
theorem notices_table (id : TableId) (process : Process) : (table id process).notices = [] := by
  unfold table
  split <;> rfl

/-- A property of actions that goes over to one action after another. Looking around has it, and
so has failing for any reason but a hook. -/
structure Conduct (kind : ∀ {α : Type}, Action Process Fault α → Prop) : Prop where
  pure : ∀ {α : Type} (value : α), kind (Pure.pure value : Action Process Fault α)
  bind : ∀ {α β : Type} {first : Action Process Fault α} {next : α → Action Process Fault β},
    kind first → (∀ value, kind (next value)) → kind (first >>= next)
  failing : ∀ {α : Type} {reason : Fault}, (∀ warning, reason ≠ .hook warning) →
    kind (Action.fail reason : Action Process Fault α)
  reading : ∀ {α : Type} (view : Process → α), kind (Action.read view)
  looking : ∀ id, kind (table id)

namespace Conduct

variable {kind : ∀ {α : Type}, Action Process Fault α → Prop} (conduct : Conduct kind)
include conduct

theorem reply {α β : Type} {action : Action Process Fault α} (holds : kind action)
    (wrap : α → β) : kind (action >>= fun value => Pure.pure (wrap value)) :=
  conduct.bind holds fun value => conduct.pure (wrap value)

theorem reserve (count size : Nat) : kind (reserve count size) := by
  unfold Process.reserve
  split
  · exact conduct.pure ()
  · exact conduct.failing nofun

theorem each {α β : Type} {action : α → Action Process Fault β}
    (step : ∀ item, kind (action item)) (items : List α) : kind (Action.each action items) := by
  induction items with
  | nil => exact conduct.pure []
  | cons item rest ih => exact conduct.bind (step item) fun value => conduct.reply ih (value :: ·)

theorem symbol (id : TableId) {text : String} (naming : kind (onPool (Interner.intern text))) :
    kind (symbol id text) :=
  conduct.bind (conduct.looking id) fun _ => naming

section Table

variable {id : TableId} (entering : ∀ slots, kind (enter id slots))
include entering

theorem canonical (slots : List Slot) : kind (canonical id slots) := by
  apply conduct.bind (conduct.looking id)
  intro table
  cases table.atHand? slots with
  | some signature => exact conduct.pure signature
  | none => exact entering slots

theorem request {labels : List Label} (naming : kind (onPool (Interner.slots labels))) :
    kind (request id labels) := by
  apply conduct.bind (conduct.looking id)
  intro _
  apply conduct.bind (conduct.reserve _ Capacity.slotBytes)
  intro _
  exact conduct.bind naming fun slots => conduct.canonical entering slots

theorem enterUnnamed (arity : Nat) : kind (enterUnnamed id arity) :=
  conduct.bind (conduct.reserve arity Capacity.slotBytes) fun _ => entering _

theorem forVector (naming : ∀ labels, kind (onPool (Interner.slots labels)))
    (names : Option (List String)) : kind (forVector id names) := by
  cases names with
  | none => exact conduct.reply (conduct.looking id) fun _ => none
  | some texts => exact conduct.reply (conduct.request entering (naming _)) some

theorem unnamed (warning : ∀ reported sink, kind (warn id reported sink)) (arity : Nat) :
    kind (unnamed id arity) := by
  apply conduct.bind (conduct.looking id)
  intro table
  cases table.unnamed[arity]? with
  | some signature => exact conduct.pure signature
  | none => exact conduct.bind (warning _ _) fun _ => conduct.enterUnnamed entering arity

theorem flatten (supplied : Signature) (spread : Spread) :
    kind (flatten id supplied spread) := by
  unfold Process.flatten
  cases expanded : spread.expand supplied with
  | error reason =>
      exact conduct.bind (conduct.failing (Spread.expand_unhooked expanded))
        fun slots => conduct.canonical entering slots
  | ok slots =>
      exact conduct.bind (conduct.pure slots) fun slots => conduct.canonical entering slots

end Table

theorem openTable (starting : kind startNames) (adding : ∀ sink, kind (addTable sink))
    (entering : ∀ id slots, kind (enter id slots))
    (keeping : ∀ id signatures, kind (keepAtHand id signatures)) (config : Config) :
    kind (openTable config) := by
  apply conduct.bind starting
  intro _
  apply conduct.bind (conduct.reserve config.cacheLength Capacity.signatureBytes)
  intro _
  apply conduct.bind (adding config.sink)
  intro id
  apply conduct.bind (conduct.each (conduct.enterUnnamed (entering id)) _)
  intro signatures
  exact conduct.reply (keeping id signatures) fun _ => id

section Global

variable (opening : ∀ config, kind (Process.openTable config))
  (choosing : ∀ id : TableId,
    kind (Action.modify ({ · with global := some id }) : Action Process Fault Unit))
include opening choosing

theorem globalTable : kind globalTable := by
  apply conduct.bind (conduct.reading Process.global)
  intro chosen
  cases chosen with
  | some id => exact conduct.pure id
  | none => exact conduct.bind (opening {}) fun id => conduct.reply (choosing id) fun _ => id

theorem installGlobal (config : Config) : kind (installGlobal config) := by
  apply conduct.bind (opening config)
  intro id
  apply conduct.bind (conduct.reading Process.global)
  intro chosen
  cases chosen with
  | some other => exact conduct.failing nofun
  | none => exact conduct.reply (choosing id) fun _ => id

theorem resolve (target : Target) : kind (resolve target) := by
  cases target with
  | numbered id => exact conduct.pure id
  | global => exact conduct.globalTable opening choosing

end Global

end Conduct

end Process

end CallShape
