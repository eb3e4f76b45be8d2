import CallShape.History
import CallShape.Proofs.Interning
import CallShape.Proofs.Table

set_option autoImplicit false

namespace CallShape.Process

/-- The table with this number has the instance. -/
def HeldBy (process : Process) (id : TableId) (signature : Signature) : Prop :=
  ∃ table, process.tables[id]? = some table ∧ signature ∈ table.signatures

structure Sound (process : Process) : Prop where
  pool : process.pool.Sound
  tables : ∀ (id : TableId) (table : Table), process.tables[id]? = some table →
    table.Sound process.pool process.nextSerial
  apart : ∀ id other signature otherSignature, process.HeldBy id signature →
    process.HeldBy other otherSignature → signature.serial = otherSignature.serial → id = other
  global : ∀ id, process.global = some id → id < process.tables.length

/-- Names, tables and signatures are only added, and the choice of the global table stays. -/
structure Extends (before after : Process) : Prop where
  pool : before.pool.Grows after.pool
  tables : ∀ (id : TableId) (table : Table), before.tables[id]? = some table →
    ∃ later, after.tables[id]? = some later ∧ table.Extends later
  global : ∀ id, before.global = some id → after.global = some id

theorem Extends.refl (process : Process) : process.Extends process :=
  ⟨Interner.Grows.refl _, fun _ table present => ⟨table, present, Table.Extends.refl table⟩,
    fun _ chosen => chosen⟩

theorem Extends.trans {first second third : Process} (early : first.Extends second)
    (late : second.Extends third) : first.Extends third := by
  refine ⟨early.pool.trans late.pool, ?_, ?_⟩
  · intro id table present
    obtain ⟨between, presentBetween, extended⟩ := early.tables id table present
    obtain ⟨last, presentLast, extendedAgain⟩ := late.tables id between presentBetween
    exact ⟨last, presentLast, extended.trans extendedAgain⟩
  · intro id chosen
    exact late.global id (early.global id chosen)

def discipline : Discipline Process where
  fit := Sound
  grows := Extends
  refl := Extends.refl
  trans := Extends.trans

theorem HeldBy.of_extends {before after : Process} (extended : before.Extends after)
    {id : TableId} {signature : Signature} (held : before.HeldBy id signature) :
    after.HeldBy id signature := by
  obtain ⟨table, present, member⟩ := held
  obtain ⟨later, presentLater, tableExtended⟩ := extended.tables id table present
  exact ⟨later, presentLater, tableExtended.signatures.subset member⟩

theorem HeldBy.holds {process : Process} {id : TableId} {signature : Signature}
    (held : process.HeldBy id signature) : process.Holds signature := by
  obtain ⟨table, present, member⟩ := held
  exact ⟨table, List.mem_of_getElem? present, member⟩

theorem Holds.of_extends {before after : Process} (extended : before.Extends after)
    {signature : Signature} (held : before.Holds signature) : after.Holds signature := by
  obtain ⟨table, member, inside⟩ := held
  obtain ⟨id, present⟩ := List.mem_iff_getElem?.mp member
  have heldBy : before.HeldBy id signature := ⟨table, present, inside⟩
  exact (heldBy.of_extends extended).holds

theorem Sound.genuine {process : Process} (sound : process.Sound) {signature : Signature}
    (held : process.Holds signature) : signature.Genuine process.pool := by
  obtain ⟨table, member, inside⟩ := held
  obtain ⟨id, present⟩ := List.mem_iff_getElem?.mp member
  exact (sound.tables id table present).genuine signature inside

theorem HeldBy.together {process : Process} {id : TableId} {first second : Signature}
    (firstHeld : process.HeldBy id first) (secondHeld : process.HeldBy id second) :
    ∃ table, process.tables[id]? = some table ∧ first ∈ table.signatures ∧
      second ∈ table.signatures := by
  obtain ⟨table, present, firstMember⟩ := firstHeld
  obtain ⟨other, otherPresent, secondMember⟩ := secondHeld
  rw [present] at otherPresent
  cases otherPresent
  exact ⟨table, present, firstMember, secondMember⟩

theorem Sound.eq_of_slots {process : Process} (sound : process.Sound) {id : TableId}
    {first second : Signature} (firstHeld : process.HeldBy id first)
    (secondHeld : process.HeldBy id second) (same : first.slots = second.slots) :
    first = second := by
  obtain ⟨table, present, firstMember, secondMember⟩ := firstHeld.together secondHeld
  exact (sound.tables id table present).eq_of_slots firstMember secondMember same

/-- One instance for the same slots, as long as one table is asked. -/
theorem Sound.beq_iff_slots {process : Process} (sound : process.Sound) {id : TableId}
    {first second : Signature} (firstHeld : process.HeldBy id first)
    (secondHeld : process.HeldBy id second) :
    (first == second) = true ↔ first.slots = second.slots := by
  constructor
  · intro same
    obtain ⟨table, present, firstMember, secondMember⟩ := firstHeld.together secondHeld
    have own := sound.tables id table present
    rw [own.eq_of_serial firstMember secondMember (eq_of_beq same)]
  · intro same
    rw [sound.eq_of_slots firstHeld secondHeld same]
    exact beq_self_eq_true second.serial

theorem Sound.beq_iff_labels {process : Process} (sound : process.Sound) {id : TableId}
    {first second : Signature} (firstHeld : process.HeldBy id first)
    (secondHeld : process.HeldBy id second) :
    (first == second) = true ↔ first.labels = second.labels := by
  rw [sound.beq_iff_slots firstHeld secondHeld]
  constructor
  · intro same
    rw [Signature.labels, same, Signature.labels]
  · intro same
    exact (sound.genuine firstHeld.holds).known.eq_of_labels
      (sound.genuine secondHeld.holds).known same

theorem Extends.inside {before after : Process} (extended : before.Extends after) {id : TableId}
    (inside : id < before.tables.length) : id < after.tables.length := by
  obtain ⟨later, present, -⟩ := extended.tables id _ (List.getElem?_eq_getElem inside)
  exact (List.getElem?_eq_some_iff.mp present).1

theorem new_sound : ({} : Process).Sound := by
  refine ⟨Interner.initial_sound, ?_, ?_, ?_⟩
  · intro id table present
    simp at present
  · intro id other signature otherSignature held
    obtain ⟨table, present, -⟩ := held
    simp at present
  · intro id chosen
    cases chosen

/-- The process with one signature more, under the next serial. -/
def withSignature (process : Process) (id : TableId) (table : Table) (slots : List Slot) :
    Process :=
  { process with
    tables := process.tables.set id (table.add (Signature.build process.nextSerial slots))
    nextSerial := process.nextSerial + 1 }

theorem tables_withSignature {process : Process} {id : TableId} {table : Table}
    (slots : List Slot) (present : process.tables[id]? = some table) (other : TableId) :
    (process.withSignature id table slots).tables[other]? =
      if id = other then some (table.add (Signature.build process.nextSerial slots))
      else process.tables[other]? := by
  have inside := (List.getElem?_eq_some_iff.mp present).1
  rw [withSignature, List.getElem?_set, if_pos inside]

theorem heldBy_withSignature {process : Process} {id : TableId} {table : Table}
    {slots : List Slot} (present : process.tables[id]? = some table) {other : TableId}
    {signature : Signature} (held : (process.withSignature id table slots).HeldBy other signature) :
    process.HeldBy other signature ∨
      other = id ∧ signature = Signature.build process.nextSerial slots := by
  obtain ⟨later, presentLater, member⟩ := held
  rw [tables_withSignature slots present] at presentLater
  split at presentLater
  · rename_i same
    subst same
    cases presentLater
    rcases List.mem_append.mp member with old | new
    · exact Or.inl ⟨table, present, old⟩
    · exact Or.inr ⟨rfl, List.mem_singleton.mp new⟩
  · exact Or.inl ⟨later, presentLater, member⟩

theorem Sound.serial_lt {process : Process} (sound : process.Sound) {id : TableId}
    {signature : Signature} (held : process.HeldBy id signature) :
    signature.serial < process.nextSerial := by
  obtain ⟨table, present, member⟩ := held
  exact (sound.tables id table present).below signature member

theorem extends_withSignature {process : Process} {id : TableId} {table : Table}
    (slots : List Slot) (present : process.tables[id]? = some table) :
    process.Extends (process.withSignature id table slots) := by
  refine ⟨Interner.Grows.refl _, ?_, fun _ chosen => chosen⟩
  intro other before presentBefore
  rw [tables_withSignature slots present]
  by_cases same : id = other
  · subst same
    rw [present] at presentBefore
    cases presentBefore
    exact ⟨_, if_pos rfl, Table.extends_add table _⟩
  · exact ⟨before, (if_neg same).trans presentBefore, Table.Extends.refl before⟩

theorem Sound.withSignature {process : Process} (sound : process.Sound) {id : TableId}
    {table : Table} {slots : List Slot} (present : process.tables[id]? = some table)
    (known : process.pool.Knows slots) (missing : table.find? slots = none) :
    (process.withSignature id table slots).Sound := by
  have own := sound.tables id table present
  have raised : ∀ (other : TableId) (before : Table), process.tables[other]? = some before →
      before.Sound process.pool (process.nextSerial + 1) := fun other before presentBefore =>
    (sound.tables other before presentBefore).mono sound.pool.toOrderly sound.pool.toOrderly
      (Interner.Grows.refl _) (Nat.le_succ _)
  refine ⟨sound.pool, ?_, ?_, ?_⟩
  · intro other later presentLater
    rw [tables_withSignature slots present] at presentLater
    split at presentLater
    · cases presentLater
      apply (raised id table present).add known
      · exact (own.find?_eq_none_iff sound.pool.toOrderly known).mp missing
      · exact fun signature member => Nat.ne_of_lt (own.below signature member)
      · exact Nat.lt_succ_self _
    · exact raised other later presentLater
  · intro one other signature otherSignature held otherHeld same
    rcases heldBy_withSignature present held with old | ⟨oneNew, new⟩
    · rcases heldBy_withSignature present otherHeld with otherOld | ⟨-, otherNew⟩
      · exact sound.apart one other signature otherSignature old otherOld same
      · have bound := sound.serial_lt old
        rw [same, otherNew, Signature.serial_build] at bound
        exact absurd bound (Nat.lt_irrefl _)
    · rcases heldBy_withSignature present otherHeld with otherOld | ⟨otherNew, -⟩
      · have bound := sound.serial_lt otherOld
        rw [← same, new, Signature.serial_build] at bound
        exact absurd bound (Nat.lt_irrefl _)
      · rw [oneNew, otherNew]
  · intro chosen global
    rw [Process.withSignature, List.length_set]
    exact sound.global chosen global

end CallShape.Process
