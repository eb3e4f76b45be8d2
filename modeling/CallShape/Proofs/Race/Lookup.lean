import CallShape.Proofs.Race.Interning
import CallShape.Proofs.Race.Schedule
import CallShape.Proofs.Table
import CallShape.Race.Lookup

/-!
A step leaves the table as it is, or adds the candidate that the request itself has built; what
another request has come to stays true, because no two candidates have the same serial.
-/

set_option autoImplicit false

namespace CallShape.Race.Lookup

namespace Shared

structure Sound (shared : Shared) : Prop where
  pool : shared.pool.Orderly
  table : shared.table.Sound shared.pool shared.nextSerial

/-- Names, signatures and serials are only added. -/
structure Extends (before after : Shared) : Prop where
  pool : before.pool.Grows after.pool
  table : before.table.Extends after.table
  serials : before.nextSerial ≤ after.nextSerial

theorem Extends.refl (shared : Shared) : shared.Extends shared :=
  ⟨Interner.Grows.refl _, Table.Extends.refl _, Nat.le_refl _⟩

theorem Extends.trans {first second third : Shared} (early : first.Extends second)
    (late : second.Extends third) : first.Extends third :=
  ⟨early.pool.trans late.pool, early.table.trans late.table, early.serials.trans late.serials⟩

end Shared

/-- These slots stand for these labels. -/
def Resolves (pool : Interner) (slots : List Slot) (labels : List Label) : Prop :=
  pool.Knows slots ∧ slots.map Slot.label = labels

/-- The table has the instance, and it has these labels. -/
def Settled (table : Table) (labels : List Label) (signature : Signature) : Prop :=
  signature ∈ table.signatures ∧ signature.labels = labels

/-- A candidate for these slots whose serial is its own. -/
structure Fresh (shared : Shared) (slots : List Slot) (candidate : Signature) : Prop where
  built : candidate = Signature.build candidate.serial slots
  low : candidate.serial < shared.nextSerial
  free : ∀ signature ∈ shared.table.signatures, signature.serial ≠ candidate.serial

/-- The task is a request for these labels, and what it has come to is right. -/
def Tracks (shared : Shared) (labels : List Label) : Lookup → Prop
  | .naming ready none rest =>
      shared.pool.Knows ready ∧ ready.map Slot.label ++ rest = labels
  | .naming ready (some task) rest =>
      shared.pool.Knows ready ∧ ∃ text, task.Tracks shared.pool text ∧
        ready.map Slot.label ++ .named text :: rest = labels
  | .searching slots => Resolves shared.pool slots labels
  | .building slots => Resolves shared.pool slots labels
  | .publishing slots candidate =>
      Resolves shared.pool slots labels ∧ Fresh shared slots candidate
  | .finished (.ok signature) => Settled shared.table labels signature
  | .finished (.error _) => True

/-- The serial of a candidate that is built but not published. -/
def pending? : Lookup → Option Nat
  | .publishing _ candidate => some candidate.serial
  | _ => none

/-- What a step of a task can do to the shared state. -/
structure Effect (task : Lookup) (before after : Shared) : Prop extends before.Extends after where
  published : after.table = before.table ∨
    ∃ candidate, after.table = before.table.add candidate ∧
      task.pending? = some candidate.serial

theorem Resolves.of_grows {before after : Interner} {slots : List Slot} {labels : List Label}
    (resolves : Resolves before slots labels) (early : before.Orderly) (late : after.Orderly)
    (grown : before.Grows after) : Resolves after slots labels :=
  ⟨early.knows_of_grows late grown resolves.1, resolves.2⟩

theorem Settled.of_extends {before after : Table} {labels : List Label} {signature : Signature}
    (settled : Settled before labels signature) (extended : before.Extends after) :
    Settled after labels signature :=
  ⟨extended.signatures.subset settled.1, settled.2⟩

theorem Fresh.of_effect {before after : Shared} {task : Lookup} {slots : List Slot}
    {candidate : Signature} (fresh : Fresh before slots candidate)
    (effect : task.Effect before after) (apart : task.pending? ≠ some candidate.serial) :
    Fresh after slots candidate := by
  refine ⟨fresh.built, Nat.lt_of_lt_of_le fresh.low effect.serials, ?_⟩
  intro signature member
  rcases effect.published with same | added
  · rw [same] at member
    exact fresh.free signature member
  · obtain ⟨published, table, own⟩ := added
    rw [table] at member
    rcases List.mem_append.mp member with old | new
    · exact fresh.free signature old
    -- The other request has published its own candidate, which has another serial.
    · rw [List.mem_singleton.mp new]
      intro equal
      rw [own, equal] at apart
      exact apart rfl

/-- A step of one request leaves another one on its way. -/
theorem Tracks.of_effect {before after : Shared} {task other : Lookup} {labels : List Label}
    (tracks : other.Tracks before labels) (early : before.Sound) (late : after.Sound)
    (effect : task.Effect before after)
    (apart : ∀ serial, task.pending? = some serial → other.pending? ≠ some serial) :
    other.Tracks after labels := by
  cases other with
  | naming ready current rest =>
      cases current with
      | none =>
          obtain ⟨known, complete⟩ := tracks
          exact ⟨early.pool.knows_of_grows late.pool effect.pool known, complete⟩
      | some inner =>
          obtain ⟨known, text, inside, complete⟩ := tracks
          exact ⟨early.pool.knows_of_grows late.pool effect.pool known, text,
            inside.of_grows early.pool late.pool effect.pool, complete⟩
  | searching slots => exact Resolves.of_grows tracks early.pool late.pool effect.pool
  | building slots => exact Resolves.of_grows tracks early.pool late.pool effect.pool
  | publishing slots candidate =>
      obtain ⟨resolves, fresh⟩ := tracks
      refine ⟨resolves.of_grows early.pool late.pool effect.pool, fresh.of_effect effect ?_⟩
      intro own
      exact apart candidate.serial own rfl
  | finished result =>
      cases result with
      | error reason => trivial
      | ok signature => exact Settled.of_extends tracks effect.table

/-- What a step of a request for these labels brings about. -/
structure Progress (task : Lookup) (labels : List Label) (before : Shared)
    (next : Shared × Lookup) : Prop where
  sound : next.1.Sound
  effect : task.Effect before next.1
  tracks : next.2.Tracks next.1 labels
  pending : ∀ serial, next.2.pending? = some serial → serial = before.nextSerial
  origin : ∀ signature ∈ next.1.table.signatures,
    signature ∈ before.table.signatures ∨ signature.labels = labels

section Progress

variable {shared : Shared} {labels : List Label}

/-- A step that only moves the request on. -/
theorem Progress.of_same {task next : Lookup} (sound : shared.Sound)
    (tracks : next.Tracks shared labels) (unbuilt : next.pending? = none) :
    Progress task labels shared (shared, next) := by
  refine ⟨sound, ⟨Shared.Extends.refl shared, Or.inl rfl⟩, tracks, ?_,
    fun _ member => Or.inl member⟩
  intro serial pending
  rw [unbuilt] at pending
  cases pending

/-- The names are interned one by one, from left to right. -/
theorem naming_progress (id : TableId) (sound : shared.Sound) {ready : List Slot}
    {rest : List Label} (tracks : (naming ready none rest).Tracks shared labels) :
    Progress (naming ready none rest) labels shared
      ((naming ready none rest).advance id shared) := by
  obtain ⟨known, complete⟩ := tracks
  cases rest with
  | nil =>
      rw [List.append_nil] at complete
      cases found : shared.table.atHand? ready with
      | none =>
          simp only [advance, found]
          exact Progress.of_same sound ⟨known, complete⟩ rfl
      | some signature =>
          simp only [advance, found]
          have ⟨member, own⟩ := sound.table.atHand? found
          refine Progress.of_same sound ⟨member, ?_⟩ rfl
          rw [Signature.labels, own, complete]
  | cons label rest =>
      have step : ∀ slot : Slot, slot.label = label → shared.pool.Knows [slot] →
          (naming (ready ++ [slot]) none rest).Tracks shared labels := by
        intro slot same slotKnown
        refine ⟨known.append slotKnown, ?_⟩
        rw [List.map_append, List.append_assoc, List.map_singleton, same]
        exact complete
      cases label with
      | named text => exact Progress.of_same sound ⟨known, text, rfl, complete⟩ rfl
      | positional =>
          exact Progress.of_same sound (step .positional rfl (by simp [Interner.Knows])) rfl
      | unmatched =>
          exact Progress.of_same sound (step .unmatched rfl (by simp [Interner.Knows])) rfl

theorem interning_progress (id : TableId) (sound : shared.Sound) {ready : List Slot}
    {task : Interning} {rest : List Label}
    (tracks : (naming ready (some task) rest).Tracks shared labels) :
    Progress (naming ready (some task) rest) labels shared
      ((naming ready (some task) rest).advance id shared) := by
  obtain ⟨known, text, inside, complete⟩ := tracks
  cases result : task.result? with
  | none =>
      obtain ⟨orderly, grown, later⟩ := Interning.advance_keeps sound.pool inside
      simp only [advance, result]
      refine ⟨⟨orderly, ?_⟩, ⟨⟨grown, Table.Extends.refl _, Nat.le_refl _⟩, Or.inl rfl⟩, ?_, ?_,
        fun _ member => Or.inl member⟩
      · exact sound.table.mono sound.pool orderly grown (Nat.le_refl _)
      · exact ⟨sound.pool.knows_of_grows orderly grown known, text, later, complete⟩
      · intro serial pending
        cases pending
  | some result =>
      cases task with
      | asked own => cases result
      | missed own => cases result
      | inserted symbol => cases result
      | finished own =>
          cases own with
          | error reason => exact Progress.of_same sound trivial rfl
          | ok symbol =>
              have same := Interner.find?_text inside
              refine Progress.of_same sound ⟨known.append ?_, ?_⟩ rfl
              · intro other member
                cases List.mem_singleton.mp member
                rw [same]
                exact inside
              · rw [List.map_append, List.append_assoc, List.map_singleton, Slot.label, same]
                exact complete

/-- What is found under the slots of a request is what it asked for. -/
theorem settled_of_found (sound : shared.Sound) {slots : List Slot}
    (resolves : Resolves shared.pool slots labels) {signature : Signature}
    (found : shared.table.find? slots = some signature) :
    Settled shared.table labels signature := by
  have ⟨member, own⟩ :=
    (sound.table.find?_eq_some_iff sound.pool resolves.1 signature).mp found
  refine ⟨member, ?_⟩
  rw [Signature.labels, own, resolves.2]

theorem searching_progress (id : TableId) (sound : shared.Sound) {slots : List Slot}
    (tracks : (searching slots).Tracks shared labels) :
    Progress (searching slots) labels shared ((searching slots).advance id shared) := by
  cases found : shared.table.find? slots with
  | none =>
      simp only [advance, found]
      exact Progress.of_same sound tracks rfl
  | some signature =>
      simp only [advance, found]
      exact Progress.of_same sound (settled_of_found sound tracks found) rfl

/-- A candidate takes a serial that no instance and no other candidate has. -/
theorem building_progress (id : TableId) (sound : shared.Sound) {slots : List Slot}
    (tracks : (building slots).Tracks shared labels) :
    Progress (building slots) labels shared ((building slots).advance id shared) := by
  refine ⟨⟨sound.pool, ?_⟩, ⟨⟨Interner.Grows.refl _, Table.Extends.refl _, Nat.le_succ _⟩,
    Or.inl rfl⟩, ⟨tracks, ?_⟩, ?_, fun _ member => Or.inl member⟩
  · exact sound.table.mono sound.pool sound.pool (Interner.Grows.refl _) (Nat.le_succ _)
  · refine ⟨rfl, Nat.lt_succ_self _, ?_⟩
    intro signature member
    exact Nat.ne_of_lt (sound.table.below signature member)
  · intro serial pending
    exact (Option.some.inj pending).symm

/-- Whoever comes first adds the candidate; the others get what is there. -/
theorem publishing_progress (id : TableId) (sound : shared.Sound) {slots : List Slot}
    {candidate : Signature} (tracks : (publishing slots candidate).Tracks shared labels) :
    Progress (publishing slots candidate) labels shared
      ((publishing slots candidate).advance id shared) := by
  obtain ⟨resolves, fresh⟩ := tracks
  cases found : shared.table.find? slots with
  | some signature =>
      simp only [advance, Table.publish_of_known found]
      exact Progress.of_same sound (settled_of_found sound resolves found) rfl
  | none =>
      have absent := (sound.table.find?_eq_none_iff sound.pool resolves.1).mp found
      have own : candidate.labels = labels := by
        rw [Signature.labels, fresh.built, Signature.slots_build, resolves.2]
      simp only [advance, Table.publish_of_missing found]
      refine ⟨⟨sound.pool, ?_⟩, ⟨⟨Interner.Grows.refl _, Table.extends_add _ _, Nat.le_refl _⟩,
        Or.inr ⟨candidate, rfl, rfl⟩⟩, ⟨?_, own⟩, ?_, ?_⟩
      · show (shared.table.add candidate).Sound shared.pool shared.nextSerial
        rw [fresh.built]
        exact sound.table.add resolves.1 absent fresh.free fresh.low
      · exact List.mem_append_right _ (List.mem_singleton_self candidate)
      · intro serial pending
        cases pending
      · intro signature member
        rcases List.mem_append.mp member with old | new
        · exact Or.inl old
        · rw [List.mem_singleton.mp new]
          exact Or.inr own

theorem advance_progress (id : TableId) {task : Lookup} (sound : shared.Sound)
    (tracks : task.Tracks shared labels) (unfinished : task.result? = none) :
    Progress task labels shared (task.advance id shared) := by
  cases task with
  | naming ready current rest =>
      cases current with
      | none => exact naming_progress id sound tracks
      | some inner => exact interning_progress id sound tracks
  | searching slots => exact searching_progress id sound tracks
  | building slots => exact building_progress id sound tracks
  | publishing slots candidate => exact publishing_progress id sound tracks
  | finished result => cases unfinished

end Progress

theorem Tracks.pending_lt {shared : Shared} {task : Lookup} {labels : List Label}
    (tracks : task.Tracks shared labels) {serial : Nat} (pending : task.pending? = some serial) :
    serial < shared.nextSerial := by
  cases task with
  | publishing slots candidate =>
      cases pending
      exact tracks.2.low
  | naming ready current rest => cases pending
  | searching slots => cases pending
  | building slots => cases pending
  | finished result => cases pending

theorem eq_finished {task : Lookup} {result : Except InternError Signature}
    (finished : task.result? = some result) : task = .finished result := by
  cases task with
  | finished own => exact congrArg Lookup.finished (Option.some.inj finished)
  | naming ready current rest => cases finished
  | searching slots => cases finished
  | building slots => cases finished
  | publishing slots candidate => cases finished

abbrev Names := List (Option String)

/-- Requests for these lists of names, made of a table that once was `start`. -/
def protocol (start : Table) (requests : List (List Names)) :
    Protocol Shared Names Lookup (Except InternError Signature) where
  fit shared := shared.Sound ∧ ∀ signature ∈ shared.table.signatures,
    signature ∈ start.signatures ∨
      ∃ names ∈ requests.flatten, signature.labels = names.map Label.ofName
  grows := Shared.Extends
  refl := Shared.Extends.refl
  trans := Shared.Extends.trans
  asked names := names ∈ requests.flatten
  underway shared names task :=
    names ∈ requests.flatten ∧ task.Tracks shared (names.map Label.ofName)
  completed shared names result := ∀ signature, result = .ok signature →
    Settled shared.table (names.map Label.ofName) signature
  apart first second := ∀ serial, first.pending? = some serial → second.pending? ≠ some serial
  clear _ _ := true

theorem protocol_lawful (id : TableId) (start : Table) (requests : List (List Names)) :
    (protocol start requests).Lawful (machine id) where
  symmetric := by
    intro first second apart serial pending otherPending
    exact apart serial otherPending pending
  enter := by
    intro shared names asked
    refine ⟨asked, ?_, rfl⟩
    intro symbol member
    cases member
  enterApart := by
    intro names other serial pending
    cases pending
  finish := by
    intro shared names task result underway finished signature success
    rw [eq_finished finished, success] at underway
    exact underway.2
  lasting := by
    intro before after names result _ _ grown completed signature success
    exact (completed signature success).of_extends grown.table
  advance := by
    intro shared names task fit underway _ unfinished
    have progress := advance_progress id fit.1 underway.2 unfinished
    refine ⟨⟨progress.sound, ?_⟩, progress.effect.toExtends, underway.1, progress.tracks⟩
    intro signature member
    rcases progress.origin signature member with old | own
    · exact fit.2 signature old
    · exact Or.inr ⟨names, underway.1, own⟩
  others := by
    intro shared names task otherNames other fit underway unfinished otherUnderway apart
    have progress := advance_progress id fit.1 underway.2 unfinished
    refine ⟨⟨otherUnderway.1, otherUnderway.2.of_effect fit.1 progress.sound progress.effect apart⟩,
      ?_⟩
    intro serial pending otherPending
    have low := otherUnderway.2.pending_lt otherPending
    rw [progress.pending serial pending] at low
    exact Nat.lt_irrefl _ low

/-- Whether the next step does not meet a full shard. -/
def hasRoom (shared : Shared) : Lookup → Bool
  | .naming _ (some task) _ => task.hasRoom shared.pool
  | _ => true

def hasFailed : Lookup → Bool
  | .naming _ (some task) _ => task.hasFailed
  | .finished (.error _) => true
  | _ => false

/-- Only a full shard makes a request fail. -/
theorem hasFailed_advance (id : TableId) {shared : Shared} {task : Lookup}
    (room : task.hasRoom shared = true) (well : task.hasFailed = false) :
    (task.advance id shared).2.hasFailed = false := by
  cases task with
  | naming ready current rest =>
      cases current with
      | some inner =>
          cases inner with
          | finished result =>
              cases result with
              | ok symbol => rfl
              | error reason => cases well
          | asked text => exact Interning.hasFailed_advance room well
          | missed text => exact Interning.hasFailed_advance room well
          | inserted symbol => rfl
      | none =>
          cases rest with
          | nil =>
              cases found : shared.table.atHand? ready <;> simp only [advance, found, hasFailed]
          | cons label rest => cases label <;> rfl
  | searching slots =>
      cases found : shared.table.find? slots <;> simp only [advance, found, hasFailed]
  | building slots => rfl
  | publishing slots candidate =>
      cases published : shared.table.publish slots candidate <;>
        simp only [advance, published, hasFailed]
  | finished result => exact well

/-- As long as there is room, no request fails. -/
def smooth : Protocol Shared Names Lookup (Except InternError Signature) where
  fit _ := True
  grows _ _ := True
  refl _ := trivial
  trans _ _ := trivial
  asked _ := True
  underway _ _ task := task.hasFailed = false
  completed _ _ result := ∃ signature, result = .ok signature
  apart _ _ := True
  clear := hasRoom

theorem smooth_lawful (id : TableId) : smooth.Lawful (machine id) where
  symmetric _ := trivial
  enter _ _ _ := rfl
  enterApart _ _ := trivial
  finish := by
    intro shared names task result well finished
    rw [eq_finished finished] at well
    cases result with
    | ok signature => exact ⟨signature, rfl⟩
    | error reason => cases well
  lasting := by
    intro before after names result _ _ _ completed
    exact completed
  advance := by
    intro shared names task _ well room _
    exact ⟨trivial, trivial, hasFailed_advance id room well⟩
  others := by
    intro shared names task otherNames other _ _ _ well _
    exact ⟨well, trivial⟩

end CallShape.Race.Lookup
