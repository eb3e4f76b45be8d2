import CallShape.Proofs.History
import CallShape.Proofs.Race.Lookup
import Mathlib.Data.List.Dedup

set_option autoImplicit false

namespace CallShape.Race.Lookup

/-- Workers that each have requests of their own, and have not begun. -/
def gather (shared : Shared) (requests : List (List Names)) : Crowd :=
  ⟨shared, requests.map Worker.ofCalls⟩

/-- How things stand after these turns. -/
def race (id : TableId) (shared : Shared) (requests : List (List Names)) (schedule : List Nat) :
    Crowd :=
  (gather shared requests).run (machine id) schedule

/-- The states of a table that calls to a process and races, finished or not, can lead to. -/
inductive Shared.Reachable (id : TableId) : Shared → Prop where
  | calls {process : Process} {table : Table} (reachable : process.Reachable)
      (present : process.tables[id]? = some table) :
      Reachable id ⟨process.pool, table, process.nextSerial, []⟩
  | race {shared : Shared} (reachable : Reachable id shared) (requests : List (List Names))
      (schedule : List Nat) : Reachable id (race id shared requests schedule).shared

/-- The requested shapes that the table has no instance for, each once. -/
def newShapes (table : Table) (requests : List (List Names)) : List Names :=
  requests.flatten.dedup.filter fun names =>
    !table.signatures.any fun signature => signature.labels == names.map Label.ofName

theorem mem_newShapes {table : Table} {requests : List (List Names)} {names : Names} :
    names ∈ newShapes table requests ↔ names ∈ requests.flatten ∧
      ∀ signature ∈ table.signatures, signature.labels ≠ names.map Label.ofName := by
  rw [newShapes, List.mem_filter, List.mem_dedup, Bool.not_eq_true', List.any_eq_false]
  simp only [beq_iff_eq, ne_eq]

theorem map_ofName_injective : Function.Injective (List.map Label.ofName) := by
  apply List.map_injective_iff.mpr
  intro first second same
  cases first with
  | none =>
      cases second with
      | none => rfl
      | some text => cases same
  | some text =>
      cases second with
      | none => cases same
      | some other =>
          cases same
          rfl

theorem Shared.Sound.find?_of_settled {shared : Shared} (sound : shared.Sound)
    {labels : List Label} {signature : Signature}
    (settled : Settled shared.table labels signature) :
    shared.table.find? signature.slots = some signature := by
  have known := (sound.table.genuine signature settled.1).known
  exact (sound.table.find?_eq_some_iff sound.pool known signature).mpr ⟨settled.1, rfl⟩

/-- One instance for each list of names. -/
theorem Shared.Sound.same_instance_iff {shared : Shared} (sound : shared.Sound)
    {names others : Names} {first second : Signature}
    (firstSettled : Settled shared.table (names.map Label.ofName) first)
    (secondSettled : Settled shared.table (others.map Label.ofName) second) :
    (first == second) = true ↔ names = others := by
  obtain ⟨firstInside, firstOwn⟩ := firstSettled
  obtain ⟨secondInside, secondOwn⟩ := secondSettled
  constructor
  · intro same
    have equal := sound.table.eq_of_serial firstInside secondInside (eq_of_beq same)
    rw [equal, secondOwn] at firstOwn
    exact (map_ofName_injective firstOwn).symm
  · intro same
    rw [same, ← secondOwn] at firstOwn
    rw [sound.table.eq_of_labels firstInside secondInside firstOwn]
    exact beq_self_eq_true second.serial

theorem race_holds (id : TableId) {shared : Shared} (sound : shared.Sound)
    (requests : List (List Names)) (schedule : List Nat) :
    (protocol shared.table requests).Holds (race id shared requests schedule) ∧
      shared.Extends (race id shared requests schedule).shared := by
  have start : (protocol shared.table requests).Holds (gather shared requests) := by
    apply Protocol.holds_of_calls
    · exact ⟨sound, fun signature member => Or.inl member⟩
    · intro calls member names asked
      exact List.mem_flatten.mpr ⟨calls, member, asked⟩
  exact (protocol_lawful id shared.table requests).run start (System.staysClear_true _ schedule)

theorem race_extends (id : TableId) {shared : Shared} (sound : shared.Sound)
    (requests : List (List Names)) (early late : List Nat) :
    (race id shared requests early).shared.Extends
      (race id shared requests (early ++ late)).shared := by
  have holds := (race_holds id sound requests early).1
  have lawful := protocol_lawful id shared.table requests
  rw [race, race, System.run_append]
  exact (lawful.run holds (System.staysClear_true _ late)).2

theorem Shared.Reachable.sound {id : TableId} {shared : Shared} (reachable : shared.Reachable id) :
    shared.Sound := by
  induction reachable with
  | calls reachable present =>
      exact ⟨reachable.sound.pool.toOrderly, reachable.sound.tables id _ present⟩
  | race _ requests schedule ih => exact (race_holds id ih requests schedule).1.fit.1

section Race

variable {id : TableId} {shared : Shared} {requests : List (List Names)} {schedule : List Nat}
  {worker : Worker Names Lookup (Except InternError Signature)} {names : Names}

theorem returned_settled (sound : shared.Sound)
    (member : worker ∈ (race id shared requests schedule).workers) {signature : Signature}
    (returned : worker.Returned (machine id) names (.ok signature)) :
    Settled (race id shared requests schedule).shared.table (names.map Label.ofName) signature :=
  (protocol_lawful id shared.table requests).returned (race_holds id sound requests schedule).1
    member returned signature rfl

theorem returned_ok
    (room : (gather shared requests).staysClear (machine id) hasRoom schedule = true)
    (member : worker ∈ (race id shared requests schedule).workers)
    {result : Except InternError Signature} (returned : worker.Returned (machine id) names result) :
    ∃ signature, result = .ok signature := by
  have start : smooth.Holds (gather shared requests) :=
    Protocol.holds_of_calls trivial fun _ _ _ _ => trivial
  have after := ((smooth_lawful id).run start room).1
  exact (smooth_lawful id).returned after member returned

/-- A finished race has carried out every request. -/
theorem done_of_finished
    (finished : (race id shared requests schedule).workers.all Worker.isFinished = true) :
    (race id shared requests schedule).workers.map (fun worker => worker.done.map Prod.fst) =
      requests := by
  have conserved := System.calls_run (machine id) (gather shared requests) schedule
  have each : ∀ worker ∈ (race id shared requests schedule).workers,
      worker.done.map Prod.fst = worker.calls := fun worker member =>
    Worker.calls_of_isFinished (List.all_eq_true.mp finished worker member)
  have given : (gather shared requests).workers.map Worker.calls = requests := by
    rw [gather, List.map_map]
    exact List.map_id requests
  rw [List.map_congr_left each]
  exact conserved.trans given

theorem exists_returned_of_finished
    (finished : (race id shared requests schedule).workers.all Worker.isFinished = true)
    (asked : names ∈ requests.flatten) :
    ∃ worker ∈ (race id shared requests schedule).workers, ∃ result,
      worker.Returned (machine id) names result := by
  rw [← done_of_finished finished] at asked
  obtain ⟨done, member, inside⟩ := List.mem_flatten.mp asked
  obtain ⟨worker, workerMember, same⟩ := List.mem_map.mp member
  rw [← same] at inside
  obtain ⟨⟨own, result⟩, entry, rfl⟩ := List.mem_map.mp inside
  exact ⟨worker, workerMember, result, Or.inl entry⟩

/-- The signatures that a finished race has added are those of the new shapes. -/
theorem added_labels (sound : shared.Sound)
    (room : (gather shared requests).staysClear (machine id) hasRoom schedule = true)
    (finished : (race id shared requests schedule).workers.all Worker.isFinished = true)
    {added : List Signature}
    (whole : shared.table.signatures ++ added =
      (race id shared requests schedule).shared.table.signatures) :
    (added.map Signature.labels).Perm
      ((newShapes shared.table requests).map (List.map Label.ofName)) := by
  obtain ⟨holds, -⟩ := race_holds id sound requests schedule
  obtain ⟨after, origin⟩ := holds.fit
  have distinct := after.table.distinct_labels
  rw [← whole, List.map_append, List.nodup_append] at distinct
  obtain ⟨-, addedDistinct, apart⟩ := distinct
  have new : ∀ signature ∈ added, ∀ old ∈ shared.table.signatures,
      old.labels ≠ signature.labels := fun signature member old oldMember =>
    apart _ (List.mem_map_of_mem oldMember) _ (List.mem_map_of_mem member)
  have shapesDistinct : ((newShapes shared.table requests).map (List.map Label.ofName)).Nodup :=
    ((List.nodup_dedup _).filter _).map map_ofName_injective
  -- Neither list repeats an entry, so it is enough that they have the same ones.
  rw [List.perm_ext_iff_of_nodup addedDistinct shapesDistinct]
  intro labels
  rw [List.mem_map, List.mem_map]
  constructor
  · intro present
    obtain ⟨signature, member, rfl⟩ := present
    have inside : signature ∈ (race id shared requests schedule).shared.table.signatures := by
      rw [← whole]
      exact List.mem_append_right _ member
    rcases origin signature inside with old | ⟨names, asked, own⟩
    · exact absurd rfl (new signature member signature old)
    · refine ⟨names, mem_newShapes.mpr ⟨asked, ?_⟩, own.symm⟩
      intro old oldMember
      rw [← own]
      exact new signature member old oldMember
  · intro requested
    obtain ⟨names, shape, rfl⟩ := requested
    obtain ⟨asked, missing⟩ := mem_newShapes.mp shape
    obtain ⟨worker, member, result, returned⟩ := exists_returned_of_finished finished asked
    obtain ⟨signature, rfl⟩ := returned_ok room member returned
    obtain ⟨inside, own⟩ := returned_settled sound member returned
    rw [← whole] at inside
    rcases List.mem_append.mp inside with old | fresh
    · exact absurd own (missing signature old)
    · exact ⟨signature, fresh, own⟩

theorem size_of_finished (sound : shared.Sound)
    (room : (gather shared requests).staysClear (machine id) hasRoom schedule = true)
    (finished : (race id shared requests schedule).workers.all Worker.isFinished = true) :
    (race id shared requests schedule).shared.table.size =
      shared.table.size + (newShapes shared.table requests).length := by
  obtain ⟨-, grown⟩ := race_holds id sound requests schedule
  obtain ⟨added, whole⟩ := grown.table.signatures
  have length := (added_labels sound room finished whole).length_eq
  rw [List.length_map, List.length_map] at length
  rw [Table.size, Table.size, ← whole, List.length_append, length]

end Race

/-- From every reachable state, for any number of workers with any requests and under any
schedule in which no shard overflows: a call that has returned was answered with an instance of
the requested shape that the table finds under its own slots; two answers are the same instance
exactly when the names asked for were the same; what the table finds at some moment it finds ever
after; and when all have finished, every request has been answered and the table has grown by the
number of new shapes. -/
theorem racing_workers_agree (id : TableId) (shared : Shared) (reachable : shared.Reachable id)
    (requests : List (List Names)) (schedule : List Nat)
    (room : (gather shared requests).staysClear (machine id) hasRoom schedule = true) :
    (∀ worker ∈ (race id shared requests schedule).workers, ∀ names result,
      worker.Returned (machine id) names result → ∃ signature, result = .ok signature ∧
        signature.labels = names.map Label.ofName ∧
        (race id shared requests schedule).shared.table.find? signature.slots = some signature) ∧
    (∀ one ∈ (race id shared requests schedule).workers,
      ∀ two ∈ (race id shared requests schedule).workers, ∀ names others first second,
      one.Returned (machine id) names (.ok first) → two.Returned (machine id) others (.ok second) →
      ((first == second) = true ↔ names = others)) ∧
    (∀ early late, schedule = early ++ late → ∀ slots signature,
      (race id shared requests early).shared.table.find? slots = some signature →
      (race id shared requests schedule).shared.table.find? slots = some signature) ∧
    ((race id shared requests schedule).workers.all Worker.isFinished = true →
      (race id shared requests schedule).workers.map (fun worker => worker.done.map Prod.fst) =
        requests ∧
      (race id shared requests schedule).shared.table.size =
        shared.table.size + (newShapes shared.table requests).length) := by
  have sound := reachable.sound
  have after := (race_holds id sound requests schedule).1.fit.1
  refine ⟨?_, ?_, ?_, ?_⟩
  · intro worker member names result returned
    obtain ⟨signature, rfl⟩ := returned_ok room member returned
    have settled := returned_settled sound member returned
    exact ⟨signature, rfl, settled.2, after.find?_of_settled settled⟩
  · intro one oneMember two twoMember names others first second firstReturned secondReturned
    have firstSettled := returned_settled sound oneMember firstReturned
    have secondSettled := returned_settled sound twoMember secondReturned
    exact after.same_instance_iff firstSettled secondSettled
  · intro early late split slots signature found
    rw [split]
    exact (race_extends id sound requests early late).table.find? found
  · intro finished
    exact ⟨done_of_finished finished, size_of_finished sound room finished⟩

/-- A table that has been asked for one shape. -/
def opening : List Call :=
  [.openTable { cacheLength := 1 }, .forNames (.numbered 0) [some "old"]]

/-- Two workers ask for a new shape at the same time, and one of them for the old one too. -/
def contested : List (List Names) := [[[some "a", none], [some "old"]], [[some "a", none]]]

/-- Both build a candidate, and one of the two is discarded. -/
theorem racing_workers_agree_contested : ∃ shared : Shared, shared.Reachable 0 ∧
    (gather shared contested).staysClear (machine 0) hasRoom (roundRobin 2 20) = true ∧
    (race 0 shared contested (roundRobin 2 20)).workers.all Worker.isFinished = true ∧
    (race 0 shared contested (roundRobin 2 20)).shared.nextSerial = shared.nextSerial + 2 ∧
    (race 0 shared contested (roundRobin 2 20)).shared.table.size = shared.table.size + 1 := by
  have process : (Process.after opening {}).Reachable :=
    ⟨opening, ⟨trivial, trivial, trivial⟩, rfl⟩
  have reachable : Shared.Reachable 0 _ := Shared.Reachable.calls process rfl
  have agree := racing_workers_agree 0 _ reachable contested (roundRobin 2 20) rfl
  exact ⟨_, reachable, rfl, rfl, rfl, (agree.2.2.2 rfl).2⟩

end CallShape.Race.Lookup
