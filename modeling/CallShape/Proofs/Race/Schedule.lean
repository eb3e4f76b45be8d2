import CallShape.Proofs.Action
import CallShape.Race.Schedule

set_option autoImplicit false

namespace CallShape.Race

variable {σ κ τ ρ : Type}

namespace Worker

/-- All calls of a worker, from the first that is done to the last that waits. -/
def calls (worker : Worker κ τ ρ) : List κ :=
  worker.done.map Prod.fst ++ (worker.current.map Prod.fst).toList ++ worker.waiting

theorem calls_step (machine : Machine σ κ τ ρ) (shared : σ) (worker : Worker κ τ ρ) :
    (worker.step machine shared).2.calls = worker.calls := by
  obtain ⟨waiting, current, done⟩ := worker
  unfold step
  cases current with
  | none =>
      cases waiting with
      | nil => rfl
      | cons call rest => simp [calls]
  | some ongoing =>
      obtain ⟨call, task⟩ := ongoing
      cases finished : machine.result? task with
      | none => simp [calls, finished]
      | some result => simp [calls, finished]

theorem calls_of_isFinished {worker : Worker κ τ ρ} (finished : worker.isFinished = true) :
    worker.done.map Prod.fst = worker.calls := by
  rw [isFinished, Bool.and_eq_true, List.isEmpty_iff, Option.isNone_iff_eq_none] at finished
  rw [calls, finished.1, finished.2, Option.map_none, Option.toList_none, List.append_nil,
    List.append_nil]

/-- The call has come to this result, whether or not it was put aside yet. -/
def Returned (machine : Machine σ κ τ ρ) (worker : Worker κ τ ρ) (call : κ) (result : ρ) : Prop :=
  (call, result) ∈ worker.done ∨
    ∃ task, worker.current = some (call, task) ∧ machine.result? task = some result

/-- Whether the step that the worker would take next is clear. -/
def isClear (clear : σ → τ → Bool) (shared : σ) (worker : Worker κ τ ρ) : Bool :=
  worker.current.all fun ongoing => clear shared ongoing.2

end Worker

namespace System

variable {machine : Machine σ κ τ ρ}

theorem run_append (system : System σ κ τ ρ) (early late : List Nat) :
    system.run machine (early ++ late) = (system.run machine early).run machine late :=
  List.foldl_append

theorem step_of_absent {system : System σ κ τ ρ} {turn : Nat}
    (absent : system.workers[turn]? = none) : system.step machine turn = system := by
  simp only [step, absent]

theorem step_of_present {system : System σ κ τ ρ} {turn : Nat} {worker : Worker κ τ ρ}
    (present : system.workers[turn]? = some worker) :
    system.step machine turn = ⟨(worker.step machine system.shared).1,
      system.workers.set turn (worker.step machine system.shared).2⟩ := by
  simp only [step, present]

theorem calls_step (machine : Machine σ κ τ ρ) (system : System σ κ τ ρ) (turn : Nat) :
    (system.step machine turn).workers.map Worker.calls = system.workers.map Worker.calls := by
  cases present : system.workers[turn]? with
  | none => rw [step_of_absent present]
  | some worker =>
      obtain ⟨inside, same⟩ := List.getElem?_eq_some_iff.mp present
      rw [step_of_present present, List.map_set, Worker.calls_step, ← List.map_set, ← same,
        List.set_getElem_self inside]

/-- No call is lost or made up. -/
theorem calls_run (machine : Machine σ κ τ ρ) (system : System σ κ τ ρ) (schedule : List Nat) :
    (system.run machine schedule).workers.map Worker.calls = system.workers.map Worker.calls := by
  induction schedule generalizing system with
  | nil => rfl
  | cons turn rest ih =>
      exact (ih (system.step machine turn)).trans (calls_step machine system turn)

/-- Whether every step of the schedule is clear when it is taken. -/
def staysClear (system : System σ κ τ ρ) (machine : Machine σ κ τ ρ) (clear : σ → τ → Bool) :
    List Nat → Bool
  | [] => true
  | turn :: rest =>
      system.workers[turn]?.all (·.isClear clear system.shared) &&
        (system.step machine turn).staysClear machine clear rest

/-- Where all steps are clear, so is every schedule. -/
theorem staysClear_true (system : System σ κ τ ρ) (schedule : List Nat) :
    system.staysClear machine (fun _ _ => true) schedule = true := by
  induction schedule generalizing system with
  | nil => rfl
  | cons turn rest ih =>
      rw [staysClear, ih, Bool.and_true, Option.all_eq_true]
      intro worker _
      rw [Worker.isClear, Option.all_eq_true]
      exact fun _ _ => rfl

end System

/-- What the workers agree on: the order of the shared state, which calls may be made, what holds
of a task that is under way and of a result ever after, when two tasks do not get in each other's
way, and which steps are clear to be taken. -/
structure Protocol (σ κ τ ρ : Type) extends Discipline σ where
  asked : κ → Prop
  underway : σ → κ → τ → Prop
  completed : σ → κ → ρ → Prop
  apart : τ → τ → Prop
  clear : σ → τ → Bool

namespace Protocol

/-- One step of one task keeps to the protocol, and so do the tasks of the others. -/
structure Lawful (protocol : Protocol σ κ τ ρ) (machine : Machine σ κ τ ρ) : Prop where
  symmetric : ∀ {first second}, protocol.apart first second → protocol.apart second first
  enter : ∀ shared call, protocol.asked call → protocol.underway shared call (machine.enter call)
  enterApart : ∀ call other, protocol.apart (machine.enter call) other
  finish : ∀ {shared call task result}, protocol.underway shared call task →
    machine.result? task = some result → protocol.completed shared call result
  lasting : ∀ {before after call result}, protocol.fit before → protocol.fit after →
    protocol.grows before after → protocol.completed before call result →
    protocol.completed after call result
  advance : ∀ {shared call task}, protocol.fit shared → protocol.underway shared call task →
    protocol.clear shared task = true → machine.result? task = none →
    protocol.fit (machine.advance shared task).1 ∧
      protocol.grows shared (machine.advance shared task).1 ∧
      protocol.underway (machine.advance shared task).1 call (machine.advance shared task).2
  others : ∀ {shared call task otherCall other}, protocol.fit shared →
    protocol.underway shared call task → machine.result? task = none →
    protocol.underway shared otherCall other → protocol.apart task other →
    protocol.underway (machine.advance shared task).1 otherCall other ∧
      protocol.apart (machine.advance shared task).2 other

/-- A worker can count on the protocol for all its calls. -/
structure Serves (protocol : Protocol σ κ τ ρ) (shared : σ) (worker : Worker κ τ ρ) : Prop where
  waiting : ∀ call ∈ worker.waiting, protocol.asked call
  current : ∀ call task, worker.current = some (call, task) → protocol.underway shared call task
  done : ∀ call result, (call, result) ∈ worker.done → protocol.completed shared call result

def Apart (protocol : Protocol σ κ τ ρ) (one two : Worker κ τ ρ) : Prop :=
  ∀ call task otherCall other, one.current = some (call, task) →
    two.current = some (otherCall, other) → protocol.apart task other

/-- What a step of a worker leaves true: its own part of the protocol, and that of every other
worker. -/
structure Kept (protocol : Protocol σ κ τ ρ) (shared : σ) (worker : Worker κ τ ρ)
    (next : σ × Worker κ τ ρ) : Prop where
  fit : protocol.fit next.1
  grown : protocol.grows shared next.1
  own : protocol.Serves next.1 next.2
  others : ∀ other : Worker κ τ ρ, protocol.Serves shared other → protocol.Apart worker other →
    protocol.Serves next.1 other ∧ protocol.Apart next.2 other

structure Holds (protocol : Protocol σ κ τ ρ) (system : System σ κ τ ρ) : Prop where
  fit : protocol.fit system.shared
  serves : ∀ (index : Nat) (worker : Worker κ τ ρ), system.workers[index]? = some worker →
    protocol.Serves system.shared worker
  apart : ∀ (first second : Nat) (one two : Worker κ τ ρ), first ≠ second →
    system.workers[first]? = some one → system.workers[second]? = some two →
    protocol.Apart one two

/-- Workers that have not begun keep to every protocol. -/
theorem holds_of_calls {protocol : Protocol σ κ τ ρ} {shared : σ} (fit : protocol.fit shared)
    {requests : List (List κ)}
    (asked : ∀ calls ∈ requests, ∀ call ∈ calls, protocol.asked call) :
    protocol.Holds ⟨shared, requests.map Worker.ofCalls⟩ := by
  have fresh : ∀ (index : Nat) (worker : Worker κ τ ρ),
      (requests.map Worker.ofCalls)[index]? = some worker →
      ∃ calls ∈ requests, Worker.ofCalls calls = worker := by
    intro index worker present
    exact List.mem_map.mp (List.mem_of_getElem? present)
  refine ⟨fit, ?_, ?_⟩
  · intro index worker present
    obtain ⟨calls, member, rfl⟩ := fresh index worker present
    refine ⟨asked calls member, ?_, ?_⟩
    · intro call task current
      cases current
    · intro call result done
      cases done
  · intro first second one two _ present _ call task otherCall other current
    obtain ⟨calls, -, rfl⟩ := fresh first one present
    cases current

namespace Lawful

variable {protocol : Protocol σ κ τ ρ} {machine : Machine σ κ τ ρ}

theorem take_up (lawful : protocol.Lawful machine) {shared : σ} {call : κ} {rest : List κ}
    {done : List (κ × ρ)} (fit : protocol.fit shared)
    (serves : protocol.Serves shared ⟨call :: rest, none, done⟩) :
    protocol.Kept shared ⟨call :: rest, none, done⟩
      (shared, ⟨rest, some (call, machine.enter call), done⟩) := by
  refine ⟨fit, protocol.refl shared, ⟨?_, ?_, serves.done⟩, ?_⟩
  · intro later member
    exact serves.waiting later (List.mem_cons_of_mem call member)
  · intro own task current
    cases current
    exact lawful.enter shared call (serves.waiting call List.mem_cons_self)
  · intro other otherServes _
    refine ⟨otherServes, ?_⟩
    intro own task otherCall otherTask current _
    cases current
    exact lawful.enterApart call otherTask

theorem put_aside (lawful : protocol.Lawful machine) {shared : σ} {call : κ} {task : τ}
    {waiting : List κ} {done : List (κ × ρ)} {result : ρ} (fit : protocol.fit shared)
    (serves : protocol.Serves shared ⟨waiting, some (call, task), done⟩)
    (finished : machine.result? task = some result) :
    protocol.Kept shared ⟨waiting, some (call, task), done⟩
      (shared, ⟨waiting, none, done ++ [(call, result)]⟩) := by
  refine ⟨fit, protocol.refl shared, ⟨serves.waiting, ?_, ?_⟩, ?_⟩
  · intro own other current
    cases current
  · intro own other member
    rcases List.mem_append.mp member with old | new
    · exact serves.done own other old
    · cases List.mem_singleton.mp new
      exact lawful.finish (serves.current call task rfl) finished
  · intro other otherServes _
    refine ⟨otherServes, ?_⟩
    intro own task otherCall otherTask current
    cases current

theorem go_on (lawful : protocol.Lawful machine) {shared : σ} {call : κ} {task : τ}
    {waiting : List κ} {done : List (κ × ρ)} (fit : protocol.fit shared)
    (serves : protocol.Serves shared ⟨waiting, some (call, task), done⟩)
    (clear : protocol.clear shared task = true) (unfinished : machine.result? task = none) :
    protocol.Kept shared ⟨waiting, some (call, task), done⟩
      ((machine.advance shared task).1,
        ⟨waiting, some (call, (machine.advance shared task).2), done⟩) := by
  have underway := serves.current call task rfl
  obtain ⟨after, grown, later⟩ := lawful.advance fit underway clear unfinished
  refine ⟨after, grown, ⟨serves.waiting, ?_, ?_⟩, ?_⟩
  · intro own other current
    cases current
    exact later
  · intro own result member
    exact lawful.lasting fit after grown (serves.done own result member)
  · intro other otherServes apart
    have kept : ∀ otherCall otherTask, other.current = some (otherCall, otherTask) → _ :=
      fun otherCall otherTask current =>
        lawful.others fit underway unfinished (otherServes.current otherCall otherTask current)
          (apart call task otherCall otherTask rfl current)
    refine ⟨⟨otherServes.waiting, ?_, ?_⟩, ?_⟩
    · intro otherCall otherTask current
      exact (kept otherCall otherTask current).1
    · intro otherCall result member
      exact lawful.lasting fit after grown (otherServes.done otherCall result member)
    · intro own next otherCall otherTask current otherCurrent
      cases current
      exact (kept otherCall otherTask otherCurrent).2

theorem worker_step (lawful : protocol.Lawful machine) {shared : σ} {worker : Worker κ τ ρ}
    (fit : protocol.fit shared) (serves : protocol.Serves shared worker)
    (clear : worker.isClear protocol.clear shared = true) :
    protocol.Kept shared worker (worker.step machine shared) := by
  obtain ⟨waiting, current, done⟩ := worker
  unfold Worker.step
  cases current with
  | none =>
      cases waiting with
      | nil =>
          exact ⟨fit, protocol.refl shared, serves, fun other own apart => ⟨own, apart⟩⟩
      | cons call rest => exact lawful.take_up fit serves
  | some ongoing =>
      obtain ⟨call, task⟩ := ongoing
      cases finished : machine.result? task with
      | some result =>
          simp only [finished]
          exact lawful.put_aside fit serves finished
      | none =>
          simp only [finished]
          exact lawful.go_on fit serves clear finished

theorem apart_symm (lawful : protocol.Lawful machine) {one two : Worker κ τ ρ}
    (apart : protocol.Apart one two) : protocol.Apart two one := by
  intro call task otherCall other current otherCurrent
  exact lawful.symmetric (apart otherCall other call task otherCurrent current)

theorem step (lawful : protocol.Lawful machine) {system : System σ κ τ ρ}
    (holds : protocol.Holds system) {turn : Nat}
    (clear : system.workers[turn]?.all (·.isClear protocol.clear system.shared) = true) :
    protocol.Holds (system.step machine turn) ∧
      protocol.grows system.shared (system.step machine turn).shared := by
  cases present : system.workers[turn]? with
  | none =>
      rw [System.step_of_absent present]
      exact ⟨holds, protocol.refl system.shared⟩
  | some worker =>
      rw [present, Option.all_some] at clear
      obtain ⟨fit, grown, own, others⟩ :=
        lawful.worker_step holds.fit (holds.serves turn worker present) clear
      have kept : ∀ (index : Nat) (other : Worker κ τ ρ), turn ≠ index →
          system.workers[index]? = some other → _ := fun index other different otherPresent =>
        others other (holds.serves index other otherPresent)
          (holds.apart turn index worker other different present otherPresent)
      have inside := (List.getElem?_eq_some_iff.mp present).1
      rw [System.step_of_present present]
      refine ⟨⟨fit, ?_, ?_⟩, grown⟩
      · intro index other otherPresent
        rw [List.getElem?_set] at otherPresent
        by_cases same : turn = index
        · rw [if_pos same, if_pos inside] at otherPresent
          cases otherPresent
          exact own
        · rw [if_neg same] at otherPresent
          exact (kept index other same otherPresent).1
      · intro first second one two different onePresent twoPresent
        rw [List.getElem?_set] at onePresent twoPresent
        by_cases firstSame : turn = first
        · by_cases secondSame : turn = second
          · exact absurd (firstSame.symm.trans secondSame) different
          · rw [if_pos firstSame, if_pos inside] at onePresent
            rw [if_neg secondSame] at twoPresent
            cases onePresent
            exact (kept second two secondSame twoPresent).2
        · rw [if_neg firstSame] at onePresent
          by_cases secondSame : turn = second
          · rw [if_pos secondSame, if_pos inside] at twoPresent
            cases twoPresent
            exact lawful.apart_symm (kept first one firstSame onePresent).2
          · rw [if_neg secondSame] at twoPresent
            exact holds.apart first second one two different onePresent twoPresent

theorem run (lawful : protocol.Lawful machine) {system : System σ κ τ ρ}
    (holds : protocol.Holds system) {schedule : List Nat}
    (clear : system.staysClear machine protocol.clear schedule = true) :
    protocol.Holds (system.run machine schedule) ∧
      protocol.grows system.shared (system.run machine schedule).shared := by
  induction schedule generalizing system with
  | nil => exact ⟨holds, protocol.refl system.shared⟩
  | cons turn rest ih =>
      rw [System.staysClear, Bool.and_eq_true] at clear
      obtain ⟨next, grown⟩ := lawful.step holds clear.1
      obtain ⟨last, grownAgain⟩ := ih next clear.2
      exact ⟨last, protocol.trans grown grownAgain⟩

theorem returned (lawful : protocol.Lawful machine) {system : System σ κ τ ρ}
    (holds : protocol.Holds system) {worker : Worker κ τ ρ} (member : worker ∈ system.workers)
    {call : κ} {result : ρ} (returned : worker.Returned machine call result) :
    protocol.completed system.shared call result := by
  obtain ⟨index, present⟩ := List.mem_iff_getElem?.mp member
  have serves := holds.serves index worker present
  rcases returned with done | ⟨task, current, finished⟩
  · exact serves.done call result done
  · exact lawful.finish (serves.current call task current) finished

end Lawful

end Protocol

end CallShape.Race
