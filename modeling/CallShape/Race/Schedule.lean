set_option autoImplicit false

namespace CallShape.Race

/-- How calls of type `κ` are carried out: a task is entered for a call, takes indivisible steps on
the shared state, and has a result in the end. -/
structure Machine (σ κ τ ρ : Type) where
  enter : κ → τ
  result? : τ → Option ρ
  advance : σ → τ → σ × τ

structure Worker (κ τ ρ : Type) where
  waiting : List κ
  current : Option (κ × τ)
  done : List (κ × ρ)

structure System (σ κ τ ρ : Type) where
  shared : σ
  workers : List (Worker κ τ ρ)

variable {σ κ τ ρ : Type}

namespace Worker

def ofCalls (calls : List κ) : Worker κ τ ρ := ⟨calls, none, []⟩

def isFinished (worker : Worker κ τ ρ) : Bool :=
  worker.waiting.isEmpty && worker.current.isNone

/-- Takes up the next call, puts the result of the present one aside, or goes on with it. -/
def step (machine : Machine σ κ τ ρ) (shared : σ) (worker : Worker κ τ ρ) :
    σ × Worker κ τ ρ :=
  match worker.current with
  | none =>
      match worker.waiting with
      | [] => (shared, worker)
      | call :: rest =>
          (shared, { worker with waiting := rest, current := some (call, machine.enter call) })
  | some (call, task) =>
      match machine.result? task with
      | some result =>
          (shared, { worker with current := none, done := worker.done ++ [(call, result)] })
      | none =>
          let next := machine.advance shared task
          (next.1, { worker with current := some (call, next.2) })

def results (worker : Worker κ τ ρ) : List ρ := worker.done.map Prod.snd

end Worker

namespace System

/-- A turn of a worker that does not exist changes nothing. -/
def step (machine : Machine σ κ τ ρ) (system : System σ κ τ ρ) (turn : Nat) :
    System σ κ τ ρ :=
  match system.workers[turn]? with
  | none => system
  | some worker =>
      let next := worker.step machine system.shared
      ⟨next.1, system.workers.set turn next.2⟩

def run (machine : Machine σ κ τ ρ) (schedule : List Nat) (system : System σ κ τ ρ) :
    System σ κ τ ρ :=
  schedule.foldl (step machine) system

end System

/-- Every worker in turn, this many times over. -/
def roundRobin (workers rounds : Nat) : List Nat :=
  (List.replicate rounds (List.range workers)).flatten

end CallShape.Race
