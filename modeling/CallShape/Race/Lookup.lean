import CallShape.Process
import CallShape.Race.Interning

/-!
Each step of a request is indivisible. A request that there is no room for fails before its first
step, so it is not among these.
-/

set_option autoImplicit false

namespace CallShape.Race

/-- How far a request has come. -/
inductive Lookup where
  | naming (ready : List Slot) (current : Option Interning) (rest : List Label)
  | searching (slots : List Slot)
  | building (slots : List Slot)
  | publishing (slots : List Slot) (candidate : Signature)
  | finished (result : Except InternError Signature)

namespace Lookup

structure Shared where
  pool : Interner
  table : Table
  nextSerial : Nat
  notices : List Notice := []

def enter (names : List (Option String)) : Lookup := .naming [] none (names.map Label.ofName)

def result? : Lookup → Option (Except InternError Signature)
  | .finished result => some result
  | .naming _ _ _ => none
  | .searching _ => none
  | .building _ => none
  | .publishing _ _ => none

/-- One step of a request to the table with this number. -/
def advance (id : TableId) (shared : Shared) : Lookup → Shared × Lookup
  | .naming ready none [] =>
      match shared.table.atHand? ready with
      | some signature => (shared, .finished (.ok signature))
      | none => (shared, .searching ready)
  | .naming ready none (.named text :: rest) =>
      (shared, .naming ready (some (.asked text)) rest)
  | .naming ready none (.positional :: rest) =>
      (shared, .naming (ready ++ [.positional]) none rest)
  | .naming ready none (.unmatched :: rest) =>
      (shared, .naming (ready ++ [.unmatched]) none rest)
  | .naming ready (some task) rest =>
      match task.result? with
      | some (.ok symbol) => (shared, .naming (ready ++ [.named symbol]) none rest)
      | some (.error reason) => (shared, .finished (.error reason))
      | none =>
          let next := task.advance shared.pool
          ({ shared with pool := next.1, notices := shared.notices ++ next.2.2 },
            .naming ready (some next.2.1) rest)
  | .searching slots =>
      match shared.table.find? slots with
      | some signature => (shared, .finished (.ok signature))
      | none => (shared, .building slots)
  | .building slots =>
      ({ shared with nextSerial := shared.nextSerial + 1 },
        .publishing slots (Signature.build shared.nextSerial slots))
  | .publishing slots candidate =>
      match shared.table.publish slots candidate with
      | .known signature => (shared, .finished (.ok signature))
      | .added table =>
          ({ shared with
              table := table
              notices := shared.notices ++ [.signatureAdded id candidate] },
            .finished (.ok candidate))
  | .finished result => (shared, .finished result)

def machine (id : TableId) :
    Machine Shared (List (Option String)) Lookup (Except InternError Signature) where
  enter := enter
  result? := result?
  advance := advance id

abbrev Crowd := System Shared (List (Option String)) Lookup (Except InternError Signature)

/-- Workers that each request all the shapes. -/
def crowd (shared : Shared) (workers : Nat) (shapes : List (List (Option String))) : Crowd :=
  ⟨shared, List.replicate workers (Worker.ofCalls shapes)⟩

/-- Enough turns for each worker to finish. -/
def rounds (shapes : List (List (Option String))) : Nat :=
  shapes.foldl (fun turns names => turns + (5 * names.length + 6)) 0

/-- The workers take turns until all have finished. -/
def settle (id : TableId) (shared : Shared) (workers : Nat)
    (shapes : List (List (Option String))) : Crowd :=
  (crowd shared workers shapes).run (machine id) (roundRobin workers (rounds shapes))

end Lookup

end CallShape.Race
