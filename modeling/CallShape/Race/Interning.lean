import CallShape.Interner
import CallShape.Race.Schedule

set_option autoImplicit false

namespace CallShape.Race

/-- How far the interning of a text has come. -/
inductive Interning where
  | asked (text : String)
  | missed (text : String)
  | inserted (symbol : Symbol)
  | finished (result : Except InternError Symbol)

namespace Interning

def result? : Interning → Option (Except InternError Symbol)
  | .finished result => some result
  | .asked _ => none
  | .missed _ => none
  | .inserted _ => none

/-- One of the steps search, claim and count. -/
def advance (pool : Interner) : Interning → Interner × Interning × List Notice
  | .asked text =>
      match pool.find? text with
      | some symbol => (pool, .finished (.ok symbol), [])
      | none => (pool, .missed text, [])
  | .missed text =>
      match pool.claim text with
      | .found symbol => (pool, .finished (.ok symbol), [])
      | .full reason => (pool, .finished (.error reason), [])
      | .added symbol pool => (pool, .inserted symbol, [])
  | .inserted symbol =>
      (pool.count, .finished (.ok symbol),
        [.nameAdded symbol.text (shardOf symbol.text) pool.count.total])
  | .finished result => (pool, .finished result, [])

/-- The interner, and what was reported so far. -/
structure Shared where
  pool : Interner
  notices : List Notice := []

def machine : Machine Shared String Interning (Except InternError Symbol) where
  enter := .asked
  result? := result?
  advance shared task :=
    let next := task.advance shared.pool
    (⟨next.1, shared.notices ++ next.2.2⟩, next.2.1)

abbrev Crowd := System Shared String Interning (Except InternError Symbol)

/-- Workers that each intern all the texts. -/
def crowd (pool : Interner) (workers : Nat) (texts : List String) : Crowd :=
  ⟨{ pool := pool }, List.replicate workers (Worker.ofCalls texts)⟩

/-- Enough turns for each worker to finish. -/
def rounds (texts : List String) : Nat := 5 * texts.length

/-- The workers take turns until all have finished. -/
def settle (pool : Interner) (workers : Nat) (texts : List String) : Crowd :=
  (crowd pool workers texts).run machine (roundRobin workers (rounds texts))

end Interning

end CallShape.Race
