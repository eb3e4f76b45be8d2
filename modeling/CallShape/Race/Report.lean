import CallShape.Race.Lookup

set_option autoImplicit false

namespace CallShape.Race

/-- Numbers the keys in the order in which they first appear. -/
def numberFrom {α : Type} [BEq α] (seen : List α) : List α → List Nat
  | [] => []
  | key :: rest =>
      match seen.idxOf? key with
      | some number => number :: numberFrom seen rest
      | none => seen.length :: numberFrom (seen ++ [key]) rest

def number {α : Type} [BEq α] (keys : List α) : List Nat := numberFrom [] keys

/-- Whether all the lists are the same. -/
def allSame {α : Type} [BEq α] : List α → Bool
  | [] => true
  | first :: rest => rest.all (· == first)

structure LookupReport where
  agree : Bool
  grown : Nat
  numbers : List Nat

/-- Workers race for the shapes in a new table of a new process. -/
def lookups (cacheLength workers : Nat) (shapes : List (List (Option String))) :
    Except Fault LookupReport :=
  let outcome := (do
    let id ← Process.openTable { cacheLength := cacheLength }
    Process.table id) {}
  outcome.answer.map fun table =>
    let process := outcome.state
    let system := Lookup.settle 0 ⟨process.pool, table, process.nextSerial, []⟩ workers shapes
    let serials := system.workers.map fun worker =>
      (worker.results.filterMap Except.toOption).map Signature.serial
    ⟨allSame serials, system.shared.table.size - table.size, number serials.head?.toList.flatten⟩

structure InterningReport where
  agree : Bool
  grown : Nat
  shards : List Nat
  texts : List String

/-- Workers race for the texts in a new interner. -/
def internings (workers : Nat) (texts : List String) : InterningReport :=
  let system := Interning.settle Interner.initial workers texts
  let pool := system.shared.pool
  let handles := system.workers.map fun worker =>
    (worker.results.filterMap Except.toOption).map Symbol.handle
  let found := handles.head?.toList.flatten
  ⟨allSame handles, pool.total - Interner.initial.total, found.map fun handle => handle.shard,
    found.filterMap fun handle => (pool.textAt handle).toOption⟩

end CallShape.Race
