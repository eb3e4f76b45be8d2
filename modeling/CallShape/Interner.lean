import CallShape.Action
import CallShape.Slot

/-!
Interning a text takes up to three steps, each of them indivisible: a search (`find?`), a
second search that adds the text if it is still missing (`claim`), and the count (`count`).
-/

set_option autoImplicit false

namespace CallShape

/-- Folds the first eight bytes of the text into a word, each step multiplying by 31. -/
def shardHash (text : String) : UInt32 :=
  (text.toUTF8.data.toList.take 8).foldl (fun hash byte => hash * 31 + byte.toUInt32) 0

def shardOf (text : String) : Fin shardCount := Fin.ofNat shardCount (shardHash text).toNat

/-- There are as many shards as numbers for them, so every one of them can be read. -/
instance : GetElem (Vector (List String) shardCount) (Fin shardCount) (List String)
    (fun _ _ => True) where
  getElem shards shard _ := shards.get shard

structure Interner where
  shards : Vector (List String) shardCount
  /-- Kept apart from the shards, so that the size is known without visiting them. -/
  total : Nat
  deriving Repr

namespace Interner

/-- Only the empty text, at the first position of shard 0. -/
def blank : Interner where
  shards := (Vector.replicate shardCount []).set 0 [""]
  total := 1

def isEmpty (pool : Interner) : Bool := pool.total ≤ 1

/-- The texts of the shard that this text belongs to. -/
def shardFor (pool : Interner) (text : String) : List String := pool.shards[shardOf text]

/-- The symbol of a text at a position of its shard. -/
def symbolAt (text : String) (position : Nat) : Symbol :=
  ⟨Handle.pack (shardOf text) position, text⟩

/-- Finds a text without adding it. -/
def find? (pool : Interner) (text : String) : Option Symbol :=
  ((pool.shardFor text).idxOf? text).map (symbolAt text)

/-- The names among the slots are symbols of this interner. -/
def Knows (pool : Interner) (slots : List Slot) : Prop :=
  ∀ symbol, Slot.named symbol ∈ slots → pool.find? symbol.text = some symbol

def textAt (pool : Interner) (handle : Handle) : Except Fault String :=
  match pool.shards[handle.shard][handle.position]? with
  | some text => .ok text
  | none => .error (.outOfBounds pool.shards[handle.shard].length handle.position)

/-- What came of a text that the first search had missed. -/
inductive Claim where
  | found (symbol : Symbol)
  | added (symbol : Symbol) (pool : Interner)
  | full (reason : InternError)

/-- Adds a text at the end of its shard; the count is left as it is. -/
def push (pool : Interner) (text : String) : Interner :=
  { pool with shards := pool.shards.set (shardOf text) (pool.shardFor text ++ [text]) }

/-- Searches once more, and adds the text if there is room in its shard. -/
def claim (pool : Interner) (text : String) : Claim :=
  match pool.find? text with
  | some symbol => .found symbol
  | none =>
      if (pool.shardFor text).length ≤ Handle.maxPosition then
        .added (symbolAt text (pool.shardFor text).length) (pool.push text)
      else .full (.shardFull (shardOf text) (pool.shardFor text).length)

/-- Counts one text more. -/
def count (pool : Interner) : Interner := { pool with total := pool.total + 1 }

/-- The three steps in a row. -/
def intern (text : String) : Action Interner InternError Symbol := fun pool =>
  match pool.find? text with
  | some symbol => ⟨.ok symbol, pool, []⟩
  | none =>
      match pool.claim text with
      | .found symbol => ⟨.ok symbol, pool, []⟩
      | .full reason => ⟨.error reason, pool, []⟩
      | .added symbol pool =>
          ⟨.ok symbol, pool.count, [.nameAdded text (shardOf text) pool.count.total]⟩

/-- The slot for a label, its name interned. -/
def slot : Label → Action Interner InternError Slot
  | .named text => do
      let symbol ← intern text
      return .named symbol
  | .positional => return .positional
  | .unmatched => return .unmatched

/-- From left to right. -/
def slots (labels : List Label) : Action Interner InternError (List Slot) :=
  Action.each slot labels

/-- Names that are there from the start: those of the rest arguments and of the parameters of
common functions. -/
def presets : List String :=
  ["...", "..1", "..2", "..3", "..4", "..5", "..6", "..7", "..8", "..9", "x", "y", "i", "j",
    "value", "object", "na.rm", "drop", "exact", "FUN", "USE.NAMES", "simplify", "envir",
    "expr", "name", "names", "what", "which", "use.names", "recursive"]

/-- The presets interned into a blank interner. -/
def start : Outcome Interner InternError (List Symbol) := Action.each intern presets blank

def initial : Interner := start.state

end Interner

end CallShape
