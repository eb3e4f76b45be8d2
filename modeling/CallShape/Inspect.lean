import CallShape.Arguments
import CallShape.Spread
import CallShape.Table
import CallShape.Text.Document
import CallShape.Text.Quoted

set_option autoImplicit false

namespace CallShape

open Text (Document quote)

def Handle.inspect (handle : Handle) : String :=
  "Name(shard=" ++ toString handle.shard.val ++ ", local=" ++ toString handle.position ++ ")"

def Symbol.document (symbol : Symbol) : Document := .word (quote symbol.text)

def Slot.document : Slot → Document
  | .named symbol => .tuple "Named" [symbol.document]
  | .positional => .word "Positional"
  | .unmatched => .word "Unmatched"

/-- A label inside a signature: names are quoted, the other two are bare words. -/
def Label.document : Label → Document
  | .named text => .word (quote text)
  | .positional => .word "_"
  | .unmatched => .word "<unmatched>"

def Signature.document (signature : Signature) : Document :=
  .list (signature.labels.map Label.document)

def Spread.document (spread : Spread) : Document :=
  .record "SpreadShape"
    [("groups",
      .list (spread.groups.map fun group => Document.option (group.map Signature.document)))]

def Source.document : Source → Document
  | .direct index => .tuple "Direct" [.number index]
  | .spread group index => .record "Spread" [("group", .number group), ("index", .number index)]

namespace Payload

mutual

def document : Payload → Document
  | .number value => .word (toString value)
  | .text value => .word (quote value)
  | .nested arguments => documentNested arguments

def documentNested : Arguments Payload → Document
  | ⟨values, signature⟩ =>
      .record "ArgumentList"
        [("values", .list (documentAll values)), ("signature", signature.document)]

def documentAll : List Payload → List Document
  | [] => []
  | value :: rest => document value :: documentAll rest

end

end Payload

def Arguments.document (arguments : Arguments Payload) : Document :=
  Payload.documentNested arguments

def Config.document (config : Config) : Document :=
  .record "TableConfig"
    [("empty_cache_len", .number config.cacheLength),
      ("perf_hook",
        Document.option
          (match config.sink with
          | .log => none
          | .hook _ => some (.word (quote "<hook>"))))]

def SignatureError.document : SignatureError → Document
  | .ambiguousRest count => .record "AmbiguousVarArg" [("count", .number count)]
  | .slotOutOfRange index length =>
      .record "SlotOutOfRange" [("index", .number index), ("len", .number length)]
  | .spreadLength signature spread =>
      .record "SpreadLengthMismatch"
        [("signature", .number signature), ("shape", .number spread)]
  | .globalInstalled => .word "GlobalAlreadyInitialized"

def ArgumentsError.document : ArgumentsError → Document
  | .lengthMismatch values signature =>
      .record "LengthMismatch" [("values", .number values), ("signature", .number signature)]

def InternError.document : InternError → Document
  | .shardFull shard count =>
      .record "ShardOverflow" [("shard_idx", .number shard), ("count", .number count)]

def Warning.document : Warning → Document
  | .largeUnnamed length cached =>
      .record "LargeEmptySignature" [("len", .number length), ("cache_len", .number cached)]

def Diagnostic.document : Diagnostic → Document
  | .signature cause => cause.document
  | .arguments cause => cause.document
  | .intern cause => cause.document
  | .warning cause => cause.document

end CallShape
