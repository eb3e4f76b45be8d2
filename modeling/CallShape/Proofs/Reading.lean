import CallShape.Inspect
import CallShape.Proofs.Spread

set_option autoImplicit false

namespace CallShape

/-- The symbol without its handle. -/
def Symbol.bare (symbol : Symbol) : Symbol := { symbol with handle := .empty }

namespace Slot

def bare : Slot → Slot
  | .named symbol => .named symbol.bare
  | .positional => .positional
  | .unmatched => .unmatched

@[simp] theorem label_bare (slot : Slot) : slot.bare.label = slot.label := by
  cases slot <;> rfl

@[simp] theorem text?_bare (slot : Slot) : slot.bare.text? = slot.text? := by
  cases slot <;> rfl

@[simp] theorem isNamed_bare (slot : Slot) : slot.bare.isNamed = slot.isNamed := by
  cases slot <;> rfl

@[simp] theorem isRest_bare (slot : Slot) : slot.bare.isRest = slot.isRest := by
  rw [isRest, isRest, text?_bare]

@[simp] theorem bare_beq_positional (slot : Slot) :
    (slot.bare == positional) = (slot == positional) := by
  cases slot <;> rfl

@[simp] theorem bare_beq_unmatched (slot : Slot) :
    (slot.bare == unmatched) = (slot == unmatched) := by
  cases slot <;> rfl

end Slot

/-- The slot with this label, without a handle. -/
def Label.slot : Label → Slot
  | .named text => .named ⟨.empty, text⟩
  | .positional => .positional
  | .unmatched => .unmatched

theorem Slot.slot_label (slot : Slot) : slot.label.slot = slot.bare := by
  cases slot <;> rfl

/-- A question to a signature by itself. -/
inductive Query where
  | arity
  | isEmpty
  | namedCount
  | isAllPositional
  | slot (index : Nat)
  | name (index : Nat)
  | isUnmatched (index : Nat)
  | isRest (index : Nat)
  | restCount
  | rests
  | nthRest (number : Nat)
  | restIndex
  | indexOfName (text : String)
  | names
  | display
  | inspect (layout : Text.Layout)
  deriving DecidableEq, Repr

/-- What can be found out about a signature. -/
inductive Finding where
  | number (value : Nat)
  | flag (value : Bool)
  | index (value : Option Nat)
  | indices (values : List Nat)
  | label (value : Label)
  | name (value : Option String)
  | names (values : List (Option String))
  | text (value : String)
  deriving DecidableEq, Repr

def Query.ask (signature : Signature) : Query → Except SignatureError Finding
  | .arity => .ok (.number signature.arity)
  | .isEmpty => .ok (.flag signature.isEmpty)
  | .namedCount => .ok (.number signature.namedCount)
  | .isAllPositional => .ok (.flag signature.isAllPositional)
  | .slot index => (signature.slotAt index).map (.label ·.label)
  | .name index => (signature.nameAt index).map .name
  | .isUnmatched index => (signature.isUnmatchedAt index).map .flag
  | .isRest index => (signature.isRestAt index).map .flag
  | .restCount => .ok (.number signature.restCount)
  | .rests => .ok (.indices signature.rests)
  | .nthRest number => .ok (.index (signature.nthRest? number))
  | .restIndex => signature.restIndex.map .index
  | .indexOfName text => .ok (.index (signature.indexOfName text))
  | .names => .ok (.names signature.names)
  | .display => .ok (.text signature.display)
  | .inspect layout => .ok (.text (signature.document.render layout))

namespace Signature

/-- The signature without its serial and without the handles of its names. -/
def bare (signature : Signature) : Signature :=
  { signature with serial := 0, stored := signature.stored.map (List.map Slot.bare) }

theorem slots_bare (signature : Signature) :
    signature.bare.slots = signature.slots.map Slot.bare := by
  cases stored : signature.stored with
  | none =>
      simp only [slots, bare, stored, Option.map_none, Option.getD_none, List.map_replicate]
      rfl
  | some own => simp only [slots, bare, stored, Option.map_some, Option.getD_some]

@[simp] theorem labels_bare (signature : Signature) : signature.bare.labels = signature.labels := by
  rw [labels, slots_bare, List.map_map, labels]
  exact List.map_congr_left fun slot _ => slot.label_bare

theorem names_bare (signature : Signature) : signature.bare.names = signature.names := by
  rw [names, slots_bare, List.map_map, names]
  exact List.map_congr_left fun slot _ => slot.text?_bare

theorem slotAt_bare (signature : Signature) (index : Nat) :
    signature.bare.slotAt index = (signature.slotAt index).map Slot.bare := by
  by_cases inside : index < signature.arity
  · have insideBare : index < signature.bare.arity := inside
    rw [slotAt, slotAt, if_pos inside, if_pos insideBare]
    cases stored : signature.stored with
    | none =>
        simp only [bare, stored, Option.map_none, Option.bind_none, Option.getD_none]
        rfl
    | some own =>
        simp only [bare, stored, Option.map_some, Option.bind_some, List.getElem?_map]
        cases own[index]? <;> rfl
  · have insideBare : ¬ index < signature.bare.arity := inside
    rw [slotAt, slotAt, if_neg inside, if_neg insideBare]
    rfl

theorem indexOfName_bare (signature : Signature) (name : String) :
    signature.bare.indexOfName name = signature.indexOfName name := by
  cases stored : signature.stored with
  | none => simp only [indexOfName, bare, stored, Option.map_none, Option.bind_none]
  | some own =>
      simp only [indexOfName, bare, stored, Option.map_some, Option.bind_some, List.findIdx?_map]
      exact congrArg (List.findIdx? · own) (funext fun slot => by simp)

/-- No question to a signature brings its handles or its serial to light. -/
theorem ask_bare (signature : Signature) (query : Query) :
    query.ask signature.bare = query.ask signature := by
  have mapped : ∀ {α : Type} (read : Slot → α), (∀ slot, read slot.bare = read slot) →
      ∀ index, (signature.bare.slotAt index).map read = (signature.slotAt index).map read := by
    intro α read same index
    rw [slotAt_bare]
    cases signature.slotAt index with
    | error cause => rfl
    | ok slot => exact congrArg Except.ok (same slot)
  cases query with
  | arity => rfl
  | isEmpty => rfl
  | namedCount => rfl
  | isAllPositional =>
      simp only [Query.ask, isAllPositional, bare, Option.isNone_map]
  | slot index =>
      exact mapped (Finding.label ·.label)
        (fun slot => congrArg Finding.label slot.label_bare) index
  | name index =>
      simp only [Query.ask, nameAt, mapped Slot.text? Slot.text?_bare index]
  | isUnmatched index =>
      simp only [Query.ask, isUnmatchedAt,
        mapped (· == Slot.unmatched) Slot.bare_beq_unmatched index]
  | isRest index =>
      simp only [Query.ask, isRestAt, mapped Slot.isRest Slot.isRest_bare index]
  | restCount => rfl
  | rests => rfl
  | nthRest number => rfl
  | restIndex => rfl
  | indexOfName text => simp only [Query.ask, indexOfName_bare]
  | names => simp only [Query.ask, names_bare]
  | display => simp only [Query.ask, display, names_bare]
  | inspect layout => simp only [Query.ask, document, labels_bare]

/-- A signature with these labels, without serial and handles. -/
def ofLabels (labels : List Label) : Signature := build 0 (labels.map Label.slot)

theorem restPositions_bare (start : Nat) (slots : List Slot) :
    restPositions start (slots.map Slot.bare) = restPositions start slots := by
  induction slots generalizing start with
  | nil => rfl
  | cons slot rest ih => simp only [List.map_cons, restPositions, Slot.isRest_bare, ih]

theorem bare_build (serial : Nat) (slots : List Slot) :
    (build serial slots).bare = build 0 (slots.map Slot.bare) := by
  have all : (slots.map Slot.bare).all (· == Slot.positional) =
      slots.all (· == Slot.positional) := by
    rw [List.all_map]
    exact congrArg (slots.all ·) (funext Slot.bare_beq_positional)
  have named : (slots.map Slot.bare).countP Slot.isNamed = slots.countP Slot.isNamed := by
    rw [List.countP_map]
    exact congrArg (List.countP · slots) (funext Slot.isNamed_bare)
  simp only [build, bare, List.length_map, all, named, restPositions_bare]
  split <;> rfl

theorem Genuine.mem_of_slotAt {signature : Signature} {pool : Interner}
    (genuine : signature.Genuine pool) {index : Nat} {slot : Slot}
    (read : signature.slotAt index = .ok slot) : slot ∈ signature.slots :=
  List.mem_of_getElem? ((genuine.slotAt_eq_ok_iff index slot).mp read)

theorem Genuine.bare_eq {signature : Signature} {pool : Interner}
    (genuine : signature.Genuine pool) : signature.bare = ofLabels signature.labels := by
  have same : signature.labels.map Label.slot = signature.slots.map Slot.bare := by
    rw [labels, List.map_map]
    exact List.map_congr_left fun slot _ => slot.slot_label
  rw [ofLabels, same, ← bare_build signature.serial, ← genuine.built]

end Signature

namespace Spread

def bare (spread : Spread) : Spread := ⟨spread.groups.map (Option.map Signature.bare)⟩

theorem length_bare (spread : Spread) : spread.bare.length = spread.length :=
  List.length_map _

theorem flattenWith_map {α : Type} (read : Signature → List α) (f : Signature → Signature)
    (items : List α) (groups : List (Option Signature)) :
    flattenWith read items (groups.map (Option.map f)) =
      flattenWith (fun signature => read (f signature)) items groups := by
  induction groups generalizing items with
  | nil => cases items <;> rfl
  | cons group groups ih =>
      cases items with
      | nil => cases group <;> rfl
      | cons item items =>
          rw [List.map_cons, flattenWith_cons, flattenWith_cons, ih]
          cases group <;> rfl

theorem flattenedLabels_bare (spread : Spread) (supplied : Signature) :
    spread.bare.flattenedLabels supplied.bare = spread.flattenedLabels supplied := by
  rw [flattenedLabels, bare, flattenWith_map, Signature.labels_bare, flattenedLabels]
  exact congrArg (flattenWith · supplied.labels spread.groups) (funext Signature.labels_bare)

theorem totalWidth_bare (spread : Spread) :
    totalWidth spread.bare.groups = totalWidth spread.groups := by
  rw [bare]
  induction spread.groups with
  | nil => rfl
  | cons group groups ih =>
      rw [List.map_cons, totalWidth, totalWidth, ih]
      cases group <;> rfl

theorem fits_bare (spread : Spread) : spread.bare.Fits ↔ spread.Fits := by
  rw [Fits, Fits, totalWidth_bare]

theorem shortage_bare (spread : Spread) : spread.bare.shortage = spread.shortage := by
  rw [shortage, shortage, totalWidth_bare]

end Spread

namespace Interner

theorem Orderly.symbol_beq_iff {pool : Interner} (orderly : pool.Orderly) {first second : Symbol}
    (firstFound : pool.find? first.text = some first)
    (secondFound : pool.find? second.text = some second) :
    (first == second) = true ↔ first.text = second.text := by
  constructor
  · intro same
    exact orderly.text_eq firstFound secondFound (eq_of_beq same)
  · intro same
    rw [same, secondFound, Option.some.injEq] at firstFound
    rw [firstFound]
    exact beq_self_eq_true first.handle

/-- Among names of one interner, a symbol is recognised by its text. -/
theorem Orderly.slot_beq_named {pool : Interner} (orderly : pool.Orderly) {slot : Slot}
    (known : pool.Knows [slot]) {symbol : Symbol}
    (found : pool.find? symbol.text = some symbol) :
    (slot == Slot.named symbol) = (slot.text? == some symbol.text) := by
  have knownSymbol : pool.Knows [Slot.named symbol] := by
    intro other member
    cases List.mem_singleton.mp member
    exact found
  rw [Bool.eq_iff_iff, orderly.slot_beq_iff known knownSymbol, beq_iff_eq]
  constructor
  · rintro rfl
    rfl
  · intro same
    cases slot with
    | named other =>
        exact known.slot_eq_of_label knownSymbol (congrArg Label.named (Option.some.inj same))
    | positional => cases same
    | unmatched => cases same

theorem Orderly.findIdx?_named {pool : Interner} (orderly : pool.Orderly) {slots : List Slot}
    (known : pool.Knows slots) {symbol : Symbol}
    (found : pool.find? symbol.text = some symbol) :
    slots.findIdx? (· == Slot.named symbol) =
      slots.findIdx? (fun slot => slot.text? == some symbol.text) := by
  induction slots with
  | nil => rfl
  | cons slot rest ih =>
      rw [List.findIdx?_cons, List.findIdx?_cons, orderly.slot_beq_named known.head found,
        ih known.tail]

end Interner

/-- Between names of one interner, searching by handle and searching by text find the same. -/
theorem Signature.Genuine.indexOfSymbol_eq {signature : Signature} {pool : Interner}
    (genuine : signature.Genuine pool) (orderly : pool.Orderly) {symbol : Symbol}
    (found : pool.find? symbol.text = some symbol) :
    signature.indexOfSymbol symbol = signature.indexOfName symbol.text := by
  cases stored : signature.stored with
  | none => simp only [indexOfSymbol, indexOfName, stored, Option.bind_none]
  | some own =>
      have known := genuine.known
      rw [slots, stored, Option.getD_some] at known
      simp only [indexOfSymbol, indexOfName, stored, Option.bind_some]
      exact orderly.findIdx?_named known found

end CallShape
