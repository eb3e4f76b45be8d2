import CallShape.Proofs.Text.Delimited
import CallShape.Text.Document

set_option autoImplicit false

namespace CallShape.Text.Document

theorem compactItems_eq_map (items : List Document) : compactItems items = items.map compact := by
  induction items with
  | nil => rfl
  | cons item rest ih => rw [compactItems, ih, List.map_cons]

theorem prettyItems_eq_map (level : Nat) (items : List Document) :
    prettyItems level items =
      items.map fun item => indent level ++ prettyAt level item ++ ",\n" := by
  induction items with
  | nil => rfl
  | cons item rest ih => rw [prettyItems, ih, List.map_cons]

/-- The text of a document that stands at a level of another one. On one line there are no
levels. -/
def textAt (document : Document) (level : Nat) : Layout → List Char
  | .compact => document.compact.toList
  | .pretty => (document.prettyAt level).toList

theorem textAt_word (text : String) (level : Nat) (layout : Layout) :
    (word text).textAt level layout = text.toList := by
  cases layout <;> rfl

theorem toList_render (document : Document) (layout : Layout) :
    (document.render layout).toList = document.textAt 0 layout := by
  cases layout <;> rfl

theorem textAt_list_compact (items : List Document) (level : Nat) :
    (list items).textAt level .compact =
      ['['] ++ (List.intercalate [',', ' '] (items.map (textAt · level .compact)) ++ [']']) := by
  simp [textAt, compact, compactItems_eq_map, String.toList_intercalate, Function.comp_def]

theorem textAt_nil_pretty (level : Nat) : (list []).textAt level .pretty = ['[', ']'] := by
  simp [textAt, prettyAt]

/-- The items of a list on lines of their own, and the bracket that closes the list. -/
def lines (level : Nat) (items : List Document) : List Char :=
  items.flatMap (fun item =>
    (indent (level + 1)).toList ++ item.textAt (level + 1) .pretty ++ [',', '\n']) ++
      ((indent level).toList ++ [']'])

theorem textAt_list_pretty (item : Document) (items : List Document) (level : Nat) :
    (list (item :: items)).textAt level .pretty = '[' :: '\n' :: lines level (item :: items) := by
  simp [lines, textAt, prettyAt, prettyItems_eq_map, String.toList_join, List.flatMap_map]

theorem indent_succ (level : Nat) : indent (level + 1) = indent level ++ "    " := by
  induction level with
  | zero => rfl
  | succ level ih =>
      calc
        indent (level + 2) = "    " ++ (indent level ++ "    ") := by rw [← ih]; rfl
        _ = indent (level + 1) ++ "    " := String.append_assoc.symm

/-- A document around another one, which it shows a level deeper and between texts of its own,
the first of them beginning with the given name. -/
def Wraps (name : String) (wrap : Document → Document) : Prop :=
  ∀ level layout, ∃ opening closing, ∀ part : Document,
    (wrap part).textAt level layout =
      name.toList ++ opening ++ part.textAt (level + 1) layout ++ closing

theorem wraps_tuple (name : String) : Wraps name fun part => tuple name [part] := by
  intro level layout
  cases layout with
  | compact =>
      refine ⟨['('], [')'], ?_⟩
      intro part
      simp [textAt, compact, compactItems]
  | pretty =>
      refine ⟨['(', '\n'] ++ (indent (level + 1)).toList,
        [',', '\n'] ++ (indent level).toList ++ [')'], ?_⟩
      intro part
      simp [textAt, prettyAt, prettyItems]

theorem wraps_record (name field : String) :
    Wraps name fun part => record name [(field, part)] := by
  intro level layout
  cases layout with
  | compact =>
      refine ⟨" \x7b ".toList ++ field.toList ++ ": ".toList, " \x7d".toList, ?_⟩
      intro part
      simp [textAt, compact, compactFields]
  | pretty =>
      refine ⟨" \x7b\n".toList ++ (indent (level + 1)).toList ++ field.toList ++ ": ".toList,
        ",\n".toList ++ (indent level).toList ++ "\x7d".toList, ?_⟩
      intro part
      simp [textAt, prettyAt, prettyFields]

/-- Values of which the document can be read in one way wherever it stands, also as an item of a
list: it does not begin as the list ends. -/
structure Readable {α : Type} (describe : α → Document) : Prop where
  delimited : ∀ level layout, SelfDelimiting fun value => (describe value).textAt level layout
  apart : ∀ level layout value, Apart ((describe value).textAt level layout) [']']

namespace Readable

variable {α : Type} {describe : α → Document}

theorem render_inj (readable : Readable describe) (layout : Layout) (first second : α) :
    (describe first).render layout = (describe second).render layout ↔ first = second := by
  constructor
  · intro same
    have texts := congrArg String.toList same
    rw [toList_render, toList_render] at texts
    exact (readable.delimited 0 layout).injective texts
  · intro same
    rw [same]

/-- Words that show where they end. -/
theorem word {text : α → String} (delimited : SelfDelimiting fun value => (text value).toList)
    (apart : ∀ value, Apart (text value).toList [']']) :
    Readable fun value => .word (text value) := by
  refine ⟨?_, ?_⟩
  · intro level layout
    simpa only [textAt_word] using delimited
  · intro level layout value
    rw [textAt_word]
    exact apart value

theorem wrapped (readable : Readable describe) {name : String} {wrap : Document → Document}
    (wraps : Wraps name wrap) (apart : Apart name.toList [']']) :
    Readable fun value => wrap (describe value) := by
  refine ⟨?_, ?_⟩
  · intro level layout
    obtain ⟨opening, closing, text⟩ := wraps level layout
    simp only [text]
    exact (readable.delimited (level + 1) layout).framed _ closing
  · intro level layout value
    obtain ⟨opening, closing, text⟩ := wraps level layout
    rw [text, List.append_assoc, List.append_assoc]
    simpa using apart.append _ []

theorem option (readable : Readable describe) :
    Readable fun value : Option α => Document.option (value.map describe) := by
  have present := readable.wrapped (wraps_tuple "Some") (Apart.of_ne (by decide) _ _)
  have text : ∀ level layout (value : Option α),
      (Document.option (value.map describe)).textAt level layout =
        value.elim "None".toList fun part =>
          (tuple "Some" [describe part]).textAt level layout := by
    intro level layout value
    cases value with
    | none => exact textAt_word "None" level layout
    | some part => rfl
  refine ⟨?_, ?_⟩
  · intro level layout
    simp only [text]
    apply (present.delimited level layout).optional
    intro value
    obtain ⟨opening, closing, own⟩ := wraps_tuple "Some" level layout
    rw [own]
    exact Apart.of_ne (by decide) _ _
  · intro level layout value
    rw [text]
    cases value with
    | none => exact Apart.of_ne (by decide) _ _
    | some part => exact present.apart level layout part

/-- The items are set in by a level more than the bracket that closes the list. -/
theorem lines_delimited (readable : Readable describe) (level : Nat) :
    SelfDelimiting fun items : List α => lines level (items.map describe) := by
  simp only [lines, List.flatMap_map]
  apply ((readable.delimited (level + 1) .pretty).framed _ _).sequence
  intro item
  -- Past the indentation that both share, an item has a space and the end of the list its bracket.
  rw [indent_succ, String.toList_append, List.append_assoc, List.append_assoc]
  exact Apart.after _ (Apart.of_ne (by decide : ' ' ≠ ']') _ _)

theorem list_pretty (readable : Readable describe) (level : Nat) :
    SelfDelimiting fun items : List α =>
      (Document.list (items.map describe)).textAt level .pretty := by
  apply SelfDelimiting.of_cons
  · intro item items
    rw [List.map_cons, List.map_nil, textAt_list_pretty, textAt_nil_pretty]
    exact Apart.after ['['] (Apart.of_ne (by decide : '\n' ≠ ']') _ _)
  · intro item items other more rest others same
    simp only [List.map_cons, textAt_list_pretty, List.cons_append, List.cons.injEq,
      true_and] at same
    exact readable.lines_delimited level same

theorem list (readable : Readable describe) :
    Readable fun items : List α => Document.list (items.map describe) := by
  refine ⟨?_, ?_⟩
  · intro level layout
    cases layout with
    | compact =>
        have separated := (readable.delimited level .compact).separated
          (readable.apart level .compact) (Apart.of_ne (by decide : ',' ≠ ']') [' '] [])
        simpa [textAt_list_compact, Function.comp_def] using separated.framed ['['] []
    | pretty => exact readable.list_pretty level
  · intro level layout items
    have opened : ∀ rest, Apart ('[' :: rest) [']'] := fun rest => Apart.of_ne (by decide) rest []
    cases layout with
    | compact =>
        rw [textAt_list_compact]
        exact opened _
    | pretty =>
        cases items with
        | nil =>
            rw [List.map_nil, textAt_nil_pretty]
            exact opened _
        | cons item items =>
            rw [List.map_cons, textAt_list_pretty]
            exact opened _

end Readable

end CallShape.Text.Document
