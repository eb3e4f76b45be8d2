import CallShape.Inspect
import CallShape.Proofs.Signature
import CallShape.Proofs.Text.Document
import CallShape.Proofs.Text.Quoted
import Mathlib.Data.List.Forall2

set_option autoImplicit false

namespace CallShape

open Text (Apart Document Layout SelfDelimiting quote quote_apart)

namespace Label

/-- The word for a label inside a signature. -/
def word : Label → String
  | .named text => quote text
  | .positional => "_"
  | .unmatched => "<unmatched>"

/-- A label as a text that may be missing, and a whole that may be missing. -/
def view : Label → Option (Option String)
  | .named text => some (some text)
  | .positional => some none
  | .unmatched => none

theorem view_injective : Function.Injective view := by
  intro first second same
  cases first <;> cases second <;> simp_all [view]

theorem document_eq_word (label : Label) : label.document = .word label.word := by
  cases label <;> rfl

theorem word_eq_elim (label : Label) :
    label.word.toList =
      label.view.elim "<unmatched>".toList fun name =>
        name.elim "_".toList fun text => (quote text).toList := by
  cases label <;> rfl

/-- The three kinds of labels begin with three different characters. -/
theorem word_delimited : SelfDelimiting fun label : Label => label.word.toList := by
  have names : SelfDelimiting fun name : Option String =>
      name.elim "_".toList fun text => (quote text).toList :=
    Text.quote_delimited.optional fun text => quote_apart text (by decide) _
  have views : SelfDelimiting fun view : Option (Option String) =>
      view.elim "<unmatched>".toList fun name =>
        name.elim "_".toList fun text => (quote text).toList := by
    apply names.optional
    intro name
    cases name with
    | none => exact Apart.of_ne (by decide) _ _
    | some text => exact quote_apart text (by decide) _
  simpa only [word_eq_elim] using views.comp view_injective

theorem document_readable : Document.Readable document := by
  have words : Document.Readable fun label : Label => .word label.word := by
    apply Document.Readable.word word_delimited
    intro label
    cases label with
    | named text => exact quote_apart text (by decide) []
    | positional => exact Apart.of_ne (by decide) _ _
    | unmatched => exact Apart.of_ne (by decide) _ _
  simpa only [← document_eq_word] using words

end Label

/-- A signature is inspected through its labels. -/
theorem Signature.render_eq_iff (layout : Layout) (first second : Signature) :
    first.document.render layout = second.document.render layout ↔
      first.labels = second.labels :=
  Label.document_readable.list.render_inj layout first.labels second.labels

namespace Spread

/-- What a spread gives away when it is inspected: the labels of every expansion. -/
def outlines (spread : Spread) : List (Option (List Label)) :=
  spread.groups.map (Option.map Signature.labels)

theorem document_eq (spread : Spread) :
    spread.document =
      .record "SpreadShape" [("groups", .list (spread.outlines.map fun group =>
        Document.option (group.map fun labels => .list (labels.map Label.document))))] := by
  simp only [document, outlines, List.map_map, Function.comp_def, Option.map_map]
  rfl

theorem outlines_eq_iff (first second : Spread) :
    first.outlines = second.outlines ↔
      List.Forall₂ (Option.Rel fun one other => one.labels = other.labels)
        first.groups second.groups := by
  have group : ∀ one other : Option Signature,
      one.map Signature.labels = other.map Signature.labels ↔
        Option.Rel (fun one other => one.labels = other.labels) one other := by
    intro one other
    cases one <;> cases other <;> simp
  rw [outlines, outlines, ← List.forall₂_eq_eq_eq, List.forall₂_map_left_iff,
    List.forall₂_map_right_iff]
  simp only [group]

theorem render_eq_iff (layout : Layout) (first second : Spread) :
    first.document.render layout = second.document.render layout ↔
      first.outlines = second.outlines := by
  have groups := Label.document_readable.list.option.list
  have records := groups.wrapped (Document.wraps_record "SpreadShape" "groups")
    (Apart.of_ne (by decide) _ _)
  rw [document_eq, document_eq]
  exact records.render_inj layout first.outlines second.outlines

end Spread

/-- Inspected on one line or on several, two signatures look the same exactly when they have the
same labels, whatever characters their names are made of; and two spreads do exactly when they
have as many groups and each is ordinary in both or has expansions with the same labels. The
labels are those of the slots that a signature was built from. -/
theorem inspection_tells_apart :
    (∀ (layout : Layout) (first second : Signature),
      first.document.render layout = second.document.render layout ↔
        first.labels = second.labels) ∧
    (∀ (layout : Layout) (first second : Spread),
      first.document.render layout = second.document.render layout ↔
        List.Forall₂ (Option.Rel fun one other => one.labels = other.labels)
          first.groups second.groups) ∧
    (∀ serial slots, (Signature.build serial slots).labels = slots.map Slot.label) := by
  refine ⟨Signature.render_eq_iff, ?_, ?_⟩
  · intro layout first second
    rw [Spread.render_eq_iff, Spread.outlines_eq_iff]
  · intro serial slots
    rw [Signature.labels, Signature.slots_build]

/-- On display a missing name looks like the name `NULL`; inspected, the two are told apart. -/
example :
    let named := Signature.build 0 [.named ⟨.empty, "NULL"⟩]
    let unnamed := Signature.build 1 [.positional]
    named.display = unnamed.display ∧ named.document.compact ≠ unnamed.document.compact := by
  decide +kernel

end CallShape
