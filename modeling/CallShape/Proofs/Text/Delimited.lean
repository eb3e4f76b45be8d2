import Mathlib.Data.List.Basic

set_option autoImplicit false

namespace CallShape.Text

/-- Neither text begins the other, so they can be told apart before either has ended. -/
def Apart (first second : List Char) : Prop :=
  ∀ rest others, first ++ rest ≠ second ++ others

namespace Apart

variable {first second : List Char}

theorem symm (apart : Apart first second) : Apart second first :=
  fun rest others same => apart others rest same.symm

theorem of_ne {one other : Char} (different : one ≠ other) (rest others : List Char) :
    Apart (one :: rest) (other :: others) :=
  fun _ _ same => different (List.head_eq_of_cons_eq same)

/-- Texts that are apart stay so with anything after them. -/
theorem append (apart : Apart first second) (rest others : List Char) :
    Apart (first ++ rest) (second ++ others) := by
  intro more further same
  rw [List.append_assoc, List.append_assoc] at same
  exact apart _ _ same

/-- A common beginning takes nothing away. -/
theorem after (opening : List Char) (apart : Apart first second) :
    Apart (opening ++ first) (opening ++ second) := by
  intro rest others same
  rw [List.append_assoc, List.append_assoc] at same
  exact apart rest others (List.append_cancel_left same)

end Apart

/-- The first item, then the others with the separator before each. -/
theorem intercalate_cons (separator item : List Char) (items : List (List Char)) :
    List.intercalate separator (item :: items) = item ++ items.flatMap (separator ++ ·) := by
  induction items generalizing item with
  | nil => simp
  | cons other more ih => simp [List.intercalate_cons_cons, ih]

/-- A word ends at the first mark, if it has none itself. -/
theorem append_mark_inj {mark : Char} {first second rest others : List Char}
    (firstClear : mark ∉ first) (secondClear : mark ∉ second)
    (same : first ++ mark :: rest = second ++ mark :: others) :
    first = second ∧ rest = others := by
  induction first generalizing second with
  | nil =>
      cases second with
      | nil => exact ⟨rfl, List.tail_eq_of_cons_eq same⟩
      | cons c cs =>
          have head : mark = c := List.head_eq_of_cons_eq same
          exact absurd (head ▸ List.mem_cons_self) secondClear
  | cons c cs ih =>
      cases second with
      | nil =>
          have head : c = mark := List.head_eq_of_cons_eq same
          exact absurd (head ▸ List.mem_cons_self) firstClear
      | cons d ds =>
          obtain ⟨rfl, later⟩ := List.cons_eq_cons.mp same
          obtain ⟨rfl, ended⟩ := ih (fun inside => firstClear (List.mem_cons_of_mem _ inside))
            (fun inside => secondClear (List.mem_cons_of_mem _ inside)) later
          exact ⟨rfl, ended⟩

/-- Values whose texts begin one and the same text are one value, and what follows is the same. -/
def SelfDelimiting {α : Type} (write : α → List Char) : Prop :=
  ∀ ⦃first second rest others⦄, write first ++ rest = write second ++ others →
    first = second ∧ rest = others

namespace SelfDelimiting

variable {α : Type} {write : α → List Char}

theorem injective (delimited : SelfDelimiting write) : Function.Injective write := by
  intro first second same
  have ended : write first ++ [] = write second ++ [] := by rw [same]
  exact (delimited ended).1

theorem comp {β : Type} (delimited : SelfDelimiting write) {view : β → α}
    (faithful : Function.Injective view) : SelfDelimiting fun value => write (view value) := by
  intro first second rest others same
  obtain ⟨value, later⟩ := delimited same
  exact ⟨faithful value, later⟩

theorem framed (delimited : SelfDelimiting write) (opening closing : List Char) :
    SelfDelimiting fun value => opening ++ write value ++ closing := by
  intro first second rest others same
  simp only [List.append_assoc] at same
  obtain ⟨value, later⟩ := delimited (List.append_cancel_left same)
  exact ⟨value, List.append_cancel_left later⟩

/-- A value or a word of its own where there is none. -/
theorem optional (delimited : SelfDelimiting write) {absent : List Char}
    (apart : ∀ value, Apart (write value) absent) :
    SelfDelimiting fun value : Option α => value.elim absent write := by
  intro first second rest others same
  cases first with
  | none =>
      cases second with
      | none => exact ⟨rfl, List.append_cancel_left same⟩
      | some value => exact absurd same ((apart value).symm _ _)
  | some value =>
      cases second with
      | none => exact absurd same (apart value _ _)
      | some other =>
          obtain ⟨rfl, later⟩ := delimited same
          exact ⟨rfl, later⟩

/-- One item after the other, up to a text that begins no item and is begun by none. -/
theorem sequence (delimited : SelfDelimiting write) {closing : List Char}
    (apart : ∀ item, Apart (write item) closing) :
    SelfDelimiting fun items : List α => items.flatMap write ++ closing := by
  intro first second rest others same
  induction first generalizing second with
  | nil =>
      cases second with
      | nil => exact ⟨rfl, List.append_cancel_left same⟩
      | cons item items =>
          simp only [List.flatMap_cons, List.flatMap_nil, List.nil_append,
            List.append_assoc] at same
          exact absurd same ((apart item).symm _ _)
  | cons item items ih =>
      cases second with
      | nil =>
          simp only [List.flatMap_cons, List.flatMap_nil, List.nil_append,
            List.append_assoc] at same
          exact absurd same (apart item _ _)
      | cons other more =>
          simp only [List.flatMap_cons, List.append_assoc] at same
          obtain ⟨rfl, later⟩ := delimited same
          simp only [← List.append_assoc] at later
          obtain ⟨rfl, ended⟩ := ih later
          exact ⟨rfl, ended⟩

/-- Lists are told apart if empty ones can be told from the others, and the others can be read. -/
theorem of_cons {write : List α → List Char}
    (apart : ∀ item items, Apart (write (item :: items)) (write []))
    (delimited : ∀ item items other more rest others,
      write (item :: items) ++ rest = write (other :: more) ++ others →
        item :: items = other :: more ∧ rest = others) :
    SelfDelimiting write := by
  intro first second rest others same
  cases first with
  | nil =>
      cases second with
      | nil => exact ⟨rfl, List.append_cancel_left same⟩
      | cons item items => exact absurd same ((apart item items).symm _ _)
  | cons item items =>
      cases second with
      | nil => exact absurd same (apart item items _ _)
      | cons other more => exact delimited item items other more rest others same

/-- Items with a separator between them, up to a text that is apart from both. -/
theorem separated (delimited : SelfDelimiting write) {separator closing : List Char}
    (apart : ∀ item, Apart (write item) closing) (between : Apart separator closing) :
    SelfDelimiting fun items : List α =>
      List.intercalate separator (items.map write) ++ closing := by
  have later : SelfDelimiting fun items : List α =>
      items.flatMap (fun item => separator ++ write item) ++ closing := by
    apply sequence
    · simpa using delimited.framed separator []
    · intro item
      simpa using between.append (write item) []
  apply of_cons
  · intro item items
    rw [List.map_cons, intercalate_cons, List.append_assoc]
    simpa using (apart item).append _ []
  · intro item items other more rest others same
    simp only [List.map_cons, intercalate_cons, List.append_assoc] at same
    obtain ⟨rfl, following⟩ := delimited same
    simp only [List.flatMap_map, ← List.append_assoc] at following
    obtain ⟨rfl, ended⟩ := later following
    exact ⟨rfl, ended⟩

end SelfDelimiting

end CallShape.Text
