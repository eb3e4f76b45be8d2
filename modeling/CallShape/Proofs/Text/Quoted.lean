import CallShape.Proofs.Text.Delimited
import CallShape.Text.Quoted

/-!
Nothing here depends on which characters count as invisible.
-/

set_option autoImplicit false

namespace CallShape.Text

theorem digitChar_inj {first second : Nat} (firstSmall : first < 16) (secondSmall : second < 16)
    (same : first.digitChar = second.digitChar) : first = second := by
  have all : ∀ first < 16, ∀ second < 16,
      Nat.digitChar first = Nat.digitChar second → first = second := by decide
  exact all first firstSmall second secondSmall same

/-- The last digit is that of the remainder, the others are those of the quotient. -/
theorem toDigits_eq_concat (number : Nat) :
    Nat.toDigits 16 number =
      (if number < 16 then [] else Nat.toDigits 16 (number / 16)) ++
        [Nat.digitChar (number % 16)] := by
  split
  · rename_i small
    rw [Nat.toDigits_of_lt_base small, Nat.mod_eq_of_lt small, List.nil_append]
  · rename_i large
    exact Nat.toDigits_of_base_le (by decide) (Nat.le_of_not_lt large)

theorem toDigits_inj {first second : Nat} (same : Nat.toDigits 16 first = Nat.toDigits 16 second) :
    first = second := by
  induction first using Nat.strongRecOn generalizing second with
  | ind first ih =>
      rw [toDigits_eq_concat first, toDigits_eq_concat second] at same
      obtain ⟨upper, last⟩ := List.append_singleton_inj.mp same
      have remainder := digitChar_inj (Nat.mod_lt first (by decide))
        (Nat.mod_lt second (by decide)) last
      by_cases firstSmall : first < 16
      · by_cases secondSmall : second < 16
        · omega
        · rw [if_pos firstSmall, if_neg secondSmall] at upper
          exact absurd upper.symm Nat.toDigits_ne_nil
      · by_cases secondSmall : second < 16
        · rw [if_neg firstSmall, if_pos secondSmall] at upper
          exact absurd upper Nat.toDigits_ne_nil
        · rw [if_neg firstSmall, if_neg secondSmall] at upper
          have quotient := ih (first / 16) (by omega) upper
          omega

theorem hexDigits_inj {first second : Char} (same : hexDigits first = hexDigits second) :
    first = second :=
  Char.toNat_inj.mp (toDigits_inj same)

/-- The brace that closes a code point is none of its digits. -/
theorem brace_not_mem_toDigits (number : Nat) : '\x7d' ∉ Nat.toDigits 16 number := by
  induction number using Nat.strongRecOn with
  | ind number ih =>
      have other : '\x7d' ≠ Nat.digitChar (number % 16) := (Nat.digitChar_ne '\x7d' rfl).symm
      rw [toDigits_eq_concat, List.mem_append, List.mem_singleton]
      rintro (upper | last)
      · split at upper
        · exact absurd upper List.not_mem_nil
        · exact ih (number / 16) (by omega) upper
      · exact other last

/-- The character that a mark after a backslash stands for. -/
def unescape (mark : Char) : Char :=
  if mark = 'n' then '\n'
  else if mark = 'r' then '\r'
  else if mark = 't' then '\t'
  else if mark = '0' then '\x00'
  else mark

/-- A character is written as itself, as a backslash and a mark, or by its code point. -/
inductive Form (c : Char) : Prop where
  | plain (notQuote : c ≠ '"') (notSlash : c ≠ '\\') (own : escapeChar c = [c])
  | marked (mark : Char) (known : mark ≠ 'u') (back : unescape mark = c)
      (own : escapeChar c = ['\\', mark])
  | coded (own : escapeChar c = ['\\', 'u', '\x7b'] ++ hexDigits c ++ ['\x7d'])

theorem Form.of (c : Char) : Form c := by
  by_cases special : c = '"' ∨ c = '\\' ∨ c = '\n' ∨ c = '\r' ∨ c = '\t' ∨ c = '\x00'
  · rcases special with rfl | rfl | rfl | rfl | rfl | rfl
    · exact .marked '"' (by decide) rfl rfl
    · exact .marked '\\' (by decide) rfl rfl
    · exact .marked 'n' (by decide) rfl rfl
    · exact .marked 'r' (by decide) rfl rfl
    · exact .marked 't' (by decide) rfl rfl
    · exact .marked '0' (by decide) rfl rfl
  · simp only [not_or] at special
    obtain ⟨quote, slash, newline, carriage, tab, null⟩ := special
    by_cases hidden : isInvisible c = true
    · exact .coded (by simp only [escapeChar, quote, slash, newline, carriage, tab, null, hidden,
        if_true, if_false])
    · exact .plain quote slash (by simp only [escapeChar, quote, slash, newline, carriage, tab,
        null, hidden, Bool.false_eq_true, if_false])

/-- The first character tells whether a form is plain, the second one which of the others it is. -/
theorem escapeChar_delimited : SelfDelimiting escapeChar := by
  intro first second rest others same
  cases Form.of first with
  | plain _ firstBare firstOwn =>
      rw [firstOwn] at same
      cases Form.of second with
      | plain _ _ secondOwn =>
          rw [secondOwn] at same
          exact List.cons_eq_cons.mp same
      | marked mark _ _ secondOwn =>
          rw [secondOwn] at same
          exact absurd (List.head_eq_of_cons_eq same) firstBare
      | coded secondOwn =>
          rw [secondOwn] at same
          exact absurd (List.head_eq_of_cons_eq same) firstBare
  | marked mark firstKnown firstBack firstOwn =>
      rw [firstOwn] at same
      cases Form.of second with
      | plain _ secondBare secondOwn =>
          rw [secondOwn] at same
          exact absurd (List.head_eq_of_cons_eq same).symm secondBare
      | marked other _ secondBack secondOwn =>
          rw [secondOwn] at same
          obtain ⟨marks, later⟩ := List.cons_eq_cons.mp (List.tail_eq_of_cons_eq same)
          exact ⟨firstBack.symm.trans ((congrArg unescape marks).trans secondBack), later⟩
      | coded secondOwn =>
          rw [secondOwn] at same
          exact absurd (List.head_eq_of_cons_eq (List.tail_eq_of_cons_eq same)) firstKnown
  | coded firstOwn =>
      rw [firstOwn] at same
      cases Form.of second with
      | plain _ secondBare secondOwn =>
          rw [secondOwn] at same
          exact absurd (List.head_eq_of_cons_eq same).symm secondBare
      | marked other secondKnown _ secondOwn =>
          rw [secondOwn] at same
          exact absurd (List.head_eq_of_cons_eq (List.tail_eq_of_cons_eq same)).symm secondKnown
      | coded secondOwn =>
          rw [secondOwn] at same
          -- Both go on to the first closing brace, and no digit is one.
          simp only [List.append_assoc, List.append_cancel_left_eq] at same
          obtain ⟨digits, later⟩ := append_mark_inj (brace_not_mem_toDigits _)
            (brace_not_mem_toDigits _) same
          exact ⟨hexDigits_inj digits, later⟩

/-- No character is written in a form that begins with a bare quote. -/
theorem escapeChar_apart (c : Char) : Apart (escapeChar c) ['"'] := by
  have slash : ∀ rest, Apart ('\\' :: rest) ['"'] := fun rest => Apart.of_ne (by decide) rest []
  cases Form.of c with
  | plain notQuote _ own =>
      rw [own]
      exact Apart.of_ne notQuote [] []
  | marked mark _ _ own =>
      rw [own]
      exact slash [mark]
  | coded own =>
      rw [own]
      exact slash _

/-- Quoted text begins with a quote. -/
theorem quote_apart (text : String) {mark : Char} (other : '"' ≠ mark) (rest : List Char) :
    Apart (quote text).toList (mark :: rest) := by
  rw [quote, String.toList_ofList]
  exact Apart.of_ne other _ rest

theorem quote_delimited : SelfDelimiting fun text : String => (quote text).toList := by
  have written := ((escapeChar_delimited.sequence escapeChar_apart).framed ['"'] []).comp
    (fun _ _ => String.toList_inj.mp)
  simpa [quote, escape] using written

end CallShape.Text
