set_option autoImplicit false

namespace CallShape.Text

/-- Code points from `first` to `last`, both included. -/
structure Span where
  first : Nat
  last : Nat
  deriving DecidableEq, Repr

def Span.contains (span : Span) (point : Nat) : Bool := span.first ≤ point && point ≤ span.last

namespace Invisible

/-- Control characters. -/
def controls : List Span := [⟨0x0000, 0x001F⟩, ⟨0x007F, 0x009F⟩]

/-- Separators of words, lines and paragraphs, without the space. -/
def separators : List Span :=
  [⟨0x00A0, 0x00A0⟩, ⟨0x1680, 0x1680⟩, ⟨0x2000, 0x200A⟩, ⟨0x2028, 0x2029⟩, ⟨0x202F, 0x202F⟩,
    ⟨0x205F, 0x205F⟩, ⟨0x3000, 0x3000⟩]

/-- Characters that are left out of a text on display: fillers, joiners, marks of direction,
variation selectors and tags. -/
def ignorables : List Span :=
  [⟨0x00AD, 0x00AD⟩, ⟨0x034F, 0x034F⟩, ⟨0x061C, 0x061C⟩, ⟨0x115F, 0x1160⟩, ⟨0x17B4, 0x17B5⟩,
    ⟨0x180B, 0x180F⟩, ⟨0x200B, 0x200F⟩, ⟨0x202A, 0x202E⟩, ⟨0x2060, 0x206F⟩, ⟨0x3164, 0x3164⟩,
    ⟨0xFE00, 0xFE0F⟩, ⟨0xFEFF, 0xFEFF⟩, ⟨0xFFA0, 0xFFA0⟩, ⟨0xFFF0, 0xFFF8⟩,
    ⟨0x1BCA0, 0x1BCA3⟩, ⟨0x1D173, 0x1D17A⟩, ⟨0xE0000, 0xE0FFF⟩]

/-- Other characters that only say how the text near them is laid out. -/
def formats : List Span :=
  [⟨0x0600, 0x0605⟩, ⟨0x06DD, 0x06DD⟩, ⟨0x070F, 0x070F⟩, ⟨0x0890, 0x0891⟩, ⟨0x08E2, 0x08E2⟩,
    ⟨0xFFF9, 0xFFFB⟩, ⟨0x110BD, 0x110BD⟩, ⟨0x110CD, 0x110CD⟩, ⟨0x13430, 0x1343F⟩]

/-- Private use, code points that are never characters, the gaps between the supplementary
ideographs and all that lies beyond them. -/
def unassigned : List Span :=
  [⟨0xE000, 0xF8FF⟩, ⟨0xFDD0, 0xFDEF⟩, ⟨0xFFFE, 0xFFFF⟩, ⟨0x1FFFE, 0x1FFFF⟩,
    ⟨0x2A6E0, 0x2A6FF⟩, ⟨0x2B81E, 0x2B81F⟩, ⟨0x2CEAE, 0x2CEAF⟩, ⟨0x2EBE1, 0x2EBEF⟩,
    ⟨0x2EE5E, 0x2F7FF⟩, ⟨0x2FA1E, 0x2FFFF⟩, ⟨0x3134B, 0x3134F⟩, ⟨0x3347A, 0xDFFFF⟩,
    ⟨0xE1000, 0x10FFFF⟩]

/-- Not all of them: combining marks such as U+0301 and code points below the supplementary
ideographs that are not assigned, such as U+0378, are left out. -/
def spans : List Span := controls ++ separators ++ ignorables ++ formats ++ unassigned

end Invisible

/-- Whether the character has no glyph of its own; the space counts as one that has. -/
def isInvisible (c : Char) : Bool := Invisible.spans.any (·.contains c.toNat)

end CallShape.Text
