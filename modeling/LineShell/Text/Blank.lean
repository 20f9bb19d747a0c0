import LineShell.Text.Range
/-!
# Blank — white space

The twenty-five characters with the Unicode property *White_Space*: the spaces of every width and every line break.
-/
namespace LineShell.Text

/-- **The white space**, as ascending closed ranges of code points. -/
def blankRanges : List (Nat × Nat) :=
  [(0x9, 0xD), (0x20, 0x20), (0x85, 0x85), (0xA0, 0xA0), (0x1680, 0x1680), (0x2000, 0x200A), (0x2028, 0x2029),
   (0x202F, 0x202F), (0x205F, 0x205F), (0x3000, 0x3000)]

/-- **White space**, line breaks included. The zero-width space is none. -/
def isBlank (c : Char) : Bool := inRanges c.toNat blankRanges

end LineShell.Text
