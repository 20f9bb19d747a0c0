import LineShell.Integer
import LineShell.Statement.Keyword
import LineShell.Text.Lexeme
/-!
# Palette — the colours of a line that is being edited

Brackets, keywords, integers and the names of the session stand out.  Of several colours that fit the first applies.
-/
namespace LineShell.Editing

open Text (Piece)

/-- **The words that stand out besides the block words and `end`.** -/
def otherKeywords : List String := ["elsif", "else", "then", "true", "false", "nil"]

def isKeyword (word : String) : Bool :=
  word == Statement.closingWord || Statement.blockWords.contains word || otherKeywords.contains word

theorem isKeyword_iff {word : String} :
    isKeyword word = true ↔ word ∈ Statement.blockWords ++ otherKeywords ++ [Statement.closingWord] := by
  simp only [isKeyword, Bool.or_eq_true, beq_iff_eq, List.contains_iff_mem, List.mem_append, List.mem_singleton]
  rw [or_assoc, or_comm]

inductive Colour where
  | yellow
  | magenta
  | cyan
  | green
  deriving DecidableEq, Repr

def Colour.code : Colour → String
  | yellow => "\x1b[33m"
  | magenta => "\x1b[35m"
  | cyan => "\x1b[36m"
  | green => "\x1b[32m"

def resetCode : String := "\x1b[0m"

/-- **The colour of a word**, where `known` are the names of the session. -/
def colourOfWord (known : List String) (word : String) : Option Colour :=
  if isKeyword word then some .magenta
  else if Integer.isInteger word then some .cyan
  else if known.contains word then some .green
  else none

def colourOf (known : List String) : Piece → Option Colour
  | .word run => colourOfWord known (String.ofList run)
  | .mark c => if Statement.isBracket c then some .yellow else none
  | .blank _ => none

/-- **A text as it is shown**: between the two codes if it has a colour. -/
def dye (text : String) : Option Colour → String
  | some colour => colour.code ++ text ++ resetCode
  | none => text

def paint (known : List String) (piece : Piece) : String := dye piece.text (colourOf known piece)

def highlight (known : List String) (line : String) : String :=
  String.join ((Text.pieces line.toList).map (paint known))

end LineShell.Editing
