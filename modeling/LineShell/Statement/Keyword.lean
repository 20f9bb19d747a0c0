/-!
# Keyword — the words that open and close blocks, and the bracket pairs
-/
namespace LineShell.Statement

/-- **The words that open a block**; each asks for one `end`. Words outside the list (`while`, `case`) never do. -/
def blockWords : List String := ["class", "module", "def", "begin", "do", "if", "unless"]

/-- **The word that closes any block.** -/
def closingWord : String := "end"

inductive Bracket where
  | round
  | square
  | curly
  deriving DecidableEq, Repr

namespace Bracket

def opener : Bracket → Char
  | round => '('
  | square => '['
  | curly => '\x7b'

def closer : Bracket → Char
  | round => ')'
  | square => ']'
  | curly => '\x7d'

/-- **The three pairs**, in the order in which they are reported. -/
def all : List Bracket := [round, square, curly]

end Bracket

/-- **A bracket character**, opening or closing. -/
def isBracket (c : Char) : Bool := Bracket.all.any fun b => c == b.opener || c == b.closer

end LineShell.Statement
