import LineShell.Calculator.Operator
/-!
# Token — the tokens of a program
-/
namespace LineShell.Calculator

/-- **An operator or punctuation token.** The minus sign is the binary operator here; the grammar decides. -/
inductive Symbol where
  | op (operator : BinOp)
  | bang
  | assign
  | openRound
  | closeRound
  | openSquare
  | closeSquare
  | comma
  deriving DecidableEq, Repr

def Symbol.text : Symbol → String
  | op operator => operator.text
  | bang => "!"
  | assign => "="
  | openRound => "("
  | closeRound => ")"
  | openSquare => "["
  | closeSquare => "]"
  | comma => ","

/-- **A token.** `separator` is the end of a statement, a line feed or a semicolon. -/
inductive Token where
  | int (n : Int64)
  | ident (name : String)
  | symbol (s : Symbol)
  | separator
  deriving DecidableEq, Repr

/-- **A token as a message names it.** -/
def Token.text : Token → String
  | int n => toString n.toInt
  | ident name => name
  | symbol s => s.text
  | separator => "end of statement"

end LineShell.Calculator
