/-!
# Operator — the operators, and how tightly they bind
-/
namespace LineShell.Calculator

inductive BinOp where
  | or | and
  | eq | ne
  | le | ge | lt | gt
  | add | sub
  | mul | div | rem
  deriving DecidableEq, Repr

inductive UnOp where
  | neg | not
  deriving DecidableEq, Repr

/-- **The levels of binding**, from loosest to tightest. Operators of one level group from the left. -/
inductive Tier where
  | or | and | equality | comparison | additive | multiplicative
  deriving DecidableEq, Repr

def BinOp.text : BinOp → String
  | or => "||"
  | and => "&&"
  | eq => "=="
  | ne => "!="
  | le => "<="
  | ge => ">="
  | lt => "<"
  | gt => ">"
  | add => "+"
  | sub => "-"
  | mul => "*"
  | div => "/"
  | rem => "%"

def UnOp.text : UnOp → String
  | neg => "-"
  | not => "!"

def BinOp.tier : BinOp → Tier
  | or => .or
  | and => .and
  | eq | ne => .equality
  | le | ge | lt | gt => .comparison
  | add | sub => .additive
  | mul | div | rem => .multiplicative

/-- **The next tighter level**; past the tightest come the unary operators. -/
def Tier.tighter : Tier → Option Tier
  | or => some .and
  | and => some .equality
  | equality => some .comparison
  | comparison => some .additive
  | additive => some .multiplicative
  | multiplicative => none

end LineShell.Calculator
