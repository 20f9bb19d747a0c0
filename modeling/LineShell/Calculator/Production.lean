import LineShell.Calculator.Fault
/-!
# Production — what a grammar rule does to the tokens left

A production reads from a cursor: the tokens left, and how deep the rule is nested.  It answers with a result, or halts
with a fault; either way the cursor says where.
-/
namespace LineShell.Calculator

/-- **The deepest nesting** that the grammar builds. Evaluation recurses once per level, so this bounds it as well. -/
def maxDepth : Nat := 128

/-- **The tokens left and the nesting reached.** -/
structure Cursor where
  rest : List Token
  depth : Nat
  deriving DecidableEq, Repr

/-- **Why a production gives up.** `stalled` means that its allowance of calls ran out, not that the tokens are
wrong. -/
inductive Halt where
  | fault (f : ParseFault)
  | stalled
  deriving DecidableEq, Repr

abbrev Production := EStateM Halt Cursor

namespace Production

variable {α : Type}

def fail (f : ParseFault) : Production α := throw (.fault f)

def stall : Production α := throw .stalled

def rest : Production (List Token) := do return (← get).rest

/-- **Go on with these tokens left.** -/
def resume (tokens : List Token) : Production Unit := modify fun c => { c with rest := tokens }

/-- **One level deeper**, up to the limit. -/
def descend : Production Unit := fun c =>
  if maxDepth ≤ c.depth then .error (.fault .tooDeep) c else .ok () { c with depth := c.depth + 1 }

def ascend (c : Cursor) : Cursor := { c with depth := c.depth - 1 }

/-- **A rule one level deeper**, and back up after it, however it ends. -/
def nested (rule : Production α) : Production α := fun c =>
  if maxDepth ≤ c.depth then .error (.fault .tooDeep) c
  else
    match rule { c with depth := c.depth + 1 } with
    | .ok a c' => .ok a (ascend c')
    | .error h c' => .error h (ascend c')

/-- **A rule whose levels are given back** when it succeeds. -/
def restored (rule : Production α) : Production α := fun c =>
  match rule c with
  | .ok a c' => .ok a { c' with depth := c.depth }
  | .error h c' => .error h c'

/-- **Read the one token that can follow**; a message calls it `wanted`. -/
def expect (token : Token) (wanted : String) : Production Unit := do
  match ← rest with
  | [] => fail (.expected wanted none)
  | found :: after => if found = token then resume after else fail (.expected wanted (some found))

/-- **Read a token if it is next**, and say whether it was. -/
def accept (token : Token) : Production Bool := do
  match ← rest with
  | [] => return false
  | found :: after =>
    if found = token then
      resume after
      return true
    else return false

/-- **Read the separators that are next**, however many. -/
def skipSeparators : Production Unit := modify fun c => { c with rest := c.rest.dropWhile (· = .separator) }

end Production

end LineShell.Calculator
