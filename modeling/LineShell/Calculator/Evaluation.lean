import LineShell.Calculator.Expr
import LineShell.Calculator.Fault
import LineShell.Integer
import LineShell.Session
/-!
# Evaluation — the values of programs

Evaluation reads and writes bindings.  A fault ends it, and what was bound before the fault stays bound.
-/
namespace LineShell.Calculator

/-- **A computation over bindings** that may end in a fault. -/
abbrev Evaluation := EStateM EvalFault Bindings

/-- **The word an operation answers**, or overflow. -/
def fitting : Option Int64 → Except EvalFault Value
  | some n => .ok (.int n)
  | none => .error .overflow

/-- **An operator before a value.** Every value has a negation, and the integers have an opposite. -/
def UnOp.apply : UnOp → Value → Except EvalFault Value
  | not, v => .ok (.bool !v.isTruthy)
  | neg, .int n => fitting (Integer.neg? n)
  | neg, v => .error (.noUnary .neg v.kind)

def BinOp.onIntegers (op : BinOp) (a b : Int64) : Except EvalFault Value :=
  match op with
  | add => fitting (Integer.add? a b)
  | sub => fitting (Integer.sub? a b)
  | mul => fitting (Integer.mul? a b)
  | div => if b = 0 then .error .dividedByZero else fitting (Integer.floorDiv? a b)
  | rem => if b = 0 then .error .dividedByZero else fitting (Integer.floorMod? a b)
  | lt => .ok (.bool (decide (a < b)))
  | le => .ok (.bool (decide (a ≤ b)))
  | gt => .ok (.bool (decide (b < a)))
  | ge => .ok (.bool (decide (b ≤ a)))
  | eq | ne | and | or => .error (.noBinary op .integer)

/-- **An operator between values** that are both known. Any two values can be compared for equality, arrays can be
joined, and all else is for integers. -/
def BinOp.apply (op : BinOp) (left right : Value) : Except EvalFault Value :=
  match op, left, right with
  | eq, l, r => .ok (.bool (decide (l = r)))
  | ne, l, r => .ok (.bool (decide (l ≠ r)))
  | add, .array as, .array bs => .ok (.array (as ++ bs))
  | op, .int a, .int b => op.onIntegers a b
  | _, .int _, r => .error (.notInteger r.kind)
  | op, l, _ => .error (.noBinary op l.kind)

/-- **A result as a computation** that touches no binding. -/
def settle : Except EvalFault Value → Evaluation Value
  | .ok v => pure v
  | .error f => throw f

def valueOf (name : String) : Evaluation Value := do
  match (← get).lookup name with
  | some v => return v
  | none => throw (.undefined name)

mutual

def Expr.eval : Expr → Evaluation Value
  | .lit v => return v
  | .var name => valueOf name
  | .assign name value => do
    let v ← value.eval
    modify (·.bind name v)
    return v
  | .array items => return .array (← evalItems items [])
  | .unary op operand => do settle (op.apply (← operand.eval))
  | .binary .and left right => do
    let l ← left.eval
    if l.isTruthy then right.eval else return l
  | .binary .or left right => do
    let l ← left.eval
    if l.isTruthy then return l else right.eval
  | .binary op left right => do
    let l ← left.eval
    let r ← right.eval
    settle (op.apply l r)
  | .choice arms none => evalArms arms (pure .nil)
  | .choice arms (some otherwise) => evalArms arms (evalBody otherwise .nil)
  | .block body => evalBody body .nil

/-- **The values of items**, from left to right, after those known (last first). -/
def evalItems : List Expr → List Value → Evaluation (List Value)
  | [], known => return known.reverse
  | item :: rest, known => do evalItems rest ((← item.eval) :: known)

/-- **The value of the first arm whose condition is true**, or else what `otherwise` computes. -/
def evalArms : List (Expr × List Expr) → Evaluation Value → Evaluation Value
  | [], otherwise => otherwise
  | (test, body) :: rest, otherwise => do
    if (← test.eval).isTruthy then evalBody body .nil else evalArms rest otherwise

/-- **The value of the last of some statements**, or `last` where there are none. -/
def evalBody : List Expr → Value → Evaluation Value
  | [], last => return last
  | e :: rest, _ => do evalBody rest (← e.eval)

end

end LineShell.Calculator
