import LineShell.Calculator.Operator
import LineShell.Value
/-!
# Expr — programs as trees
-/
namespace LineShell.Calculator

/-- **An expression.** A program is a list of them, one per statement. -/
inductive Expr where
  | lit (v : Value)
  | var (name : String)
  | assign (name : String) (value : Expr)
  | array (items : List Expr)
  | unary (op : UnOp) (operand : Expr)
  | binary (op : BinOp) (left right : Expr)
  /-- Conditions in order, each with its body, and the body for when none holds. -/
  | choice (arms : List (Expr × List Expr)) (otherwise : Option (List Expr))
  | block (body : List Expr)
  deriving Repr, Inhabited

end LineShell.Calculator
