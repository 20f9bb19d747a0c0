import LineShell.Statement.Balance
/-!
# Pending — the statement being typed

Lines are joined exactly as given; nothing is put between them.
-/
namespace LineShell.Statement

/-- **The text typed so far for one statement.** -/
structure Pending where
  text : String
  deriving DecidableEq, Repr

namespace Pending

def empty : Pending := ⟨""⟩

instance : Inhabited Pending := ⟨empty⟩

def append (pending : Pending) (chunk : String) : Pending := ⟨pending.text ++ chunk⟩

def isEmpty (pending : Pending) : Bool := pending.text.isEmpty

def balance (pending : Pending) : Balance := Balance.of pending.text

def isComplete (pending : Pending) : Bool := pending.balance.isComplete

end Pending

end LineShell.Statement
