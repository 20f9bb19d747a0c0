import LineShell.Editing.Completion
/-!
# Assistant — what a line editor asks for while a line is typed

The assistant knows the names of the session.  It colours the line and completes words; whether a statement is complete
is for the shell to decide, so every line is accepted.
-/
namespace LineShell.Editing

/-- **What the assistant knows**: the names of the session, in ascending order. -/
structure Assistant where
  names : List String := []
  deriving DecidableEq, Repr

namespace Assistant

/-- **The assistant told of other names**, in any order and any number of times each. -/
def update (_before : Assistant) (names : List String) : Assistant := ⟨Text.ascending names⟩

/-- **The line as it is shown**, wherever the cursor is. -/
def highlight (assistant : Assistant) (line : String) (_offset : Nat) : String :=
  Editing.highlight assistant.names line

/-- **Whether a keystroke has the line shown anew**: every one does. -/
def repaints (_assistant : Assistant) (_line : String) (_offset : Nat) : Bool := true

/-- **A prompt as it is shown**, in no colour. -/
def showPrompt (_assistant : Assistant) (prompt : String) : String := prompt

/-- **A hint for the rest of the line**: none is given. -/
def hint? (_assistant : Assistant) (_line : String) (_offset : Nat) : Option String := none

/-- **The completion of the word before a byte offset**, if the line can be cut there. -/
def complete? (assistant : Assistant) (line : String) (offset : Nat) : Option Completion :=
  Editing.complete? assistant.names line offset

end Assistant

end LineShell.Editing
