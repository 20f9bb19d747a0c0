import LineShell.Session
/-!
# Evaluator — whoever executes a completed statement

The shell owns the session and hands it over with every statement.  An evaluator may keep a memory of its own, answers
with a value or an error, and may break down; the shell survives all of these.
-/
namespace LineShell

structure EvalError where
  kind : String
  message : String
  deriving DecidableEq, Repr

namespace EvalError

def ofSyntax (message : String) : EvalError := ⟨"SyntaxError", message⟩

def text (e : EvalError) : String := e.kind ++ ": " ++ e.message

end EvalError

/-- **How an evaluation ends.** A breakdown comes with a message or without. -/
inductive Outcome where
  | value (v : Value)
  | error (e : EvalError)
  | breakdown (message : Option String)
  deriving DecidableEq, Repr

/-- **What an outcome means to the shell**: a breakdown is an error like any other. -/
def Outcome.result : Outcome → Except EvalError Value
  | value v => .ok v
  | error e => .error e
  | breakdown (some message) => .error ⟨"Panic", message⟩
  | breakdown none => .error ⟨"Panic", "evaluator panicked"⟩

/-- **What is left after an evaluation**: its outcome, the session, and the evaluator's memory. -/
structure Evaluated (μ : Type) where
  outcome : Outcome
  session : Session
  memory : μ

/-- **An evaluator** with a memory of type `μ`. -/
structure Evaluator (μ : Type) where
  evaluate : String → Session → μ → Evaluated μ

/-- **An evaluator that also keeps the texts it was given**, last first. -/
def Evaluator.recorded {μ : Type} (evaluator : Evaluator μ) : Evaluator (μ × List String) where
  evaluate text session memory :=
    let done := evaluator.evaluate text session memory.1
    ⟨done.outcome, done.session, (done.memory, text :: memory.2)⟩

/-- **An evaluator that answers `nil` to everything.** -/
def Evaluator.silent : Evaluator Unit where
  evaluate _ session memory := ⟨.value .nil, session, memory⟩

end LineShell
