import LineShell.Calculator.Evaluation
import LineShell.Calculator.Program
import LineShell.Evaluator.Basic
/-!
# Run — the calculator as an evaluator

A statement is parsed as a whole before any of it is evaluated, so a text that is no program changes nothing.
-/
namespace LineShell.Calculator

def ParseFault.toError (f : ParseFault) : EvalError := ⟨f.kind, f.message⟩

def EvalFault.toError (f : EvalFault) : EvalError := ⟨f.kind, f.message⟩

/-- **The value of a text, and the session after it.** -/
def run (text : String) (session : Session) : Except EvalError Value × Session :=
  match parse text with
  | .error f => (.error f.toError, session)
  | .ok program =>
    match evalBody program .nil session.vars with
    | .ok v vars => (.ok v, { session with vars })
    | .error f vars => (.error f.toError, { session with vars })

/-- **The calculator as an evaluator.** It remembers nothing and never breaks down. -/
def evaluator : Evaluator Unit where
  evaluate text session memory :=
    match run text session with
    | (.ok v, session) => ⟨.value v, session, memory⟩
    | (.error e, session) => ⟨.error e, session, memory⟩

end LineShell.Calculator
