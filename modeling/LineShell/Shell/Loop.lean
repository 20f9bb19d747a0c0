import LineShell.Config
import LineShell.Evaluator.Basic
import LineShell.Shell.Stream
import LineShell.Statement.Pending
import LineShell.Text.Line
/-!
# Loop — read, collect, test, dispatch

Lines are collected until they make a complete statement, which is then dispatched to the evaluator once.  The exit
command is honoured before anything else, in the middle of a statement too.
-/
namespace LineShell.Shell

open Statement (Pending)

/-- **What a shell is made of.** -/
structure Setup (μ : Type) where
  evaluator : Evaluator μ
  config : Config

/-- **Where a conversation stands**: the session, the statement being typed, and the evaluator's memory. -/
structure Conversation (μ : Type) where
  session : Session
  pending : Pending
  memory : μ

/-- **A conversation in which nothing is typed yet.** -/
def Conversation.start {μ : Type} (session : Session) (memory : μ) : Conversation μ := ⟨session, .empty, memory⟩

def Conversation.interrupt {μ : Type} (c : Conversation μ) : Conversation μ := { c with pending := .empty }

/-- **The statement in progress dropped if there was an interrupt.** -/
def Conversation.heed {μ : Type} (interrupted : Bool) (c : Conversation μ) : Conversation μ :=
  if interrupted then c.interrupt else c

section Heeding

variable {μ : Type} (c : Conversation μ)

@[simp] theorem Conversation.heed_false : c.heed false = c := rfl

@[simp] theorem Conversation.heed_true : c.heed true = c.interrupt := rfl

@[simp] theorem Conversation.interrupt_heed (raised : Bool) : (c.heed raised).interrupt = c.interrupt := by
  cases raised <;> rfl

end Heeding

def Conversation.append {μ : Type} (line : String) (c : Conversation μ) : Conversation μ :=
  { c with pending := c.pending.append line }

/-- **Whether the conversation goes on after a line.** -/
inductive Step where
  | goOn
  | exit
  deriving DecidableEq, Repr

namespace Setup

variable {μ : Type}

/-- **The prompt for the next line**: a fresh one when nothing is typed yet. -/
def prompt (shell : Setup μ) (c : Conversation μ) : String :=
  if c.pending.isEmpty then shell.config.prompt else shell.config.continuation

/-- **The statement in progress evaluated.** It is counted first, and it is gone afterwards whatever comes of it. -/
def dispatch (shell : Setup μ) (c : Conversation μ) : Except EvalError Value × Conversation μ :=
  let counted := { c.session with dispatched := c.session.dispatched + 1 }
  let done := shell.evaluator.evaluate c.pending.text counted c.memory
  (done.outcome.result, ⟨done.session, .empty, done.memory⟩)

def reply : Except EvalError Value → String
  | .ok v => v.text
  | .error e => e.text

def isExit (shell : Setup μ) (line : String) : Bool := Text.trim line == shell.config.exitCommand

/-- **One line.** A line that completes a statement is answered with one line. -/
def step (shell : Setup μ) (line : String) (c : Conversation μ) (out : Output) :
    Except StreamFault Step × Conversation μ × Output :=
  if shell.isExit line then
    let (wrote, out) := out.putLine shell.config.farewell
    (wrote.map fun _ => .exit, c, out)
  else
    let c := c.append line
    if c.pending.isComplete then
      let (result, c) := shell.dispatch c
      let (wrote, out) := out.putLine (reply result)
      (wrote.map fun _ => .goOn, c, out)
    else (.ok .goOn, c, out)

/-- **One line of a script**, after the errors so far (last first). -/
def preloadLine (shell : Setup μ) (so : List EvalError × Conversation μ) (line : String) :
    List EvalError × Conversation μ :=
  let c := so.2.append line
  if c.pending.isComplete then
    match shell.dispatch c with
    | (.ok _, c) => (so.1, c)
    | (.error e, c) => (e :: so.1, c)
  else (so.1, c)

/-- **A script run without a word.** Its errors are handed back in order, a statement that it leaves open is dropped,
and the exit command is a line like any other. -/
def preload (shell : Setup μ) (script : String) (c : Conversation μ) : List EvalError × Conversation μ :=
  let done := (Text.lines script).foldl shell.preloadLine ([], c)
  (done.1.reverse, done.2.interrupt)

end Setup

end LineShell.Shell
