import LineShell.Shell.Loop
/-!
# Run — a conversation from its first prompt to its end

Lines come from a source.  An interrupt may arrive as something read, or out of band while the source is being read; the
run asks for the latter before and after every read.
-/
namespace LineShell.Shell


/-- **One thing read from a source.** A line has its terminator, if it had one. -/
inductive Reading where
  | line (text : String)
  | interrupted
  | endOfInput
  deriving DecidableEq, Repr

/-- **A source of lines** with a state of type `τ`. A source that does not end gets shorter by every read, so every run
ends. -/
structure LineSource (τ : Type) where
  /-- Whether an interrupt came out of band since the last time; it is forgotten then. -/
  poll : τ → Bool × τ
  /-- Told of the session before every read. -/
  sync : Session → τ → τ
  /-- The next thing, read under a prompt; the source may write the prompt to the output. -/
  read : String → Output → τ → Except StreamFault Reading × Output × τ
  left : τ → Nat
  left_poll : ∀ s, left (poll s).2 ≤ left s
  left_sync : ∀ session s, left (sync session s) ≤ left s
  left_read : ∀ {prompt out s reading out' s'}, read prompt out s = (.ok reading, out', s') →
    reading ≠ .endOfInput → left s' < left s

inductive Exit where
  | command
  | endOfInput
  deriving DecidableEq, Repr

structure Ended (μ τ : Type) where
  exit : Except StreamFault Exit
  conversation : Conversation μ
  out : Output
  source : τ

def StreamFault.report (f : StreamFault) : String := "read error: " ++ f.message

/-- **What comes of one reading**: how the conversation ends, if it does. -/
def Setup.receive {μ : Type} (shell : Setup μ) (reading : Reading) (c : Conversation μ) (out : Output) :
    Except StreamFault (Option Exit) × Conversation μ × Output :=
  match reading with
  | .endOfInput => (.ok (some .endOfInput), c, out)
  | .interrupted => (.ok none, c.interrupt, out)
  | .line text =>
    let (went, c, out) := shell.step text c out
    (went.map fun
      | .exit => some .command
      | .goOn => none, c, out)

/-- **Where one turn leads**: to the end of the run, or to another turn. -/
inductive Turn (μ τ : Type) where
  | ended (result : Ended μ τ)
  | again (conversation : Conversation μ) (out : Output) (source : τ)

/-- **One turn**: ask for an interrupt, read, ask again, and see to what was read. An interrupt noticed after a read
falls before what was read. -/
def Setup.turn {μ τ : Type} (shell : Setup μ) (source : LineSource τ) (c : Conversation μ) (out : Output) (s : τ) :
    Turn μ τ :=
  let c := c.heed (source.poll s).1
  match source.read (shell.prompt c) out (source.sync c.session (source.poll s).2) with
  | (.error f, out, s) => .ended ⟨.error f, c, out, s⟩
  | (.ok reading, out, s) =>
    let polled := source.poll s
    match shell.receive reading (c.heed polled.1) out with
    | (.error f, c, out) => .ended ⟨.error f, c, out, polled.2⟩
    | (.ok (some exit), c, out) => .ended ⟨.ok exit, c, out, polled.2⟩
    | (.ok none, c, out) => .again c out polled.2

/-- **A turn that leads to another has read something.** -/
theorem Setup.left_of_turn {μ τ : Type} {shell : Setup μ} {source : LineSource τ} {c c' : Conversation μ}
    {out out' : Output} {s s' : τ} (h : shell.turn source c out s = .again c' out' s') :
    source.left s' < source.left s := by
  unfold turn at h
  simp only at h
  split at h
  · cases h
  · rename_i reading _ s₁ hread
    split at h
    · cases h
    · cases h
    · rename_i hr
      cases h
      have hne : reading ≠ .endOfInput := by
        rintro rfl
        simp [receive] at hr
      refine Nat.lt_of_le_of_lt (source.left_poll _) (Nat.lt_of_lt_of_le (source.left_read hread hne) ?_)
      exact Nat.le_trans (source.left_sync _ _) (source.left_poll _)

/-- **A conversation run to its end**, turn after turn: the exit command, the end of input, or a fault of a stream. -/
def Setup.run {μ τ : Type} (shell : Setup μ) (source : LineSource τ) (c : Conversation μ) (out : Output) (s : τ) :
    Ended μ τ :=
  match _ : shell.turn source c out s with
  | .ended result => result
  | .again c out s' => shell.run source c out s'
termination_by source.left s
decreasing_by exact left_of_turn (by assumption)

end LineShell.Shell
