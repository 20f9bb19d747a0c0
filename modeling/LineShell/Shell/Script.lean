import LineShell.Shell.Run
/-!
# Script — a source that follows a script

Every event is given beforehand, a line, an interrupt, a signal, a failure, so that a run over a script shows what a
shell does in any situation.  The script also notes what every read was like.
-/
namespace LineShell.Shell


/-- **One event of a script.** A signal is an interrupt out of band: the read that meets it goes on to the next
event. -/
inductive Event where
  | line (text : String)
  | fail (message : String)
  | interrupt
  | endOfInput
  | signal
  deriving DecidableEq, Repr

/-- **What a read was like**: the bytes written before it, its prompt, and the names bound then. -/
structure Glance where
  written : Nat
  prompt : String
  names : List String
  deriving DecidableEq, Repr

/-- **A script and how far it is read.** -/
structure Script where
  events : List Event
  /-- The answers to give when asked for an interrupt, if they are scripted as well. -/
  polls : Option (List Bool) := none
  /-- Whether a signal came that nobody asked about yet. -/
  raised : Bool := false
  /-- The names bound when the source was last told of the session. -/
  names : List String := []
  /-- What the reads were like, last first. -/
  reads : List Glance := []
  deriving DecidableEq, Repr

namespace Script

/-- **The next reading among events**, the events after it, and whether a signal is raised then. -/
def next : List Event → Bool → Except StreamFault Reading × List Event × Bool
  | [], raised => (.ok .endOfInput, [], raised)
  | .signal :: events, _ => next events true
  | .line text :: events, raised => (.ok (.line text), events, raised)
  | .fail message :: events, raised => (.error (.other message), events, raised)
  | .interrupt :: events, raised => (.ok .interrupted, events, raised)
  | .endOfInput :: events, raised => (.ok .endOfInput, events, raised)

/-- **A reading other than the end takes an event.** -/
theorem length_next {reading : Reading} : ∀ {events : List Event} {raised : Bool} {after : List Event}
    {raised' : Bool}, next events raised = (.ok reading, after, raised') → reading ≠ .endOfInput →
      after.length < events.length
  | [], _, _, _, h, hr => by
    cases h
    exact absurd rfl hr
  | .signal :: _, _, _, _, h, hr => Nat.lt_succ_of_lt (length_next (by exact h) hr)
  | .line _ :: _, _, _, _, h, _ => by cases h; exact Nat.lt_succ_self _
  | .interrupt :: _, _, _, _, h, _ => by cases h; exact Nat.lt_succ_self _
  | .fail _ :: _, _, _, _, h, _ => by cases h
  | .endOfInput :: _, _, _, _, h, _ => by cases h; exact Nat.lt_succ_self _

/-- **The next scripted answer, or whether a signal is raised**, which it then is no longer. -/
def poll (script : Script) : Bool × Script :=
  match script.polls with
  | none => (script.raised, { script with raised := false })
  | some [] => (false, script)
  | some (answer :: answers) => (answer, { script with polls := some answers })

/-- **The next reading**, and a note of what the read was like. -/
def read (prompt : String) (out : Output) (script : Script) : Except StreamFault Reading × Output × Script :=
  let (reading, events, raised) := next script.events script.raised
  (reading, out,
    { script with
      events, raised,
      reads := ⟨out.written.size, prompt, script.names⟩ :: script.reads })

def source : LineSource Script where
  poll := poll
  sync session script := { script with names := session.vars.names }
  read := read
  left script := script.events.length
  left_poll script := by
    unfold poll
    split <;> exact Nat.le_refl _
  left_sync _ _ := Nat.le_refl _
  left_read {prompt out script reading out' script'} h hr := by
    have hread : (next script.events script.raised).1 = .ok reading := congrArg Prod.fst h
    have hrest : (read prompt out script).2.2 = script' := congrArg (·.2.2) h
    subst hrest
    exact length_next (Prod.ext hread rfl) hr

theorem read_of_next {script : Script} {reading : Except StreamFault Reading} {events : List Event} {raised : Bool}
    (h : next script.events script.raised = (reading, events, raised)) {prompt : String} {out : Output} :
    source.read prompt out script = (reading, out,
      { script with
        events, raised,
        reads := ⟨out.written.size, prompt, script.names⟩ :: script.reads }) := by
  show read prompt out script = _
  unfold read
  simp only [h]

end Script

end LineShell.Shell
