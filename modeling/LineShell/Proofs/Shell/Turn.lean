import LineShell.Shell.Run
/-!
# Turn — what one line, and one turn of a run, does to a conversation

The conversation after a line does not depend on the output (`step_conversation`), and an output with room for all lets
every line through (`step_of_unlimited`), so that a run over it is turn after turn of what is heard.
-/
namespace LineShell.Shell

/-- **A shell whose evaluator keeps the texts it is given.** -/
def Setup.recorded {μ : Type} (shell : Setup μ) : Setup (μ × List String) :=
  ⟨shell.evaluator.recorded, shell.config⟩

namespace Setup

variable {μ : Type} (shell : Setup μ)

theorem isExit_recorded (line : String) : shell.recorded.isExit line = shell.isExit line := rfl

def hear (line : String) (c : Conversation μ) : Conversation μ :=
  if shell.isExit line then c
  else if (c.append line).pending.isComplete then (shell.dispatch (c.append line)).2
  else c.append line

/-- **What the output gets to see of a line**, if anything. -/
def answer? (line : String) (c : Conversation μ) : Option String :=
  if shell.isExit line then some shell.config.farewell
  else if (c.append line).pending.isComplete then some (reply (shell.dispatch (c.append line)).1)
  else none

variable {line : String} {c : Conversation μ}

theorem hear_of_exit (h : shell.isExit line = true) : shell.hear line c = c := by
  rw [hear, if_pos h]

theorem hear_of_complete (h : shell.isExit line = false) (hc : (c.append line).pending.isComplete = true) :
    shell.hear line c = (shell.dispatch (c.append line)).2 := by
  rw [hear, if_neg (by rw [h]; decide), if_pos hc]

theorem hear_of_open (h : shell.isExit line = false) (hc : (c.append line).pending.isComplete = false) :
    shell.hear line c = c.append line := by
  rw [hear, if_neg (by rw [h]; decide), if_neg (by rw [hc]; decide)]

/-- **A step is what is heard, and what is answered put out.** -/
theorem step_eq (line : String) (c : Conversation μ) (out : Output) :
    shell.step line c out =
      match shell.answer? line c with
      | none => (.ok .goOn, shell.hear line c, out)
      | some text =>
        ((out.putLine text).1.map fun _ => if shell.isExit line then .exit else .goOn, shell.hear line c,
          (out.putLine text).2) := by
  unfold step answer? hear
  by_cases h : shell.isExit line = true
  · simp only [if_pos h]
  · simp only [if_neg h]
    split <;> rfl

/-- **What is heard does not depend on the output.** -/
theorem step_conversation (line : String) (c : Conversation μ) (out : Output) :
    (shell.step line c out).2.1 = shell.hear line c := by
  rw [step_eq]
  split <;> rfl

/-- **With room for all, a line is let through.** -/
theorem step_of_unlimited (line : String) (c : Conversation μ) {out : Output} (h : out.room = none) :
    ∃ out', out'.room = none ∧
      shell.step line c out = (.ok (if shell.isExit line then .exit else .goOn), shell.hear line c, out') := by
  have hput : ∀ text, out.putLine text = (.ok (), { out with written := out.written ++ (text ++ "\n").toUTF8 }) :=
    fun text => Output.put_of_unlimited h (text ++ "\n")
  rw [step_eq]
  split
  · rename_i hn
    have hexit : shell.isExit line ≠ true := fun he => by rw [answer?, if_pos he] at hn; cases hn
    exact ⟨out, h, by rw [if_neg hexit]⟩
  · rw [hput]
    refine ⟨_, ?_, rfl⟩
    exact h

/-- **A dispatch is recorded**, and leaves nothing pending. -/
theorem dispatch_recorded (c : Conversation (μ × List String)) :
    (shell.recorded.dispatch c).2.memory.2 = c.pending.text :: c.memory.2 ∧
      (shell.recorded.dispatch c).2.pending = .empty := ⟨rfl, rfl⟩

/-- **With room for all, a line is received as it is stepped**, and only the exit command ends the conversation. -/
theorem receive_of_unlimited (line : String) (c : Conversation μ) {out : Output} (h : out.room = none) :
    shell.receive (.line line) c out =
      (.ok (if shell.isExit line then some .command else none), (shell.step line c out).2) := by
  obtain ⟨out', -, hstep⟩ := shell.step_of_unlimited line c h
  simp only [receive, hstep]
  by_cases he : shell.isExit line = true
  · rw [if_pos he, if_pos he]
    rfl
  · rw [if_neg he, if_neg he]
    rfl

/-- **With room for all, what is received is heard**, and nothing fails. -/
theorem receive_line (line : String) (c : Conversation μ) {out : Output} (h : out.room = none) :
    ∃ out', out'.room = none ∧ shell.receive (.line line) c out =
      (.ok (if shell.isExit line then some .command else none), shell.hear line c, out') := by
  obtain ⟨out', hroom, hstep⟩ := shell.step_of_unlimited line c h
  refine ⟨out', hroom, ?_⟩
  rw [shell.receive_of_unlimited line c h, hstep]

section Run

variable {τ : Type} {source : LineSource τ} {out : Output} {s : τ}

/-- **What a turn makes of a reading**, once the polls are seen to. -/
def conclude (reading : Reading) (c : Conversation μ) (out : Output) (s : τ) : Turn μ τ :=
  match shell.receive reading c out with
  | (.error f, c, out) => .ended ⟨.error f, c, out, s⟩
  | (.ok (some exit), c, out) => .ended ⟨.ok exit, c, out, s⟩
  | (.ok none, c, out) => .again c out s

/-- **What a turn makes of a line** where the output has room for all. -/
theorem conclude_line (line : String) (c : Conversation μ) (s : τ) (h : out.room = none) :
    shell.conclude (.line line) c out s =
      if shell.isExit line then .ended ⟨.ok .command, (shell.step line c out).2.1, (shell.step line c out).2.2, s⟩
      else .again (shell.step line c out).2.1 (shell.step line c out).2.2 s := by
  unfold conclude
  rw [shell.receive_of_unlimited line c h]
  by_cases he : shell.isExit line = true
  · rw [if_pos he, if_pos he]
  · rw [if_neg he, if_neg he]

theorem turn_of_read {reading : Reading} {out' : Output} {s' : τ}
    (h : source.read (shell.prompt (c.heed (source.poll s).1)) out
      (source.sync (c.heed (source.poll s).1).session (source.poll s).2) = (.ok reading, out', s')) :
    shell.turn source c out s =
      shell.conclude reading ((c.heed (source.poll s).1).heed (source.poll s').1) out' (source.poll s').2 := by
  unfold turn
  simp only [h]
  rfl

theorem turn_of_fault {f : StreamFault} {out' : Output} {s' : τ}
    (h : source.read (shell.prompt (c.heed (source.poll s).1)) out
      (source.sync (c.heed (source.poll s).1).session (source.poll s).2) = (.error f, out', s')) :
    shell.turn source c out s = .ended ⟨.error f, c.heed (source.poll s).1, out', s'⟩ := by
  unfold turn
  simp only [h]

theorem run_of_ended {result : Ended μ τ} (h : shell.turn source c out s = .ended result) :
    shell.run source c out s = result := by
  rw [run]
  split <;> simp_all

theorem run_of_again {c' : Conversation μ} {out' : Output} {s' : τ}
    (h : shell.turn source c out s = .again c' out' s') : shell.run source c out s = shell.run source c' out' s' := by
  rw [run]
  split <;> simp_all

end Run

end Setup

end LineShell.Shell
