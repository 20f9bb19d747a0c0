import LineShell.Evaluator.Drill
import LineShell.Proofs.Shell.Turn
/-!
# Reach — the states that a shell can be in

A conversation is led on by lines, scripts, interrupts and runs, whatever becomes of their output.  All they ever do to
it is to drop what is pending, to leave a statement open, and to dispatch a complete one.  So what these three keep is
true of every state that can be reached (`Invariant.of_reachable`).
-/
namespace LineShell.Shell

/-- **The conversation that a turn leaves.** -/
def Turn.conversation {μ τ : Type} : Turn μ τ → Conversation μ
  | ended result => result.conversation
  | again c _ _ => c

namespace Setup

variable {μ : Type} (shell : Setup μ)

/-- **The conversations that a shell can reach** from a first one, with any sources and with any outputs, those that
fill up included. -/
inductive Reachable (first : Conversation μ) : Conversation μ → Prop
  | start : Reachable first first
  | interrupt {c} : Reachable first c → Reachable first c.interrupt
  | step {c} (line : String) (out : Output) : Reachable first c → Reachable first (shell.step line c out).2.1
  | preload {c} (script : String) : Reachable first c → Reachable first (shell.preload script c).2
  /-- A run that is cut short after a turn, as by an output that cannot be flushed. -/
  | turn {c} {τ : Type} (source : LineSource τ) (out : Output) (s : τ) :
      Reachable first c → Reachable first (shell.turn source c out s).conversation
  | run {c} {τ : Type} (source : LineSource τ) (out : Output) (s : τ) :
      Reachable first c → Reachable first (shell.run source c out s).conversation

/-- **A line of a script leaves what a line typed does**: a statement still open, or one dispatched. -/
theorem preloadLine_conversation (so : List EvalError × Conversation μ) (line : String) :
    (shell.preloadLine so line).2 =
      if (so.2.append line).pending.isComplete then (shell.dispatch (so.2.append line)).2 else so.2.append line := by
  unfold preloadLine
  simp only
  split
  · split <;> rename_i hd <;> rw [hd]
  · rfl

/-- **What a shell keeps**, whatever it is told. -/
structure Invariant (P : Conversation μ → Prop) : Prop where
  interrupt : ∀ c, P c → P c.interrupt
  opened : ∀ c line, P c → (c.append line).pending.isComplete = false → P (c.append line)
  dispatched : ∀ c line, P c → (c.append line).pending.isComplete = true → P (shell.dispatch (c.append line)).2

namespace Invariant

variable {shell} {P : Conversation μ → Prop} {c : Conversation μ} {out : Output}

theorem heed (hP : shell.Invariant P) (h : P c) (interrupted : Bool) : P (c.heed interrupted) := by
  cases interrupted with
  | false => exact h
  | true => exact hP.interrupt c h

theorem collected (hP : shell.Invariant P) (h : P c) (line : String) :
    P (if (c.append line).pending.isComplete then (shell.dispatch (c.append line)).2 else c.append line) := by
  split
  · rename_i hc
    exact hP.dispatched c line h hc
  · rename_i hc
    exact hP.opened c line h (Bool.eq_false_iff.2 hc)

theorem hear (hP : shell.Invariant P) (h : P c) (line : String) : P (shell.hear line c) := by
  unfold Setup.hear
  split
  · exact h
  · exact hP.collected h line

theorem step (hP : shell.Invariant P) (h : P c) (line : String) (out : Output) : P (shell.step line c out).2.1 := by
  rw [shell.step_conversation]
  exact hP.hear h line

theorem preloadLine (hP : shell.Invariant P) {so : List EvalError × Conversation μ} (h : P so.2) (line : String) :
    P (shell.preloadLine so line).2 := by
  rw [preloadLine_conversation]
  exact hP.collected h line

theorem preload (hP : shell.Invariant P) (h : P c) (script : String) : P (shell.preload script c).2 := by
  have hfold : ∀ (lines : List String) (so : List EvalError × Conversation μ), P so.2 →
      P (lines.foldl shell.preloadLine so).2 := by
    intro lines
    induction lines with
    | nil => exact fun so h => h
    | cons line lines ih => exact fun so h => ih _ (hP.preloadLine h line)
  exact hP.interrupt _ (hfold _ ([], c) h)

theorem receive (hP : shell.Invariant P) (h : P c) (reading : Reading) (out : Output) :
    P (shell.receive reading c out).2.1 := by
  cases reading with
  | line text =>
    have hstep := hP.step h text out
    simp only [Setup.receive]
    generalize shell.step text c out = stepped at hstep ⊢
    exact hstep
  | interrupted => exact hP.interrupt c h
  | endOfInput => exact h

variable {τ : Type} {source : LineSource τ}

theorem turn (hP : shell.Invariant P) (h : P c) (source : LineSource τ) (out : Output) (s : τ) :
    P (shell.turn source c out s).conversation := by
  unfold Setup.turn
  -- Whatever the polls answer, what is read is received by a conversation that has kept the property.
  have hbefore := hP.heed h (source.poll s).1
  simp only
  split
  · exact hbefore
  · rename_i reading out' s' hread
    have hafter := hP.receive (hP.heed hbefore (source.poll s').1) reading out'
    split <;> rename_i hr <;> rw [hr] at hafter <;> exact hafter

theorem run (hP : shell.Invariant P) {c : Conversation μ} (h : P c) (source : LineSource τ) (out : Output) (s : τ) :
    P (shell.run source c out s).conversation := by
  have hturn := hP.turn h source out s
  cases ht : shell.turn source c out s with
  | ended result =>
    rw [ht] at hturn
    rw [shell.run_of_ended ht]
    exact hturn
  | again c' out' s' =>
    rw [ht] at hturn
    rw [shell.run_of_again ht]
    exact hP.run hturn source out' s'
termination_by source.left s
decreasing_by exact left_of_turn ht

/-- **What a shell keeps is true of every state it can reach.** -/
theorem of_reachable (hP : shell.Invariant P) {first : Conversation μ} (hfirst : P first)
    (h : shell.Reachable first c) : P c := by
  induction h with
  | start => exact hfirst
  | interrupt _ ih => exact hP.interrupt _ ih
  | step line out _ ih => exact hP.step ih line out
  | preload script _ ih => exact hP.preload ih script
  | turn source out s _ ih => exact hP.turn ih source out s
  | run source out s _ ih => exact hP.run ih source out s

end Invariant

end Setup

/-- **Nothing is awaited exactly when nothing is pending.** -/
def Conversation.Settled {μ : Type} (c : Conversation μ) : Prop :=
  c.pending.isComplete = true ↔ c.pending.isEmpty = true

section Laws

variable {μ : Type} {c : Conversation μ} (shell : Setup μ)

theorem settled_of_empty (h : c.pending = .empty) : c.Settled := by
  rw [Conversation.Settled, h]
  decide +kernel

/-- **A statement that is open is not empty**, since the empty text is complete. -/
theorem settled_of_open (h : c.pending.isComplete = false) : c.Settled := by
  refine ⟨fun hc => absurd hc (ne_true_of_eq_false h), fun he => ?_⟩
  have hempty : c.pending = .empty := congrArg Statement.Pending.mk (String.isEmpty_iff.1 he)
  exact (settled_of_empty hempty).2 he

theorem invariant_settled : shell.Invariant Conversation.Settled where
  interrupt _ _ := settled_of_empty rfl
  opened _ _ _ hc := settled_of_open hc
  dispatched _ _ _ _ := settled_of_empty rfl

/-- **Every dispatch is counted once**, beginning with `n`, and gives the evaluator one text. -/
theorem invariant_counted (n : UInt64) (hs : ∀ text session memory,
    (shell.evaluator.evaluate text session memory).session.dispatched = session.dispatched) :
    shell.recorded.Invariant fun c => c.session.dispatched = n + .ofNat c.memory.2.length where
  interrupt _ h := h
  opened _ _ h _ := h
  dispatched c line h _ := by
    have hcounted : (shell.recorded.dispatch (c.append line)).2.session.dispatched = c.session.dispatched + 1 :=
      hs _ _ _
    rw [hcounted, h, (shell.dispatch_recorded (c.append line)).1, List.length_cons, UInt64.ofNat_add, UInt64.add_assoc]
    rfl

/-- **A sum of words is the sum of the numbers** where a word can hold that. -/
theorem toNat_add_ofNat {n : UInt64} {k : Nat} (h : n + k < UInt64.size) : (n + .ofNat k).toNat = n + k := by
  rw [UInt64.toNat_add, UInt64.toNat_ofNat', Nat.add_mod_mod, Nat.mod_eq_of_lt h]

/-- **Wherever a shell can get**, from nothing typed: nothing is awaited exactly when nothing is pending, and the prompt
says which. If the evaluator leaves the count of dispatches alone, it is what it was at first and one more for every
text that the evaluator was given, whatever came of it. The sum is one of machine words, from any first count; as long
as a word can hold it, it is the sum of the numbers too. -/
theorem reachable_settled_counted (session : Session) (memory : μ) :
    (∀ c, shell.Reachable (.start session memory) c →
      (c.pending.isComplete = true ↔ c.pending.isEmpty = true) ∧
        shell.prompt c = if c.pending.isComplete then shell.config.prompt else shell.config.continuation) ∧
      ((∀ text session memory,
          (shell.evaluator.evaluate text session memory).session.dispatched = session.dispatched) →
        ∀ c, shell.recorded.Reachable (.start session (memory, [])) c →
          c.session.dispatched = session.dispatched + .ofNat c.memory.2.length ∧
            (session.dispatched + c.memory.2.length < UInt64.size →
              (c.session.dispatched : Nat) = session.dispatched + c.memory.2.length)) := by
  refine ⟨fun c hc => ?_, fun hs c hc => ?_⟩
  · have hsettled : c.Settled := (invariant_settled shell).of_reachable (settled_of_empty rfl) hc
    refine ⟨hsettled, ?_⟩
    rw [Setup.prompt, Bool.eq_iff_iff.2 hsettled]
  · have hcounted : c.session.dispatched = session.dispatched + .ofNat c.memory.2.length :=
      (invariant_counted shell session.dispatched hs).of_reachable (UInt64.add_zero _).symm hc
    exact ⟨hcounted, fun h => hcounted ▸ toNat_add_ofNat h⟩

/-- **A call whose answer could not be written**, and a statement left open after it, in a session that has only one
count left before the last. -/
theorem reachable_settled_counted_unwritten :
    let shell : Setup Unit := ⟨.drill, {}⟩
    let session : Session := ⟨.empty, 18446744073709551614⟩
    let first : Conversation (Unit × List String) := .start session ((), [])
    let c := (shell.recorded.step "begin" (shell.recorded.step "boom" first (.limited 0)).2.1 .unlimited).2.1
    shell.recorded.Reachable first c ∧ shell.recorded.prompt c = "* " ∧ c.memory.2.length = 1 ∧
      c.session.dispatched = session.dispatched + .ofNat 1 ∧ (c.session.dispatched : Nat) = session.dispatched + 1 := by
  intro shell session first c
  have hc : shell.recorded.Reachable first c := .step "begin" .unlimited (.step "boom" (.limited 0) .start)
  have hs : ∀ text session memory,
      (shell.evaluator.evaluate text session memory).session.dispatched = session.dispatched := by
    intro text session memory
    show (Evaluator.drill.evaluate text session memory).session.dispatched = _
    unfold Evaluator.drill
    simp only
    repeat' split
    all_goals rfl
  have hlength : c.memory.2.length = 1 := by decide +kernel
  obtain ⟨hwords, hnumbers⟩ := (reachable_settled_counted shell session ()).2 hs c hc
  rw [hlength] at hwords hnumbers
  refine ⟨hc, ?_, hlength, hwords, hnumbers (by decide)⟩
  rw [((reachable_settled_counted shell.recorded session ((), [])).1 c hc).2]
  decide +kernel

end Laws

end LineShell.Shell
