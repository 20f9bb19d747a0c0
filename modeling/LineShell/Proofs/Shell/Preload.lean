import LineShell.Evaluator.Drill
import LineShell.Proofs.Shell.Turn
/-!
# Preload — a script run without a word, and its lines typed

An evaluator can keep a log of what it was given and how that ended.  A script that is preloaded leaves a conversation
where its lines leave it, one step after the other, and the errors handed back are those in the log, which the steps
write out (`preload_fed`).
-/
namespace LineShell.Shell

/-- **One call of an evaluator**: the text it was given, and how that ended. -/
structure Call where
  text : String
  outcome : Outcome
  deriving DecidableEq, Repr

namespace Call

def error? (call : Call) : Option EvalError :=
  match call.outcome.result with
  | .ok _ => none
  | .error e => some e

/-- **The line that answers a call**, with its line feed. -/
def answer (call : Call) : String := Setup.reply call.outcome.result ++ "\n"

end Call

/-- **The answers to calls**, one line each. -/
def answers (calls : List Call) : ByteArray := (String.join (calls.map Call.answer)).toUTF8

theorem answers_nil : answers [] = .empty := String.toByteArray_empty

theorem answers_append (before after : List Call) : answers (before ++ after) = answers before ++ answers after := by
  rw [answers, List.map_append, String.join_append]
  exact String.toByteArray_append

theorem answers_singleton (call : Call) : answers [call] = call.answer.toUTF8 := by
  rw [answers, List.map_singleton, String.join_cons, String.join_nil, String.append_empty]

namespace Setup

variable {μ : Type} (shell : Setup μ)

/-- **A shell whose evaluator keeps a log of its calls**, last first. -/
def logged : Setup (μ × List Call) where
  evaluator.evaluate text session memory :=
    let done := shell.evaluator.evaluate text session memory.1
    ⟨done.outcome, done.session, (done.memory, ⟨text, done.outcome⟩ :: memory.2)⟩
  config := shell.config

/-- **Lines typed one after the other**, whatever comes of each. -/
def feed (lines : List String) (c : Conversation μ) (out : Output) : Conversation μ × Output :=
  lines.foldl (fun so line => (shell.step line so.1 so.2).2) (c, out)

theorem feed_cons (line : String) (lines : List String) (c : Conversation μ) (out : Output) :
    shell.feed (line :: lines) c out = shell.feed lines (shell.step line c out).2.1 (shell.step line c out).2.2 := by
  rw [feed, feed, List.foldl_cons]

theorem logged_dispatch (c : Conversation (μ × List Call)) : ∃ call : Call,
    (shell.logged.dispatch c).1 = call.outcome.result ∧
      (shell.logged.dispatch c).2.memory.2 = call :: c.memory.2 := ⟨⟨_, _⟩, rfl, rfl⟩

variable {shell} {line : String} {lines : List String}

/-- **One line, preloaded or typed**: both leave the same conversation, after the same calls. The errors among them are
handed back, and the answers to them are written. -/
theorem preloadLine_step (h : shell.isExit line = false) (c : Conversation (μ × List Call)) :
    ∃ calls : List Call, (shell.logged.hear line c).memory.2 = calls.reverse ++ c.memory.2 ∧
      (∀ errors, shell.logged.preloadLine (errors, c) line =
        ((calls.filterMap Call.error?).reverse ++ errors, shell.logged.hear line c)) ∧
      ∀ written, (shell.logged.step line c ⟨written, none⟩).2 =
        (shell.logged.hear line c, ⟨written ++ answers calls, none⟩) := by
  have hexit : ¬shell.logged.isExit line = true := ne_true_of_eq_false h
  cases hc : (c.append line).pending.isComplete with
  | false =>
    have hear := shell.logged.hear_of_open h hc
    refine ⟨[], by rw [hear]; rfl, fun errors => ?_, fun written => ?_⟩
    · simp only [preloadLine, hc, hear, Bool.false_eq_true, if_false]
      rfl
    · rw [hear, step, if_neg hexit, if_neg (ne_true_of_eq_false hc), answers_nil, ByteArray.append_empty]
  | true =>
    obtain ⟨call, hresult, hmemory⟩ := shell.logged_dispatch (c.append line)
    have hear := shell.logged.hear_of_complete h hc
    refine ⟨[call], by rw [hear, hmemory]; rfl, fun errors => ?_, fun written => ?_⟩
    · rcases hd : shell.logged.dispatch (c.append line) with ⟨result, c'⟩
      rw [hd] at hresult
      simp only [preloadLine, hc, hear, hd, if_true]
      rw [show result = call.outcome.result from hresult]
      cases hr : call.outcome.result with
      | ok _ => rw [List.filterMap_cons_none (by rw [Call.error?, hr])]; rfl
      | error e => rw [List.filterMap_cons_some (by rw [Call.error?, hr])]; rfl
    · rw [answers_singleton, step_eq, answer?, if_neg hexit, if_pos hc, hresult]
      rfl

/-- **Lines, preloaded or typed**, after any errors and on any conversation. -/
theorem foldl_preloadLine_feed (h : ∀ line ∈ lines, shell.isExit line = false) (c : Conversation (μ × List Call))
    (written : ByteArray) :
    ∃ calls : List Call, (shell.logged.feed lines c ⟨written, none⟩).1.memory.2 = calls.reverse ++ c.memory.2 ∧
      (∀ errors, lines.foldl shell.logged.preloadLine (errors, c) =
        ((calls.filterMap Call.error?).reverse ++ errors, (shell.logged.feed lines c ⟨written, none⟩).1)) ∧
      (shell.logged.feed lines c ⟨written, none⟩).2.written = written ++ answers calls := by
  -- By the lines: the calls of the first come before those of the others, in the log and in the output.
  induction lines generalizing c written with
  | nil => exact ⟨[], rfl, fun _ => rfl, by rw [answers_nil, ByteArray.append_empty]; rfl⟩
  | cons line lines ih =>
    obtain ⟨hline, hlines⟩ := List.forall_mem_cons.1 h
    obtain ⟨first, hmemory, hpreload, hstep⟩ := preloadLine_step hline c
    have hfeed : shell.logged.feed (line :: lines) c ⟨written, none⟩ =
        shell.logged.feed lines (shell.logged.hear line c) ⟨written ++ answers first, none⟩ := by
      rw [feed_cons, hstep]
    obtain ⟨calls, hcalls, herrors, hwritten⟩ := ih hlines (shell.logged.hear line c) (written ++ answers first)
    refine ⟨first ++ calls, ?_, fun errors => ?_, ?_⟩
    · rw [hfeed, hcalls, hmemory, List.reverse_append, List.append_assoc]
    · rw [hfeed, List.foldl_cons, hpreload, herrors, List.filterMap_append, List.reverse_append, List.append_assoc]
    · rw [hfeed, hwritten, answers_append, ByteArray.append_assoc]

/-- **A script preloaded is its lines typed, and an interrupt.** Where no line is the exit command, both leave the same
conversation after the same calls of the evaluator. The errors among the calls, which the steps write out among their
answers, are handed back in order, and nothing is pending afterwards. -/
theorem preload_fed (script : String) (c : Conversation (μ × List Call)) (written : ByteArray)
    (h : ∀ line ∈ Text.lines script, shell.isExit line = false) :
    let fed := shell.logged.feed (Text.lines script) c ⟨written, none⟩
    let preloaded := shell.logged.preload script c
    preloaded.2 = fed.1.interrupt ∧ preloaded.2.pending.isEmpty = true ∧
      ∃ calls : List Call, fed.1.memory.2 = calls.reverse ++ c.memory.2 ∧
        preloaded.1 = calls.filterMap Call.error? ∧ fed.2.written = written ++ answers calls := by
  intro fed preloaded
  obtain ⟨calls, hmemory, herrors, hwritten⟩ := foldl_preloadLine_feed h c written
  have hpreloaded : preloaded = (calls.filterMap Call.error?, fed.1.interrupt) := by
    show shell.logged.preload script c = _
    rw [preload, herrors, List.append_nil, List.reverse_reverse]
  refine ⟨?_, ?_, calls, hmemory, ?_, hwritten⟩
  · rw [hpreloaded]
  · rw [hpreloaded]
    rfl
  · rw [hpreloaded]

/-- **A script that ends a statement in progress, errs, breaks down and leaves a statement open.** -/
theorem preload_fed_failing :
    let shell : Setup Unit := ⟨.drill, {}⟩
    let c : Conversation (Unit × List Call) := ⟨.start .empty, ⟨"("⟩, ((), [])⟩
    (∀ line ∈ Text.lines "1)\nfail\nboom\n[", shell.isExit line = false) ∧
      (shell.logged.preload "1)\nfail\nboom\n[" c).1 =
        [⟨"Scripted", "fail"⟩, ⟨"Panic", "boom went the evaluator"⟩] ∧
      (shell.logged.preload "1)\nfail\nboom\n[" c).2 =
        (shell.logged.feed (Text.lines "1)\nfail\nboom\n[") c ⟨.empty, none⟩).1.interrupt := by
  intro shell c
  have h : ∀ line ∈ Text.lines "1)\nfail\nboom\n[", shell.isExit line = false := by decide +kernel
  exact ⟨h, by decide +kernel, (preload_fed "1)\nfail\nboom\n[" c .empty h).1⟩

end Setup

end LineShell.Shell
