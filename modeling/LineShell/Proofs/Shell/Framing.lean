import LineShell.CommandLine
import LineShell.Proofs.Calculator.Wording
import LineShell.Proofs.Shell.Preload
/-!
# Framing — a line of output for every statement

A shell over the calculator answers every text that it dispatches with one line, and writes nothing else before the exit
command.  So the lines of its output are the replies to the texts, each evaluated in the session that the ones before it
leave (`feed_framed`).
-/
namespace LineShell.Shell

open Calculator (run)
open CommandLine (shell)
open Text (OneLine)

/-- **The session after a text is dispatched**: what its evaluation leaves, and one statement more. -/
def serve (session : Session) (text : String) : Session :=
  { (run text session).2 with dispatched := session.dispatched + 1 }

def served (texts : List String) (session : Session) : Session := texts.foldl serve session

/-- **The replies to texts** dispatched one after another. -/
def replies : List String → Session → List String
  | [], _ => []
  | text :: texts, session => Setup.reply (run text session).1 :: replies texts (serve session text)

/-- **Texts on lines of their own**, one after another. -/
def framed (texts : List String) : String := String.join (texts.map (· ++ "\n"))

section Replies

variable {texts more : List String} {text : String} {session : Session}

theorem served_append : served (texts ++ more) session = served more (served texts session) := List.foldl_append

/-- **One more for every text**, in machine words. -/
theorem dispatched_served : (served texts session).dispatched = session.dispatched + .ofNat texts.length := by
  induction texts generalizing session with
  | nil => exact (UInt64.add_zero _).symm
  | cons text texts ih =>
    refine ih.trans ?_
    rw [serve, List.length_cons, Nat.add_comm, UInt64.ofNat_add, ← UInt64.add_assoc]
    rfl

theorem replies_append :
    replies (texts ++ more) session = replies texts session ++ replies more (served texts session) := by
  induction texts generalizing session with
  | nil => rfl
  | cons text texts ih => simp [replies, ih, served]

theorem length_replies : (replies texts session).length = texts.length := by
  induction texts generalizing session with
  | nil => rfl
  | cons text texts ih => simp [replies, ih]

/-- **Each text is evaluated in the session that the ones before it leave.** -/
theorem getElem?_replies (i : Nat) :
    (replies texts session)[i]? =
      texts[i]?.map fun text => Setup.reply (run text (served (texts.take i) session)).1 := by
  induction texts generalizing i session with
  | nil => rfl
  | cons text texts ih =>
    cases i with
    | zero => rfl
    | succ i => simp [replies, ih, served]

theorem oneLine_of_mem_replies {reply : String} (h : reply ∈ replies texts session) : OneLine reply := by
  induction texts generalizing session with
  | nil => cases h
  | cons text texts ih =>
    rcases List.mem_cons.1 h with rfl | h
    · exact Calculator.oneLine_reply text session
    · exact ih h

theorem framed_singleton : framed [text] = text ++ "\n" := by simp [framed]

theorem framed_append : framed (texts ++ more) = framed texts ++ framed more := by simp [framed]

/-- **The count of statements** is nothing to the calculator. -/
theorem run_counted (text : String) (session : Session) (n : UInt64) : run text { session with dispatched := n } =
    ((run text session).1, { (run text session).2 with dispatched := n }) := by
  unfold run
  cases Calculator.parse text with
  | error f => rfl
  | ok program =>
    simp only
    cases Calculator.evalBody program .nil session.vars <;> rfl

end Replies

/-- **From one state to another, texts are dispatched**, evaluated and answered in their turn, and nothing else is
written. -/
structure Framed (texts : List String) (before after : Conversation (Unit × List String) × Output) : Prop where
  recorded : after.1.memory.2 = texts.reverse ++ before.1.memory.2
  session : after.1.session = served texts before.1.session
  written : after.2.written = before.2.written ++ (framed (replies texts before.1.session)).toUTF8
  room : after.2.room = before.2.room

variable {texts more lines : List String} {before middle after : Conversation (Unit × List String) × Output}

theorem Framed.trans (h : Framed texts before middle) (h' : Framed more middle after) :
    Framed (texts ++ more) before after := by
  constructor
  · rw [h'.recorded, h.recorded, List.reverse_append, List.append_assoc]
  · rw [h'.session, h.session, served_append]
  · rw [h'.written, h.written, h.session, replies_append, framed_append, ByteArray.append_assoc]
    exact congrArg _ String.toByteArray_append.symm
  · rw [h'.room, h.room]

variable {config : Config} {line : String}

theorem dispatch_calculator (c : Conversation (Unit × List String)) :
    (shell config).recorded.dispatch c =
      ((run c.pending.text c.session).1,
        ⟨serve c.session c.pending.text, .empty, (), c.pending.text :: c.memory.2⟩) := by
  simp only [Setup.dispatch, Setup.recorded, Evaluator.recorded, shell, Calculator.evaluator, run_counted]
  rcases hr : run c.pending.text c.session with ⟨v | e, session⟩ <;> simp [Outcome.result, serve, hr]

theorem framed_step (c : Conversation (Unit × List String)) {out : Output} (h : (shell config).isExit line = false)
    (hroom : out.room = none) : ∃ texts, Framed texts (c, out) ((shell config).recorded.step line c out).2 := by
  have hexit : ¬(shell config).recorded.isExit line = true := ne_true_of_eq_false h
  cases hc : (c.append line).pending.isComplete with
  | false =>
    rw [Setup.step, if_neg hexit, if_neg (ne_true_of_eq_false hc)]
    exact ⟨[], rfl, rfl, by simp [replies, framed], rfl⟩
  | true =>
    rw [Setup.step, if_neg hexit, if_pos hc, dispatch_calculator]
    simp only [Output.putLine, Output.put_of_unlimited hroom]
    refine ⟨[(c.append line).pending.text], rfl, rfl, ?_, rfl⟩
    rw [replies, replies, framed_singleton]
    rfl

theorem framed_feed (c : Conversation (Unit × List String)) {out : Output}
    (h : ∀ line ∈ lines, (shell config).isExit line = false) (hroom : out.room = none) :
    ∃ texts, Framed texts (c, out) ((shell config).recorded.feed lines c out) := by
  -- By the lines: the texts of the first come before those of the others.
  induction lines generalizing c out with
  | nil => exact ⟨[], rfl, rfl, by simp [Setup.feed, replies, framed], rfl⟩
  | cons line lines ih =>
    obtain ⟨hline, hlines⟩ := List.forall_mem_cons.1 h
    obtain ⟨texts, hfirst⟩ := framed_step c hline hroom
    rw [Setup.feed_cons]
    generalize ((shell config).recorded.step line c out).2 = stepped at hfirst ⊢
    obtain ⟨more, hrest⟩ := ih stepped.1 hlines (hfirst.room.trans hroom)
    exact ⟨texts ++ more, hfirst.trans hrest⟩

/-- **A line of output for every statement.** Lines none of which is the exit command are answered by as many lines as
texts are dispatched: each is the reply to one text, evaluated in the session that those before it leave, and no reply
has a line feed of its own. The session counts one more for every text, in machine words. -/
theorem feed_framed (session : Session) (written : ByteArray)
    (h : ∀ line ∈ lines, (shell config).isExit line = false) :
    let fed := (shell config).recorded.feed lines (.start session ((), [])) ⟨written, none⟩
    let texts := fed.1.memory.2.reverse
    fed.1.session = served texts session ∧ fed.1.session.dispatched = session.dispatched + .ofNat texts.length ∧
      ∃ output : String, fed.2.written = written ++ output.toUTF8 ∧ (Text.lines output).length = texts.length ∧
        ∀ i text, texts[i]? = some text →
          let reply := Setup.reply (run text (served (texts.take i) session)).1
          (Text.lines output)[i]? = some (reply ++ "\n") ∧ OneLine reply := by
  intro fed texts
  have hroom : (⟨written, none⟩ : Output).room = none := rfl
  obtain ⟨given, hfed⟩ := framed_feed (.start session ((), [])) h hroom
  have htexts : given = texts := by
    have hrecorded : fed.1.memory.2 = given.reverse ++ [] := hfed.recorded
    simp [texts, hrecorded]
  subst htexts
  have hlines : Text.lines (framed (replies texts session)) = (replies texts session).map (· ++ "\n") :=
    Text.lines_join fun _ => oneLine_of_mem_replies
  have hsession : fed.1.session = served texts session := hfed.session
  refine ⟨hsession, hsession ▸ dispatched_served, framed (replies texts session), hfed.written, ?_, ?_⟩
  · rw [hlines, List.length_map, length_replies]
  · intro i text hi reply
    refine ⟨?_, Calculator.oneLine_reply text _⟩
    rw [hlines, List.getElem?_map, getElem?_replies, hi]
    rfl

/-- **A statement over two lines, and two faults that quote what is typed.** -/
theorem feed_framed_faults :
    let lines := ["x = [1,\n", "-2]\n", "x + y\n", "$\n"]
    let fed := (shell {}).recorded.feed lines (.start (.start .empty) ((), [])) ⟨.empty, none⟩
    (∀ line ∈ lines, (shell {}).isExit line = false) ∧
      fed.1.memory.2.reverse = ["x = [1,\n-2]\n", "x + y\n", "$\n"] ∧ fed.1.session.dispatched = 3 ∧
      ∃ output : String, fed.2.written = .empty ++ output.toUTF8 ∧ (Text.lines output).length = 3 ∧
        (Text.lines output)[0]? = some "[1, -2]\n" ∧
        (Text.lines output)[1]? = some "NameError: undefined local variable or method 'y'\n" ∧
        (Text.lines output)[2]? = some "SyntaxError: unexpected character '$'\n" := by
  intro lines fed
  have h : ∀ line ∈ lines, (shell {}).isExit line = false := by decide +kernel
  have htexts : fed.1.memory.2.reverse = ["x = [1,\n-2]\n", "x + y\n", "$\n"] := by decide +kernel
  obtain ⟨-, hdispatched, output, hwritten, hlength, hlines⟩ := feed_framed (.start .empty) .empty h
  rw [htexts] at hdispatched hlength hlines
  have hline (i : Nat) (text line : String) (hi : ["x = [1,\n-2]\n", "x + y\n", "$\n"][i]? = some text)
      (hreply : Setup.reply (run text (served (["x = [1,\n-2]\n", "x + y\n", "$\n"].take i) (.start .empty))).1 ++
        "\n" = line) : (Text.lines output)[i]? = some line :=
    (hlines i text hi).1.trans (congrArg some hreply)
  refine ⟨h, htexts, hdispatched, output, hwritten, hlength, ?_, ?_, ?_⟩
  · exact hline 0 _ _ rfl (by decide +kernel)
  · exact hline 1 _ _ rfl (by decide +kernel)
  · exact hline 2 _ _ rfl (by decide +kernel)

end LineShell.Shell
