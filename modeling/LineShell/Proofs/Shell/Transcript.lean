import LineShell.Proofs.Shell.Grouping
import LineShell.Proofs.Shell.Turn
import LineShell.Shell.Script
/-!
# Transcript — what a run hands to its evaluator

A run over a script is told by its transcript: the lines read, and the interrupts between them, wherever they came from.
`run_dispatches` says that the texts dispatched are the groups of lines that the greedy cut makes between interrupts.
-/
namespace LineShell.Shell

/-- **The event that gives a reading.** -/
def Reading.event : Reading → Event
  | line text => .line text
  | interrupted => .interrupt
  | endOfInput => .endOfInput

/-- **The script of some readings**, with the answers to be given when asked for an interrupt. -/
def Script.following (readings : List Reading) (polls : List Bool) : Script :=
  { events := readings.map Reading.event, polls := some polls }

/-- **One turn as the source makes it**: what is read, and the answers to the polls before and after. -/
structure Moment where
  before : Bool
  reading : Reading
  after : Bool

/-- **The turns that readings and answers make.** The readings end in the end of input, and answers that run out are
no. -/
def moments : List Reading → List Bool → List Moment
  | [], polls => [⟨polls.headD false, .endOfInput, polls.tail.headD false⟩]
  | reading :: readings, polls =>
    ⟨polls.headD false, reading, polls.tail.headD false⟩ :: moments readings polls.tail.tail

/-- **The resets of the polls of one turn.** Both fall before what the turn reads. -/
def Moment.resets (m : Moment) : List Mark :=
  (if m.before then [.reset] else []) ++ if m.after then [.reset] else []

namespace Setup

variable {μ : Type} (shell : Setup μ)

/-- **Whether a reading ends the run.** -/
def ends : Reading → Bool
  | .line text => shell.isExit text
  | .interrupted => false
  | .endOfInput => true

/-- **The lines and resets of a run**, up to the reading that ends it. -/
def transcript : List Moment → List Mark
  | [] => []
  | m :: later =>
    m.resets ++
      match m.reading with
      | .line text => if shell.isExit text then [] else .line text :: transcript later
      | .interrupted => .reset :: transcript later
      | .endOfInput => []

/-- **The lines read** before the reading that ends the run. -/
def linesRead (readings : List Reading) : List String :=
  (readings.takeWhile (!shell.ends ·)).filterMap fun
    | .line text => some text
    | _ => none

/-- **How a run ends**: by command if what ends it is a line. -/
def exitOf (readings : List Reading) : Exit :=
  match readings.find? shell.ends with
  | some (.line _) => .command
  | _ => .endOfInput

/-- **The readings left** after the one that ends the run. -/
def unread (readings : List Reading) : List Reading := (readings.dropWhile (!shell.ends ·)).tail

variable {shell} {reading : Reading} {readings : List Reading}

theorem exitOf_of_goes_on (h : shell.ends reading = false) :
    shell.exitOf (reading :: readings) = shell.exitOf readings := by
  unfold exitOf
  rw [List.find?_cons_of_neg (by rw [h]; decide)]

theorem unread_of_goes_on (h : shell.ends reading = false) :
    shell.unread (reading :: readings) = shell.unread readings := by
  unfold unread
  rw [List.dropWhile_cons_of_pos (by rw [h]; rfl)]

theorem exitOf_of_exit {text : String} (h : shell.isExit text = true) :
    shell.exitOf (.line text :: readings) = .command := by
  unfold exitOf
  rw [List.find?_cons_of_pos (show shell.ends (.line text) = true from h)]

theorem unread_of_ends (h : shell.ends reading = true) : shell.unread (reading :: readings) = readings := by
  unfold unread
  rw [List.dropWhile_cons_of_neg (by rw [h]; decide)]
  rfl

end Setup

theorem collected_resets (m : Moment) (typed : List String) (marks : List Mark) :
    collected typed (m.resets ++ marks) = collected (if m.before || m.after then [] else typed) marks := by
  obtain ⟨before, reading, after⟩ := m
  cases before <;> cases after <;> rfl

section Heeding

variable {μ : Type} {c : Conversation μ} {typed : List String}

theorem heed_heed (before after : Bool) : (c.heed before).heed after = c.heed (before || after) := by
  cases before <;> cases after <;> rfl

theorem heed_memory (interrupted : Bool) : (c.heed interrupted).memory = c.memory := by
  cases interrupted <;> rfl

theorem heed_pending (interrupted : Bool) (h : c.pending.text = String.join typed) :
    (c.heed interrupted).pending.text = String.join (if interrupted then [] else typed) := by
  cases interrupted
  · exact h
  · rfl

theorem append_pending (line : String) (h : c.pending.text = String.join typed) :
    (c.append line).pending.text = String.join (typed ++ [line]) := by
  rw [String.join_append, String.join_cons, String.join_nil, String.append_empty, ← h]
  rfl

theorem append_isComplete (line : String) (h : c.pending.text = String.join typed) :
    (c.append line).pending.isComplete = completes (typed ++ [line]) := by
  rw [completes, ← append_pending line h]
  rfl

end Heeding

/-- **A turn over a script of readings**: both polls are heeded before what is read is received. -/
theorem turn_scheduled {μ : Type} (shell : Setup μ) (c : Conversation μ) (out : Output) {s : Script}
    {readings : List Reading} {polls : List Bool} (he : s.events = readings.map Reading.event)
    (hp : s.polls = some polls) :
    ∃ s', s'.events = readings.tail.map Reading.event ∧ s'.polls = some polls.tail.tail ∧
      shell.turn Script.source c out s =
        match shell.receive (readings.headD .endOfInput) (c.heed (polls.headD false || polls.tail.headD false)) out with
        | (.error f, c, out) => .ended ⟨.error f, c, out, s'⟩
        | (.ok (some exit), c, out) => .ended ⟨.ok exit, c, out, s'⟩
        | (.ok none, c, out) => .again c out s' := by
  obtain ⟨events, _, raised, names, reads⟩ := s
  subst he hp
  have hnext : Script.next (readings.map Reading.event) raised =
      (.ok (readings.headD .endOfInput), readings.tail.map Reading.event, raised) := by
    cases readings with
    | nil => rfl
    | cons reading readings => cases reading <;> rfl
  rw [← heed_heed]
  -- The answers left after two polls are what they are by how many there are.
  rcases polls with _ | ⟨before, _ | ⟨after, later⟩⟩ <;>
    exact ⟨_, rfl, rfl, shell.turn_of_read (Script.read_of_next hnext)⟩

/-- **What a run has collected** when it ends: the texts dispatched before it and in it, and the lines left over. -/
structure Ended.Collects {μ τ : Type} (ended : Ended (μ × List String) τ) (before : List String)
    (made : List String × List String) : Prop where
  texts : ended.conversation.memory.2 = made.1.reverse ++ before
  left : ended.conversation.pending.text = String.join made.2

theorem hear_collects {μ : Type} {shell : Setup μ} {text : String} {c : Conversation (μ × List String)}
    {typed : List String} (hexit : shell.isExit text = false) (ht : c.pending.text = String.join typed) :
    ∃ before typed', (shell.recorded.hear text c).memory.2 = before ++ c.memory.2 ∧
      (shell.recorded.hear text c).pending.text = String.join typed' ∧
      ∀ marks, collected typed (.line text :: marks) =
        (before.reverse ++ (collected typed' marks).1, (collected typed' marks).2) := by
  have hc := append_isComplete text ht
  cases hw : completes (typed ++ [text]) with
  | true =>
    rw [hw] at hc
    rw [shell.recorded.hear_of_complete hexit hc]
    obtain ⟨hmemory, hpending⟩ := shell.dispatch_recorded (c.append text)
    refine ⟨[String.join (typed ++ [text])], [], ?_, by rw [hpending]; rfl, fun marks => collected_line hw⟩
    rw [hmemory, append_pending text ht]
    rfl
  | false =>
    rw [hw] at hc
    rw [shell.recorded.hear_of_open hexit hc]
    exact ⟨[], typed ++ [text], rfl, append_pending text ht, fun marks => collected_line_of_not hw⟩

/-- **What a run collects**: with the lines `typed` pending, the texts dispatched and the lines left over are those that
its transcript makes; it ends as its first ending reading says, and reads nothing after that. -/
theorem run_collects {μ : Type} (shell : Setup μ) (readings : List Reading) :
    ∀ (polls : List Bool) (c : Conversation (μ × List String)) (out : Output) (s : Script) (typed : List String),
      out.room = none → s.events = readings.map Reading.event → s.polls = some polls →
      c.pending.text = String.join typed →
      let ended := shell.recorded.run Script.source c out s
      ended.Collects c.memory.2 (collected typed (shell.transcript (moments readings polls))) ∧
        ended.exit = .ok (shell.exitOf readings) ∧
        ended.source.events = (shell.unread readings).map Reading.event := by
  -- By the readings: a turn takes one of them and two answers, and tells what is typed when the next turn starts.
  induction readings with
  | nil =>
    intro polls c out s typed hroom he hp ht
    obtain ⟨s', he', -, hturn⟩ := turn_scheduled shell.recorded c out he hp
    rw [shell.recorded.run_of_ended hturn, moments, Setup.transcript, collected_resets]
    exact ⟨⟨congrArg Prod.snd (heed_memory _), heed_pending _ ht⟩, rfl, he'⟩
  | cons reading readings ih =>
    intro polls c out s typed hroom he hp ht
    obtain ⟨s', he', hp', hturn⟩ := turn_scheduled shell.recorded c out he hp
    rw [List.headD_cons] at hturn
    rw [moments, Setup.transcript, collected_resets]
    simp only
    generalize (polls.headD false || polls.tail.headD false) = heeded at hturn ⊢
    have hpend := heed_pending heeded ht
    have hmem := congrArg Prod.snd (heed_memory (c := c) heeded)
    cases reading with
    | line text =>
      obtain ⟨out', hroom', hrec⟩ := shell.recorded.receive_line text (c.heed heeded) hroom
      rw [hrec, Setup.isExit_recorded] at hturn
      by_cases hexit : shell.isExit text = true
      · simp only [if_pos hexit] at hturn ⊢
        rw [shell.recorded.run_of_ended hturn, shell.recorded.hear_of_exit hexit, Setup.exitOf_of_exit hexit,
          Setup.unread_of_ends (show shell.ends (.line text) = true from hexit)]
        exact ⟨⟨hmem, hpend⟩, rfl, he'⟩
      · simp only [if_neg hexit] at hturn ⊢
        have hgoes : shell.ends (.line text) = false := Bool.not_eq_true _ ▸ hexit
        rw [shell.recorded.run_of_again hturn, Setup.exitOf_of_goes_on hgoes, Setup.unread_of_goes_on hgoes]
        obtain ⟨texts, typed', hmem', hpend', hmade⟩ := hear_collects hgoes hpend
        obtain ⟨⟨htexts, hleft⟩, hrest⟩ := ih polls.tail.tail _ out' s' typed' hroom' he' hp' hpend'
        refine ⟨⟨?_, ?_⟩, hrest⟩
        · rw [htexts, hmade, hmem', hmem, List.reverse_append, List.reverse_reverse, List.append_assoc]
        · rw [hleft, hmade]
    | interrupted =>
      rw [shell.recorded.run_of_again hturn, Setup.exitOf_of_goes_on rfl, Setup.unread_of_goes_on rfl]
      obtain ⟨⟨htexts, hleft⟩, hrest⟩ := ih polls.tail.tail (c.heed heeded).interrupt out s' [] hroom he' hp' rfl
      exact ⟨⟨htexts.trans (by rw [← hmem]; rfl), hleft⟩, hrest⟩
    | endOfInput =>
      rw [shell.recorded.run_of_ended hturn, Setup.unread_of_ends rfl]
      exact ⟨⟨hmem, hpend⟩, rfl, he'⟩

/-- **The lines on a transcript are the lines read.** -/
theorem filterMap_transcript {μ : Type} (shell : Setup μ) (readings : List Reading) (polls : List Bool) :
    (shell.transcript (moments readings polls)).filterMap Mark.text? = shell.linesRead readings := by
  have hresets : ∀ m : Moment, m.resets.filterMap Mark.text? = [] := by
    rintro ⟨before, reading, after⟩
    cases before <;> cases after <;> rfl
  induction readings generalizing polls with
  | nil =>
    rw [moments, Setup.transcript, List.filterMap_append, hresets]
    rfl
  | cons reading readings ih =>
    rw [moments, Setup.transcript, List.filterMap_append, hresets, List.nil_append]
    unfold Setup.linesRead
    cases reading with
    | line text =>
      by_cases hexit : shell.isExit text = true
      · rw [List.takeWhile_cons_of_neg (by simp [Setup.ends, hexit])]
        simp only [if_pos hexit, List.filterMap_nil]
      · rw [List.takeWhile_cons_of_pos (by simp [Setup.ends, hexit])]
        simp only [if_neg hexit]
        exact congrArg (text :: ·) (ih polls.tail.tail)
    | interrupted => exact ih polls.tail.tail
    | endOfInput => rfl

/-- **A run dispatches the groups of its lines.** The lines read before the one that ends the run are cut at every
interrupt, and every piece has one greedy cut; the texts handed to the evaluator are the groups of all the pieces,
joined, in order, and what is pending at the end is the tail of the last piece. The run ends by command exactly when an
exit line ends it, and nothing after that line is read. -/
theorem run_dispatches {μ : Type} (shell : Setup μ) (session : Session) (memory : μ) (written : ByteArray)
    (readings : List Reading) (polls : List Bool) :
    let ended := shell.recorded.run Script.source (.start session (memory, [])) ⟨written, none⟩
      (.following readings polls)
    let cutLines := pieces (shell.transcript (moments readings polls))
    cutLines.flatten = shell.linesRead readings ∧
      (∃ gs : List Grouping, (∀ gs', List.Forall₂ Grouping.Cuts gs' cutLines ↔ gs' = gs) ∧
        ended.conversation.memory.2.reverse = gs.flatMap (fun g => g.groups.map String.join) ∧
        (gs.getLast?.map Grouping.tail).map String.join = some ended.conversation.pending.text) ∧
      ended.exit = .ok (shell.exitOf readings) ∧
      ended.source.events = (shell.unread readings).map Reading.event := by
  intro ended cutLines
  obtain ⟨⟨htexts, hleft⟩, hexit, hrest⟩ := run_collects shell readings polls (.start session (memory, []))
    ⟨written, none⟩ (.following readings polls) [] rfl rfl rfl rfl
  obtain ⟨gs, hcuts, hgroups, htail⟩ := collected_cuts (shell.transcript (moments readings polls)) [] unfinished_nil
  have hsame : cutLines.modifyHead ([] ++ ·) = cutLines := by
    obtain ⟨piece, later, hp⟩ := List.exists_cons_of_ne_nil (pieces_ne_nil (shell.transcript (moments readings polls)))
    show (pieces _).modifyHead _ = pieces _
    rw [hp]
    rfl
  refine ⟨?_, ⟨gs, fun gs' => ⟨fun h => ?_, fun h => ?_⟩, ?_, ?_⟩, hexit, hrest⟩
  · rw [flatten_pieces, filterMap_transcript]
  · exact List.left_unique_forall₂' (fun _ _ _ h h' => h.unique h') h (hsame ▸ hcuts)
  · exact h ▸ hsame ▸ hcuts
  · rw [htexts, ← hgroups]
    show (_ ++ []).reverse = _
    rw [List.append_nil, List.reverse_reverse]
  · rw [hleft, htail]
    rfl

end LineShell.Shell
