import LineShell.Proofs.Shell.Turn
import LineShell.Shell.Script
/-!
# Signal — an interrupt out of band, and one that is read

A signal is noticed after the read that meets it, and drops what is pending before what was read is seen to; an
interrupt is read by itself, in a turn of its own.  The turns of the two runs do not pair off, so both are told by
recursion on the events (`run_eq_play`), where a signal only waits for the event after it.  `run_signals` says that
either kind of interrupt leads to the same, and that signals in a row are one.
-/
namespace LineShell.Shell

/-- **An event in band**: an interrupt that is read stands for a signal. -/
def Event.inBand : Event → Event
  | signal => interrupt
  | event => event

/-- **What a run over a script comes to**, apart from the notes on its reads. -/
structure Told (μ : Type) where
  exit : Except StreamFault Exit
  conversation : Conversation μ
  out : Output
  unread : List Event

def Ended.told {μ : Type} (ended : Ended μ Script) : Told μ :=
  ⟨ended.exit, ended.conversation, ended.out, ended.source.events⟩

def Told.result {μ : Type} (told : Told μ) : Except StreamFault Exit × Conversation μ × Output :=
  (told.exit, told.conversation, told.out)

namespace Setup

variable {μ : Type} (shell : Setup μ)

/-- **A run told by its events.** A signal that is `raised` is noticed with the next reading, and not if that fails. -/
def play : List Event → Bool → Conversation μ → Output → Told μ
  | [], raised, c, out => ⟨.ok .endOfInput, c.heed raised, out, []⟩
  | .signal :: events, _, c, out => play events true c out
  | .fail message :: events, _, c, out => ⟨.error (.other message), c, out, events⟩
  | .interrupt :: events, _, c, out => play events false c.interrupt out
  | .endOfInput :: events, raised, c, out => ⟨.ok .endOfInput, c.heed raised, out, events⟩
  | .line text :: events, raised, c, out =>
    match shell.receive (.line text) (c.heed raised) out with
    | (.error f, c, out) => ⟨.error f, c, out, events⟩
    | (.ok (some exit), c, out) => ⟨.ok exit, c, out, events⟩
    | (.ok none, c, out) => play events false c out

variable {shell} {c : Conversation μ} {out : Output} {s : Script} {after : List Event} {raised : Bool}

theorem play_of_reading {reading : Reading} {raised' : Bool} : ∀ (events : List Event) (raised : Bool),
    Script.next events raised = (.ok reading, after, raised') →
      shell.play events raised c out =
        match shell.receive reading (c.heed raised') out with
        | (.error f, c, out) => ⟨.error f, c, out, after⟩
        | (.ok (some exit), c, out) => ⟨.ok exit, c, out, after⟩
        | (.ok none, c, out) => shell.play after false c out
  | [], _, h => by cases h; rfl
  | .signal :: events, _, h => play_of_reading events true h
  | .line _ :: _, _, h => by cases h; rfl
  | .interrupt :: _, _, h => by cases h; simp [play, receive]
  | .endOfInput :: _, _, h => by cases h; rfl
  | .fail _ :: _, _, h => by cases h

theorem play_of_fault {f : StreamFault} {raised' : Bool} : ∀ (events : List Event) (raised : Bool),
    Script.next events raised = (.error f, after, raised') → shell.play events raised c out = ⟨.error f, c, out, after⟩
  | [], _, h => by cases h
  | .signal :: events, _, h => play_of_fault events true h
  | .line _ :: _, _, h => by cases h
  | .interrupt :: _, _, h => by cases h
  | .endOfInput :: _, _, h => by cases h
  | .fail _ :: _, _, h => by cases h; rfl

theorem turn_of_reading (shell : Setup μ) (c : Conversation μ) (out : Output) {reading : Reading}
    (hp : s.polls = none) (hn : Script.next s.events false = (.ok reading, after, raised)) :
    ∃ s' : Script, s'.events = after ∧ s'.polls = none ∧ s'.raised = false ∧
      shell.turn Script.source c out s = shell.conclude reading ((c.heed s.raised).heed raised) out s' := by
  obtain ⟨events, polls, waiting, names, reads⟩ := s
  subst hp
  exact ⟨_, rfl, rfl, rfl, shell.turn_of_read (Script.read_of_next hn)⟩

theorem turn_of_failing (shell : Setup μ) (c : Conversation μ) (out : Output) {f : StreamFault}
    (hp : s.polls = none) (hn : Script.next s.events false = (.error f, after, raised)) :
    ∃ s' : Script, s'.events = after ∧
      shell.turn Script.source c out s = .ended ⟨.error f, c.heed s.raised, out, s'⟩ := by
  obtain ⟨events, polls, waiting, names, reads⟩ := s
  subst hp
  exact ⟨_, rfl, shell.turn_of_fault (Script.read_of_next hn)⟩

/-- **A run over a script is told by its events**, if the answers to the polls are not scripted. -/
theorem run_eq_play (shell : Setup μ) (c : Conversation μ) (out : Output) (s : Script) (hp : s.polls = none) :
    (shell.run Script.source c out s).told = shell.play s.events false (c.heed s.raised) out := by
  rcases hn : Script.next s.events false with ⟨read, after, raised⟩
  cases read with
  | error f =>
    obtain ⟨s', he, hturn⟩ := shell.turn_of_failing c out hp hn
    rw [shell.run_of_ended hturn, play_of_fault _ _ hn, ← he]
    rfl
  | ok reading =>
    obtain ⟨s', he, hp', hr', hturn⟩ := shell.turn_of_reading c out hp hn
    rw [play_of_reading _ _ hn]
    rcases hr : shell.receive reading ((c.heed s.raised).heed raised) out with ⟨went, c', out'⟩
    rw [conclude, hr] at hturn
    match went, hr, hturn with
    | .error _, _, hturn => rw [shell.run_of_ended hturn, ← he]; rfl
    | .ok (some _), _, hturn => rw [shell.run_of_ended hturn, ← he]; rfl
    | .ok none, hr, hturn =>
      have hlt : s'.events.length < s.events.length := by
        rw [he]
        refine Script.length_next hn ?_
        rintro rfl
        simp [receive] at hr
      rw [shell.run_of_again hturn, run_eq_play shell c' out' s' hp', he, hr', Conversation.heed_false]
termination_by s.events.length

end Setup

/-- **Two tellings of one run**, the second in band. Where a read fails, a signal waiting is not noticed, and what is
pending stays. -/
structure Told.InBand {μ : Type} (told read : Told μ) : Prop where
  exit : read.exit = told.exit
  out : read.out = told.out
  unread : read.unread = told.unread.map Event.inBand
  conversation : read.conversation = told.conversation ∨
    (∃ message, told.exit = .error (.other message)) ∧ read.conversation = told.conversation.interrupt

section Signals

variable {μ : Type} (shell : Setup μ)

/-- **Signals read as interrupts lead to the same.** What waits to be noticed in the one run has been seen to in the
other. -/
theorem play_inBand (events : List Event) (raised : Bool) (c : Conversation μ) (out : Output) :
    (shell.play events raised c out).InBand (shell.play (events.map Event.inBand) false (c.heed raised) out) := by
  induction events generalizing raised c out with
  | nil => exact ⟨rfl, rfl, rfl, .inl rfl⟩
  | cons event events ih =>
    cases event with
    | signal => simpa [Event.inBand, Setup.play] using ih true c out
    | interrupt => simpa [Event.inBand, Setup.play] using ih false c.interrupt out
    | endOfInput => exact ⟨rfl, rfl, rfl, .inl rfl⟩
    | fail message =>
      refine ⟨rfl, rfl, rfl, ?_⟩
      cases raised
      · exact .inl rfl
      · exact .inr ⟨⟨message, rfl⟩, rfl⟩
    | line text =>
      simp only [List.map_cons, Event.inBand, Setup.play, Conversation.heed_false]
      split
      · exact ⟨rfl, rfl, rfl, .inl rfl⟩
      · exact ⟨rfl, rfl, rfl, .inl rfl⟩
      · exact ih false _ _

/-- **Events at the end of a script** count by what they lead to. -/
theorem play_append {a b : List Event}
    (h : ∀ raised c out, (shell.play a raised c out).result = (shell.play b raised c out).result)
    (before : List Event) (raised : Bool) (c : Conversation μ) (out : Output) :
    (shell.play (before ++ a) raised c out).result = (shell.play (before ++ b) raised c out).result := by
  induction before generalizing raised c out with
  | nil => exact h raised c out
  | cons event before ih =>
    cases event with
    | signal => exact ih true c out
    | interrupt => exact ih false c.interrupt out
    | endOfInput => rfl
    | fail message => rfl
    | line text =>
      simp only [List.cons_append, Setup.play]
      split
      · rfl
      · rfl
      · exact ih false _ _

/-- Of signals in a row, every one but the first finds that one is raised already. -/
theorem play_replicate (n : Nat) (events : List Event) (raised : Bool) (c : Conversation μ) (out : Output) :
    shell.play (List.replicate (n + 1) .signal ++ events) raised c out =
      shell.play (.signal :: events) raised c out := by
  induction n generalizing raised with
  | zero => rfl
  | succ n ih => exact ih true

/-- **A signal is an interrupt.** A run whose signals are read as interrupts instead has the same output, gives the
evaluator the same texts and leaves it and the session the same; it ends alike, with the same events unread, and what is
pending then is the same unless a read has failed. Signals in a row are one. -/
theorem run_signals (c : Conversation (μ × List String)) (out : Output) :
    (∀ events : List Event,
      let told := shell.recorded.run Script.source c out { events }
      let read := shell.recorded.run Script.source c out { events := events.map Event.inBand }
      read.out = told.out ∧ read.conversation.memory = told.conversation.memory ∧
        read.conversation.session = told.conversation.session ∧ read.exit = told.exit ∧
        read.source.events = told.source.events.map Event.inBand ∧
        (read.conversation.pending = told.conversation.pending ∨ ∃ message, told.exit = .error (.other message))) ∧
      ∀ (before after : List Event) (n : Nat),
        let signals := List.replicate (n + 1) Event.signal
        let many := shell.recorded.run Script.source c out { events := before ++ (signals ++ after) }
        let one := shell.recorded.run Script.source c out { events := before ++ .signal :: after }
        many.out = one.out ∧ many.conversation = one.conversation ∧ many.exit = one.exit := by
  constructor
  · intro events told read
    have hsame : told.told.InBand read.told := by
      rw [shell.recorded.run_eq_play c out _ rfl, shell.recorded.run_eq_play c out _ rfl]
      exact play_inBand shell.recorded events false c out
    obtain ⟨hexit, hout, hunread, hconversation⟩ := hsame
    have hkept : read.conversation.memory = told.conversation.memory ∧
        read.conversation.session = told.conversation.session := by
      rcases hconversation with h | ⟨-, h⟩
      · exact ⟨congrArg (·.memory) h, congrArg (·.session) h⟩
      · exact ⟨congrArg (·.memory) h, congrArg (·.session) h⟩
    refine ⟨hout, hkept.1, hkept.2, hexit, hunread, ?_⟩
    rcases hconversation with h | ⟨hfail, -⟩
    · exact .inl (congrArg (·.pending) h)
    · exact .inr hfail
  · intro before after n signals many one
    have hresult : many.told.result = one.told.result := by
      rw [shell.recorded.run_eq_play c out _ rfl, shell.recorded.run_eq_play c out _ rfl]
      apply play_append
      intro raised c out
      rw [play_replicate]
    simp only [Told.result, Ended.told, Prod.mk.injEq] at hresult
    exact ⟨hresult.2.2, hresult.2.1, hresult.1⟩

/-- A read that fails leaves a signal unnoticed, and an interrupt read before it has been seen to. -/
example : let shell : Setup Unit := ⟨.silent, {}⟩
    let c : Conversation Unit := ⟨.start .empty, ⟨"("⟩, ()⟩
    (shell.play [.signal, .fail "gone"] false c .unlimited).conversation.pending.text = "(" ∧
      (shell.play [.interrupt, .fail "gone"] false c .unlimited).conversation.pending.text = "" := ⟨rfl, rfl⟩

end Signals

end LineShell.Shell
