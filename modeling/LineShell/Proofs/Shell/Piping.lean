import LineShell.Evaluator.Drill
import LineShell.Proofs.Shell.Gathering
import LineShell.Proofs.Shell.Turn
/-!
# Piping — a text read from a pipe

A run over a reader is the fold of a step, under its prompt, over the lines of the text that its bytes spell, whatever
the chunks they come in (`run_piped`).
-/
namespace LineShell.Shell

open Text (splitAfter encode)
open Reader (Calm lineFeed)

namespace Setup

variable {μ : Type} (shell : Setup μ)

/-- **One line typed under its prompt.** -/
def prompted (co : Conversation μ × Output) (line : String) : Conversation μ × Output :=
  (shell.step line co.1 (co.2.put (shell.prompt co.1)).2).2

variable {co : Conversation μ × Output} {r : Reader}

theorem prompted_room (hroom : co.2.room = none) (line : String) : (shell.prompted co line).2.room = none := by
  have hput : (co.2.put (shell.prompt co.1)).2.room = none := by
    rw [Output.put_of_unlimited hroom]
    exact hroom
  obtain ⟨out, hout, hstep⟩ := shell.step_of_unlimited line co.1 hput
  rw [prompted, hstep]
  exact hout

/-- **A turn over a calm reader** takes the first of the lines left. -/
theorem turn_calm (c : Conversation μ) {out : Output} (h : r.Calm) (hroom : out.room = none) :
    ∃ r', r'.Calm ∧ r'.echo = r.echo ∧
      splitAfter (· == lineFeed) r'.unread = (splitAfter (· == lineFeed) r.unread).tail ∧
      shell.turn Reader.source c out r =
        match Reader.reading ((splitAfter (· == lineFeed) r.unread).headD []) with
        | .ok reading => shell.conclude reading c (r.shown (shell.prompt c) out) r'
        | .error f => .ended ⟨.error f, c, r.shown (shell.prompt c) out, r'⟩ := by
  obtain ⟨r', hcalm, hecho, hunread, hread⟩ := Reader.read_calm (shell.prompt c) h hroom
  refine ⟨r', hcalm, hecho, hunread, ?_⟩
  have hpoll := Reader.poll_calm h
  cases hr : Reader.reading ((splitAfter (· == lineFeed) r.unread).headD []) with
  | ok reading =>
    rw [hr] at hread
    have hturn : shell.turn Reader.source c out r = _ := shell.turn_of_read (by rw [hpoll]; exact hread)
    rw [hturn, hpoll, Reader.poll_calm hcalm]
    rfl
  | error f =>
    rw [hr] at hread
    have hturn : shell.turn Reader.source c out r = _ := shell.turn_of_fault (by rw [hpoll]; exact hread)
    rw [hturn, hpoll]
    rfl

/-- **A turn over a calm reader** with a line of text next is a step. -/
theorem turn_text {line : String} {later : List (List UInt8)} (c : Conversation μ) {out : Output} (h : r.Calm)
    (hroom : out.room = none) (hne : encode line ≠ [])
    (hlines : splitAfter (· == lineFeed) r.unread = encode line :: later) :
    ∃ r', r'.Calm ∧ r'.echo = r.echo ∧ splitAfter (· == lineFeed) r'.unread = later ∧
      shell.turn Reader.source c out r =
        let stepped := (shell.step line c (r.shown (shell.prompt c) out)).2
        if shell.isExit line then .ended ⟨.ok .command, stepped.1, stepped.2, r'⟩
        else .again stepped.1 stepped.2 r' := by
  obtain ⟨r', hcalm, hecho, hunread, hturn⟩ := shell.turn_calm c h hroom
  rw [hlines, List.headD_cons, Reader.reading_encode hne] at hturn
  rw [hlines, List.tail_cons] at hunread
  refine ⟨r', hcalm, hecho, hunread, ?_⟩
  rw [hturn]
  exact shell.conclude_line line c r' (Reader.shown_room hroom)

/-- **A turn over a calm reader that shows prompts** is a step under a prompt. -/
theorem turn_line {line : String} {later : List (List UInt8)} (h : r.Calm) (hecho : r.echo = true)
    (hroom : co.2.room = none) (hne : encode line ≠ [])
    (hlines : splitAfter (· == lineFeed) r.unread = encode line :: later) :
    ∃ r', r'.Calm ∧ r'.echo = true ∧ splitAfter (· == lineFeed) r'.unread = later ∧
      shell.turn Reader.source co.1 co.2 r =
        if shell.isExit line then
          .ended ⟨.ok .command, (shell.prompted co line).1, (shell.prompted co line).2, r'⟩
        else .again (shell.prompted co line).1 (shell.prompted co line).2 r' := by
  obtain ⟨r', hcalm, hecho', hunread, hturn⟩ := shell.turn_text co.1 h hroom hne hlines
  refine ⟨r', hcalm, hecho'.trans hecho, hunread, ?_⟩
  rw [hturn, Reader.shown, if_pos hecho, prompted]

/-- **A turn over a calm reader** with no byte left is the end of input, under the prompt. -/
theorem turn_endOfInput (c : Conversation μ) {out : Output} (h : r.Calm) (hroom : out.room = none)
    (hend : r.unread = []) :
    ∃ r', r'.unread = [] ∧
      shell.turn Reader.source c out r = .ended ⟨.ok .endOfInput, c, r.shown (shell.prompt c) out, r'⟩ := by
  obtain ⟨r', -, -, hunread, hturn⟩ := shell.turn_calm c h hroom
  rw [hend] at hturn hunread
  refine ⟨r', ?_, hturn⟩
  rw [← Text.flatten_splitAfter (· == lineFeed) r'.unread, hunread]
  rfl

theorem turn_end (h : r.Calm) (hecho : r.echo = true) (hroom : co.2.room = none) (hend : r.unread = []) :
    ∃ r', r'.unread = [] ∧
      shell.turn Reader.source co.1 co.2 r =
        .ended ⟨.ok .endOfInput, co.1, (co.2.put (shell.prompt co.1)).2, r'⟩ := by
  obtain ⟨r', hunread, hturn⟩ := shell.turn_endOfInput co.1 h hroom hend
  refine ⟨r', hunread, ?_⟩
  rw [hturn, Reader.shown, if_pos hecho]

/-- **How a run over lines ends**: at the first exit line, with what comes after it left; else at their end, under one
more prompt. -/
theorem run_lines {lines : List String} (hroom : co.2.room = none) (hne : ∀ line ∈ lines, encode line ≠ [])
    (h : r.Calm) (hecho : r.echo = true)
    (hlines : splitAfter (· == lineFeed) r.unread = lines.map encode) :
    let fed := (lines.takeWhile (!shell.isExit ·)).foldl shell.prompted co
    let ended := shell.run Reader.source co.1 co.2 r
    match lines.dropWhile (!shell.isExit ·) with
    | [] => ended.exit = .ok .endOfInput ∧ ended.conversation = fed.1 ∧
        ended.out = (fed.2.put (shell.prompt fed.1)).2 ∧ ended.source.unread = []
    | line :: later => ended.exit = .ok .command ∧ ended.conversation = (shell.prompted fed line).1 ∧
        ended.out = (shell.prompted fed line).2 ∧ ended.source.unread = later.flatMap encode := by
  -- By the lines: a line that is not the exit command leaves a calm reader of the lines after it.
  induction lines generalizing co r with
  | nil =>
    have hend : r.unread = [] := by
      rw [← Text.flatten_splitAfter (· == lineFeed) r.unread, hlines]
      rfl
    obtain ⟨r', hunread, hturn⟩ := shell.turn_end h hecho hroom hend
    rw [shell.run_of_ended hturn]
    exact ⟨rfl, rfl, rfl, hunread⟩
  | cons line lines ih =>
    rw [List.map_cons] at hlines
    have hstep := shell.turn_line h hecho hroom (hne line List.mem_cons_self) hlines
    by_cases hexit : shell.isExit line = true
    · rw [List.takeWhile_cons_of_neg (by simp [hexit]), List.dropWhile_cons_of_neg (by simp [hexit]), List.foldl_nil]
      obtain ⟨r', -, -, hunread, hturn⟩ := hstep
      rw [if_pos hexit] at hturn
      rw [shell.run_of_ended hturn]
      refine ⟨rfl, rfl, rfl, ?_⟩
      rw [← Text.flatten_splitAfter (· == lineFeed) r'.unread, hunread, List.flatMap_def]
    · rw [List.takeWhile_cons_of_pos (by simp [hexit]), List.dropWhile_cons_of_pos (by simp [hexit]), List.foldl_cons]
      obtain ⟨r', hcalm, hecho', hunread, hturn⟩ := hstep
      rw [if_neg hexit] at hturn
      rw [shell.run_of_again hturn]
      have hne' : ∀ line ∈ lines, encode line ≠ [] := fun line hl => hne line (List.mem_cons_of_mem _ hl)
      exact ih (shell.prompted_room hroom line) hne' hcalm hecho' hunread

/-- **A run over piped text is the fold of its lines**, whatever the chunks, of which an empty one is passed over: each
line is a step under the prompt that the conversation has then, up to and with the first exit line, and what comes after
that is not read. Without one, the run ends at the end of input under one more prompt, where the fold leaves the
conversation and with the texts evaluated that the fold evaluates. -/
theorem run_piped (c : Conversation (μ × List String)) (written : ByteArray) (text : String)
    (r : Reader) (hcalm : r.Calm) (hecho : r.echo = true) (htext : r.unread = encode text) :
    let heard := (Text.lines text).takeWhile (!shell.isExit ·)
    let fed := heard.foldl shell.recorded.prompted (c, ⟨written, none⟩)
    let ended := shell.recorded.run Reader.source c ⟨written, none⟩ r
    match (Text.lines text).dropWhile (!shell.isExit ·) with
    | [] => ended.exit = .ok .endOfInput ∧ ended.conversation = fed.1 ∧
        ended.out = (fed.2.put (shell.recorded.prompt fed.1)).2 ∧ ended.source.unread = []
    | line :: later => ended.exit = .ok .command ∧ ended.conversation = (shell.recorded.prompted fed line).1 ∧
        ended.out = (shell.recorded.prompted fed line).2 ∧ ended.source.unread = later.flatMap encode := by
  have hlines : splitAfter (· == lineFeed) r.unread = (Text.lines text).map encode := by
    rw [htext, Reader.splitAfter_encode]
  have hne : ∀ line ∈ Text.lines text, encode line ≠ [] := by
    intro line hline
    have hmem : encode line ∈ splitAfter (· == lineFeed) r.unread := hlines ▸ List.mem_map_of_mem hline
    exact Text.ne_nil_of_mem_splitAfter hmem
  have hroom : (c, (⟨written, none⟩ : Output)).2.room = none := rfl
  have hrun := shell.recorded.run_lines hroom hne hcalm hecho hlines
  simp only [isExit_recorded] at hrun
  exact hrun

/-- **Chunks that cut a character and a line in two**; what comes after the exit line is left. -/
theorem run_piped_chunked :
    let shell : Setup Unit := ⟨.drill, {}⟩
    let c : Conversation (Unit × List String) := .start (.start .empty) ((), [])
    let r : Reader :=
      { chunks := [[40, 195], [169, 10, 41], [10], [113, 117], [105, 116, 10, 49]], echo := true, reports := true }
    let ended := shell.recorded.run Reader.source c ⟨.empty, none⟩ r
    r.Calm ∧ r.echo = true ∧ r.unread = encode "(é\n)\nquit\n1" ∧ ended.exit = .ok .command ∧
      ended.conversation.memory.2 = ["(é\n)\n"] ∧ ended.out.written = "> * [6, nil]\n> closing...\n".toUTF8 ∧
      ended.source.unread = encode "1" := by
  intro shell c r ended
  have htext : r.unread = encode "(é\n)\nquit\n1" := by decide +kernel
  have hdrop : (Text.lines "(é\n)\nquit\n1").dropWhile (!shell.isExit ·) = ["quit\n", "1"] := by decide +kernel
  have hrun := shell.run_piped c .empty "(é\n)\nquit\n1" r ⟨rfl, rfl⟩ rfl htext
  simp only [hdrop] at hrun
  obtain ⟨hexit, hc, hout, hunread⟩ := hrun
  refine ⟨⟨rfl, rfl⟩, rfl, htext, hexit, ?_, ?_, hunread.trans (by decide +kernel)⟩
  · rw [hc]
    decide +kernel
  · rw [hout]
    decide +kernel

end Setup

end LineShell.Shell
