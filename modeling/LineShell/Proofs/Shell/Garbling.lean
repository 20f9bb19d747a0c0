import LineShell.Proofs.Shell.Piping
/-!
# Garbling — a line that spells no text

A run over a reader ends in a fault at the first line that is not text, and up to there it is the run over the lines
before, whatever comes after and whatever the chunks (`run_garbled`).
-/
namespace LineShell.Shell

open Text (splitAfter encode decode?)
open Reader (lineFeed)

section Lines

variable {garbled after : List UInt8} {text : String}

/-- **One line of bytes that spell no text**, and what comes after it; nothing does if no line feed ends it. -/
structure IsGarbled (garbled after : List UInt8) : Prop where
  spells : decode? garbled = none
  oneLine : lineFeed ∉ garbled.dropLast
  ended : garbled.getLast? ≠ some lineFeed → after = []

theorem IsGarbled.ne_nil (h : IsGarbled garbled after) : garbled ≠ [] := by
  rintro rfl
  have hempty : decode? (encode "") = some "" := Text.decode?_encode ""
  exact absurd (h.spells.symm.trans hempty) nofun

theorem IsGarbled.reading (h : IsGarbled garbled after) : Reader.reading garbled = .error .notText := by
  rw [Reader.reading, if_neg (by simpa using h.ne_nil), h.spells]

theorem IsGarbled.splitAfter_eq (h : IsGarbled garbled after) :
    splitAfter (· == lineFeed) (garbled ++ after) = garbled :: splitAfter (· == lineFeed) after := by
  have hsplit := List.dropLast_concat_getLast h.ne_nil
  have hrun : ∀ b ∈ garbled.dropLast, (b == lineFeed) = false := fun b hb =>
    beq_false_of_ne fun he => h.oneLine (he ▸ hb)
  by_cases hlast : garbled.getLast h.ne_nil = lineFeed
  · rw [hlast] at hsplit
    conv => lhs; rw [← hsplit]
    rw [List.append_assoc, List.singleton_append, Text.splitAfter_line hrun (beq_self_eq_true _), hsplit]
  · have hafter : after = [] := h.ended fun he => by
      rw [List.getLast?_eq_some_getLast h.ne_nil] at he
      exact hlast (Option.some.inj he)
    have hall : ∀ b ∈ garbled, (b == lineFeed) = false := by
      rw [← hsplit]
      exact List.forall_mem_append.2 ⟨hrun, List.forall_mem_singleton.2 (beq_false_of_ne hlast)⟩
    rw [hafter, Text.splitAfter_append_of_not h.ne_nil hall]
    simp [splitAfter]

/-- **A text of whole lines**: it is empty, or ends with a line feed. -/
def WholeLines (text : String) : Prop := ∀ c ∈ text.toList.getLast?, c = '\n'

theorem WholeLines.getLast?_encode (h : WholeLines text) : ∀ b ∈ (encode text).getLast?, (b == lineFeed) = true := by
  unfold WholeLines at h
  rw [Text.encode_eq_flatMap]
  rcases List.eq_nil_or_concat text.toList with hnil | ⟨cs, c, hconcat⟩
  · rw [hnil]
    nofun
  · rw [hconcat, List.concat_eq_append] at h ⊢
    obtain rfl : c = '\n' := h c (by simp)
    rw [List.flatMap_append, List.flatMap_singleton, Reader.utf8EncodeChar_lineFeed]
    simp

/-- **The lines of a text and of a garbled line behind it.** -/
theorem IsGarbled.splitAfter_encode (h : IsGarbled garbled after) (htext : WholeLines text) :
    splitAfter (· == lineFeed) (encode text ++ (garbled ++ after)) =
      (Text.lines text).map encode ++ garbled :: splitAfter (· == lineFeed) after := by
  rw [Text.splitAfter_append htext.getLast?_encode, Reader.splitAfter_encode, h.splitAfter_eq]

end Lines

namespace Setup

variable {μ : Type} (shell : Setup μ) {garbled : List UInt8} {later : List (List UInt8)} {r r' : Reader}

/-- **A turn over a calm reader** with a line next that is no text ends the run, under the prompt. -/
theorem turn_garbled (c : Conversation μ) {out : Output} (h : r.Calm) (hroom : out.room = none)
    (hgarbled : Reader.reading garbled = .error .notText)
    (hlines : splitAfter (· == lineFeed) r.unread = garbled :: later) :
    ∃ r₁, splitAfter (· == lineFeed) r₁.unread = later ∧
      shell.turn Reader.source c out r = .ended ⟨.error .notText, c, r.shown (shell.prompt c) out, r₁⟩ := by
  obtain ⟨r₁, -, -, hunread, hturn⟩ := shell.turn_calm c h hroom
  rw [hlines, List.headD_cons, hgarbled] at hturn
  rw [hlines, List.tail_cons] at hunread
  exact ⟨r₁, hunread, hturn⟩

/-- **Two runs over the same lines**, one of them with a garbled line behind. -/
theorem run_garbled_lines {lines : List String} (hgarbled : Reader.reading garbled = .error .notText)
    (hne : ∀ line ∈ lines, encode line ≠ []) (c : Conversation μ) {out : Output} (hroom : out.room = none)
    (hr : r.Calm) (hr' : r'.Calm) (hecho : r.echo = r'.echo)
    (hlines : splitAfter (· == lineFeed) r.unread = lines.map encode ++ garbled :: later)
    (hlines' : splitAfter (· == lineFeed) r'.unread = lines.map encode) :
    let whole := shell.run Reader.source c out r
    let sound := shell.run Reader.source c out r'
    whole.conversation = sound.conversation ∧ whole.out = sound.out ∧
      if lines.any shell.isExit then
        whole.exit = .ok .command ∧ sound.exit = .ok .command ∧
          whole.source.unread = sound.source.unread ++ (garbled :: later).flatten
      else whole.exit = .error .notText ∧ sound.exit = .ok .endOfInput ∧ whole.source.unread = later.flatten := by
  have hshown : ∀ {s s' : Reader} (prompt : String) (out : Output), s.echo = s'.echo →
      s.shown prompt out = s'.shown prompt out := fun prompt out he => by rw [Reader.shown, Reader.shown, he]
  -- By the lines: both runs take the first of them alike, and are left with the others.
  induction lines generalizing c out r r' with
  | nil =>
    obtain ⟨r₁, hunread, hturn⟩ := shell.turn_garbled c hr hroom hgarbled hlines
    have hend : r'.unread = [] := by
      rw [← Text.flatten_splitAfter (· == lineFeed) r'.unread, hlines']
      rfl
    obtain ⟨r₁', -, hturn'⟩ := shell.turn_endOfInput c hr' hroom hend
    rw [shell.run_of_ended hturn, shell.run_of_ended hturn']
    refine ⟨rfl, hshown _ _ hecho, rfl, rfl, ?_⟩
    rw [← Text.flatten_splitAfter (· == lineFeed) r₁.unread, hunread]
  | cons line lines ih =>
    obtain ⟨hline, hne⟩ := List.forall_mem_cons.1 hne
    obtain ⟨r₁, hcalm, hecho₁, hunread, hturn⟩ := shell.turn_text c hr hroom hline hlines
    obtain ⟨r₁', hcalm', hecho₁', hunread', hturn'⟩ := shell.turn_text c hr' hroom hline hlines'
    rw [hshown _ _ hecho] at hturn
    by_cases hexit : shell.isExit line = true
    · simp only [if_pos hexit] at hturn hturn'
      rw [shell.run_of_ended hturn, shell.run_of_ended hturn', List.any_cons, hexit]
      refine ⟨rfl, rfl, rfl, rfl, ?_⟩
      rw [← Text.flatten_splitAfter (· == lineFeed) r₁.unread, ← Text.flatten_splitAfter (· == lineFeed) r₁'.unread,
        hunread, hunread']
      exact List.flatten_append
    · simp only [if_neg hexit] at hturn hturn'
      rw [shell.run_of_again hturn, shell.run_of_again hturn', List.any_cons, eq_false_of_ne_true hexit, Bool.false_or]
      obtain ⟨out', hroom', hstep⟩ := shell.step_of_unlimited line c (Reader.shown_room (r := r') hroom)
      rw [hstep]
      exact ih hne _ hroom' hcalm hcalm' (hecho₁.trans (hecho.trans hecho₁'.symm)) hunread hunread'

/-- **A garbled line ends the run and disturbs nothing before it.** A run over a text of whole lines, a line that spells
no text and anything behind it leaves the conversation and the output of a run over the text alone, the texts evaluated
included. Both end at the exit command if there is one; else the one finds a read fault where the other finds the end of
input, and has read nothing behind the garbled line. -/
theorem run_garbled (c : Conversation (μ × List String)) (written : ByteArray) {text : String}
    {garbled after : List UInt8} {r r' : Reader} (htext : WholeLines text) (hgarbled : IsGarbled garbled after)
    (hr : r.Calm) (hr' : r'.Calm) (hecho : r.echo = r'.echo) (hwhole : r.unread = encode text ++ (garbled ++ after))
    (hsound : r'.unread = encode text) :
    let whole := shell.recorded.run Reader.source c ⟨written, none⟩ r
    let sound := shell.recorded.run Reader.source c ⟨written, none⟩ r'
    whole.conversation = sound.conversation ∧ whole.out = sound.out ∧
      if (Text.lines text).any shell.isExit then
        whole.exit = .ok .command ∧ sound.exit = .ok .command ∧
          whole.source.unread = sound.source.unread ++ (garbled ++ after)
      else whole.exit = .error .notText ∧ sound.exit = .ok .endOfInput ∧ whole.source.unread = after := by
  have hlines : splitAfter (· == lineFeed) r'.unread = (Text.lines text).map encode := by
    rw [hsound, Reader.splitAfter_encode]
  have hne : ∀ line ∈ Text.lines text, encode line ≠ [] := fun line hline =>
    Text.ne_nil_of_mem_splitAfter (hlines ▸ List.mem_map_of_mem hline)
  have hbytes : splitAfter (· == lineFeed) r.unread = _ := hwhole ▸ hgarbled.splitAfter_encode htext
  have hroom : (⟨written, none⟩ : Output).room = none := rfl
  have hrun := shell.recorded.run_garbled_lines hgarbled.reading hne c hroom hr hr' hecho hbytes hlines
  rw [List.flatten_cons, Text.flatten_splitAfter] at hrun
  exact hrun

/-- **A character cut in two by a chunk**, and a byte of no character two lines on. -/
theorem run_garbled_chunked :
    let shell : Setup Unit := ⟨.drill, {}⟩
    let c : Conversation (Unit × List String) := .start (.start .empty) ((), [])
    let r : Reader := { chunks := [[40, 195], [169, 10, 49, 255], [10, 41, 10]], echo := true, reports := true }
    let r' : Reader := { chunks := [[40, 195, 169, 10]], echo := true, reports := false }
    let whole := shell.recorded.run Reader.source c ⟨.empty, none⟩ r
    let sound := shell.recorded.run Reader.source c ⟨.empty, none⟩ r'
    WholeLines "(é\n" ∧ IsGarbled [49, 255, 10] [41, 10] ∧ r.unread = encode "(é\n" ++ ([49, 255, 10] ++ [41, 10]) ∧
      r'.unread = encode "(é\n" ∧ whole.conversation = sound.conversation ∧ whole.out = sound.out ∧
      whole.exit = .error .notText ∧ sound.exit = .ok .endOfInput ∧ whole.source.unread = [41, 10] := by
  intro shell c r r' whole sound
  have htext : WholeLines "(é\n" := by
    rintro c ⟨⟩
    rfl
  have hgarbled : IsGarbled [49, 255, 10] [41, 10] := ⟨by decide +kernel, by decide, fun h => absurd rfl h⟩
  have hwhole : r.unread = encode "(é\n" ++ ([49, 255, 10] ++ [41, 10]) := by decide +kernel
  have hsound : r'.unread = encode "(é\n" := by decide +kernel
  have hno : (Text.lines "(é\n").any shell.isExit = false := by decide +kernel
  have hecho : r.echo = r'.echo := rfl
  have hrun := shell.run_garbled c .empty htext hgarbled ⟨rfl, rfl⟩ ⟨rfl, rfl⟩ hecho hwhole hsound
  simp only [hno, Bool.false_eq_true, if_false] at hrun
  obtain ⟨hconversation, hout, hexit, hexit', hunread⟩ := hrun
  exact ⟨htext, hgarbled, hwhole, hsound, hconversation, hout, hexit, hexit', hunread⟩

end Setup

end LineShell.Shell
