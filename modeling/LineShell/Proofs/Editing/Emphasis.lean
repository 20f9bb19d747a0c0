import LineShell.Proofs.Editing.Display
import LineShell.Statement.Balance
/-!
# Emphasis — the balance of a line, read off its colours

Block words and `end` are shown in magenta and brackets in yellow, whatever the session knows.  So the segments of these
colours that a terminal shows are as many as the words and brackets that decide whether the line is complete
(`segments_counted`).
-/
namespace LineShell.Editing

open Statement (Balance blockWords closingWord isBracket)
open Text (Piece pieces)

/-- **A coloured segment of a line.** -/
@[ext] structure Segment where
  colour : Colour
  text : String
  deriving DecidableEq, Repr

/-- **The coloured segments**: from every code that turns a colour on, the characters up to the next code. -/
def segments : List Ink → List Segment
  | [] => []
  | .on colour :: inks => ⟨colour, Ink.plain (inks.takeWhile (·.char?.isSome))⟩ :: segments inks
  | .char _ :: inks => segments inks
  | .off :: inks => segments inks

section Segments

variable {known : List String} {colour : Colour} {line : String} {c : Char}

theorem segments_ofText (text : String) (inks : List Ink) : segments (Ink.ofText text ++ inks) = segments inks := by
  rw [Ink.ofText]
  induction text.toList with
  | nil => rfl
  | cons c cs ih => exact ih

theorem takeWhile_ofText (text : String) (inks : List Ink) :
    (Ink.ofText text ++ Ink.off :: inks).takeWhile (·.char?.isSome) = Ink.ofText text := by
  have hall : ∀ ink ∈ Ink.ofText text, ink.char?.isSome = true := by simp [Ink.ofText, Ink.char?]
  rw [List.takeWhile_append_of_pos hall, List.takeWhile_cons_of_neg (by simp [Ink.char?]), List.append_nil]

/-- **The segments of a line are its coloured pieces.** -/
theorem segments_pieces (known : List String) (ps : List Piece) :
    segments (ps.flatMap (Ink.ofPiece known)) =
      ps.filterMap fun piece => (colourOf known piece).map (⟨·, piece.text⟩) := by
  induction ps with
  | nil => rfl
  | cons piece ps ih =>
    rw [List.flatMap_cons, Ink.ofPiece]
    cases hcolour : colourOf known piece with
    | none => rw [List.filterMap_cons_none (by rw [hcolour]; rfl), ← ih, segments_ofText]
    | some colour =>
      rw [List.filterMap_cons_some (by rw [hcolour]; rfl), ← ih, List.cons_append, List.append_assoc, segments,
        List.singleton_append, takeWhile_ofText, Ink.plain_ofText, segments_ofText, segments]

/-- **Whether a piece is a magenta word** of a kind of keywords is whether it is a word of that kind. -/
theorem magenta_of_piece {p : String → Bool} (hp : ∀ word, p word = true → isKeyword word = true) (piece : Piece) :
    (((colourOf known piece).map (Segment.mk · piece.text)).map fun s => s.colour == .magenta && p s.text).getD false =
      (piece.run?.map (p <| String.ofList ·)).getD false := by
  cases piece with
  | blank c => rfl
  | mark c =>
    rw [colourOf]
    split <;> rfl
  | word run =>
    show (((colourOfWord known (String.ofList run)).map _).map _).getD false = p (String.ofList run)
    cases hword : p (String.ofList run) with
    | true =>
      rw [colourOfWord, if_pos (hp _ hword)]
      exact hword
    | false =>
      cases colourOfWord known (String.ofList run) with
      | none => rfl
      | some colour => simp [Piece.text, Piece.chars, hword]

theorem colourOfWord_ne_yellow (known : List String) (word : String) : colourOfWord known word ≠ some .yellow := by
  rw [colourOfWord]
  split
  · simp
  · split
    · simp
    · split <;> simp

/-- **A yellow piece is a bracket.** -/
theorem yellow_of_piece (hc : isBracket c = true) (piece : Piece) :
    (colourOf known piece).map (Segment.mk · piece.text) = some ⟨.yellow, String.singleton c⟩ ↔ piece = .mark c := by
  constructor
  · intro h
    obtain ⟨colour, hcolour, hsegment⟩ := Option.map_eq_some_iff.1 h
    obtain ⟨rfl, htext⟩ := Segment.mk.inj hsegment
    cases piece with
    | blank d => cases hcolour
    | word run => exact absurd hcolour (colourOfWord_ne_yellow known _)
    | mark d => rw [String.singleton_inj.1 htext]
  · rintro rfl
    rw [colourOf, if_pos hc]
    rfl

/-- **The magenta words of a line** are those of its words that are keywords. -/
theorem countP_magenta {p : String → Bool} (hp : ∀ word, p word = true → isKeyword word = true) :
    (segments ((pieces line.toList).flatMap (Ink.ofPiece known))).countP (fun s => s.colour == .magenta && p s.text) =
      (Text.words line).countP p := by
  rw [segments_pieces, List.countP_filterMap, Text.words, ← Text.filterMap_run?_pieces, List.countP_map,
    List.countP_filterMap]
  exact List.countP_congr fun piece _ => by rw [magenta_of_piece hp]; rfl

/-- **The yellow marks of a line** are its brackets. -/
theorem count_yellow (hc : isBracket c = true) :
    (segments ((pieces line.toList).flatMap (Ink.ofPiece known))).count ⟨.yellow, String.singleton c⟩ =
      line.toList.count c := by
  rw [segments_pieces, List.count_filterMap, ← Text.count_mark_pieces (Statement.isWordChar_of_isBracket hc)
    (Statement.isBlank_of_isBracket hc), List.count]
  exact List.countP_congr fun piece _ => by rw [beq_iff_eq, beq_iff_eq, yellow_of_piece hc]

end Segments

/-- **What stands out is what is counted.** Of the segments that a highlighted line shows, the magenta ones that are
block words are as many as the blocks that the line opens, those that are `end` as many as the blocks that it closes,
and the yellow ones of each bracket character as many as its brackets. -/
theorem segments_counted {assistant : Assistant} {line : String} {offset : Nat} (h : escape ∉ line.toList) :
    let shown := segments (Ink.read (assistant.highlight line offset).toList)
    shown.countP (fun s => s.colour == .magenta && blockWords.contains s.text) = (Balance.of line).blocks.opened ∧
      shown.count ⟨.magenta, closingWord⟩ = (Balance.of line).blocks.closed ∧
      ∀ b, shown.count ⟨.yellow, String.singleton b.opener⟩ = ((Balance.of line).brackets b).opened ∧
        shown.count ⟨.yellow, String.singleton b.closer⟩ = ((Balance.of line).brackets b).closed := by
  intro shown
  have hshown : shown = segments ((pieces line.toList).flatMap (Ink.ofPiece assistant.names)) :=
    congrArg segments (Ink.read_highlight h)
  have hclosing : shown.count ⟨.magenta, closingWord⟩ =
      shown.countP fun s => s.colour == .magenta && s.text == closingWord :=
    List.countP_congr fun s _ => by simp [Segment.ext_iff]
  rw [hclosing, hshown]
  refine ⟨countP_magenta fun word hword => ?_, countP_magenta (p := (· == closingWord)) fun word hword => ?_,
    fun b => ⟨?_, ?_⟩⟩
  · rw [isKeyword, hword, Bool.or_true, Bool.true_or]
  · rw [isKeyword, hword, Bool.true_or, Bool.true_or]
  · exact count_yellow (by cases b <;> decide)
  · exact count_yellow (by cases b <;> decide)

/-- **Keywords that the session knows, one that is only part of a word, and brackets of three kinds.** -/
theorem segments_counted_known :
    let shown := segments (Ink.read ((⟨["do", "end", "if"]⟩ : Assistant).highlight "do(éif)[if 10\x7d end" 3).toList)
    escape ∉ "do(éif)[if 10\x7d end".toList ∧
      shown.countP (fun s => s.colour == .magenta && blockWords.contains s.text) = 2 ∧
      shown.count ⟨.magenta, "end"⟩ = 1 ∧ shown.count ⟨.yellow, "("⟩ = 1 ∧ shown.count ⟨.yellow, "\x7d"⟩ = 1 := by
  intro shown
  have hescape : escape ∉ "do(éif)[if 10\x7d end".toList := by decide
  obtain ⟨hopened, hclosed, hbrackets⟩ :=
    @segments_counted ⟨["do", "end", "if"]⟩ "do(éif)[if 10\x7d end" 3 hescape
  refine ⟨hescape, hopened.trans ?_, hclosed.trans ?_, (hbrackets .round).1.trans ?_, (hbrackets .curly).2.trans ?_⟩ <;>
    decide +kernel

end LineShell.Editing
