import LineShell.Editing.Palette
import LineShell.Text.Sweep
/-!
# Overlay — a highlighted line put together lexeme by lexeme

The lexemes of a line are gone over in order.  What lies between one and the next is copied from the line, and each
lexeme is shown in its colour; a line without lexemes is shown as it is.  Nothing is copied from where the line cannot
be cut, and what comes out is the line with all its pieces shown (`overlay?_eq`).
-/
namespace LineShell.Editing

open Text (Lexeme Piece chars_pieces lexemes locate pieces slice?)

def isBracketText (text : String) : Bool :=
  match text.toList with
  | [c] => Statement.isBracket c
  | _ => false

/-- **The colour of a lexeme**: of a word that of the word, and of a mark that of brackets. -/
def colourOfLexeme (known : List String) (lexeme : Lexeme) : Option Colour :=
  if lexeme.isWord then colourOfWord known lexeme.text
  else if isBracketText lexeme.text then some .yellow else none

theorem colourOfLexeme_eq {piece : Piece} (known : List String) (h : piece.isBlank = false) (start : Nat) :
    colourOfLexeme known ⟨piece.text, start, piece.isWord⟩ = colourOf known piece := by
  cases piece with
  | blank c => cases h
  | word run => rfl
  | mark c =>
    have hbracket : isBracketText (Piece.mark c).text = Statement.isBracket c := by
      rw [isBracketText, Piece.text, String.toList_ofList]
      rfl
    show (if isBracketText (Piece.mark c).text then some Colour.yellow else none) = _
    rw [hbracket]
    rfl

theorem paint_of_isBlank {piece : Piece} (known : List String) (h : piece.isBlank = true) :
    paint known piece = String.ofList piece.chars := by
  cases piece with
  | blank c => rfl
  | word run | mark c => cases h

/-- **A line as far as it is shown**, which is up to byte `next`. -/
structure Overlay where
  shown : String
  next : Nat

namespace Overlay

/-- **One lexeme**, and what lies before it. -/
def step? (known : List String) (line : String) (overlay : Overlay) (lexeme : Lexeme) : Option Overlay :=
  (slice? line overlay.next lexeme.start).map fun between =>
    ⟨overlay.shown ++ between ++ dye lexeme.text (colourOfLexeme known lexeme), lexeme.stop⟩

/-- **The end of the line**, behind the last lexeme. -/
def finish? (line : String) (overlay : Overlay) : Option String :=
  (slice? line overlay.next line.utf8ByteSize).map fun rest => overlay.shown ++ rest

section Line

variable {known : List String} {line shown : String} {before between after : List Char}

theorem finish?_eq (hline : line.toList = before ++ between) :
    finish? line ⟨shown, (String.ofList before).utf8ByteSize⟩ = some (shown ++ String.ofList between) := by
  have hslice := Text.slice?_append (hline.trans (List.append_nil _).symm)
  rw [← hline, String.ofList_toList] at hslice
  rw [finish?, hslice]
  rfl

theorem step?_eq {piece : Piece} (hblank : piece.isBlank = false) (hline : line.toList = before ++ between ++ after) :
    step? known line ⟨shown, (String.ofList before).utf8ByteSize⟩
        ⟨piece.text, (String.ofList (before ++ between)).utf8ByteSize, piece.isWord⟩ =
      some ⟨shown ++ String.ofList between ++ paint known piece,
        (String.ofList (before ++ between ++ piece.chars)).utf8ByteSize⟩ := by
  rw [step?, Text.slice?_append hline, colourOfLexeme_eq known hblank, Text.utf8ByteSize_append_chars]
  rfl

/-- **The lexemes among pieces are shown** where they are, and so is what lies between them, beginning with the blanks
`between` that are not copied yet. -/
theorem foldlM_locate {ps : List Piece} (hline : line.toList = before ++ between ++ ps.flatMap Piece.chars) :
    ((locate (String.ofList (before ++ between)).utf8ByteSize ps).foldlM (step? known line)
        ⟨shown, (String.ofList before).utf8ByteSize⟩).bind (finish? line) =
      some (shown ++ String.ofList between ++ String.join (ps.map (paint known))) := by
  induction ps generalizing before between shown with
  | nil =>
    rw [List.map_nil, String.join_nil, String.append_empty]
    exact finish?_eq (hline.trans (List.append_nil _))
  | cons piece ps ih =>
    rw [List.flatMap_cons] at hline
    have hnext : line.toList = before ++ between ++ piece.chars ++ ps.flatMap Piece.chars :=
      hline.trans (List.append_assoc _ _ _).symm
    rw [locate, ← Text.utf8ByteSize_append_chars, List.map_cons, String.join_cons, ← String.append_assoc]
    cases hblank : piece.isBlank with
    | true =>
      have hcopied : shown ++ String.ofList between ++ paint known piece =
          shown ++ String.ofList (between ++ piece.chars) := by
        rw [paint_of_isBlank known hblank, String.ofList_append, String.append_assoc]
      rw [if_pos rfl, hcopied, List.append_assoc]
      rw [List.append_assoc before] at hnext
      exact ih hnext
    | false =>
      rw [if_neg Bool.false_ne_true, List.foldlM_cons, step?_eq hblank hline]
      have hrest := @ih (shown ++ String.ofList between ++ paint known piece) (before ++ between ++ piece.chars) []
        (hnext.trans (congrArg (· ++ _) (List.append_nil _).symm))
      rwa [List.append_nil, String.ofList_nil, String.append_empty] at hrest

end Line

end Overlay

/-- **A line as the highlighter puts it together**, if everything that it copies is there. -/
def overlay? (known : List String) (line : String) : Option String :=
  (Text.sweep? line).bind fun lexemes =>
    if lexemes.isEmpty then some line
    else (lexemes.foldlM (Overlay.step? known line) ⟨"", 0⟩).bind (Overlay.finish? line)

/-- **The highlighter shows every line**, and shows all its pieces. -/
theorem overlay?_eq (known : List String) (line : String) : overlay? known line = some (highlight known line) := by
  have hpieces : line.toList = [] ++ [] ++ (pieces line.toList).flatMap Piece.chars := (chars_pieces _).symm
  have hshown : ((lexemes line).foldlM (Overlay.step? known line) ⟨"", 0⟩).bind (Overlay.finish? line) =
      some (highlight known line) := by
    rw [lexemes, highlight]
    simpa only [List.append_nil, String.ofList_nil, String.utf8ByteSize_empty, String.empty_append] using
      @Overlay.foldlM_locate known line "" [] [] _ hpieces
  rw [overlay?, Text.sweep?_eq, Option.bind_some]
  cases hempty : (lexemes line).isEmpty with
  | false => exact hshown
  | true =>
    -- Without lexemes the end of the line is the whole of it.
    have hline : Overlay.finish? line ⟨"", 0⟩ = some line := by
      simpa only [String.ofList_nil, String.utf8ByteSize_empty, String.empty_append, String.ofList_toList] using
        @Overlay.finish?_eq line "" [] line.toList rfl
    rw [List.isEmpty_iff.1 hempty] at hshown
    exact hline.symm.trans hshown

end LineShell.Editing
