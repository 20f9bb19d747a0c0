import LineShell.Text.Encoding
import LineShell.Text.Lexeme
/-!
# Cutting — what the lexemes leave of a line

Each lexeme is the slice of the line at its place, no two places overlap, and what lies between them is white space
and nothing else.  The words among the lexemes are the words of the line (`lexemes_lossless`).
-/
namespace LineShell.Text

/-- **A blank piece is white space**, and a word or mark holds none. -/
theorem isBlank_of_mem_chars {piece : Piece} {c : Char} (h : piece.WellCut) (hc : c ∈ piece.chars) :
    isBlank c = piece.isBlank := by
  cases piece with
  | word run =>
    have hword : isWordChar c = true := List.all_eq_true.1 h.2 c hc
    refine Bool.eq_false_iff.2 fun hb => ?_
    exact Bool.false_ne_true ((isWordChar_of_isBlank hb).symm.trans hword)
  | blank d => exact List.mem_singleton.1 hc ▸ h
  | mark d => exact List.mem_singleton.1 hc ▸ h.2

/-- **A character stands in a lexeme**, the character being the one at byte `offset`. -/
def Lexeme.Covers (lexeme : Lexeme) (offset : Nat) (c : Char) : Prop :=
  lexeme.start ≤ offset ∧ offset + c.utf8Size ≤ lexeme.stop

section Places

variable {offset : Nat} {ps : List Piece} {lexeme : Lexeme} {before after : List Char} {c : Char}

theorem start_le_of_mem_locate (h : lexeme ∈ locate offset ps) : offset ≤ lexeme.start := by
  obtain ⟨front, piece, back, -, -, rfl⟩ := mem_locate.1 h
  exact Nat.le_add_right _ _

/-- **A character of the first piece** stands in a lexeme if and only if the piece is one. -/
theorem covers_first {piece : Piece} (hps : piece.chars = before ++ c :: after) :
    (∃ lexeme ∈ locate offset (piece :: ps), lexeme.Covers (offset + (String.ofList before).utf8ByteSize) c) ↔
      piece.isBlank = false := by
  have hsize : piece.size = (String.ofList before).utf8ByteSize + (c.utf8Size + (String.ofList after).utf8ByteSize) := by
    rw [Piece.size, Piece.text, hps, String.ofList_append, String.utf8ByteSize_append, utf8ByteSize_ofList_cons]
  have hc := c.utf8Size_pos
  rw [locate]
  cases hblank : piece.isBlank with
  | false =>
    refine iff_of_true ⟨_, List.mem_cons_self, Nat.le_add_right _ _, ?_⟩ rfl
    show _ ≤ offset + piece.size
    omega
  | true =>
    -- The lexemes behind the piece start past the character.
    refine iff_of_false ?_ Bool.false_ne_true.symm
    rintro ⟨lexeme, hmem, hstart, -⟩
    have hle := start_le_of_mem_locate hmem
    omega

/-- **A character behind the first piece** stands in a lexeme if and only if it stands in one of those behind it. -/
theorem covers_behind (piece : Piece) (rest : List Char) :
    (∃ lexeme ∈ locate offset (piece :: ps),
      lexeme.Covers (offset + (String.ofList (piece.chars ++ rest)).utf8ByteSize) c) ↔
    ∃ lexeme ∈ locate (offset + piece.size) ps,
      lexeme.Covers (offset + piece.size + (String.ofList rest).utf8ByteSize) c := by
  have hsize : offset + (String.ofList (piece.chars ++ rest)).utf8ByteSize =
      offset + piece.size + (String.ofList rest).utf8ByteSize := by
    rw [String.ofList_append, String.utf8ByteSize_append, ← Nat.add_assoc]
    rfl
  rw [hsize, locate]
  cases piece.isBlank with
  | true => rfl
  | false =>
    constructor
    · rintro ⟨lexeme, hmem, hcovers⟩
      rcases List.mem_cons.1 hmem with rfl | hmem
      · -- The lexeme of the first piece ends before the character.
        have hc := c.utf8Size_pos
        have hstop : offset + piece.size + (String.ofList rest).utf8ByteSize + c.utf8Size ≤ offset + piece.size :=
          hcovers.2
        omega
      · exact ⟨lexeme, hmem, hcovers⟩
    · rintro ⟨lexeme, hmem, hcovers⟩
      exact ⟨lexeme, List.mem_cons_of_mem _ hmem, hcovers⟩

/-- **A character stands in a lexeme if and only if it is no white space.** -/
theorem exists_covers_iff (offset : Nat) (hcut : ∀ piece ∈ ps, piece.WellCut)
    (h : ps.flatMap Piece.chars = before ++ c :: after) :
    (∃ lexeme ∈ locate offset ps, lexeme.Covers (offset + (String.ofList before).utf8ByteSize) c) ↔
      isBlank c = false := by
  induction ps generalizing offset before with
  | nil => simp at h
  | cons piece ps ih =>
    obtain ⟨hpiece, hcut⟩ := List.forall_mem_cons.1 hcut
    rw [List.flatMap_cons] at h
    rcases List.append_eq_append_iff.1 h with ⟨rest, rfl, hrest⟩ | ⟨inside, hinside, hafter⟩
    · rw [covers_behind]
      exact ih _ hcut hrest
    · cases inside with
      | nil =>
        have hbefore : piece.chars ++ [] = before := (List.append_nil _).trans (hinside.trans (List.append_nil _))
        rw [← hbefore, covers_behind]
        exact ih _ hcut hafter.symm
      | cons d inside =>
        obtain ⟨rfl, -⟩ := List.cons.inj hafter
        rw [isBlank_of_mem_chars hpiece (hinside ▸ List.mem_append_right _ List.mem_cons_self)]
        exact covers_first hinside

/-- **The words among the lexemes** are those among the pieces. -/
theorem filter_isWord_locate (offset : Nat) (ps : List Piece) :
    ((locate offset ps).filter Lexeme.isWord).map Lexeme.text = (ps.filterMap Piece.run?).map String.ofList := by
  induction ps generalizing offset with
  | nil => rfl
  | cons piece ps ih =>
    rw [locate]
    cases piece with
    | word run => exact congrArg (String.ofList run :: ·) (ih _)
    | blank c | mark c => exact ih _

end Places

/-- **A line is its lexemes and white space.** The lexemes come in the order of their places, which do not overlap;
each is the slice of the line at its place; a character stands in one of them if and only if it is no white space; a
lexeme that is no word is one character, of no word and no white space; and the others are the words of the line. -/
theorem lexemes_lossless (line : String) :
    (lexemes line).Pairwise (fun lexeme next => lexeme.stop ≤ next.start) ∧
      (∀ lexeme ∈ lexemes line, lexeme.start < lexeme.stop ∧
        ∃ before after, line = before ++ lexeme.text ++ after ∧ before.utf8ByteSize = lexeme.start) ∧
      (∀ before c after, line.toList = before ++ c :: after →
        ((∃ lexeme ∈ lexemes line, lexeme.Covers (String.ofList before).utf8ByteSize c) ↔ isBlank c = false)) ∧
      (∀ lexeme ∈ lexemes line, lexeme.isWord = false →
        ∃ c, lexeme.text = String.singleton c ∧ isWordChar c = false ∧ isBlank c = false) ∧
      ((lexemes line).filter Lexeme.isWord).map Lexeme.text = words line := by
  refine ⟨pairwise_locate, fun lexeme h => ⟨start_lt_stop h, ?_⟩, fun before c after h => ?_,
    fun lexeme h hmark => ?_, ?_⟩
  · obtain ⟨front, piece, back, hpieces, -, rfl⟩ := mem_locate.1 h
    refine ⟨String.ofList (front.flatMap Piece.chars), String.ofList (back.flatMap Piece.chars), ?_, ?_⟩
    · have hline := chars_pieces line.toList
      rw [hpieces, List.flatMap_append, List.flatMap_cons] at hline
      rw [← String.toList_inj, ← hline]
      simp [Piece.text]
    · rw [utf8ByteSize_chars, Nat.zero_add]
  · have hcut := fun piece (hp : piece ∈ pieces line.toList) => wellCut_of_mem_pieces hp
    have hcovers := exists_covers_iff 0 hcut ((chars_pieces line.toList).trans h)
    rwa [Nat.zero_add] at hcovers
  · obtain ⟨front, piece, back, hpieces, hblank, rfl⟩ := mem_locate.1 h
    have hcut := wellCut_of_pieces_eq hpieces
    cases piece with
    | word run => cases hmark
    | blank c => cases hblank
    | mark c => exact ⟨c, rfl, hcut⟩
  · exact (filter_isWord_locate 0 _).trans (congrArg _ (filterMap_run?_pieces _))

/-- **A mark of three bytes behind a letter of two**, and the space behind the mark. -/
theorem lexemes_lossless_mark :
    (⟨"→", 2, false⟩ : Lexeme) ∈ lexemes "é→ x1" ∧
      (∃ before after, "é→ x1" = before ++ "→" ++ after ∧ before.utf8ByteSize = 2) ∧
      (∃ c, "→" = String.singleton c ∧ isWordChar c = false ∧ isBlank c = false) ∧
      "é→ x1".toList = ['é', '→'] ++ ' ' :: ['x', '1'] ∧
      ¬∃ lexeme ∈ lexemes "é→ x1", lexeme.Covers (String.ofList ['é', '→']).utf8ByteSize ' ' := by
  have hmem : (⟨"→", 2, false⟩ : Lexeme) ∈ lexemes "é→ x1" := by decide +kernel
  have hline : "é→ x1".toList = ['é', '→'] ++ ' ' :: ['x', '1'] := by decide
  obtain ⟨-, hslice, hcovers, hmark, -⟩ := lexemes_lossless "é→ x1"
  refine ⟨hmem, (hslice _ hmem).2, hmark _ hmem rfl, hline, fun h => ?_⟩
  exact absurd ((hcovers _ _ _ hline).1 h) (by decide)

end LineShell.Text
