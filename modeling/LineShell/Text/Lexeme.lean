import LineShell.Text.Blank
import LineShell.Text.Word
/-!
# Lexeme — the words and marks of a line, with their places

A line is cut into pieces that together are the line again: words, single blanks, and marks (any other single
character).  Its lexemes are the words and the marks, each with the byte offset at which it starts.
-/
namespace LineShell.Text

/-- No code point of the white space is a letter, a numeral or the underscore. -/
theorem blankRanges_apart : ∀ range ∈ blankRanges, ∀ k ≤ range.2 - range.1,
    inRanges (range.1 + k) letterRanges = false ∧ inRanges (range.1 + k) numberRanges = false ∧
      range.1 + k ≠ '_'.toNat := by
  decide +kernel

theorem isWordChar_of_isBlank {c : Char} (h : isBlank c = true) : isWordChar c = false := by
  obtain ⟨range, hmem, hlo, hhi⟩ := exists_of_inRanges h
  obtain ⟨hl, hn, hu⟩ := blankRanges_apart range hmem (c.toNat - range.1) (by omega)
  rw [Nat.add_sub_cancel' hlo] at hl hn hu
  have hne : (c == '_') = false := beq_false_of_ne fun he => hu (he ▸ rfl)
  rw [isWordChar, isLetter, isNumber, hl, hn, hne]
  rfl

/-- **A piece of a line**: a maximal run of word characters, or one character that belongs to no word. -/
inductive Piece where
  | word (run : List Char)
  | blank (c : Char)
  | mark (c : Char)
  deriving DecidableEq, Repr

namespace Piece

def chars : Piece → List Char
  | word run => run
  | blank c => [c]
  | mark c => [c]

def text (piece : Piece) : String := String.ofList piece.chars

/-- **The length of a piece in bytes of UTF-8.** -/
def size (piece : Piece) : Nat := piece.text.utf8ByteSize

def isWord : Piece → Bool
  | word _ => true
  | _ => false

def isBlank : Piece → Bool
  | blank _ => true
  | _ => false

/-- **One character set before a line that is already cut.** A word character joins a word that it touches. -/
def before (c : Char) (pieces : List Piece) : List Piece :=
  if isWordChar c then
    match pieces with
    | word run :: rest => word (c :: run) :: rest
    | _ => word [c] :: pieces
  else if Text.isBlank c then blank c :: pieces
  else mark c :: pieces

end Piece

def pieces (cs : List Char) : List Piece := cs.foldr Piece.before []

/-- **A character set before a cut line adds that character.** -/
theorem chars_before (c : Char) (ps : List Piece) :
    (Piece.before c ps).flatMap Piece.chars = c :: ps.flatMap Piece.chars := by
  unfold Piece.before
  split
  · split <;> rfl
  · split <;> rfl

/-- **The pieces of a line are the line again.** -/
theorem chars_pieces (cs : List Char) : (pieces cs).flatMap Piece.chars = cs := by
  induction cs with
  | nil => rfl
  | cons c cs ih => rw [pieces, List.foldr_cons, chars_before, ← pieces, ih]

theorem pieces_cons_of_not {c : Char} (cs : List Char) (h : isWordChar c = false) :
    pieces (c :: cs) = (if isBlank c then .blank c else .mark c) :: pieces cs := by
  rw [pieces, List.foldr_cons, ← pieces]
  unfold Piece.before
  rw [if_neg (ne_true_of_eq_false h)]
  split <;> rfl

/-- **A word character starts a word**, which is cut off where the word characters end. -/
theorem pieces_cons {c : Char} (cs : List Char) (h : isWordChar c = true) :
    pieces (c :: cs) = .word (c :: cs.takeWhile isWordChar) :: pieces (cs.dropWhile isWordChar) := by
  induction cs generalizing c with
  | nil =>
    rw [pieces, List.foldr_cons, List.foldr_nil]
    unfold Piece.before
    rw [if_pos h]
    rfl
  | cons d ds ih =>
    rw [pieces, List.foldr_cons, ← pieces]
    unfold Piece.before
    rw [if_pos h]
    by_cases hd : isWordChar d = true
    · rw [ih hd, List.takeWhile_cons_of_pos hd, List.dropWhile_cons_of_pos hd]
    · rw [List.takeWhile_cons_of_neg hd, List.dropWhile_cons_of_neg hd,
        pieces_cons_of_not ds (Bool.eq_false_iff.2 hd)]
      by_cases hblank : isBlank d = true
      · rw [if_pos hblank]
      · rw [if_neg hblank]

/-- **A line of word characters is one word.** -/
theorem pieces_of_all {c : Char} {cs : List Char} (h : (c :: cs).all isWordChar = true) :
    pieces (c :: cs) = [.word (c :: cs)] := by
  rw [List.all_cons, Bool.and_eq_true] at h
  obtain ⟨hc, hcs⟩ := h
  have hend : EndsRun isWordChar [] := nofun
  have htake := takeWhile_endsRun hcs hend
  have hdrop := dropWhile_endsRun hcs hend
  rw [List.append_nil] at htake hdrop
  rw [pieces_cons cs hc, htake, hdrop]
  rfl

/-- **What a piece is made of**: word characters, and at least one; one blank; or one character of neither kind. -/
def Piece.WellCut : Piece → Prop
  | word run => run ≠ [] ∧ run.all isWordChar = true
  | blank c => Text.isBlank c = true
  | mark c => isWordChar c = false ∧ Text.isBlank c = false

theorem wellCut_of_mem_pieces {piece : Piece} {cs : List Char} (h : piece ∈ pieces cs) : piece.WellCut := by
  induction cs using wordInduction with
  | nil => cases h
  | other c cs hc ih =>
    rw [pieces_cons_of_not cs hc] at h
    rcases List.mem_cons.1 h with rfl | h
    · split
      · assumption
      · exact ⟨hc, Bool.eq_false_iff.2 ‹_›⟩
    · exact ih h
  | word c cs hc ih =>
    rw [pieces_cons cs hc] at h
    rcases List.mem_cons.1 h with rfl | h
    · refine ⟨List.cons_ne_nil _ _, ?_⟩
      rw [List.all_cons, hc, List.all_takeWhile]
      rfl
    · exact ih h

theorem wellCut_of_pieces_eq {piece : Piece} {front back : List Piece} {cs : List Char}
    (h : pieces cs = front ++ piece :: back) : piece.WellCut :=
  wellCut_of_mem_pieces (h ▸ List.mem_append_right _ List.mem_cons_self)

/-- **The characters of a word.** -/
def Piece.run? : Piece → Option (List Char)
  | word run => some run
  | _ => none

/-- **The words that are cut out of a line are its words.** -/
theorem filterMap_run?_pieces (cs : List Char) : (pieces cs).filterMap Piece.run? = wordRuns cs := by
  induction cs using wordInduction with
  | nil => rfl
  | other c cs hc ih =>
    rw [pieces_cons_of_not cs hc, wordRuns_cons_of_not cs hc, List.filterMap_cons_none (by split <;> rfl), ih]
  | word c cs hc ih =>
    rw [pieces_cons cs hc, wordRuns_cons cs hc, ← ih]
    rfl

theorem count_mark_before {c : Char} (hword : isWordChar c = false) (hblank : isBlank c = false) (d : Char)
    (ps : List Piece) : (Piece.before d ps).count (.mark c) = ps.count (.mark c) + if d == c then 1 else 0 := by
  unfold Piece.before
  split
  · rename_i hd
    have hne : (d == c) = false := beq_false_of_ne fun he => Bool.false_ne_true (hword.symm.trans (he ▸ hd))
    rw [hne]
    split <;> simp
  · split
    · rename_i hd
      have hne : (d == c) = false := beq_false_of_ne fun he => Bool.false_ne_true (hblank.symm.trans (he ▸ hd))
      rw [hne]
      simp
    · rw [List.count_cons]
      simp

/-- **A character of no word and no white space is a mark** wherever it stands. -/
theorem count_mark_pieces {c : Char} (hword : isWordChar c = false) (hblank : isBlank c = false) (cs : List Char) :
    (pieces cs).count (.mark c) = cs.count c := by
  induction cs with
  | nil => rfl
  | cons d cs ih => rw [pieces, List.foldr_cons, ← pieces, count_mark_before hword hblank, ih, List.count_cons]

/-- **A word or mark and its place.** `start` is a byte offset. -/
structure Lexeme where
  text : String
  start : Nat
  isWord : Bool
  deriving DecidableEq, Repr

/-- **The byte offset just past a lexeme.** -/
def Lexeme.stop (lexeme : Lexeme) : Nat := lexeme.start + lexeme.text.utf8ByteSize

/-- **The lexemes among pieces**, the first of which starts at byte `offset`: all pieces but the blanks. -/
def locate (offset : Nat) : List Piece → List Lexeme
  | [] => []
  | piece :: rest =>
    let after := locate (offset + piece.size) rest
    if piece.isBlank then after else ⟨piece.text, offset, piece.isWord⟩ :: after

def lexemes (line : String) : List Lexeme := locate 0 (pieces line.toList)

/-- **The length of pieces in bytes of UTF-8.** -/
def sizeOf : List Piece → Nat
  | [] => 0
  | piece :: rest => piece.size + sizeOf rest

/-- **The characters of pieces are as long as the pieces.** -/
theorem utf8ByteSize_chars (ps : List Piece) : (String.ofList (ps.flatMap Piece.chars)).utf8ByteSize = sizeOf ps := by
  induction ps with
  | nil => rfl
  | cons piece ps ih =>
    rw [List.flatMap_cons, String.ofList_append, String.utf8ByteSize_append, ih]
    rfl

theorem utf8ByteSize_append_chars (before : List Char) (piece : Piece) :
    (String.ofList (before ++ piece.chars)).utf8ByteSize = (String.ofList before).utf8ByteSize + piece.size := by
  rw [String.ofList_append, String.utf8ByteSize_append]
  rfl

/-- **A lexeme is a piece that is no blank**, and starts where the pieces before it end. -/
theorem mem_locate {lexeme : Lexeme} {offset : Nat} {ps : List Piece} : lexeme ∈ locate offset ps ↔
    ∃ before piece after, ps = before ++ piece :: after ∧ piece.isBlank = false ∧
      lexeme = ⟨piece.text, offset + sizeOf before, piece.isWord⟩ := by
  induction ps generalizing offset with
  | nil => simp [locate]
  | cons first rest ih =>
    have hhere : lexeme ∈ locate offset (first :: rest) ↔
        (first.isBlank = false ∧ lexeme = ⟨first.text, offset, first.isWord⟩) ∨
          lexeme ∈ locate (offset + first.size) rest := by
      rw [locate]
      cases hblank : first.isBlank <;> simp
    rw [hhere, ih]
    constructor
    · rintro (⟨hblank, rfl⟩ | ⟨before, piece, after, rfl, hblank, rfl⟩)
      · exact ⟨[], first, rest, rfl, hblank, rfl⟩
      · exact ⟨first :: before, piece, after, rfl, hblank, by simp [sizeOf, Nat.add_assoc]⟩
    · rintro ⟨before, piece, after, hps, hblank, rfl⟩
      cases before with
      | nil =>
        obtain ⟨rfl, rfl⟩ := List.cons.inj hps
        exact .inl ⟨hblank, rfl⟩
      | cons b before =>
        obtain ⟨rfl, rfl⟩ := List.cons.inj hps
        exact .inr ⟨before, piece, after, rfl, hblank, by simp [sizeOf, Nat.add_assoc]⟩

/-- **No two lexemes overlap**, and they come in the order of their places. -/
theorem pairwise_locate {offset : Nat} {ps : List Piece} :
    (locate offset ps).Pairwise fun lexeme lexeme' => lexeme.stop ≤ lexeme'.start := by
  induction ps generalizing offset with
  | nil => exact .nil
  | cons first rest ih =>
    rw [locate]
    cases first.isBlank with
    | true => exact ih
    | false =>
      refine List.pairwise_cons.2 ⟨fun lexeme h => ?_, ih⟩
      obtain ⟨before, piece, after, -, -, rfl⟩ := mem_locate.1 h
      exact Nat.le_add_right _ _

theorem Piece.WellCut.size_pos {piece : Piece} (h : piece.WellCut) : 0 < piece.size := by
  have hne : piece.chars ≠ [] := by
    cases piece with
    | word run => exact h.1
    | blank c | mark c => exact List.cons_ne_nil _ _
  rw [Piece.size, Piece.text, Nat.pos_iff_ne_zero, Ne, String.utf8ByteSize_eq_zero_iff]
  simpa using hne

theorem start_lt_stop {line : String} {lexeme : Lexeme} (h : lexeme ∈ lexemes line) : lexeme.start < lexeme.stop := by
  obtain ⟨front, piece, back, hpieces, -, rfl⟩ := mem_locate.1 h
  exact Nat.lt_add_of_pos_right (wellCut_of_pieces_eq hpieces).size_pos

end LineShell.Text
