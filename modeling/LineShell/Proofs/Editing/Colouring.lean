import Mathlib.Data.List.Nodup
import LineShell.Proofs.Editing.Display
import LineShell.Statement.Balance
/-!
# Colouring — which lexemes of a line are coloured

Every lexeme has the first colour that suits it, and a terminal that is sent the highlighted line turns that colour on
where the lexeme starts and off where it ends.  Nothing else of the line is coloured (`highlight_wraps`).
-/
namespace LineShell.Editing

open Text (Lexeme Piece lexemes pieces)

namespace Ink

/-- **A colour is turned on at a place**: at byte `start` of the text that is shown, with `after` sent behind it. -/
def TurnsOn (inks : List Ink) (colour : Colour) (start : Nat) (after : List Ink) : Prop :=
  ∃ before, inks = before ++ on colour :: after ∧ (plain before).utf8ByteSize = start

section TurnsOn

variable {known : List String} {piece : Piece} {ps : List Piece} {colour : Colour} {before after : List Ink}

/-- **A piece turns on its own colour only**, before its text. -/
theorem ofPiece_eq_append : ofPiece known piece = before ++ on colour :: after ↔
    before = [] ∧ colourOf known piece = some colour ∧ after = ofText piece.text ++ [off] := by
  rw [ofPiece]
  cases hcolour : colourOf known piece with
  | none =>
    constructor
    · intro h
      have hplain : ofText piece.text = before ++ on colour :: after := h
      exact absurd (hplain ▸ List.mem_append_right _ List.mem_cons_self) (on_notMem_ofText colour piece.text)
    · rintro ⟨-, h, -⟩
      cases h
  | some first =>
    cases before with
    | nil => simp [eq_comm]
    | cons ink before =>
      constructor
      · intro h
        -- The code would stand among the characters, or be the one that turns the colour off.
        have hmem : on colour ∈ ofText piece.text ++ [off] :=
          (List.cons.inj h).2 ▸ List.mem_append_right _ List.mem_cons_self
        rcases List.mem_append.1 hmem with hmem | hmem
        · exact absurd hmem (on_notMem_ofText colour piece.text)
        · cases List.mem_singleton.1 hmem
      · rintro ⟨h, -⟩
        cases h

/-- **A colour that is turned on among pieces** is that of the piece that starts there. -/
theorem flatMap_ofPiece_eq_append : ps.flatMap (ofPiece known) = before ++ on colour :: after ↔
    ∃ front piece back, ps = front ++ piece :: back ∧ colourOf known piece = some colour ∧
      before = front.flatMap (ofPiece known) ∧ after = ofText piece.text ++ off :: back.flatMap (ofPiece known) := by
  constructor
  · intro h
    induction ps generalizing before with
    | nil => cases List.append_eq_nil_iff.1 h.symm |>.2
    | cons first ps ih =>
      rw [List.flatMap_cons] at h
      rcases List.append_eq_append_iff.1 h with ⟨mid, rfl, hps⟩ | ⟨mid, hfirst, hmid⟩
      · obtain ⟨front, piece, back, rfl, hcolour, rfl, rfl⟩ := ih hps
        exact ⟨first :: front, piece, back, rfl, hcolour, rfl, rfl⟩
      · cases mid with
        | nil =>
          obtain ⟨front, piece, back, rfl, hcolour, hfront, rfl⟩ := @ih [] hmid.symm
          refine ⟨first :: front, piece, back, rfl, hcolour, ?_, rfl⟩
          rw [List.flatMap_cons, ← hfront, hfirst, List.append_nil, List.append_nil]
        | cons ink mid =>
          rw [List.cons_append, List.cons.injEq] at hmid
          obtain ⟨rfl, rfl⟩ := hmid
          obtain ⟨rfl, hcolour, rfl⟩ := ofPiece_eq_append.1 hfirst
          exact ⟨[], first, ps, rfl, hcolour, rfl, List.append_assoc _ _ _⟩
  · rintro ⟨front, piece, back, rfl, hcolour, rfl, rfl⟩
    rw [List.flatMap_append, List.flatMap_cons, ofPiece_of_colour hcolour, List.cons_append, List.append_assoc]
    rfl

theorem turnsOn_pieces {start : Nat} : TurnsOn (ps.flatMap (ofPiece known)) colour start after ↔
    ∃ front piece back, ps = front ++ piece :: back ∧ colourOf known piece = some colour ∧
      Text.sizeOf front = start ∧ after = ofText piece.text ++ off :: back.flatMap (ofPiece known) := by
  constructor
  · rintro ⟨before, h, rfl⟩
    obtain ⟨front, piece, back, rfl, hcolour, rfl, rfl⟩ := flatMap_ofPiece_eq_append.1 h
    exact ⟨front, piece, back, rfl, hcolour, (size_plain_pieces known front).symm, rfl⟩
  · rintro ⟨front, piece, back, rfl, hcolour, rfl, rfl⟩
    exact ⟨_, flatMap_ofPiece_eq_append.2 ⟨front, piece, back, rfl, hcolour, rfl, rfl⟩, size_plain_pieces known front⟩

end TurnsOn

end Ink

/-! ### The colour of a lexeme -/

/-- **The colours**, in the order in which they apply. -/
def Colour.all : List Colour := [.yellow, .magenta, .cyan, .green]

/-- **What each colour is for**: brackets, keywords, words that are integers, and words that the session knows. An
integer or a name of the session counts only where the lexeme is a word: a mark is in no colour but that of brackets,
even if the session has a name that is spelt like it. -/
def suits (known : List String) (lexeme : Lexeme) : Colour → Bool
  | .yellow => Statement.Bracket.all.any fun b =>
      lexeme.text == String.singleton b.opener || lexeme.text == String.singleton b.closer
  | .magenta => isKeyword lexeme.text
  | .cyan => lexeme.isWord && Integer.isInteger lexeme.text
  | .green => lexeme.isWord && known.contains lexeme.text

section Suits

variable {known : List String} {piece : Piece} {lexeme : Lexeme}

theorem suits_yellow_iff : suits known lexeme .yellow = true ↔
    ∃ c, lexeme.text = String.singleton c ∧ Statement.isBracket c = true := by
  rw [suits, List.any_eq_true]
  constructor
  · rintro ⟨b, hb, h⟩
    rw [Bool.or_eq_true, beq_iff_eq, beq_iff_eq] at h
    rcases h with h | h
    · exact ⟨b.opener, h, List.any_eq_true.2 ⟨b, hb, by simp⟩⟩
    · exact ⟨b.closer, h, List.any_eq_true.2 ⟨b, hb, by simp⟩⟩
  · rintro ⟨c, htext, hc⟩
    obtain ⟨b, hb, h⟩ := List.any_eq_true.1 hc
    exact ⟨b, hb, by simpa [htext] using h⟩

/-- **A keyword is a word.** -/
theorem all_isWordChar_of_isKeyword {word : String} (h : isKeyword word = true) :
    word.toList.all Text.isWordChar = true := by
  have hall : ∀ keyword ∈ Statement.blockWords ++ otherKeywords ++ [Statement.closingWord],
      keyword.toList.all Text.isWordChar = true := by decide +kernel
  exact hall word (isKeyword_iff.1 h)

/-- **The colour of a piece is the first that suits it.** -/
theorem colourOf_eq (h : piece.WellCut) (hblank : piece.isBlank = false) (start : Nat) :
    colourOf known piece = Colour.all.find? (suits known ⟨piece.text, start, piece.isWord⟩) := by
  cases piece with
  | blank c => cases hblank
  | word run =>
    have hyellow : suits known ⟨String.ofList run, start, true⟩ .yellow = false := by
      refine Bool.eq_false_iff.2 fun hy => ?_
      obtain ⟨c, htext, hc⟩ := suits_yellow_iff.1 hy
      obtain rfl : run = [c] := by simpa using congrArg String.toList htext
      have hword : Text.isWordChar c = true := by simpa using h.2
      exact Bool.false_ne_true ((Statement.isWordChar_of_isBracket hc).symm.trans hword)
    have htext : (Piece.word run).text = String.ofList run := rfl
    rw [colourOf, colourOfWord, htext]
    simp only [Colour.all, List.find?_cons, List.find?_nil, hyellow, Piece.isWord]
    simp only [suits, Bool.true_and]
    cases isKeyword (String.ofList run) <;> cases Integer.isInteger (String.ofList run) <;>
      cases known.contains (String.ofList run) <;> rfl
  | mark c =>
    have htext : (Piece.mark c).text = String.singleton c := rfl
    have hkeyword : isKeyword (String.singleton c) = false := by
      refine Bool.eq_false_iff.2 fun hk => ?_
      have hword : Text.isWordChar c = true := by simpa using all_isWordChar_of_isKeyword hk
      exact Bool.false_ne_true (h.1.symm.trans hword)
    have hyellow : suits known ⟨String.singleton c, start, false⟩ .yellow = Statement.isBracket c := by
      rw [Bool.eq_iff_iff, suits_yellow_iff]
      exact ⟨fun ⟨d, hd, hb⟩ => String.singleton_inj.1 hd ▸ hb, fun hb => ⟨c, rfl, hb⟩⟩
    rw [colourOf, htext]
    simp only [Colour.all, List.find?_cons, List.find?_nil, hyellow, Piece.isWord]
    simp only [suits, hkeyword, Bool.false_and]
    cases Statement.isBracket c <;> rfl

end Suits

section Lexemes

variable {line : String} {lexeme lexeme' : Lexeme}

/-- **A lexeme is told by its place.** -/
theorem eq_of_start_eq (h : lexeme ∈ lexemes line) (h' : lexeme' ∈ lexemes line)
    (hstart : lexeme.start = lexeme'.start) : lexeme = lexeme' := by
  have hnodup : ((lexemes line).map Lexeme.start).Nodup := List.pairwise_map.2 <|
    List.Pairwise.imp_of_mem (fun hx _ hle => Nat.ne_of_lt (Nat.lt_of_lt_of_le (Text.start_lt_stop hx) hle))
      Text.pairwise_locate
  exact List.inj_on_of_nodup_map hnodup h h' hstart

end Lexemes

/-- **A highlighted line is the line with colours put in.** Without the codes it is the line. A colour is turned on only
where a lexeme starts, and off behind the whole of that lexeme, with no other code in between. And a lexeme has the
first colour that suits it, if there is one, where a name of the session suits a word only, and no mark. -/
theorem highlight_wraps {assistant : Assistant} {line : String} {offset : Nat} (h : escape ∉ line.toList) :
    let inks := Ink.read (assistant.highlight line offset).toList
    Ink.plain inks = line ∧
      (∀ colour start after, Ink.TurnsOn inks colour start after →
        ∃ lexeme ∈ lexemes line, lexeme.start = start ∧
          ∃ rest, after = Ink.ofText lexeme.text ++ Ink.off :: rest) ∧
      ∀ lexeme ∈ lexemes line, ∀ colour,
        (∃ rest, Ink.TurnsOn inks colour lexeme.start (Ink.ofText lexeme.text ++ Ink.off :: rest)) ↔
          Colour.all.find? (suits assistant.names lexeme) = some colour := by
  intro inks
  have hinks : inks = (pieces line.toList).flatMap (Ink.ofPiece assistant.names) := Ink.read_highlight h
  -- What is turned on is the colour of the lexeme that starts there.
  have hon : ∀ colour start after, Ink.TurnsOn inks colour start after →
      ∃ lexeme ∈ lexemes line, lexeme.start = start ∧
        Colour.all.find? (suits assistant.names lexeme) = some colour ∧
        ∃ rest, after = Ink.ofText lexeme.text ++ Ink.off :: rest := by
    intro colour start after hon
    rw [hinks] at hon
    obtain ⟨front, piece, back, hpieces, hcolour, rfl, rfl⟩ := Ink.turnsOn_pieces.1 hon
    have hblank : piece.isBlank = false := by
      cases piece with
      | blank c => cases hcolour
      | word run | mark c => rfl
    rw [colourOf_eq (Text.wellCut_of_pieces_eq hpieces) hblank (0 + Text.sizeOf front)] at hcolour
    exact ⟨_, Text.mem_locate.2 ⟨front, piece, back, hpieces, hblank, rfl⟩, Nat.zero_add _, hcolour, _, rfl⟩
  refine ⟨?_, fun colour start after hstart => ?_, fun lexeme hlexeme colour => ⟨?_, fun hcolour => ?_⟩⟩
  · rw [hinks, Ink.plain_pieces, Text.chars_pieces, String.ofList_toList]
  · obtain ⟨lexeme, hmem, hplace, -, hafter⟩ := hon colour start after hstart
    exact ⟨lexeme, hmem, hplace, hafter⟩
  · rintro ⟨rest, hstart⟩
    obtain ⟨other, hmem, hplace, hcolour, -⟩ := hon _ _ _ hstart
    exact eq_of_start_eq hmem hlexeme hplace ▸ hcolour
  · obtain ⟨front, piece, back, hpieces, hblank, rfl⟩ := Text.mem_locate.1 hlexeme
    rw [← colourOf_eq (Text.wellCut_of_pieces_eq hpieces) hblank] at hcolour
    rw [hinks]
    exact ⟨_, Ink.turnsOn_pieces.2 ⟨front, piece, back, hpieces, hcolour, (Nat.zero_add _).symm, rfl⟩⟩

/-- **A name with letters beyond ASCII, that is known, and an integer in brackets**, which is known as well. -/
theorem highlight_wraps_known :
    let inks := Ink.read ((⟨["12", "größe", "if"]⟩ : Assistant).highlight "größe[12]" 4).toList
    escape ∉ "größe[12]".toList ∧ Ink.plain inks = "größe[12]" ∧
      (∃ rest, Ink.TurnsOn inks .green 0 (Ink.ofText "größe" ++ Ink.off :: rest)) ∧
      (∃ rest, Ink.TurnsOn inks .yellow 7 (Ink.ofText "[" ++ Ink.off :: rest)) ∧
      (∃ rest, Ink.TurnsOn inks .cyan 8 (Ink.ofText "12" ++ Ink.off :: rest)) ∧
      ¬∃ rest, Ink.TurnsOn inks .green 8 (Ink.ofText "12" ++ Ink.off :: rest) := by
  intro inks
  have hescape : escape ∉ "größe[12]".toList := by decide
  have hname : (⟨"größe", 0, true⟩ : Lexeme) ∈ lexemes "größe[12]" := by decide +kernel
  have hbracket : (⟨"[", 7, false⟩ : Lexeme) ∈ lexemes "größe[12]" := by decide +kernel
  have hinteger : (⟨"12", 8, true⟩ : Lexeme) ∈ lexemes "größe[12]" := by decide +kernel
  obtain ⟨hplain, -, hwraps⟩ := @highlight_wraps ⟨["12", "größe", "if"]⟩ "größe[12]" 4 hescape
  refine ⟨hescape, hplain, (hwraps _ hname _).2 (by decide +kernel), (hwraps _ hbracket _).2 (by decide +kernel),
    (hwraps _ hinteger _).2 (by decide +kernel), fun hgreen => ?_⟩
  exact absurd ((hwraps _ hinteger _).1 hgreen) (by decide +kernel)

end LineShell.Editing
