import LineShell.Editing.Assistant
/-!
# Display — what a terminal makes of a highlighted line

A terminal reads what it is sent from left to right, as characters to show and codes that turn a colour on or off.  Of a
line with no escape character in it, the codes that are read are those that the highlighter put there
(`read_highlight`).
-/
namespace LineShell.Editing

open Text (Piece pieces)

/-- **The character that every code starts with.** -/
def escape : Char := '\x1b'

/-- **What a terminal is sent**: a character to show, or a code. -/
inductive Ink where
  | char (c : Char)
  | on (colour : Colour)
  | off
  deriving DecidableEq, Repr

namespace Ink

/-- **The characters that a terminal is sent** for a character or a code. -/
def spelling : Ink → List Char
  | char c => [c]
  | on colour => colour.code.toList
  | off => resetCode.toList

def codes : List Ink := [on .yellow, on .magenta, on .cyan, on .green, off]

def char? : Ink → Option Char
  | char c => some c
  | _ => none

/-- **What a terminal reads**: codes where there is one, and the characters themselves elsewhere. -/
def read : List Char → List Ink
  | [] => []
  | c :: cs =>
    match codes.find? (·.spelling.isPrefixOf (c :: cs)) with
    | some code => code :: read (cs.drop (code.spelling.length - 1))
    | none => char c :: read cs
termination_by cs => cs.length
decreasing_by
  · exact Nat.lt_succ_of_le (cs.length_drop ▸ Nat.sub_le _ _)
  · exact Nat.lt_succ_self _

section Read

variable {code : Ink} {c : Char} {inks : List Ink}

theorem exists_of_mem_codes (h : code ∈ codes) : ∃ rest, code.spelling = escape :: rest := by
  simp only [codes, List.mem_cons, List.not_mem_nil, or_false] at h
  rcases h with rfl | rfl | rfl | rfl | rfl <;> exact ⟨_, rfl⟩

/-- No code is the beginning of another. -/
theorem find?_codes (h : code ∈ codes) (cs : List Char) :
    codes.find? (·.spelling.isPrefixOf (code.spelling ++ cs)) = some code := by
  simp only [codes, List.mem_cons, List.not_mem_nil, or_false] at h
  rcases h with rfl | rfl | rfl | rfl | rfl <;> rfl

theorem read_code (h : code ∈ codes) (cs : List Char) : read (code.spelling ++ cs) = code :: read cs := by
  have hfind := find?_codes h cs
  obtain ⟨rest, hrest⟩ := exists_of_mem_codes h
  rw [hrest, List.cons_append] at hfind
  rw [hrest, List.cons_append, read, hfind]
  simp only [hrest, List.length_cons, Nat.add_sub_cancel, List.drop_left]

theorem read_char (h : c ≠ escape) (cs : List Char) : read (c :: cs) = char c :: read cs := by
  have hnone : codes.find? (·.spelling.isPrefixOf (c :: cs)) = none := by
    refine List.find?_eq_none.2 fun code hcode hprefix => h ?_
    obtain ⟨rest, hrest⟩ := exists_of_mem_codes hcode
    rw [hrest, List.isPrefixOf_cons_cons, Bool.and_eq_true, beq_iff_eq] at hprefix
    exact hprefix.1.symm
  rw [read, hnone]

/-- **What is sent is read again**, where the escape character is none of the characters to show. -/
theorem read_spelling (h : char escape ∉ inks) : read (inks.flatMap spelling) = inks := by
  induction inks with
  | nil => rw [List.flatMap_nil, read]
  | cons ink inks ih =>
    rw [List.mem_cons, not_or] at h
    obtain ⟨hink, hinks⟩ := h
    rw [List.flatMap_cons]
    cases ink with
    | char c => rw [spelling, List.singleton_append, read_char (fun he => hink (he ▸ rfl)), ih hinks]
    | on colour => rw [read_code (by cases colour <;> decide), ih hinks]
    | off => rw [read_code (by decide), ih hinks]

end Read

/-- **The text that is shown**: all but the codes. -/
def plain (inks : List Ink) : String := String.ofList (inks.filterMap char?)

theorem plain_append (inks inks' : List Ink) : plain (inks ++ inks') = plain inks ++ plain inks' := by
  rw [plain, List.filterMap_append, String.ofList_append]
  rfl

theorem plain_on (colour : Colour) (inks : List Ink) : plain (on colour :: inks) = plain inks := rfl

theorem plain_off (inks : List Ink) : plain (off :: inks) = plain inks := rfl

/-- **A text to be shown as it is.** -/
def ofText (text : String) : List Ink := text.toList.map char

theorem plain_ofText (text : String) : plain (ofText text) = text := by
  rw [plain, ofText, List.filterMap_map, show char? ∘ char = some from rfl, List.filterMap_some, String.ofList_toList]

theorem on_notMem_ofText (colour : Colour) (text : String) : on colour ∉ ofText text := by simp [ofText]

/-- **What a piece is sent as**: with its colour turned on before it and off behind it, if it has one. -/
def ofPiece (known : List String) (piece : Piece) : List Ink :=
  match colourOf known piece with
  | some colour => on colour :: (ofText piece.text ++ [off])
  | none => ofText piece.text

section Highlight

variable {known : List String} {piece : Piece} {ps : List Piece} {colour : Colour} {line : String}

theorem ofPiece_of_colour (h : colourOf known piece = some colour) :
    ofPiece known piece = on colour :: (ofText piece.text ++ [off]) := by
  rw [ofPiece, h]

theorem plain_ofPiece (known : List String) (piece : Piece) : plain (ofPiece known piece) = piece.text := by
  rw [ofPiece]
  split
  · rw [plain_on, plain_append, plain_ofText, plain_off]
    exact String.append_empty
  · exact plain_ofText _

theorem flatMap_spelling_ofText (text : String) : (ofText text).flatMap spelling = text.toList := by
  rw [ofText, List.flatMap_map]
  exact List.flatMap_singleton' _

theorem toList_paint (known : List String) (piece : Piece) :
    (paint known piece).toList = (ofPiece known piece).flatMap spelling := by
  rw [paint, ofPiece]
  cases colourOf known piece with
  | none => exact (flatMap_spelling_ofText _).symm
  | some colour =>
    simp only [dye, List.flatMap_cons, List.flatMap_append, flatMap_spelling_ofText, List.flatMap_nil, List.append_nil,
      String.toList_append, List.append_assoc]
    rfl

theorem toList_highlight (known : List String) (line : String) :
    (highlight known line).toList = ((pieces line.toList).flatMap (ofPiece known)).flatMap spelling := by
  rw [highlight]
  induction pieces line.toList with
  | nil => rfl
  | cons piece ps ih =>
    rw [List.map_cons, String.join_cons, String.toList_append, toList_paint, ih, List.flatMap_cons, List.flatMap_append]

theorem char_notMem_ofPiece {c : Char} (h : c ∉ piece.chars) : char c ∉ ofPiece known piece := by
  rw [ofPiece]
  split <;> simpa [ofText, Piece.text] using h

/-- **The codes of a highlighted line are the highlighter's.** -/
theorem read_highlight (h : escape ∉ line.toList) :
    read (highlight known line).toList = (pieces line.toList).flatMap (ofPiece known) := by
  rw [toList_highlight, read_spelling fun hmem => ?_]
  obtain ⟨piece, hpiece, hescape⟩ := List.mem_flatMap.1 hmem
  refine char_notMem_ofPiece (fun hc => h ?_) hescape
  rw [← Text.chars_pieces line.toList]
  exact List.mem_flatMap.2 ⟨piece, hpiece, hc⟩

theorem plain_pieces (known : List String) (ps : List Piece) :
    plain (ps.flatMap (ofPiece known)) = String.ofList (ps.flatMap Piece.chars) := by
  induction ps with
  | nil => rfl
  | cons piece ps ih =>
    rw [List.flatMap_cons, List.flatMap_cons, plain_append, plain_ofPiece, ih, String.ofList_append]
    rfl

theorem size_plain_pieces (known : List String) (ps : List Piece) :
    (plain (ps.flatMap (ofPiece known))).utf8ByteSize = Text.sizeOf ps := by
  rw [plain_pieces, Text.utf8ByteSize_chars]

end Highlight

end Ink

end LineShell.Editing
