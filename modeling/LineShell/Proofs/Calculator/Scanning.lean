import LineShell.Calculator.Scan
import LineShell.Text.Lexeme
/-!
# Scanning — one step of the scan for each kind of character

The first character says what the scan does next, whatever follows it: the kinds of character that start a literal, a
name and a symbol, the blanks and the three marks of their own are apart from each other.
-/
namespace LineShell.Calculator

open Text (isBlank isLetter isWordChar)

section Characters

variable {c : Char} {cs after : List Char} {s : Symbol}

theorem isWordChar_of_isDigit (h : c.isDigit = true) : isWordChar c = true := by
  rw [isWordChar, Text.isNumber_of_isDigit h, Bool.or_true, Bool.true_or]

theorem isWordChar_of_literal (h : isDigitOrUnderscore c = true) : isWordChar c = true := by
  rcases Bool.or_eq_true _ _ ▸ h with h | h
  · exact isWordChar_of_isDigit h
  · rw [isWordChar, h, Bool.or_true]

theorem isWordChar_of_start (h : (isLetter c || decide (c = '_')) = true) : isWordChar c = true := by
  rcases Bool.or_eq_true _ _ ▸ h with h | h
  · rw [isWordChar, h, Bool.true_or, Bool.true_or]
  · rw [of_decide_eq_true h]; decide

/-- What starts a name starts no literal. -/
theorem isDigit_of_start (h : (isLetter c || decide (c = '_')) = true) : c.isDigit = false := by
  refine Bool.eq_false_iff.2 fun hd => ?_
  simp only [Char.isDigit, Bool.and_eq_true, decide_eq_true_eq, ge_iff_le, UInt32.le_iff_toNat_le] at hd
  rcases Bool.or_eq_true _ _ ▸ h with h | h
  · have hlt : c.toNat < 0x41 := Nat.lt_of_le_of_lt hd.2 (by decide)
    rw [isLetter, Text.letterRanges_eq, Text.inRanges_of_before hlt] at h
    cases h
  · rw [of_decide_eq_true h] at hd
    exact absurd hd.2 (by decide)

/-- **A symbol is what its text says**, at the front of the characters. -/
theorem eq_append_of_leading? (h : Symbol.leading? c cs = some (s, after)) : c :: cs = s.text.toList ++ after := by
  rcases Symbol.leading?_eq_some_iff.1 h with ⟨d, rfl, hd⟩ | ⟨hs, rfl, -⟩
  · unfold Symbol.double? at hd
    split at hd <;> cases hd <;> rfl
  · unfold Symbol.single? at hs
    split at hs <;> cases hs <;> rfl

/-- **The characters of a symbol** are in no word, and are no blanks and none of the marks of their own. -/
theorem apart_of_mem_text (h : c ∈ s.text.toList) :
    isWordChar c = false ∧ isBlank c = false ∧ c ≠ '#' ∧ c ≠ ';' := by
  have hall : s.text.toList.all (fun c => !isWordChar c && !isBlank c && c != '#' && c != ';') = true := by
    cases s with
    | op o => cases o <;> decide +kernel
    | _ => decide +kernel
  have happart := List.all_eq_true.1 hall c h
  simp only [Bool.and_eq_true, Bool.not_eq_true', bne_iff_ne, and_assoc] at happart
  exact happart

theorem mem_text_of_leading? (h : Symbol.leading? c cs = some (s, after)) : c ∈ s.text.toList := by
  have heq := eq_append_of_leading? h
  cases ht : s.text.toList with
  | nil =>
    exfalso
    revert ht
    cases s with
    | op o => cases o <;> decide
    | _ => decide
  | cons d ds =>
    rw [ht] at heq
    exact (List.cons.inj heq).1 ▸ List.mem_cons_self

end Characters

section Steps

variable {opened : Nat} {found : List Token} {c : Char} {rest after : List Char} {s : Symbol}

/-- The marks of their own are in no word. -/
theorem ne_of_isWordChar (h : isWordChar c = true) : c ≠ '#' ∧ c ≠ ';' ∧ c ≠ '\n' ∧ ¬isBlank c = true := by
  have hne (d : Char) (hd : isWordChar d = false) : c ≠ d := by
    rintro rfl
    rw [hd] at h
    cases h
  refine ⟨hne '#' (by decide +kernel), hne ';' (by decide +kernel), hne '\n' (by decide +kernel), fun hb => ?_⟩
  rw [Text.isWordChar_of_isBlank hb] at h
  cases h

theorem scanFrom_nil : scanFrom opened found [] = .ok found.reverse := by rw [scanFrom]

theorem scanFrom_comment :
    scanFrom opened found ('#' :: rest) = scanFrom opened found (rest.dropWhile (· ≠ '\n')) := by
  rw [scanFrom, if_pos rfl]

theorem scanFrom_semicolon : scanFrom opened found (';' :: rest) = scanFrom opened (.separator :: found) rest := by
  rw [scanFrom, if_neg (by decide), if_pos rfl]

theorem scanFrom_lineFeed : scanFrom opened found ('\n' :: rest) =
    scanFrom opened (if opened = 0 then .separator :: found else found) rest := by
  rw [scanFrom, if_neg (by decide), if_neg (by decide), if_pos rfl]

theorem scanFrom_blank (hc : isBlank c = true) (hn : c ≠ '\n') :
    scanFrom opened found (c :: rest) = scanFrom opened found rest := by
  have hne (d : Char) (hd : isBlank d = false) : c ≠ d := by
    rintro rfl
    rw [hd] at hc
    cases hc
  rw [scanFrom, if_neg (hne '#' (by decide)), if_neg (hne ';' (by decide)), if_neg hn, if_pos hc]

theorem scanFrom_literal {n : Int64} (hc : c.isDigit = true)
    (hn : Integer.literal? (c :: (rest.takeWhile isDigitOrUnderscore).filter (· ≠ '_')) = some n) :
    scanFrom opened found (c :: rest) = scanFrom opened (.int n :: found) (rest.dropWhile isDigitOrUnderscore) := by
  obtain ⟨hcomment, hsemicolon, hfeed, hblank⟩ := ne_of_isWordChar (isWordChar_of_isDigit hc)
  rw [scanFrom, if_neg hcomment, if_neg hsemicolon, if_neg hfeed, if_neg hblank, if_pos hc]
  simp only [hn]

theorem scanFrom_literal_of_none (hc : c.isDigit = true)
    (hn : Integer.literal? (c :: (rest.takeWhile isDigitOrUnderscore).filter (· ≠ '_')) = none) :
    scanFrom opened found (c :: rest) =
      .error (.literal (String.ofList (c :: (rest.takeWhile isDigitOrUnderscore).filter (· ≠ '_')))) := by
  obtain ⟨hcomment, hsemicolon, hfeed, hblank⟩ := ne_of_isWordChar (isWordChar_of_isDigit hc)
  rw [scanFrom, if_neg hcomment, if_neg hsemicolon, if_neg hfeed, if_neg hblank, if_pos hc]
  simp only [hn]

theorem scanFrom_name (hc : (isLetter c || decide (c = '_')) = true) : scanFrom opened found (c :: rest) =
    scanFrom opened (.ident (String.ofList (c :: rest.takeWhile isWordChar)) :: found) (rest.dropWhile isWordChar) := by
  obtain ⟨hcomment, hsemicolon, hfeed, hblank⟩ := ne_of_isWordChar (isWordChar_of_start hc)
  rw [scanFrom, if_neg hcomment, if_neg hsemicolon, if_neg hfeed, if_neg hblank,
    if_neg (Bool.eq_false_iff.1 (isDigit_of_start hc)), if_pos hc]

theorem scanFrom_symbol (hs : Symbol.leading? c rest = some (s, after)) :
    scanFrom opened found (c :: rest) = scanFrom (s.track opened) (.symbol s :: found) after := by
  obtain ⟨hword, hblank, hcomment, hsemicolon⟩ := apart_of_mem_text (mem_text_of_leading? hs)
  have hfeed : c ≠ '\n' := by
    rintro rfl
    cases hblank
  have hdigit : ¬c.isDigit = true := fun hd => by
    rw [isWordChar_of_isDigit hd] at hword
    cases hword
  have hstart : ¬(isLetter c || decide (c = '_')) = true := fun hl => by
    rw [isWordChar_of_start hl] at hword
    cases hword
  rw [scanFrom, if_neg hcomment, if_neg hsemicolon, if_neg hfeed, if_neg (Bool.eq_false_iff.1 hblank), if_neg hdigit,
    if_neg hstart]
  split
  · rename_i s' after' hs'
    rw [hs] at hs'
    cases hs'
    rfl
  · rename_i hs'
    rw [hs] at hs'
    cases hs'

end Steps

end LineShell.Calculator
