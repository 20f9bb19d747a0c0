import LineShell.Proofs.Calculator.Writing
/-!
# Canonical — one text for every list of tokens

The tokens of a text, written with single spaces between them, are scanned as the same tokens.  What is written so has
no comment, no line break and no underscore in a literal, and no two lists of tokens are written alike: so a text says
nothing but what its tokens are (`scan_canonical`).
-/
namespace LineShell.Calculator

open Text (isBlank)

section Characters

variable {token : Token} {tokens : List Token} {c : Char}

/-- **An integer that the scan finds is written in digits.** -/
theorem isDigit_of_mem_written {n : Int64} (h : (Token.int n).IsScanned) (hc : c ∈ (Token.int n).written.toList) :
    c.isDigit = true := by
  rw [toList_written_int h] at hc
  exact Nat.isDigit_of_mem_toDigits (by decide) (by decide) hc

theorem isWordChar_of_mem_name {name : String} (h : isName name = true) (hc : c ∈ name.toList) :
    Text.isWordChar c = true := by
  obtain ⟨d, ds, hname, hd, hds⟩ := exists_of_isName h
  rw [hname] at hc
  rcases List.mem_cons.1 hc with rfl | hc
  · exact isWordChar_of_start hd
  · exact List.all_eq_true.1 hds c hc

/-- **No token is written with white space or the mark of a comment.** -/
theorem apart_of_mem_written (h : token.IsScanned) (hc : c ∈ token.written.toList) : c ≠ '#' ∧ isBlank c = false := by
  have hword (hw : Text.isWordChar c = true) : c ≠ '#' ∧ isBlank c = false := by
    obtain ⟨hcomment, -, -, hblank⟩ := ne_of_isWordChar hw
    exact ⟨hcomment, Bool.eq_false_iff.2 hblank⟩
  cases token with
  | int n => exact hword (isWordChar_of_isDigit (isDigit_of_mem_written h hc))
  | ident name => exact hword (isWordChar_of_mem_name h hc)
  | symbol s =>
    obtain ⟨-, hblank, hcomment, -⟩ := apart_of_mem_text (s := s) hc
    exact ⟨hcomment, hblank⟩
  | separator =>
    obtain rfl : c = ';' := List.mem_singleton.1 hc
    decide

/-- **What is written** is the tokens and the spaces between them. -/
theorem eq_space_or_of_mem_write (hc : c ∈ (write tokens).toList) :
    c = ' ' ∨ ∃ token ∈ tokens, c ∈ token.written.toList := by
  rw [write, String.toList_intercalate, List.map_map] at hc
  induction tokens with
  | nil => cases hc
  | cons token tokens ih =>
    cases tokens with
    | nil =>
      rw [List.map_singleton, List.intercalate_singleton] at hc
      exact .inr ⟨token, List.mem_cons_self, hc⟩
    | cons next tokens =>
      rw [List.map_cons, List.map_cons, List.intercalate_cons_cons, ← List.map_cons] at hc
      rcases List.mem_append.1 hc with hc | hc
      · rcases List.mem_append.1 hc with hc | hc
        · exact .inr ⟨token, List.mem_cons_self, hc⟩
        · exact .inl (List.mem_singleton.1 hc)
      · rcases ih hc with rfl | ⟨other, hother, hc⟩
        · exact .inl rfl
        · exact .inr ⟨other, List.mem_cons_of_mem _ hother, hc⟩

end Characters

/-- **Every text has a canonical form**, which is its tokens with single spaces between them: the same tokens are
scanned from it, and so it is the same program. It has no comment, no white space but those spaces, and its literals
are digits only; and two texts have one canonical form just when they have the same tokens. -/
theorem scan_canonical {text : String} {tokens : List Token} (h : scan text = .ok tokens) :
    scan (write tokens) = .ok tokens ∧ parse (write tokens) = parse text ∧
      (∀ c ∈ (write tokens).toList, c ≠ '#' ∧ (isBlank c = true → c = ' ')) ∧
      (∀ n, .int n ∈ tokens → ∀ c ∈ (Token.int n).written.toList, c.isDigit = true) ∧
      ∀ other tokens', scan other = .ok tokens' → (write tokens' = write tokens ↔ tokens' = tokens) := by
  have hscanned := isScanned_of_scan h
  have hwrite := scan_write hscanned
  refine ⟨hwrite, ?_, fun c hc => ?_, fun n hn c hc => ?_, fun other tokens' ho => ⟨fun he => ?_, congrArg write⟩⟩
  · rw [parse, parse, hwrite, h]
  · rcases eq_space_or_of_mem_write hc with rfl | ⟨token, htoken, hc⟩
    · exact ⟨by decide, fun _ => rfl⟩
    · obtain ⟨hcomment, hblank⟩ := apart_of_mem_written (hscanned token htoken) hc
      exact ⟨hcomment, fun hb => absurd (hblank.symm.trans hb) Bool.false_ne_true⟩
  · exact isDigit_of_mem_written (hscanned _ hn) hc
  · have hother := scan_write (isScanned_of_scan ho)
    rw [he, hwrite] at hother
    exact (Except.ok.inj hother).symm

/-- **An array over two lines with a comment and a closer too many.** -/
theorem scan_canonical_lines :
    let tokens := [Token.ident "é_1", .symbol .assign, .symbol .openSquare, .int 1000, .symbol .comma, .int 2,
      .symbol .closeSquare, .symbol .closeSquare, .separator, .symbol .bang, .symbol .assign]
    scan "é_1=[1_000, # one\n\t2]]\n! =" = .ok tokens ∧ write tokens = "é_1 = [ 1000 , 2 ] ] ; ! =" ∧
      scan "é_1 = [ 1000 , 2 ] ] ; ! =" = .ok tokens := by
  intro tokens
  have hscan : scan "é_1=[1_000, # one\n\t2]]\n! =" = .ok tokens := scan_of_toOption (by decide +kernel)
  have hwrite : write tokens = "é_1 = [ 1000 , 2 ] ] ; ! =" := by decide +kernel
  exact ⟨hscan, hwrite, hwrite ▸ (scan_canonical hscan).1⟩

end LineShell.Calculator
