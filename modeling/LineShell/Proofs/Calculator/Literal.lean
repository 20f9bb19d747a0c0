import LineShell.Proofs.Calculator.Writing
import Mathlib.Data.List.TakeWhile
/-!
# Literal — integers by the word and by the scan

A word is an integer for the colours if it is digits only, and for the scan if it is digits with underscores between
and behind them.  So the two tests agree on every word without an underscore, and the words on which they differ are the
literals with one (`isInteger_iff_scan`).
-/
namespace LineShell.Calculator

open Integer (isInteger literal?)
open Text (isLetter isWordChar)

section Scan

variable {opened : Nat} {found tokens : List Token} {token : Token} {c : Char} {cs rest : List Char} {n : Int64}

/-- **A word character that starts no literal and no name** starts no token. -/
theorem scanFrom_stray (hc : isWordChar c = true) (hd : c.isDigit = false)
    (hs : (isLetter c || decide (c = '_')) = false) : scanFrom opened found (c :: rest) = .error (.stray c) := by
  obtain ⟨hcomment, hsemicolon, hfeed, hblank⟩ := ne_of_isWordChar hc
  rw [scanFrom, if_neg hcomment, if_neg hsemicolon, if_neg hfeed, if_neg hblank, if_neg (ne_true_of_eq_false hd),
    if_neg (ne_true_of_eq_false hs)]
  split
  · rename_i s after hsymbol
    obtain ⟨hword, -⟩ := apart_of_mem_text (mem_text_of_leading? hsymbol)
    exact absurd (hword.symm.trans hc) Bool.false_ne_true
  · rfl

/-- **A token found is the first of the tokens**, and those of the rest are behind it. -/
theorem scanFrom_singleton (token : Token) :
    scanFrom opened [token] cs = (scanFrom opened [] cs).map (token :: ·) := by
  rw [← List.nil_append [token], scanFrom_append]
  rfl

theorem cons_of_scanFrom (h : scanFrom opened [token] cs = .ok tokens) :
    ∃ more, scanFrom opened [] cs = .ok more ∧ tokens = token :: more := by
  rw [scanFrom_singleton] at h
  cases hs : scanFrom opened [] cs with
  | ok more =>
    rw [hs] at h
    exact ⟨more, rfl, (Except.ok.inj h).symm⟩
  | error f =>
    rw [hs] at h
    cases h

/-- **A literal or a name comes first** in what starts with a word character. -/
theorem scanFrom_word (hc : isWordChar c = true) (h : scanFrom opened [] (c :: rest) = .ok tokens) :
    (∃ name more, tokens = .ident name :: more) ∨
      ∃ n more, tokens = .int n :: more ∧ c.isDigit = true ∧
        literal? (c :: (rest.takeWhile isDigitOrUnderscore).filter (· ≠ '_')) = some n ∧
        scanFrom opened [] (rest.dropWhile isDigitOrUnderscore) = .ok more := by
  cases hd : c.isDigit with
  | true =>
    cases hn : literal? (c :: (rest.takeWhile isDigitOrUnderscore).filter (· ≠ '_')) with
    | none =>
      rw [scanFrom_literal_of_none hd hn] at h
      cases h
    | some n =>
      rw [scanFrom_literal hd hn] at h
      obtain ⟨more, hmore, rfl⟩ := cons_of_scanFrom h
      exact .inr ⟨n, more, rfl, rfl, rfl, hmore⟩
  | false =>
    cases hs : isLetter c || decide (c = '_') with
    | true =>
      rw [scanFrom_name hs] at h
      obtain ⟨more, -, rfl⟩ := cons_of_scanFrom h
      exact .inl ⟨_, more, rfl⟩
    | false =>
      rw [scanFrom_stray hc hd hs] at h
      cases h

theorem eq_nil_of_scanFrom (hcs : cs.all isWordChar = true) (h : scanFrom opened [] cs = .ok []) : cs = [] := by
  cases cs with
  | nil => rfl
  | cons c cs =>
    rcases scanFrom_word (List.all_eq_true.1 hcs c List.mem_cons_self) h with ⟨_, _, h⟩ | ⟨_, _, h, -⟩ <;> cases h

/-- **The words that are one integer to the scan**: a digit, digits and underscores behind it, and a value in range. -/
theorem scanFrom_eq_int_iff (hcs : cs.all isWordChar = true) : scanFrom opened [] cs = .ok [.int n] ↔
    ∃ c run, cs = c :: run ∧ c.isDigit = true ∧ run.all isDigitOrUnderscore = true ∧
      literal? (c :: run.filter (· ≠ '_')) = some n := by
  constructor
  · intro h
    cases cs with
    | nil =>
      rw [scanFrom_nil] at h
      cases h
    | cons c run =>
      rw [List.all_cons, Bool.and_eq_true] at hcs
      rcases scanFrom_word hcs.1 h with ⟨_, _, h⟩ | ⟨_, _, h, hd, hn, hrest⟩
      · cases h
      · cases h
        -- Nothing is left behind the literal, for a word character would be scanned as one more token.
        have hword : (run.dropWhile isDigitOrUnderscore).all isWordChar = true :=
          List.all_eq_true.2 fun d hd => List.all_eq_true.1 hcs.2 d ((List.dropWhile_sublist _).subset hd)
        have hrun : ∀ d ∈ run, isDigitOrUnderscore d = true :=
          List.dropWhile_eq_nil_iff.1 (eq_nil_of_scanFrom hword hrest)
        rw [List.takeWhile_eq_self_iff.2 hrun] at hn
        exact ⟨c, run, rfl, hd, List.all_eq_true.2 hrun, hn⟩
  · rintro ⟨c, run, rfl, hd, hrun, hn⟩
    have hrun := List.all_eq_true.1 hrun
    rw [← List.takeWhile_eq_self_iff.2 hrun] at hn
    rw [scanFrom_literal hd hn, List.dropWhile_eq_nil_iff.2 hrun, scanFrom_nil]
    rfl

end Scan

section Words

variable {word : String}

/-- **A word has no sign**, so it is an integer if it is digits with a value in range. -/
theorem isInteger_of_word (h : word.toList.all isWordChar = true) : isInteger word = true ↔
    isInteger.written word.toList = true ∧ (literal? word.toList).isSome = true := by
  have hsign (c : Char) (cs : List Char) (hc : isWordChar c = false) : word.toList ≠ c :: cs := fun hw => by
    rw [hw, List.all_cons, hc] at h
    cases h
  unfold isInteger
  split
  · exact absurd ‹_› (hsign '-' _ (by decide +kernel))
  · exact absurd ‹_› (hsign '+' _ (by decide +kernel))
  · exact Bool.and_eq_true_iff

theorem isInteger_written_iff {cs : List Char} : isInteger.written cs = true ↔
    ∃ c run, cs = c :: run ∧ c.isDigit = true ∧ run.all isDigitOrUnderscore = true ∧ '_' ∉ cs := by
  have hdigit {c : Char} : c.isDigit = true ↔ isDigitOrUnderscore c = true ∧ c ≠ '_' := by
    rw [isDigitOrUnderscore, Bool.or_eq_true, beq_iff_eq]
    refine ⟨fun hd => ⟨.inl hd, ?_⟩, fun h => h.1.resolve_right h.2⟩
    rintro rfl
    cases hd
  cases cs with
  | nil =>
    refine iff_of_false Bool.false_ne_true ?_
    rintro ⟨_, _, hnil, -⟩
    cases hnil
  | cons c run =>
    have hrun : run.all Char.isDigit = true ↔ run.all isDigitOrUnderscore = true ∧ '_' ∉ run := by
      simp only [List.all_eq_true, hdigit, forall_and]
      exact and_congr_right fun _ => ⟨fun h hm => h _ hm rfl, fun h d hd he => h (he ▸ hd)⟩
    rw [isInteger.written, List.isEmpty_cons, Bool.not_false, Bool.true_and, List.all_cons, Bool.and_eq_true, hrun]
    constructor
    · rintro ⟨hc, hrun, hnot⟩
      exact ⟨c, run, rfl, hc, hrun, List.not_mem_cons_of_ne_of_not_mem (hdigit.1 hc).2.symm hnot⟩
    · rintro ⟨c, run, ⟨⟩, hc, hrun, hnot⟩
      exact ⟨hc, hrun, List.not_mem_of_not_mem_cons hnot⟩

end Words

/-- **A word is an integer if and only if it is one integer to the scan and has no underscore.** -/
theorem isInteger_iff_scan {word : String} (h : word.toList.all isWordChar = true) :
    isInteger word = true ↔ (∃ n, scan word = .ok [.int n]) ∧ '_' ∉ word.toList := by
  have hfilter {c : Char} {run : List Char} (hnot : '_' ∉ c :: run) : run.filter (· ≠ '_') = run :=
    List.filter_eq_self.2 fun d hd => decide_eq_true fun he => hnot (he ▸ List.mem_cons_of_mem c hd)
  simp only [isInteger_of_word h, isInteger_written_iff, scan, scanFrom_eq_int_iff h, Option.isSome_iff_exists]
  constructor
  · rintro ⟨⟨c, run, hw, hc, hrun, hnot⟩, n, hn⟩
    rw [hw] at hn hnot ⊢
    exact ⟨⟨n, c, run, rfl, hc, hrun, (hfilter hnot).symm ▸ hn⟩, hnot⟩
  · rintro ⟨⟨n, c, run, hw, hc, hrun, hn⟩, hnot⟩
    rw [hw] at hnot ⊢
    rw [hfilter hnot] at hn
    exact ⟨⟨c, run, rfl, hc, hrun, hnot⟩, n, hn⟩

/-- **The largest word behind a nought.** -/
theorem isInteger_iff_scan_largest : "09223372036854775807".toList.all isWordChar = true ∧
    isInteger "09223372036854775807" = true ∧ (∃ n, scan "09223372036854775807" = .ok [.int n]) ∧
      '_' ∉ "09223372036854775807".toList := by
  have hword : "09223372036854775807".toList.all isWordChar = true := by decide +kernel
  have hinteger : isInteger "09223372036854775807" = true := by decide +kernel
  obtain ⟨hscan, hnot⟩ := (isInteger_iff_scan hword).1 hinteger
  exact ⟨hword, hinteger, hscan, hnot⟩

/-- **A literal with an underscore** is one integer to the scan, and is not coloured as one. -/
theorem exists_int_not_isInteger : "1_0" ≠ "" ∧ "1_0".toList.all isWordChar = true ∧
    scan "1_0" = .ok [.int 10] ∧ ¬(isInteger "1_0" = true ↔ ∃ n, scan "1_0" = .ok [.int n]) := by
  have hscan : scan "1_0" = .ok [.int 10] := scan_of_toOption (by decide +kernel)
  have hinteger : isInteger "1_0" = false := by decide +kernel
  refine ⟨by decide, by decide +kernel, hscan, fun h => ?_⟩
  exact Bool.false_ne_true (hinteger.symm.trans (h.2 ⟨10, hscan⟩))

end LineShell.Calculator
