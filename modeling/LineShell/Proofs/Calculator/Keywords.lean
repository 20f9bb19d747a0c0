import LineShell.Proofs.Calculator.Completeness
/-!
# Keywords — the words that the counts see, and those that the grammar sees

A text is cut into words for the counts, and into tokens for the grammar.  The two agree on every keyword but one that
stands right behind a literal, as in `3end`: that is one word, and two tokens (`keyword_counts`).
-/
namespace LineShell.Calculator

open Statement (Balance blockWords closingWord)

/-- **A literal with a word right behind it**, of which `p` holds. -/
def behindLiteral (p : String → Bool) (word : String) : Bool :=
  startsWithDigit word.toList && p (String.ofList (pastLiteral word.toList))

section Counting

variable {p : String → Bool}

theorem countP_filter_pastLiteral (hempty : p "" = false) (runs : List (List Char)) :
    (((runs.map pastLiteral).filter (!·.isEmpty)).map String.ofList).countP p =
      runs.countP fun run => p (String.ofList (pastLiteral run)) := by
  induction runs with
  | nil => rfl
  | cons run runs ih =>
    rw [List.map_cons, List.countP_cons, ← ih]
    by_cases hrun : pastLiteral run = []
    · have hp : p (String.ofList []) = false := hempty
      simp [hrun, hp]
    · rw [List.filter_cons_of_pos (by simpa using hrun), List.map_cons, List.countP_cons]

/-- **The names that hold of `p`** are the words that do, and those behind a literal. -/
theorem countP_nameRuns (hempty : p "" = false)
    (hdigit : ∀ word, p word = true → startsWithDigit word.toList = false) (text : String) :
    ((nameRuns text.toList).map String.ofList).countP p =
      (Text.words text).countP p + (Text.words text).countP (behindLiteral p) := by
  rw [nameRuns, countP_filter_pastLiteral hempty, Text.words]
  induction Text.wordRuns text.toList with
  | nil => rfl
  | cons run runs ih =>
    rw [List.map_cons, List.countP_cons, List.countP_cons, List.countP_cons, ih]
    by_cases hd : startsWithDigit run = true
    · have hp : p (String.ofList run) = false := by
        refine Bool.eq_false_iff.2 fun hp => ?_
        have hnot := hdigit _ hp
        rw [String.toList_ofList, hd] at hnot
        cases hnot
      simp [behindLiteral, hd, hp]
      omega
    · simp [behindLiteral, pastLiteral, hd]
      omega

theorem countP_names_of_scan (hempty : p "" = false)
    (hdigit : ∀ word, p word = true → startsWithDigit word.toList = false) {text : String} {tokens : List Token}
    (hcomment : '#' ∉ text.toList) (h : scan text = .ok tokens) : (names tokens).countP p =
      (Text.words text).countP p + (Text.words text).countP (behindLiteral p) := by
  rw [names_eq_nameRuns hcomment h, ← countP_nameRuns hempty hdigit]
  rfl

end Counting

/-- **The tokens and the words count the same keywords**, except those right behind a literal, which are no words: a
keyword is a token as often as it is a word or ends a word that starts as a literal. So the tallies of the block words
are those of the tokens where, and only where, there is none of these. -/
theorem keyword_counts {text : String} {tokens : List Token} (hcomment : '#' ∉ text.toList)
    (h : scan text = .ok tokens) :
    (∀ word ∈ closingWord :: blockWords, tokens.count (.ident word) =
      (Text.words text).count word + (Text.words text).countP (behindLiteral (· == word))) ∧
    (names tokens).countP (blockWords.contains ·) =
      (Balance.of text).blocks.opened + (Text.words text).countP (behindLiteral (blockWords.contains ·)) ∧
    (names tokens).count closingWord =
      (Balance.of text).blocks.closed + (Text.words text).countP (behindLiteral (· == closingWord)) := by
  have hword : ∀ word ∈ closingWord :: blockWords, ("" == word) = false ∧ startsWithDigit word.toList = false := by
    decide
  have hcount : ∀ word ∈ closingWord :: blockWords, (names tokens).count word =
      (Text.words text).count word + (Text.words text).countP (behindLiteral (· == word)) := by
    intro word hmem
    obtain ⟨hempty, hdigit⟩ := hword word hmem
    refine countP_names_of_scan hempty (fun other ho => ?_) hcomment h
    rw [eq_of_beq ho]
    exact hdigit
  refine ⟨fun word hmem => ?_, ?_, hcount closingWord List.mem_cons_self⟩
  · rw [← hcount word hmem, List.count, List.count]
    refine countP_names (fun name => ?_) (fun _ => rfl) (fun _ => rfl) rfl tokens
    rw [Bool.eq_iff_iff, beq_iff_eq, beq_iff_eq, Token.ident.injEq]
  · refine countP_names_of_scan rfl (fun word hw => ?_) hcomment h
    exact (hword word (List.mem_cons_of_mem _ (List.contains_iff_mem.1 hw))).2

/-- **An `end` by itself, and one behind a literal.** -/
theorem keyword_counts_behind_literal :
    '#' ∉ "if a 1_0end end".toList ∧
      scan "if a 1_0end end" = .ok [.ident "if", .ident "a", .int 10, .ident "end", .ident "end"] ∧
      [Token.ident "if", .ident "a", .int 10, .ident "end", .ident "end"].count (.ident "end") =
        (Text.words "if a 1_0end end").count "end" +
          (Text.words "if a 1_0end end").countP (behindLiteral (· == "end")) := by
  have hcomment : '#' ∉ "if a 1_0end end".toList := by decide +kernel
  have hscan : scan "if a 1_0end end" = .ok [.ident "if", .ident "a", .int 10, .ident "end", .ident "end"] :=
    scan_of_toOption (by decide +kernel)
  exact ⟨hcomment, hscan, (keyword_counts hcomment hscan).1 "end" (by decide)⟩

/-- **The counts miss an `end` behind a literal**: a block that the grammar takes for closed is open to them. -/
theorem exists_keyword_behind_literal : ∃ tokens,
    '#' ∉ "if 1\n3end".toList ∧ scan "if 1\n3end" = .ok tokens ∧
      tokens.count (.ident closingWord) ≠ (Text.words "if 1\n3end").count closingWord ∧
      (names tokens).count closingWord ≠ (Balance.of "if 1\n3end").blocks.closed ∧
      (parse "if 1\n3end").isOk = true ∧ (Balance.of "if 1\n3end").isComplete = false :=
  ⟨[.ident "if", .int 1, .separator, .int 3, .ident "end"], by decide +kernel, scan_of_toOption (by decide +kernel),
    by decide +kernel, by decide +kernel, by decide +kernel, by decide +kernel⟩

end LineShell.Calculator
