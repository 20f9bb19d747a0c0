import LineShell.Proofs.Calculator.Scanning
import LineShell.Statement.Balance
/-!
# Spelling — what the characters of a program say about its tokens

As long as there is no comment, the brackets among the characters are the bracket tokens (`count_of_scanFrom`), and the
names among the tokens are the words, each without the literal that it starts with (`names_eq_nameRuns`).  These are the
words that start with no digit, where a word that does is a literal to its end (`names_of_scanFrom`).
-/
namespace LineShell.Calculator

open Statement (isBracket eq_of_isBracket isBlank_of_isBracket isWordChar_of_isBracket)
open Text (isBlank isWordChar wordRuns wordRuns_append_of_not wordRuns_cons wordRuns_cons_of_not)

/-- **The names among tokens**, in order. -/
def names (tokens : List Token) : List String :=
  tokens.filterMap fun
    | .ident name => some name
    | _ => none

def startsWithDigit (run : List Char) : Bool := run.head?.any Char.isDigit

/-- **What is left of a word** behind the literal that it starts with, if it starts with one. -/
def pastLiteral (run : List Char) : List Char :=
  if startsWithDigit run then run.dropWhile isDigitOrUnderscore else run

/-- **The words among characters**, each without the literal that it starts with, where something is left of it. -/
def nameRuns (cs : List Char) : List (List Char) := ((wordRuns cs).map pastLiteral).filter (!·.isEmpty)

/-- **Words that start with a digit are literals to their end.** -/
def LiteralRuns (cs : List Char) : Prop :=
  ∀ run ∈ wordRuns cs, startsWithDigit run = true → run.all isDigitOrUnderscore = true

/-- **The token of a bracket character.** The grammar has none for curly ones. -/
def bracketToken? (c : Char) : Option Token := (Symbol.single? c).map .symbol

section Characters

variable {c : Char} {s : Symbol}

/-- **A symbol's text has a bracket** just when the symbol is that bracket. -/
theorem count_text (h : isBracket c = true) :
    s.text.toList.count c = if bracketToken? c = some (.symbol s) then 1 else 0 := by
  rcases eq_of_isBracket h with (rfl | rfl) | (rfl | rfl) | (rfl | rfl) <;> cases s with
  | op o => cases o <;> rfl
  | _ => rfl

end Characters

section Scan

variable {opened : Nat} {found tokens : List Token} {cs : List Char}

theorem not_mem_dropWhile {p : Char → Bool} {c d : Char} (h : d ∉ c :: cs) : d ∉ cs.dropWhile p := fun hm =>
  h (List.mem_cons_of_mem c ((List.dropWhile_sublist p).subset hm))

theorem count_dropWhile {p : Char → Bool} {b : Char} (hb : p b = false) (cs : List Char) :
    (cs.dropWhile p).count b = cs.count b := by
  induction cs with
  | nil => rfl
  | cons c cs ih =>
    rw [List.dropWhile_cons]
    split
    · rename_i hc
      have hne : c ≠ b := fun he => Bool.false_ne_true (hb.symm.trans (he ▸ hc))
      rw [ih, List.count_cons_of_ne hne]
    · rfl

/-- A run of `p` ends no later than the run of `q` that it is in. -/
theorem dropWhile_eq_append {p q : Char → Bool} (hpq : ∀ c, p c = true → q c = true) : ∀ cs : List Char,
    cs.dropWhile p = (cs.takeWhile q).dropWhile p ++ cs.dropWhile q
  | [] => rfl
  | c :: cs => by
    by_cases hp : p c = true
    · simp [hp, hpq c hp, dropWhile_eq_append hpq cs]
    · by_cases hq : q c = true <;> simp [hp, hq]

theorem takeWhile_dropWhile (p : Char → Bool) (cs : List Char) : (cs.dropWhile p).takeWhile p = [] := by
  have hhead := List.head?_dropWhile_not p cs
  cases hd : cs.dropWhile p with
  | nil => rfl
  | cons d ds =>
    rw [hd] at hhead
    exact List.takeWhile_cons_of_neg (by simpa using hhead)

theorem dropWhile_dropWhile (p : Char → Bool) (cs : List Char) : (cs.dropWhile p).dropWhile p = cs.dropWhile p := by
  have hall := List.takeWhile_append_dropWhile (p := p) (l := cs.dropWhile p)
  rwa [takeWhile_dropWhile, List.nil_append] at hall

theorem countP_bracket_cons {b : Char} (token : Token) (ht : ∀ s, token ≠ .symbol s) :
    (token :: found).countP (fun t => decide (bracketToken? b = some t)) =
      found.countP (fun t => decide (bracketToken? b = some t)) := by
  refine List.countP_cons_of_neg fun hb => ?_
  obtain ⟨s, -, hs⟩ := Option.map_eq_some_iff.1 (of_decide_eq_true hb)
  exact ht s hs.symm

/-- **The brackets of a text without comments** are its bracket tokens. -/
theorem count_of_scanFrom {b : Char} (hb : isBracket b = true) (hcs : '#' ∉ cs)
    (h : scanFrom opened found cs = .ok tokens) :
    tokens.countP (fun t => decide (bracketToken? b = some t)) =
      found.countP (fun t => decide (bracketToken? b = some t)) + cs.count b := by
  have hword : isWordChar b = false := isWordChar_of_isBracket hb
  have hne {c : Char} (hc : isBracket c = false) : c ≠ b := fun he => Bool.false_ne_true (hc.symm.trans (he ▸ hb))
  have hne' {c : Char} (hc : isWordChar c = true) : c ≠ b := fun he =>
    Bool.false_ne_true (hword.symm.trans (he ▸ hc))
  fun_induction scanFrom opened found cs with
  | case1 opened found =>
    cases h
    rw [List.countP_reverse]; rfl
  | case2 opened found rest ih => exact absurd List.mem_cons_self hcs
  | case3 opened found rest _ ih =>
    rw [ih (List.not_mem_of_not_mem_cons hcs) h, countP_bracket_cons .separator nofun, List.count_cons_of_ne (hne rfl)]
  | case4 opened found rest _ _ ih =>
    rw [ih (List.not_mem_of_not_mem_cons hcs) h, List.count_cons_of_ne (hne rfl)]
    split
    · rw [countP_bracket_cons .separator nofun]
    · rfl
  | case5 opened found c rest _ _ _ hc ih =>
    have hcb : c ≠ b := fun he => Bool.false_ne_true ((isBlank_of_isBracket hb).symm.trans (he ▸ hc))
    rw [ih (List.not_mem_of_not_mem_cons hcs) h, List.count_cons_of_ne hcb]
  | case6 opened found c rest _ _ _ _ hc digits n hn ih =>
    have hlit : isDigitOrUnderscore b = false := by
      cases hl : isDigitOrUnderscore b with
      | false => rfl
      | true => rw [isWordChar_of_literal hl] at hword; cases hword
    have hcb := hne' (isWordChar_of_isDigit hc)
    rw [ih (not_mem_dropWhile hcs) h, countP_bracket_cons (.int n) nofun, count_dropWhile hlit,
      List.count_cons_of_ne hcb]
  | case7 => cases h
  | case8 opened found c rest _ _ _ _ _ hc name ih =>
    have hcb := hne' (isWordChar_of_start hc)
    rw [ih (not_mem_dropWhile hcs) h, countP_bracket_cons (.ident name) nofun, count_dropWhile hword,
      List.count_cons_of_ne hcb]
  | case9 opened found c rest _ _ _ _ _ _ s after hs ih =>
    have heq := eq_append_of_leading? hs
    have hsub : '#' ∉ after := fun hm => hcs (heq ▸ List.mem_append_right _ hm)
    rw [ih hsub h, heq, List.count_append, count_text hb, List.countP_cons]
    simp only [decide_eq_true_eq]
    omega
  | case10 => cases h

theorem nameRuns_cons_of_not {c : Char} (cs : List Char) (h : isWordChar c = false) :
    nameRuns (c :: cs) = nameRuns cs := by
  rw [nameRuns, wordRuns_cons_of_not cs h, ← nameRuns]

theorem nameRuns_cons_of_start {c : Char} (cs : List Char) (h : (Text.isLetter c || decide (c = '_')) = true) :
    nameRuns (c :: cs) = (c :: cs.takeWhile isWordChar) :: nameRuns (cs.dropWhile isWordChar) := by
  have hd : startsWithDigit (c :: cs.takeWhile isWordChar) = false := isDigit_of_start h
  rw [nameRuns, wordRuns_cons cs (isWordChar_of_start h), List.map_cons, pastLiteral, hd]
  rfl

/-- **A literal is passed over** as if it were no part of the word. -/
theorem nameRuns_cons_of_digit {c : Char} (cs : List Char) (h : c.isDigit = true) :
    nameRuns (c :: cs) = nameRuns (cs.dropWhile isDigitOrUnderscore) := by
  have hd : startsWithDigit (c :: cs.takeWhile isWordChar) = true := h
  have hc : isDigitOrUnderscore c = true := by rw [isDigitOrUnderscore, h, Bool.true_or]
  rw [nameRuns, wordRuns_cons cs (isWordChar_of_isDigit h), List.map_cons, pastLiteral, if_pos hd,
    List.dropWhile_cons_of_pos hc, dropWhile_eq_append (fun _ => isWordChar_of_literal) cs]
  have hword : ∀ d ∈ (cs.takeWhile isWordChar).dropWhile isDigitOrUnderscore, isWordChar d = true := fun d hd =>
    List.all_eq_true.1 List.all_takeWhile d ((List.dropWhile_sublist _).subset hd)
  have hhead := List.head?_dropWhile_not isDigitOrUnderscore (cs.takeWhile isWordChar)
  cases hw : (cs.takeWhile isWordChar).dropWhile isDigitOrUnderscore with
  | nil => rfl
  | cons d ds =>
    rw [hw] at hword hhead
    obtain ⟨hd, hds⟩ := List.forall_mem_cons.1 hword
    have hnot : startsWithDigit (d :: ds) = false := by
      simp only [List.head?_cons, isDigitOrUnderscore, Bool.or_eq_false_iff] at hhead
      exact hhead.1
    -- What is left of the word is a word by itself, since the text goes on with no word character.
    have htake : (ds ++ cs.dropWhile isWordChar).takeWhile isWordChar = ds := by
      rw [List.takeWhile_append_of_pos hds, takeWhile_dropWhile, List.append_nil]
    have hdrop : (ds ++ cs.dropWhile isWordChar).dropWhile isWordChar = cs.dropWhile isWordChar := by
      rw [List.dropWhile_append_of_pos hds, dropWhile_dropWhile]
    rw [nameRuns, List.cons_append, wordRuns_cons _ hd, htake, hdrop, List.map_cons, pastLiteral, hnot]
    rfl

/-- **The names of a text without comments** are its words, each without the literal that it starts with. -/
theorem names_eq_nameRuns (hcs : '#' ∉ cs) (h : scanFrom opened found cs = .ok tokens) :
    names tokens = names found.reverse ++ (nameRuns cs).map String.ofList := by
  fun_induction scanFrom opened found cs with
  | case1 opened found =>
    cases h
    exact (List.append_nil _).symm
  | case2 opened found rest ih => exact absurd List.mem_cons_self hcs
  | case3 opened found rest _ ih =>
    rw [ih (List.not_mem_of_not_mem_cons hcs) h, nameRuns_cons_of_not rest (by decide +kernel)]
    simp [names]
  | case4 opened found rest _ _ ih =>
    rw [ih (List.not_mem_of_not_mem_cons hcs) h, nameRuns_cons_of_not rest (by decide +kernel)]
    split <;> simp [names]
  | case5 opened found c rest _ _ _ hc ih =>
    rw [ih (List.not_mem_of_not_mem_cons hcs) h, nameRuns_cons_of_not rest (Text.isWordChar_of_isBlank hc)]
  | case6 opened found c rest _ _ _ _ hc digits n hn ih =>
    rw [ih (not_mem_dropWhile hcs) h, nameRuns_cons_of_digit rest hc]
    simp [names]
  | case7 => cases h
  | case8 opened found c rest _ _ _ _ hc hs name ih =>
    rw [ih (not_mem_dropWhile hcs) h, nameRuns_cons_of_start rest hs]
    simp [names, name]
  | case9 opened found c rest _ _ _ _ _ _ s after hs ih =>
    have heq := eq_append_of_leading? hs
    have hruns : nameRuns (c :: rest) = nameRuns after := by
      rw [nameRuns, heq, wordRuns_append_of_not after fun d hd => (apart_of_mem_text hd).1, ← nameRuns]
    rw [ih (fun hm => hcs (heq ▸ List.mem_append_right _ hm)) h, hruns]
    simp [names]
  | case10 => cases h

/-- **Where words that start with a digit are literals**, nothing is left of them, and the others are left as they
are. -/
theorem filter_pastLiteral {runs : List (List Char)} (hne : ∀ run ∈ runs, run ≠ [])
    (hl : ∀ run ∈ runs, startsWithDigit run = true → run.all isDigitOrUnderscore = true) :
    (runs.map pastLiteral).filter (!·.isEmpty) = runs.filter fun run => !startsWithDigit run := by
  induction runs with
  | nil => rfl
  | cons run runs ih =>
    obtain ⟨hrun, hne⟩ := List.forall_mem_cons.1 hne
    obtain ⟨hliteral, hl⟩ := List.forall_mem_cons.1 hl
    by_cases hd : startsWithDigit run = true
    · have hnil : pastLiteral run = [] := by
        have hend : (run ++ []).dropWhile isDigitOrUnderscore = List.dropWhile isDigitOrUnderscore [] :=
          List.dropWhile_append_of_pos (List.all_eq_true.1 (hliteral hd))
        rw [List.append_nil] at hend
        rw [pastLiteral, if_pos hd, hend]
        rfl
      simp [hnil, hd, ih hne hl]
    · simp [pastLiteral, hd, hrun, ih hne hl]

/-- **The names of a text** are its words that start with no digit, where a word that does is a literal. -/
theorem names_of_scanFrom (hcs : '#' ∉ cs) (hl : LiteralRuns cs) (h : scanFrom opened found cs = .ok tokens) :
    names tokens = names found.reverse ++
      ((wordRuns cs).filter fun run => !startsWithDigit run).map String.ofList := by
  have hne : ∀ run ∈ wordRuns cs, run ≠ [] := fun run hr => by simpa using (List.mem_filter.1 hr).2
  rw [names_eq_nameRuns hcs h, nameRuns, filter_pastLiteral hne hl]

/-- **A text that is no tokens** has a character that starts none, which is no line feed, or a literal out of range,
which is quoted in digits. -/
theorem stray_or_literal_of_scanFrom {f : ParseFault} (h : scanFrom opened found cs = .error f) :
    (∃ c, f = .stray c ∧ c ≠ '\n') ∨ ∃ digits, f = .literal digits ∧ ∀ c ∈ digits.toList, c.isDigit = true := by
  fun_induction scanFrom opened found cs with
  | case1 => cases h
  | case7 opened found c rest _ _ _ _ hc digits =>
    cases h
    refine .inr ⟨_, rfl, fun d hd => ?_⟩
    rw [String.toList_ofList] at hd
    rcases List.mem_cons.1 hd with rfl | hd
    · exact hc
    · obtain ⟨hrun, hne⟩ := List.mem_filter.1 hd
      have hd := List.all_eq_true.1 List.all_takeWhile d hrun
      simpa [isDigitOrUnderscore, of_decide_eq_true hne] using hd
  | case10 opened found c rest _ _ hc =>
    cases h
    exact .inl ⟨c, rfl, hc⟩
  | case2 _ _ _ ih | case3 _ _ _ _ ih | case4 _ _ _ _ _ ih | case5 _ _ _ _ _ _ _ _ ih => exact ih h
  | case6 _ _ _ _ _ _ _ _ _ _ _ _ ih | case8 _ _ _ _ _ _ _ _ _ _ _ ih => exact ih h
  | case9 _ _ _ _ _ _ _ _ _ _ _ _ _ ih => exact ih h

theorem fault_of_scanFrom {f : ParseFault} (h : scanFrom opened found cs = .error f) :
    (∃ c, f = .stray c) ∨ ∃ digits, f = .literal digits :=
  (stray_or_literal_of_scanFrom h).imp (fun ⟨c, hf, _⟩ => ⟨c, hf⟩) fun ⟨digits, hf, _⟩ => ⟨digits, hf⟩

end Scan

end LineShell.Calculator
