import LineShell.Proofs.Calculator.Nesting
import LineShell.Proofs.Calculator.Spelling
/-!
# Completeness — the verdict of the counts and the grammar agree

The tallies of a text count the openers and closers among its tokens, so a text that is a program is complete, and one
that is complete does not end where a closer is wanted (`balance_agrees`).
-/
namespace LineShell.Calculator

open Statement (Balance Bracket Tally blockWords closingWord)

/-- **The brackets that a pair is written with**; blocks are written with words. -/
def Pair.bracket? : Pair → Option Bracket
  | round => some .round
  | square => some .square
  | block => none

/-- **The tally of a pair** in a balance. -/
def Pair.tally (balance : Balance) (p : Pair) : Tally :=
  match p.bracket? with
  | some b => balance.brackets b
  | none => balance.blocks

theorem countP_names {p : String → Bool} {q : Token → Bool} (hname : ∀ name, q (.ident name) = p name)
    (hint : ∀ n, q (.int n) = false) (hsymbol : ∀ s, q (.symbol s) = false) (hsep : q .separator = false) :
    ∀ tokens : List Token, tokens.countP q = (names tokens).countP p
  | [] => rfl
  | token :: tokens => by
    have ih := countP_names hname hint hsymbol hsep tokens
    rw [names] at ih ⊢
    rw [List.countP_cons, List.filterMap_cons, ih]
    cases token with
    | ident name => rw [List.countP_cons, hname]
    | int n => rw [hint]; rfl
    | symbol s => rw [hsymbol]; rfl
    | separator => rw [hsep]; rfl

/-- Words that start with a digit do not count where `p` holds of none of them. -/
theorem countP_filter_words {p : String → Bool} (hp : ∀ run, startsWithDigit run = true → p (String.ofList run) = false)
    (runs : List (List Char)) :
    ((runs.filter fun run => !startsWithDigit run).map String.ofList).countP p = (runs.map String.ofList).countP p := by
  induction runs with
  | nil => rfl
  | cons run runs ih =>
    rw [List.map_cons, List.countP_cons, ← ih]
    cases hd : startsWithDigit run with
    | true =>
      rw [List.filter_cons_of_neg (by simp [hd]), hp run hd]; rfl
    | false => rw [List.filter_cons_of_pos (by simp [hd]), List.map_cons, List.countP_cons]

/-- **The words of a text that hold of `p`** are as many as the names that do. -/
theorem countP_words {p : String → Bool} {text : String} {tokens : List Token} (hcomment : '#' ∉ text.toList)
    (hliteral : LiteralRuns text.toList) (h : scan text = .ok tokens)
    (hp : ∀ word, p word = true → startsWithDigit word.toList = false) :
    (Text.words text).countP p = (names tokens).countP p := by
  rw [Text.words, names_of_scanFrom hcomment hliteral h]
  refine (countP_filter_words (fun run hd => ?_) _).symm
  cases hr : p (String.ofList run) with
  | false => rfl
  | true =>
    have hnot := hp _ hr
    rw [String.toList_ofList, hd] at hnot
    cases hnot

/-- **A bracket of a text** is as often among its tokens. -/
theorem countP_bracket {b : Char} {text : String} {tokens : List Token} {q : Token → Bool}
    (hcomment : '#' ∉ text.toList) (h : scan text = .ok tokens) (hb : Statement.isBracket b = true)
    (hq : ∀ t, q t = decide (bracketToken? b = some t)) : tokens.countP q = text.toList.count b := by
  rw [funext hq, count_of_scanFrom hb hcomment h]
  exact Nat.zero_add _

theorem opens?_bracket {p : Pair} {b : Bracket} (hp : p.bracket? = some b) (t : Token) :
    decide (t.opens? = some p) = decide (bracketToken? b.opener = some t) := by
  cases p <;> cases hp <;> cases t with
  | ident name => rw [Token.opens?_ident, Bool.and_comm]; rfl
  | symbol s => cases s <;> rfl
  | _ => rfl

theorem closes?_bracket {p : Pair} {b : Bracket} (hp : p.bracket? = some b) (t : Token) :
    decide (t.closes? = some p) = decide (bracketToken? b.closer = some t) := by
  cases p <;> cases hp <;> cases t with
  | ident name => rw [Token.closes?_ident, Bool.and_comm]; rfl
  | symbol s => cases s <;> rfl
  | _ => rfl

/-- **The tallies of a text are those of its tokens.** -/
theorem tally_of_scan {text : String} {tokens : List Token} (hcomment : '#' ∉ text.toList)
    (hliteral : LiteralRuns text.toList) (h : scan text = .ok tokens) (p : Pair) :
    tokens.countP (fun t => decide (t.opens? = some p)) = (p.tally (.of text)).opened ∧
      tokens.countP (fun t => decide (t.closes? = some p)) = (p.tally (.of text)).closed := by
  rw [Pair.tally]
  cases hb : p.bracket? with
  | some b =>
    constructor
    · exact countP_bracket hcomment h (by cases b <;> decide) (opens?_bracket hb)
    · exact countP_bracket hcomment h (by cases b <;> decide) (closes?_bracket hb)
  | none =>
    have hp : p = .block := by
      cases p with
      | block => rfl
      | round => cases hb
      | square => cases hb
    subst hp
    have hopen (word : String) (hw : blockWords.contains word = true) : startsWithDigit word.toList = false := by
      have hall : ∀ word ∈ blockWords, startsWithDigit word.toList = false := by decide
      exact hall word (List.contains_iff_mem.1 hw)
    have hclose (word : String) (hw : (word == closingWord) = true) : startsWithDigit word.toList = false :=
      eq_of_beq hw ▸ rfl
    constructor
    · rw [countP_names (fun name => (Token.opens?_ident name .block).trans (Bool.and_true _)) (fun _ => rfl)
        (fun s => by cases s <;> rfl) rfl]
      exact (countP_words hcomment hliteral h hopen).symm
    · rw [countP_names (fun name => (Token.closes?_ident name .block).trans (Bool.and_true _)) (fun _ => rfl)
        (fun s => by cases s <;> rfl) rfl]
      exact (countP_words hcomment hliteral h hclose).symm

/-- **A surplus of openers in a text** is a surplus of its openers among its tokens. -/
theorem surplus_of_scan {text : String} {tokens : List Token} (hcomment : '#' ∉ text.toList)
    (hliteral : LiteralRuns text.toList) (h : scan text = .ok tokens) (p : Pair) :
    surplus p tokens = (p.tally (.of text)).opened - (p.tally (.of text)).closed := by
  obtain ⟨hopened, hclosed⟩ := tally_of_scan hcomment hliteral h p
  rw [surplus, hopened, hclosed]

/-- **The verdict of the counts and the grammar agree** on a text without comments whose words that start with a digit
are literals: a program is complete and has no spare `end`, and what is complete does not end where a closer is
wanted. -/
theorem balance_agrees {text : String} (hcomment : '#' ∉ text.toList) (hliteral : LiteralRuns text.toList) :
    (∀ statements, parse text = .ok statements →
      (Balance.of text).isComplete = true ∧ (Balance.of text).blocks.opened = (Balance.of text).blocks.closed) ∧
    ((Balance.of text).isComplete = true → ∀ f, parse text = .error f → ∀ wanted,
      f.message ≠ "unexpected end of input, expecting '" ++ wanted ++ "'") := by
  constructor
  · intro statements h
    obtain ⟨tokens, hscan, hparse⟩ := parse_eq_ok_iff.1 h
    have heven (p : Pair) : (p.tally (.of text)).opened = (p.tally (.of text)).closed := by
      have hzero := (nested_of_parseTokens hparse).surplus_eq_zero p
      rw [surplus_of_scan hcomment hliteral hscan] at hzero
      omega
    refine ⟨Balance.isComplete_iff.2 ⟨Nat.le_of_eq (heven .block), fun b => ?_⟩, heven .block⟩
    cases b with
    | round => exact heven .round
    | square => exact heven .square
    | curly =>
      -- No token is a curly bracket.
      have hnone (c : Char) (hb : Statement.isBracket c = true) (ht : bracketToken? c = none) :
          text.toList.count c = 0 := by
        rw [← countP_bracket hcomment hscan hb fun _ => rfl, ht]
        exact List.countP_eq_zero.2 fun _ _ => Bool.false_ne_true
      exact (hnone '\x7b' rfl rfl).trans (hnone '\x7d' rfl rfl).symm
  · intro hcomplete f h wanted hmessage
    obtain rfl := ParseFault.eq_expected_of_message hmessage
    obtain ⟨hblocks, hbrackets⟩ := Balance.isComplete_iff.1 hcomplete
    rcases parse_eq_error_iff.1 h with hscan | ⟨tokens, hscan, hparse⟩
    · rcases fault_of_scanFrom hscan with ⟨c, hc⟩ | ⟨digits, hd⟩
      · cases hc
      · cases hd
    · obtain ⟨p, -, hlt⟩ := surplus_of_parseTokens hparse
      rw [surplus_of_scan hcomment hliteral hscan] at hlt
      have hle : (p.tally (.of text)).opened ≤ (p.tally (.of text)).closed := by
        cases p with
        | block => exact hblocks
        | round => exact Nat.le_of_eq (hbrackets .round)
        | square => exact Nat.le_of_eq (hbrackets .square)
      omega

/-- **Every pair there is**, and a word that starts with a digit. -/
theorem balance_agrees_nested : '#' ∉ "if a then [1_0, (2)] end".toList ∧ LiteralRuns "if a then [1_0, (2)] end".toList ∧
    (∀ statements, parse "if a then [1_0, (2)] end" = .ok statements →
      (Balance.of "if a then [1_0, (2)] end").isComplete = true ∧
        (Balance.of "if a then [1_0, (2)] end").blocks.opened = (Balance.of "if a then [1_0, (2)] end").blocks.closed) ∧
    ((Balance.of "if a then [1_0, (2)] end").isComplete = true → ∀ f, parse "if a then [1_0, (2)] end" = .error f →
      ∀ wanted, f.message ≠ "unexpected end of input, expecting '" ++ wanted ++ "'") := by
  have hcomment : '#' ∉ "if a then [1_0, (2)] end".toList := by decide +kernel
  have hliteral : LiteralRuns "if a then [1_0, (2)] end".toList := by unfold LiteralRuns; decide +kernel
  exact ⟨hcomment, hliteral, balance_agrees hcomment hliteral⟩

end LineShell.Calculator
