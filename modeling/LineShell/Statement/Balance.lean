import LineShell.Statement.Keyword
import LineShell.Text.Blank
import LineShell.Text.Word
/-!
# Balance — when a text is ready to be evaluated

Openers and closers are counted, not matched.  A text is complete when it has at least as many `end`s as words that open
a block, and when every kind of bracket is closed exactly as often as it is opened, in whatever order.  Comments count
like any other text.
-/
namespace LineShell.Statement

section Characters

variable {c : Char}

theorem eq_of_isBracket (h : isBracket c = true) :
    (c = '(' ∨ c = ')') ∨ (c = '[' ∨ c = ']') ∨ (c = '\x7b' ∨ c = '\x7d') := by
  simpa [isBracket, Bracket.all, Bracket.opener, Bracket.closer] using h

theorem isWordChar_of_isBracket (h : isBracket c = true) : Text.isWordChar c = false := by
  rcases eq_of_isBracket h with (rfl | rfl) | (rfl | rfl) | (rfl | rfl) <;> decide +kernel

theorem isBlank_of_isBracket (h : isBracket c = true) : Text.isBlank c = false := by
  rcases eq_of_isBracket h with (rfl | rfl) | (rfl | rfl) | (rfl | rfl) <;> decide

end Characters

/-- **How often something opens and closes.** -/
structure Tally where
  opened : Nat
  closed : Nat
  deriving DecidableEq, Repr

/-- **The counts behind the verdict.** `blocks` counts whole words. -/
structure Balance where
  blocks : Tally
  brackets : Bracket → Tally

namespace Balance

/-- **The tally of the block words** among `words`. -/
def ofWords (words : List String) : Tally :=
  ⟨words.countP (blockWords.contains ·), words.count closingWord⟩

/-- **The tally of a bracket pair** among characters. -/
def ofBracket (cs : List Char) (b : Bracket) : Tally := ⟨cs.count b.opener, cs.count b.closer⟩

def of (text : String) : Balance := ⟨ofWords (Text.words text), ofBracket text.toList⟩

/-- **Every block that is opened can be closed**; spare `end`s are let through. -/
def blocksClosed (balance : Balance) : Bool := decide (balance.blocks.opened ≤ balance.blocks.closed)

/-- **Every bracket pair opens as often as it closes.** -/
def bracketsEven (balance : Balance) : Bool :=
  Bracket.all.all fun b => (balance.brackets b).opened == (balance.brackets b).closed

def isComplete (balance : Balance) : Bool := balance.blocksClosed && balance.bracketsEven

theorem isComplete_iff {balance : Balance} : balance.isComplete = true ↔
    balance.blocks.opened ≤ balance.blocks.closed ∧ ∀ b, (balance.brackets b).opened = (balance.brackets b).closed := by
  have hall : balance.bracketsEven = true ↔ ∀ b, (balance.brackets b).opened = (balance.brackets b).closed := by
    simp only [Balance.bracketsEven, Bracket.all, List.all_cons, List.all_nil, Bool.and_true, Bool.and_eq_true,
      beq_iff_eq]
    constructor
    · rintro ⟨hr, hs, hc⟩ b
      cases b with
      | round => exact hr
      | square => exact hs
      | curly => exact hc
    · intro h
      exact ⟨h .round, h .square, h .curly⟩
  rw [Balance.isComplete, Bool.and_eq_true, hall, Balance.blocksClosed, decide_eq_true_eq]

end Balance

end LineShell.Statement
