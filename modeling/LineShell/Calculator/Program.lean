import LineShell.Calculator.Progress
import LineShell.Calculator.Scan
/-!
# Program — texts as programs

A text is a program if its tokens are statements to the very end.
-/
namespace LineShell.Calculator

open Production

/-- **A whole program.** Its statements end where the tokens end. -/
def program (allowance : Nat) : Production (List Expr) := do
  let statements ← body [] allowance []
  match ← rest with
  | [] => return statements
  | token :: _ => fail (.unexpected token)

theorem program_eq (allowance : Nat) (c : Cursor) :
    program allowance c = match body [] allowance [] c with
      | .ok statements c' =>
        match c'.rest with
        | [] => .ok statements c'
        | token :: _ => .error (.fault (.unexpected token)) c'
      | .error h c' => .error h c' := by
  show (body [] allowance [] >>= _) c = _
  simp only [bind, EStateM.bind]
  cases body [] allowance [] c with
  | error h c' => rfl
  | ok statements c' =>
    obtain ⟨rest, depth⟩ := c'
    cases rest <;> rfl

/-- **A program has read all its tokens.** -/
theorem program_eq_ok_iff {allowance : Nat} {c c' : Cursor} {statements : List Expr} :
    program allowance c = .ok statements c' ↔ body [] allowance [] c = .ok statements c' ∧ c'.rest = [] := by
  rw [program_eq]
  cases body [] allowance [] c with
  | error h c'' => simp
  | ok found c'' =>
    obtain ⟨rest, depth⟩ := c''
    cases rest with
    | nil =>
      simp only [EStateM.Result.ok.injEq]
      exact ⟨fun h => ⟨h, h.2 ▸ rfl⟩, And.left⟩
    | cons token after =>
      simp only [EStateM.Result.ok.injEq, reduceCtorEq, false_iff, not_and]
      rintro ⟨-, rfl⟩
      exact List.cons_ne_nil _ _

/-- **Calls enough for so many tokens**: fewer than twenty rules are entered between one token and the next. -/
def allowance (tokens : List Token) : Nat := 20 * (tokens.length + 1)

/-- **A program with calls enough is in order** like the rules it is made of. -/
theorem orderly_program (c : Cursor) : Orderly 0 (program (allowance c.rest)) c := by
  refine orderly_bind (j := 0) (k := 0) ((progress _).body [] [] c ?_) fun statements c' _ => orderly_rest ?_
  · unfold allowance
    omega
  · split
    · exact orderly_pure _
    · exact orderly_fail _

/-- **A program with calls enough does not stall.** -/
theorem program_ne_stalled (tokens : List Token) (c : Cursor) :
    program (allowance tokens) ⟨tokens, 0⟩ ≠ .error .stalled c := by
  intro h
  have ho := orderly_program ⟨tokens, 0⟩ (Nat.zero_le _)
  unfold Meets at ho
  rw [h] at ho
  exact ho.cause rfl

def parseTokens (tokens : List Token) : Except ParseFault (List Expr) :=
  match h : program (allowance tokens) ⟨tokens, 0⟩ with
  | .ok statements _ => .ok statements
  | .error (.fault f) _ => .error f
  | .error .stalled c => absurd h (program_ne_stalled tokens c)

theorem parseTokens_eq_ok_iff {tokens : List Token} {statements : List Expr} :
    parseTokens tokens = .ok statements ↔ ∃ c, program (allowance tokens) ⟨tokens, 0⟩ = .ok statements c := by
  unfold parseTokens
  split
  · rename_i found c h
    rw [h]
    simp
  · rename_i f c h
    rw [h]
    simp
  · rename_i c h
    exact absurd h (program_ne_stalled tokens c)

theorem parseTokens_eq_error_iff {tokens : List Token} {f : ParseFault} :
    parseTokens tokens = .error f ↔ ∃ c, program (allowance tokens) ⟨tokens, 0⟩ = .error (.fault f) c := by
  unfold parseTokens
  split
  · rename_i found c h
    rw [h]
    simp
  · rename_i f c h
    rw [h]
    simp
  · rename_i c h
    exact absurd h (program_ne_stalled tokens c)

def parse (text : String) : Except ParseFault (List Expr) := do parseTokens (← scan text)

theorem parse_eq_ok_iff {text : String} {statements : List Expr} :
    parse text = .ok statements ↔ ∃ tokens, scan text = .ok tokens ∧ parseTokens tokens = .ok statements := by
  unfold parse
  cases scan text <;> simp [bind, Except.bind]

theorem parse_eq_error_iff {text : String} {f : ParseFault} : parse text = .error f ↔
    scan text = .error f ∨ ∃ tokens, scan text = .ok tokens ∧ parseTokens tokens = .error f := by
  unfold parse
  cases scan text <;> simp [bind, Except.bind]

theorem exists_of_isOk {text : String} (h : (parse text).isOk = true) : ∃ statements, parse text = .ok statements := by
  cases hp : parse text with
  | ok statements => exact ⟨statements, rfl⟩
  | error f =>
    rw [hp] at h
    exact absurd h Bool.false_ne_true

end LineShell.Calculator
