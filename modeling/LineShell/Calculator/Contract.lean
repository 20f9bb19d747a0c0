import LineShell.Calculator.Production
/-!
# Contract — what a production promises

A contract says what holds of the result and the cursor after a success, and of the halt and the cursor after a failure.
One rule per way of making productions takes the contract of a whole apart into those of its parts.
-/
namespace LineShell.Calculator

namespace Production

variable {α β : Type}

/-- **A production keeps a contract at a cursor**: `Q` on success, `E` on a halt. -/
def Meets (rule : Production α) (Q : α → Cursor → Prop) (E : Halt → Cursor → Prop) (c : Cursor) : Prop :=
  match rule c with
  | .ok a c' => Q a c'
  | .error h c' => E h c'

variable {Q Q' : α → Cursor → Prop} {E E' : Halt → Cursor → Prop} {c : Cursor}

theorem Meets.mono {rule : Production α} (h : Meets rule Q E c) (hQ : ∀ a c', Q a c' → Q' a c')
    (hE : ∀ e c', E e c' → E' e c') : Meets rule Q' E' c := by
  unfold Meets at *
  cases hr : rule c with
  | ok a c' => exact hQ _ _ (by simpa [hr] using h)
  | error e c' => exact hE _ _ (by simpa [hr] using h)

/-- **One rule after another**: the first must lead to where the second keeps the contract. -/
@[simp] theorem meets_bind {R : β → Cursor → Prop} (rule : Production α) (next : α → Production β) :
    Meets (rule >>= next) R E c ↔ Meets rule (fun a c' => Meets (next a) R E c') E c := by
  unfold Meets
  simp only [bind, EStateM.bind]
  cases rule c <;> rfl

@[simp] theorem meets_map {R : β → Cursor → Prop} (f : α → β) (rule : Production α) :
    Meets (f <$> rule) R E c ↔ Meets rule (fun a c' => R (f a) c') E c := by
  unfold Meets
  simp only [Functor.map, EStateM.map]
  cases rule c <;> rfl

@[simp] theorem meets_pure (a : α) : Meets (pure a) Q E c ↔ Q a c := Iff.rfl

@[simp] theorem meets_fail (f : ParseFault) : Meets (fail f) Q E c ↔ E (.fault f) c := Iff.rfl

@[simp] theorem meets_stall : Meets stall Q E c ↔ E .stalled c := Iff.rfl

@[simp] theorem meets_rest {R : List Token → Cursor → Prop} : Meets rest R E c ↔ R c.rest c := Iff.rfl

@[simp] theorem meets_resume {R : Unit → Cursor → Prop} (tokens : List Token) :
    Meets (resume tokens) R E c ↔ R () { c with rest := tokens } := Iff.rfl

@[simp] theorem meets_skipSeparators {R : Unit → Cursor → Prop} :
    Meets skipSeparators R E c ↔ R () { c with rest := c.rest.dropWhile (· = .separator) } := Iff.rfl

/-- **Going deeper** is a matter of the limit. -/
theorem meets_descend {R : Unit → Cursor → Prop} :
    Meets descend R E c ↔
      (maxDepth ≤ c.depth → E (.fault .tooDeep) c) ∧ (c.depth < maxDepth → R () { c with depth := c.depth + 1 }) := by
  unfold Meets descend
  by_cases h : maxDepth ≤ c.depth
  · simp [h, Nat.not_lt.2 h]
  · simp [h, Nat.lt_of_not_le h]

/-- **A nested rule** works one level deeper and comes back up. -/
theorem meets_nested (rule : Production α) :
    Meets (nested rule) Q E c ↔
      (maxDepth ≤ c.depth → E (.fault .tooDeep) c) ∧
        (c.depth < maxDepth → Meets rule (fun a c' => Q a (ascend c')) (fun e c' => E e (ascend c'))
          { c with depth := c.depth + 1 }) := by
  unfold Meets nested
  by_cases h : maxDepth ≤ c.depth
  · simp [h, Nat.not_lt.2 h]
  · simp only [h, if_false, Nat.lt_of_not_le h, false_imp_iff, true_imp_iff, true_and]
    cases rule { c with depth := c.depth + 1 } <;> rfl

/-- **A restored rule** comes back to the level it was started at. -/
theorem meets_restored (rule : Production α) :
    Meets (restored rule) Q E c ↔ Meets rule (fun a c' => Q a { c' with depth := c.depth }) E c := by
  unfold Meets restored
  cases rule c <;> rfl

/-- **Accepting a token** reads it if it is next, and nothing otherwise. -/
theorem meets_accept {R : Bool → Cursor → Prop} (token : Token) :
    Meets (accept token) R E c ↔
      (∀ after, c.rest = token :: after → R true { c with rest := after }) ∧
        ((∀ after, c.rest ≠ token :: after) → R false c) := by
  unfold accept
  rw [meets_bind, meets_rest]
  cases hc : c.rest with
  | nil => simp
  | cons found after =>
    by_cases h : found = token
    · subst h
      simp
    · simp [h]

/-- **Expecting a token** reads it if it is next, and is a fault otherwise. -/
theorem meets_expect {R : Unit → Cursor → Prop} (token : Token) (wanted : String) :
    Meets (expect token wanted) R E c ↔
      (∀ after, c.rest = token :: after → R () { c with rest := after }) ∧
        ((∀ after, c.rest ≠ token :: after) → E (.fault (.expected wanted c.rest.head?)) c) := by
  unfold expect
  rw [meets_bind, meets_rest]
  cases hc : c.rest with
  | nil => simp
  | cons found after =>
    by_cases h : found = token
    · subst h
      simp
    · simp [h]

end Production

end LineShell.Calculator
