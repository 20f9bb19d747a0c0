import LineShell.Proofs.Calculator.Law
import LineShell.Proofs.Calculator.Printing
import LineShell.Proofs.Calculator.Refusal
import LineShell.Proofs.Calculator.RoundTrip
/-!
# ReadBack — a value's text evaluates to the value

The tokens of a value's text are read as one statement, if the nesting limit has room for it, and are too deep if not
(`parseTokens_tokens`).  That statement comes to the value again (`outcome_expr`).  So a value is read back from its
text, unless it is too deep or the least word is in it (`run_text`).
-/
namespace LineShell.Value

open Calculator (Expr Token)

mutual

/-- **How many levels a value's text takes up**: an integer with a sign takes two, and an array one more than the
heaviest of its items. -/
def weight : Value → Nat
  | nil | bool _ => 1
  | int n => if n < 0 then 2 else 1
  | array items => heaviest items + 1

def heaviest : List Value → Nat
  | [] => 0
  | v :: vs => max v.weight (heaviest vs)

end

mutual

/-- **What a value's text is read as.** -/
def expr : Value → Expr
  | nil => .lit .nil
  | bool b => .lit (.bool b)
  | int n => if n < 0 then .unary .neg (.lit (.int (-n))) else .lit (.int n)
  | array items => .array (exprs items)

def exprs : List Value → List Expr
  | [] => []
  | v :: vs => v.expr :: exprs vs

end

mutual

/-- **A value weighs as much as it is deep**, or one more for a sign at its bottom. -/
theorem weight_bounds : ∀ v : Value, v.depth ≤ v.weight ∧ v.weight ≤ v.depth + 1
  | nil | bool _ => ⟨Nat.le_refl 1, Nat.le_succ 1⟩
  | int n => by
    rw [weight, depth]
    split <;> decide
  | array items => by
    obtain ⟨hlow, hhigh⟩ := heaviest_bounds items
    rw [weight, depth]
    omega

theorem heaviest_bounds : ∀ vs : List Value, deepest vs ≤ heaviest vs ∧ heaviest vs ≤ deepest vs + 1
  | [] => ⟨Nat.le_refl 0, Nat.le_succ 0⟩
  | v :: vs => by
    obtain ⟨hlow, hhigh⟩ := weight_bounds v
    obtain ⟨hlow', hhigh'⟩ := heaviest_bounds vs
    rw [heaviest, deepest]
    omega

end

theorem weight_pos (v : Value) : 0 < v.weight := Nat.lt_of_lt_of_le v.depth_pos v.weight_bounds.1

end LineShell.Value

namespace LineShell.Calculator

open Value (exprs heaviest tokensMore tokensWithin integersOf)

section Reading

variable {more : List Token} {d : Nat} {found : List Expr} {token : Token}

/-- **Tokens that start like an expression**, and with no assignment. -/
structure StartsPlainly (tokens : List Token) : Prop where
  first : ∃ token after, tokens = token :: after ∧ token.isFirst = true
  noAssignment : NoAssignment tokens

theorem StartsPlainly.head_ne {tokens : List Token} (h : StartsPlainly tokens) (ht : token.isFirst = false) :
    tokens.head? ≠ some token := by
  obtain ⟨first, after, rfl, hfirst⟩ := h.first
  exact fun heq => ne_of_isFirst hfirst ht (Option.some.inj heq)

theorem startsPlainly_word {name : String} (hf : (Token.ident name).isFirst = true) (he : Ends more) :
    StartsPlainly (.ident name :: more) :=
  ⟨⟨_, _, rfl, hf⟩, noAssignment_cons fun t ht => (he t ht).1⟩

theorem startsPlainly_of_ne (hf : token.isFirst = true) (hn : ∀ name, token ≠ .ident name) :
    StartsPlainly (token :: more) :=
  ⟨⟨_, _, rfl, hf⟩, fun name _ heq => hn name (List.cons.inj heq).1⟩

theorem startsPlainly_tokens (v : Value) (he : Ends more) : StartsPlainly (v.tokens ++ more) := by
  cases v with
  | nil => exact startsPlainly_word (by decide) he
  | bool b => cases b <;> exact startsPlainly_word (by decide) he
  | int n =>
    rw [Value.tokens]
    split <;> exact startsPlainly_of_ne rfl (by simp)
  | array items =>
    rw [Value.tokens_array]
    exact startsPlainly_of_ne rfl (by simp)

/-- **A rule reads tokens just when there is room for them**: it yields what they stand for, or it is too deep. -/
def ReadsIn {α : Type} (room : Prop) (rule : Nat → Production α) (c : Cursor) (a : α) (c' : Cursor) : Prop :=
  (room → Yields rule c a c') ∧ (¬room → Refuses rule c .tooDeep)

theorem readsIn_int (n : Int64) (hd : d ≤ maxDepth) : ReadsIn ((Value.int n).weight + d ≤ maxDepth + 1) unary
    ⟨(Value.int n).tokens ++ more, d⟩ (Value.int n).expr ⟨more, d⟩ := by
  rw [Value.weight, Value.tokens, Value.expr]
  split
  · refine ⟨fun hroom => ?_, fun hroom => refuses_unary_limit rfl (by omega)⟩
    exact yields_unary_operator rfl (by omega) (yields_unary_int (-n))
  · exact ⟨fun _ => yields_unary_int n, fun hroom => absurd (by omega) hroom⟩

theorem readsIn_statement {v : Value} (he : Ends more)
    (h : d < maxDepth → ReadsIn (v.weight + (d + 1) ≤ maxDepth + 1) unary ⟨v.tokens ++ more, d + 1⟩ v.expr
      ⟨more, d + 1⟩) :
    ReadsIn (v.weight + d ≤ maxDepth) statement ⟨v.tokens ++ more, d⟩ v.expr ⟨more, d⟩ := by
  have hplain := (startsPlainly_tokens v he).noAssignment
  by_cases hd : d < maxDepth
  · obtain ⟨hyields, hrefuses⟩ := h hd
    refine ⟨fun hroom => ?_, fun hroom => ?_⟩
    · exact yields_statement_of_unary hd hplain (hyields (by omega)) he
    · exact refuses_statement_of_unary hd hplain (hrefuses (by omega))
  · -- At the limit there is room for no value, since every one weighs something.
    have hpos := v.weight_pos
    exact ⟨fun hroom => absurd hroom (by omega), fun _ => refuses_statement_limit (Nat.le_of_not_lt hd)⟩

mutual

/-- **The tokens of a value are one unary expression**, where there is room for it. -/
theorem readsIn_unary : ∀ (v : Value) {d : Nat} {more : List Token}, d ≤ maxDepth →
    ReadsIn (v.weight + d ≤ maxDepth + 1) unary ⟨v.tokens ++ more, d⟩ v.expr ⟨more, d⟩
  | .nil, d, _, hd => ⟨fun _ => yields_unary_nil, fun hroom => absurd (by rw [Value.weight]; omega) hroom⟩
  | .bool true, d, _, hd => ⟨fun _ => yields_unary_true, fun hroom => absurd (by rw [Value.weight]; omega) hroom⟩
  | .bool false, d, _, hd => ⟨fun _ => yields_unary_false, fun hroom => absurd (by rw [Value.weight]; omega) hroom⟩
  | .int n, _, _, hd => readsIn_int n hd
  | .array items, d, more, hd => by
    obtain ⟨hyields, hrefuses⟩ := readsIn_items items [] more hd
    rw [Value.weight, Value.tokens_array]
    refine ⟨fun hroom => ?_, fun hroom => ?_⟩
    · exact yields_unary_array (hyields (by omega))
    · exact refuses_unary_array (hrefuses (by omega))

/-- **The tokens within an array are its items**, where there is room for the heaviest of them. -/
theorem readsIn_items : ∀ (vs : List Value) {d : Nat} (found : List Expr) (more : List Token), d ≤ maxDepth →
    ReadsIn (heaviest vs + d ≤ maxDepth) (fun n => items n found) ⟨tokensWithin vs ++ more, d⟩
      (found.reverse ++ exprs vs) ⟨.symbol .closeSquare :: more, d⟩
  | [], d, found, more, hd => by
    rw [exprs, List.append_nil]
    exact ⟨fun _ => yields_items_done, fun hroom => absurd (by rw [heaviest]; omega) hroom⟩
  | [item], d, found, more, hd => by
    have he : Ends (.symbol .closeSquare :: more) := ends_cons ⟨nofun, nofun⟩
    obtain ⟨hyields, hrefuses⟩ := readsIn_statement (d := d) he fun hd => readsIn_unary item hd
    have hne : (item.tokens ++ _).head? ≠ some (.symbol .closeSquare) := (startsPlainly_tokens item he).head_ne rfl
    have hheaviest : heaviest [item] = item.weight := Nat.max_eq_left (Nat.zero_le _)
    have htokens : tokensWithin [item] ++ more = item.tokens ++ .symbol .closeSquare :: more :=
      List.append_assoc ..
    rw [hheaviest, htokens]
    refine ⟨fun hroom => ?_, fun hroom => refuses_items_first hne (hrefuses hroom)⟩
    have hlast : Yields (fun n => items n found) _ _ _ := yields_items_last hne (hyields hroom)
    rwa [List.reverse_cons] at hlast
  | item :: next :: rest, d, found, more, hd => by
    have he : Ends (.symbol .comma :: (tokensWithin (next :: rest) ++ more)) := ends_cons ⟨nofun, nofun⟩
    obtain ⟨hyields, hrefuses⟩ := readsIn_statement (d := d) he fun hd => readsIn_unary item hd
    obtain ⟨hrest, hrefused⟩ := readsIn_items (next :: rest) (item.expr :: found) more hd
    have hne : (item.tokens ++ _).head? ≠ some (.symbol .closeSquare) := (startsPlainly_tokens item he).head_ne rfl
    have htokens : tokensWithin (item :: next :: rest) ++ more =
        item.tokens ++ .symbol .comma :: (tokensWithin (next :: rest) ++ more) := List.append_assoc ..
    rw [heaviest, htokens]
    -- The items before the first one that is too heavy are read.
    by_cases hitem : item.weight + d ≤ maxDepth
    · refine ⟨fun hroom => ?_, fun hroom => ?_⟩
      · have hmore := yields_items_comma hne (hyields hitem) (hrest (by omega))
        rwa [List.reverse_cons, List.append_assoc, List.singleton_append] at hmore
      · exact refuses_items_comma hne (hyields hitem) (hrefused (by omega))
    · exact ⟨fun hroom => absurd (by omega) hitem, fun _ => refuses_items_first hne (hrefuses hitem)⟩

end

/-- **The tokens of a value are a program of one statement**, where there is room for it, and else too deep. -/
theorem parseTokens_tokens (v : Value) :
    parseTokens v.tokens = if v.weight ≤ maxDepth then .ok [v.expr] else .error .tooDeep := by
  have hnone : Ends [] := nofun
  obtain ⟨hyields, hrefuses⟩ := readsIn_statement (d := 0) hnone fun hd => readsIn_unary v hd
  obtain ⟨first, after, htokens, hfirst⟩ := (startsPlainly_tokens v hnone).first
  rw [List.append_nil] at hyields hrefuses htokens
  have hclose : ¬Closes [] v.tokens := htokens ▸ not_closes_of_isFirst (List.nil_subset _) hfirst
  have hskip : v.tokens.dropWhile (· = .separator) = v.tokens := by
    rw [htokens]
    exact List.dropWhile_cons_of_neg fun h => ne_of_isFirst hfirst rfl (of_decide_eq_true h)
  split
  · rename_i hroom
    have hend : Yields (fun n => body [] n [v.expr]) ⟨[], 0⟩ [v.expr] ⟨[], 0⟩ := yields_body_done rfl rfl
    exact parseTokens_of_yields (yields_body_next hskip hclose (hyields hroom) (.inl rfl) hend) rfl
  · rename_i hroom
    exact parseTokens_of_refuses (refuses_body hskip hclose (hrefuses hroom))

end Reading

section Evaluation

theorem outcome_int_expr {n : Int64} (h : Int64.minValue ≠ n) (b : Bindings) :
    outcome (Value.int n).expr.eval b = (.ok (.int n), b) := by
  rw [Value.expr]
  split
  · have hneg : Integer.neg? (-n) = some n := by
      rw [Integer.neg?, Integer.toInt_neg_of_ne h.symm, Int.neg_neg, Integer.fit?_toInt]
    rw [Expr.eval, outcome_bind, Expr.eval, outcome_pure]
    simp only [UnOp.apply, hneg, fitting, outcome_settle]
  · rfl

mutual

/-- **What a value's text is read as comes to the value**, and touches no binding. -/
theorem outcome_expr : ∀ (v : Value), Int64.minValue ∉ v.integers → ∀ b, outcome v.expr.eval b = (.ok v, b)
  | .nil, _, _ | .bool _, _, _ => rfl
  | .int n, h, b => outcome_int_expr (fun he => h (he ▸ List.mem_cons_self)) b
  | .array items, h, b => by
    rw [Value.expr, Expr.eval, outcome_bind, outcome_exprs items h]
    rfl

theorem outcome_exprs : ∀ (vs : List Value), Int64.minValue ∉ integersOf vs → ∀ (known : List Value) (b : Bindings),
    outcome (evalItems (exprs vs) known) b = (.ok (known.reverse ++ vs), b)
  | [], _, known, b => by
    rw [List.append_nil]
    rfl
  | v :: vs, h, known, b => by
    obtain ⟨hv, hvs⟩ := not_or.1 (mt List.mem_append.2 h)
    rw [exprs, evalItems, outcome_bind, outcome_expr v hv]
    simp only [outcome_exprs vs hvs, List.reverse_cons, List.append_assoc, List.singleton_append]

end

end Evaluation

/-- **Printed values are read back.** The text of a value evaluates to the value, whatever the session, and changes
nothing; but it is out of range where the least word is in the value, and too deep where the value weighs more than the
nesting limit. -/
theorem run_text (v : Value) (session : Session) : run v.text session =
    (if Int64.minValue ∈ v.integers then .error ⟨"RangeError", "integer literal 9223372036854775808 is too large"⟩
      else if v.weight ≤ maxDepth then .ok v else .error ⟨"SystemStackError", "stack level too deep"⟩, session) := by
  have hscan := scan_text v
  by_cases hleast : Int64.minValue ∈ v.integers
  · rw [if_pos hleast] at hscan
    rw [if_pos hleast]
    exact run_of_fault (parse_eq_error_iff.2 (.inl hscan)) session
  · rw [if_neg hleast] at hscan
    rw [if_neg hleast]
    have hparse := parseTokens_tokens v
    by_cases hweight : v.weight ≤ maxDepth
    · rw [if_pos hweight] at hparse
      rw [if_pos hweight, run_of_expression (parse_eq_ok_iff.2 ⟨_, hscan, hparse⟩), outcome_expr v hleast]
      rfl
    · rw [if_neg hweight] at hparse
      rw [if_neg hweight]
      exact run_of_fault (parse_eq_error_iff.2 (.inr ⟨_, hscan, hparse⟩)) session

end LineShell.Calculator
