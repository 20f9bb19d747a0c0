import LineShell.Proofs.Calculator.Reading
/-!
# Refusal — which fault a rule ends in with calls enough

A rule refuses the tokens at a cursor if it ends in one fault with some allowance and with every larger one.  A fault
comes through every rule that it arises in, so a text is refused where its first statement is (`refuses_body`), and
that statement where its operand is (`refuses_statement_of_unary`).
-/
namespace LineShell.Calculator

open Production

/-- **A rule refuses the tokens** at a cursor with a fault: with calls enough, and however many more. -/
def Refuses {α : Type} (rule : Nat → Production α) (c : Cursor) (f : ParseFault) : Prop :=
  ∃ n, ∀ m, n ≤ m → ∃ c', rule m c = .error (.fault f) c'

section Combinators

variable {α β : Type} {rule : Nat → Production α} {next : Nat → α → Production β} {c c' : Cursor} {a : α}
  {f : ParseFault} {token : Token} {after : List Token}

theorem Refuses.succ (h : Refuses (fun n => rule (n + 1)) c f) : Refuses rule c f := by
  obtain ⟨n, hn⟩ := h
  refine ⟨n + 1, fun m hm => ?_⟩
  obtain ⟨k, rfl⟩ : ∃ k, m = k + 1 := ⟨m - 1, by omega⟩
  exact hn k (Nat.le_of_succ_le_succ hm)

theorem Refuses.bind (h : Refuses rule c f) : Refuses (fun n => rule n >>= next n) c f := by
  obtain ⟨n, hn⟩ := h
  refine ⟨n, fun m hm => ?_⟩
  obtain ⟨c', hc'⟩ := hn m hm
  exact ⟨c', bind_of_error hc'⟩

/-- **What is refused after a result** is refused by both together. -/
theorem Yields.refuses (h : Yields rule c a c') (h' : Refuses (fun n => next n a) c' f) :
    Refuses (fun n => rule n >>= next n) c f := by
  obtain ⟨n, hn⟩ := h
  obtain ⟨k, hk⟩ := h'
  refine ⟨max n k, fun m hm => ?_⟩
  have hfirst := hn m (Nat.le_trans (Nat.le_max_left n k) hm)
  obtain ⟨c'', hc''⟩ := hk m (Nat.le_trans (Nat.le_max_right n k) hm)
  exact ⟨c'', (bind_of_ok hfirst).trans hc''⟩

theorem refuses_rest {next : Nat → List Token → Production α} (h : Refuses (fun n => next n c.rest) c f) :
    Refuses (fun n => rest >>= next n) c f := h

theorem refuses_resume {next : Nat → Unit → Production α}
    (h : Refuses (fun n => next n ()) { c with rest := after } f) : Refuses (fun n => resume after >>= next n) c f := h

theorem refuses_skip {next : Nat → Unit → Production α}
    (h : Refuses (fun n => next n ()) ⟨c.rest.dropWhile (· = .separator), c.depth⟩ f) :
    Refuses (fun n => skipSeparators >>= next n) c f := h

theorem refuses_accept {next : Nat → Bool → Production α} (hc : c.rest = token :: after)
    (h : Refuses (fun n => next n true) { c with rest := after } f) :
    Refuses (fun n => accept token >>= next n) c f := (yields_of_eq (accept_of_next hc)).refuses h

/-- **No rule goes deeper than the limit.** -/
theorem refuses_nested_limit (hd : maxDepth ≤ c.depth) : Refuses (fun n => nested (rule n)) c .tooDeep :=
  ⟨0, fun _ _ => ⟨c, by simp only [nested, if_pos hd]⟩⟩

theorem refuses_nested (hd : c.depth < maxDepth) (h : Refuses rule { c with depth := c.depth + 1 } f) :
    Refuses (fun n => nested (rule n)) c f := by
  obtain ⟨n, hn⟩ := h
  refine ⟨n, fun m hm => ?_⟩
  obtain ⟨c', hc'⟩ := hn m hm
  exact ⟨ascend c', by simp only [nested, if_neg (Nat.not_le.2 hd), hc']⟩

theorem refuses_restored (h : Refuses rule c f) : Refuses (fun n => restored (rule n)) c f := by
  obtain ⟨n, hn⟩ := h
  refine ⟨n, fun m hm => ?_⟩
  obtain ⟨c', hc'⟩ := hn m hm
  exact ⟨c', by simp only [restored, hc']⟩

end Combinators

/-! ## The rules -/

section Rules

variable {t : Tier} {tokens more : List Token} {token : Token} {d : Nat} {e : Expr} {es found : List Expr} {o : UnOp}
  {stop : List String} {f : ParseFault}

/-- **An operand is refused** where the unary expression is that it starts with, and so are the chains of every
level. -/
theorem refuses_operand (h : Refuses unary ⟨tokens, d⟩ f) (t : Tier) :
    Refuses (operand t) ⟨tokens, d⟩ f ∧ Refuses (chain t) ⟨tokens, d⟩ f := by
  have hchain (hoperand : Refuses (operand t) ⟨tokens, d⟩ f) : Refuses (chain t) ⟨tokens, d⟩ f := by
    refine Refuses.succ ?_
    simp only [chain]
    exact refuses_restored hoperand.bind
  have hoperand : Refuses (operand t) ⟨tokens, d⟩ f := by
    refine Refuses.succ ?_
    cases ht : t.tighter with
    | none =>
      simp only [operand, ht]
      exact h
    | some t' =>
      -- Level by level: an operand of a level is a chain of the next tighter one.
      have hlt : t'.height < t.height := Nat.lt_of_succ_le (Nat.le_of_eq (Tier.height_tighter ht))
      simp only [operand, ht]
      exact (refuses_operand h t').2
  exact ⟨hoperand, hchain hoperand⟩
termination_by t.height

theorem refuses_statement_limit (hd : maxDepth ≤ d) : Refuses statement ⟨tokens, d⟩ .tooDeep := by
  refine Refuses.succ ?_
  simp only [statement]
  exact refuses_nested_limit hd

theorem refuses_statement_of_unary (hd : d < maxDepth) (hn : NoAssignment tokens)
    (h : Refuses unary ⟨tokens, d + 1⟩ f) : Refuses statement ⟨tokens, d⟩ f := by
  have hassignment : Refuses assignment ⟨tokens, d + 1⟩ f := by
    refine Refuses.succ ?_
    simp only [assignment]
    refine refuses_rest ?_
    simp only
    split
    · rename_i name after
      exact absurd rfl (hn name after)
    · exact (refuses_operand h .or).2
  refine Refuses.succ ?_
  simp only [statement]
  exact refuses_nested (c := ⟨tokens, d⟩) hd hassignment

/-- **No unary operator stands at the limit**, for its operand would be past it. -/
theorem refuses_unary_limit (ho : token.unary? = some o) (hd : maxDepth ≤ d) :
    Refuses unary ⟨token :: tokens, d⟩ .tooDeep := by
  refine Refuses.succ ?_
  simp only [unary]
  refine refuses_rest ?_
  simp only [ho]
  exact refuses_resume (Refuses.bind (refuses_nested_limit (c := ⟨tokens, d⟩) hd))

theorem refuses_unary_array (h : Refuses (fun n => items n []) ⟨tokens, d⟩ f) :
    Refuses unary ⟨.symbol .openSquare :: tokens, d⟩ f := by
  have hprimary : Refuses primary ⟨.symbol .openSquare :: tokens, d⟩ f :=
    Refuses.succ (refuses_rest (refuses_resume h.bind))
  refine Refuses.succ ?_
  simp only [unary]
  exact refuses_rest hprimary

theorem refuses_items_first (hne : tokens.head? ≠ some (.symbol .closeSquare))
    (h : Refuses statement ⟨tokens, d⟩ f) : Refuses (fun n => items n found) ⟨tokens, d⟩ f := by
  refine Refuses.succ ?_
  simp only [items]
  refine refuses_rest ?_
  simp only [if_neg hne]
  exact h.bind

theorem refuses_items_comma (hne : tokens.head? ≠ some (.symbol .closeSquare))
    (h : Yields statement ⟨tokens, d⟩ e ⟨.symbol .comma :: more, d⟩)
    (h' : Refuses (fun n => items n (e :: found)) ⟨more, d⟩ f) : Refuses (fun n => items n found) ⟨tokens, d⟩ f := by
  refine Refuses.succ ?_
  simp only [items]
  refine refuses_rest ?_
  simp only [if_neg hne]
  exact h.refuses (refuses_accept rfl h')

theorem refuses_body (hskip : tokens.dropWhile (· = .separator) = more) (hc : ¬Closes stop more)
    (h : Refuses statement ⟨more, d⟩ f) : Refuses (fun n => body stop n found) ⟨tokens, d⟩ f := by
  refine Refuses.succ ?_
  simp only [body]
  refine refuses_skip (refuses_rest ?_)
  simp only [hskip]
  rw [Closes] at hc
  simp only [if_neg hc]
  exact h.bind

end Rules

/-- **What the statements of a program are refused with** is the fault of the program. -/
theorem parseTokens_of_refuses {tokens : List Token} {f : ParseFault}
    (h : Refuses (fun n => body [] n []) ⟨tokens, 0⟩ f) : parseTokens tokens = .error f := by
  obtain ⟨n, hn⟩ := h
  obtain ⟨c, hc⟩ := hn n (Nat.le_refl n)
  have hbody := body_allowance hc nofun
  exact parseTokens_eq_error_iff.2 ⟨c, by rw [program_eq, hbody]⟩

end LineShell.Calculator
