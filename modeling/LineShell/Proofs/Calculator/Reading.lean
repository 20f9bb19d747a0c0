import LineShell.Proofs.Calculator.Yield
/-!
# Reading — what the rules yield at the tokens they are for

A chain yields its one operand where no operator of its level follows, and a sum of two where one does.  So a primary
expression is a statement wherever what follows it cannot go on (`yields_statement_of_unary`), and two in brackets make
one with an operator of any level between them (`yields_statement_of_operands`).
-/
namespace LineShell.Calculator

open Production

/-- **No operator of a level comes next.** -/
def Stops (t : Tier) (tokens : List Token) : Prop := ∀ token ∈ tokens.head?, token.binary? t = none

/-- **Nothing comes next that a statement could go on with**: no operator, and no equals sign. -/
def Ends (tokens : List Token) : Prop :=
  ∀ token ∈ tokens.head?, token ≠ .symbol .assign ∧ ∀ o, token ≠ .symbol (.op o)

/-- **No name and equals sign come next**, which would start an assignment. -/
def NoAssignment (tokens : List Token) : Prop := ∀ name after, tokens ≠ .ident name :: .symbol .assign :: after

section Levels

variable {t t' : Tier} {tokens more after : List Token} {token : Token} {d : Nat} {e left right : Expr} {o : BinOp}

theorem ends_cons (h : token ≠ .symbol .assign ∧ ∀ o, token ≠ .symbol (.op o)) : Ends (token :: more) := by
  rintro _ ⟨⟩
  exact h

theorem Ends.stops (h : Ends tokens) (t : Tier) : Stops t tokens := by
  intro token ht
  obtain ⟨-, hop⟩ := h token ht
  match token, hop with
  | .symbol (.op o), hop => exact absurd rfl (hop o)
  | .int _, _ | .ident _, _ | .separator, _ => rfl
  | .symbol .bang, _ | .symbol .assign, _ | .symbol .openRound, _ | .symbol .closeRound, _ | .symbol .openSquare, _
  | .symbol .closeSquare, _ | .symbol .comma, _ => rfl

theorem stops_of_ne (h : o.tier ≠ t) : Stops t (.symbol (.op o) :: more) := by
  rintro _ ⟨⟩
  exact if_neg h

theorem yields_links_of_stops (h : Stops t more) : Yields (fun n => links t n e) ⟨more, d⟩ e ⟨more, d⟩ := by
  refine Yields.succ ?_
  simp only [links]
  refine yields_rest ?_
  cases more with
  | nil => exact yields_pure
  | cons token after =>
    simp only [h token rfl]
    exact yields_pure

theorem yields_chain (h : Yields (operand t) ⟨tokens, d⟩ e ⟨more, d⟩) (hs : Stops t more) :
    Yields (chain t) ⟨tokens, d⟩ e ⟨more, d⟩ := by
  refine Yields.succ ?_
  simp only [chain]
  exact yields_restored (h.bind (yields_links_of_stops hs))

/-- **A chain of two operands.** The second one is a level deeper, and the chain gives that level back. -/
theorem yields_chain_binary (hl : Yields (operand o.tier) ⟨tokens, d⟩ left ⟨.symbol (.op o) :: more, d⟩)
    (hd : d < maxDepth) (hr : Yields (operand o.tier) ⟨more, d + 1⟩ right ⟨after, d + 1⟩) (hs : Stops o.tier after) :
    Yields (chain o.tier) ⟨tokens, d⟩ (.binary o left right) ⟨after, d⟩ := by
  have hlink : Yields (fun n => links o.tier n left) ⟨.symbol (.op o) :: more, d⟩ (.binary o left right)
      ⟨after, d + 1⟩ := by
    have hop : (Token.symbol (.op o)).binary? o.tier = some o := if_pos rfl
    refine Yields.succ ?_
    simp only [links]
    refine yields_rest ?_
    simp only [hop]
    exact yields_resume (yields_descend hd (hr.bind (yields_links_of_stops hs)))
  refine Yields.succ ?_
  simp only [chain]
  exact yields_restored (hl.bind hlink)

theorem yields_operand_of_chain (ht : t.tighter = some t') (h : Yields (chain t') ⟨tokens, d⟩ e ⟨more, d⟩) :
    Yields (operand t) ⟨tokens, d⟩ e ⟨more, d⟩ := by
  refine Yields.succ ?_
  simp only [operand, ht]
  exact h

/-- **An operand of any level is a unary expression** that no operator of a tighter level follows. -/
theorem yields_operand (h : Yields unary ⟨tokens, d⟩ e ⟨more, d⟩) (t : Tier)
    (hs : ∀ t' : Tier, t'.height < t.height → Stops t' more) : Yields (operand t) ⟨tokens, d⟩ e ⟨more, d⟩ := by
  cases ht : t.tighter with
  | none =>
    refine Yields.succ ?_
    simp only [operand, ht]
    exact h
  | some t' =>
    -- Level by level: an operand of a level is a chain of the next tighter one, which has only this operand.
    have hlt : t'.height < t.height := Nat.lt_of_succ_le (Nat.le_of_eq (Tier.height_tighter ht))
    have hoperand := yields_operand h t' fun t'' ht'' => hs t'' (Nat.lt_trans ht'' hlt)
    exact yields_operand_of_chain ht (yields_chain hoperand (hs t' hlt))
termination_by t.height

/-- **A chain of any level is a chain of the loosest** where nothing goes on. -/
theorem yields_chain_or (h : Yields (chain t) ⟨tokens, d⟩ e ⟨more, d⟩) (he : Ends more) :
    Yields (chain .or) ⟨tokens, d⟩ e ⟨more, d⟩ := by
  have hup {t t' : Tier} (ht : t.tighter = some t') (h : Yields (chain t') ⟨tokens, d⟩ e ⟨more, d⟩) :
      Yields (chain t) ⟨tokens, d⟩ e ⟨more, d⟩ := yields_chain (yields_operand_of_chain ht h) (he.stops t)
  cases t with
  | or => exact h
  | and => exact hup rfl h
  | equality => exact hup rfl (hup rfl h)
  | comparison => exact hup rfl (hup rfl (hup rfl h))
  | additive => exact hup rfl (hup rfl (hup rfl (hup rfl h)))
  | multiplicative => exact hup rfl (hup rfl (hup rfl (hup rfl (hup rfl h))))

theorem yields_statement_of_assignment (hd : d < maxDepth)
    (h : Yields assignment ⟨tokens, d + 1⟩ e ⟨more, d + 1⟩) : Yields statement ⟨tokens, d⟩ e ⟨more, d⟩ := by
  refine Yields.succ ?_
  simp only [statement]
  exact yields_nested (c := ⟨tokens, d⟩) hd h rfl

theorem yields_statement_of_chain (hd : d < maxDepth) (hn : NoAssignment tokens)
    (h : Yields (chain .or) ⟨tokens, d + 1⟩ e ⟨more, d + 1⟩) : Yields statement ⟨tokens, d⟩ e ⟨more, d⟩ := by
  refine yields_statement_of_assignment hd (Yields.succ ?_)
  simp only [assignment]
  refine yields_rest ?_
  simp only
  split
  · rename_i name after
    exact absurd rfl (hn name after)
  · exact h

/-- **A unary expression is a statement** where nothing goes on. -/
theorem yields_statement_of_unary (hd : d < maxDepth) (hn : NoAssignment tokens)
    (h : Yields unary ⟨tokens, d + 1⟩ e ⟨more, d + 1⟩) (he : Ends more) : Yields statement ⟨tokens, d⟩ e ⟨more, d⟩ :=
  yields_statement_of_chain hd hn (yields_chain (yields_operand h .or fun t' _ => he.stops t') (he.stops .or))

/-- **Two unary expressions and an operator between them are a statement** where nothing goes on. -/
theorem yields_statement_of_operands (hd : d + 1 < maxDepth) (hn : NoAssignment tokens)
    (hl : Yields unary ⟨tokens, d + 1⟩ left ⟨.symbol (.op o) :: more, d + 1⟩)
    (hr : Yields unary ⟨more, d + 2⟩ right ⟨after, d + 2⟩) (he : Ends after) :
    Yields statement ⟨tokens, d⟩ (.binary o left right) ⟨after, d⟩ := by
  have hleft : Yields (operand o.tier) ⟨tokens, d + 1⟩ left ⟨.symbol (.op o) :: more, d + 1⟩ :=
    yields_operand hl o.tier fun t' ht' => stops_of_ne fun heq => Nat.lt_irrefl _ (heq ▸ ht')
  have hright : Yields (operand o.tier) ⟨more, d + 2⟩ right ⟨after, d + 2⟩ :=
    yields_operand hr o.tier fun t' _ => he.stops t'
  have hchain := yields_chain_binary hleft hd hright (he.stops o.tier)
  exact yields_statement_of_chain (Nat.lt_of_succ_lt hd) hn (yields_chain_or hchain he)

theorem yields_statement_assign {name : String} (hd : d < maxDepth) (hr : ¬reservedWords.contains name)
    (h : Yields statement ⟨tokens, d + 1⟩ e ⟨more, d + 1⟩) :
    Yields statement ⟨.ident name :: .symbol .assign :: tokens, d⟩ (.assign name e) ⟨more, d⟩ := by
  refine yields_statement_of_assignment hd (Yields.succ ?_)
  simp only [assignment]
  refine yields_rest ?_
  simp only [if_neg hr]
  exact yields_resume (h.bind yields_pure)

end Levels

section Primary

variable {tokens more : List Token} {token : Token} {d : Nat} {e test : Expr} {es : List Expr} {word : String}
  {o : UnOp} {c : Cursor}

theorem yields_unary_operator (ho : token.unary? = some o) (hd : d < maxDepth)
    (h : Yields unary ⟨tokens, d + 1⟩ e ⟨more, d + 1⟩) : Yields unary ⟨token :: tokens, d⟩ (.unary o e) ⟨more, d⟩ := by
  refine Yields.succ ?_
  simp only [unary]
  refine yields_rest ?_
  simp only [ho]
  exact yields_resume ((yields_nested (c := ⟨tokens, d⟩) hd h rfl).bind yields_pure)

theorem yields_unary_of_primary (hu : token.unary? = none) (h : Yields primary ⟨token :: tokens, d⟩ e c) :
    Yields unary ⟨token :: tokens, d⟩ e c := by
  refine Yields.succ ?_
  simp only [unary]
  refine yields_rest ?_
  simp only [hu]
  exact h

theorem yields_unary_int (k : Int64) : Yields unary ⟨.int k :: more, d⟩ (.lit (.int k)) ⟨more, d⟩ := by
  refine yields_unary_of_primary rfl (Yields.succ ?_)
  exact yields_rest (yields_resume yields_pure)

theorem yields_unary_round (h : Yields statement ⟨tokens, d⟩ e ⟨.symbol .closeRound :: more, d⟩) :
    Yields unary ⟨.symbol .openRound :: tokens, d⟩ e ⟨more, d⟩ := by
  refine yields_unary_of_primary rfl (Yields.succ ?_)
  exact yields_rest (yields_resume (h.bind (yields_expect rfl)))

theorem yields_unary_array (h : Yields (fun n => items n []) ⟨tokens, d⟩ es ⟨.symbol .closeSquare :: more, d⟩) :
    Yields unary ⟨.symbol .openSquare :: tokens, d⟩ (.array es) ⟨more, d⟩ := by
  refine yields_unary_of_primary rfl (Yields.succ ?_)
  exact yields_rest (yields_resume (h.bind (yields_expect rfl)))

theorem yields_unary_word (h : Yields (named word) ⟨tokens, d⟩ e c) : Yields unary ⟨.ident word :: tokens, d⟩ e c := by
  refine yields_unary_of_primary rfl (Yields.succ ?_)
  exact yields_rest (yields_resume h)

theorem yields_unary_true : Yields unary ⟨.ident "true" :: more, d⟩ (.lit (.bool true)) ⟨more, d⟩ :=
  yields_unary_word (Yields.succ yields_pure)

theorem yields_unary_false : Yields unary ⟨.ident "false" :: more, d⟩ (.lit (.bool false)) ⟨more, d⟩ :=
  yields_unary_word (Yields.succ yields_pure)

theorem yields_unary_nil : Yields unary ⟨.ident "nil" :: more, d⟩ (.lit .nil) ⟨more, d⟩ :=
  yields_unary_word (Yields.succ yields_pure)

theorem yields_unary_if {after : List Token} (h : Yields statement ⟨tokens, d⟩ test ⟨after, d⟩)
    (h' : Yields (fun n => arms false n test []) ⟨after, d⟩ e c) : Yields unary ⟨.ident "if" :: tokens, d⟩ e c :=
  yields_unary_word (Yields.succ (h.bind h'))

theorem yields_unary_block (h : Yields (fun n => body ["end"] n []) ⟨tokens, d⟩ es ⟨.ident "end" :: more, d⟩) :
    Yields unary ⟨.ident "begin" :: tokens, d⟩ (.block es) ⟨more, d⟩ :=
  yields_unary_word (Yields.succ (h.bind (yields_expect rfl)))

/-- **A word that is not reserved** is a variable. -/
theorem yields_unary_var (h : ¬reservedWords.contains word) :
    Yields unary ⟨.ident word :: more, d⟩ (.var word) ⟨more, d⟩ := by
  have hne (other : String) (ho : other ∈ reservedWords) : word ≠ other := by
    rintro rfl
    exact h (List.contains_iff_mem.2 ho)
  -- The words that are not supported are reserved as well, so none of the rules for words applies.
  have hunsupported : ¬unsupportedWords.contains word := fun hu => by
    have hsub : ∀ other ∈ unsupportedWords, other ∈ reservedWords := by decide
    exact h (List.contains_iff_mem.2 (hsub word (List.contains_iff_mem.1 hu)))
  refine yields_unary_word (Yields.succ ?_)
  simp only [named, if_neg (hne "true" (by decide)), if_neg (hne "false" (by decide)), if_neg (hne "nil" (by decide)),
    if_neg (hne "if" (by decide)), if_neg (hne "unless" (by decide)), if_neg (hne "begin" (by decide)),
    if_neg hunsupported, if_neg h]
  exact yields_pure

end Primary

/-- **Statements end here**: the tokens are at their end, or at one of the words. -/
def Closes (stop : List String) (tokens : List Token) : Prop := (tokens.isEmpty || atWord stop tokens) = true

section Sequences

variable {tokens more after : List Token} {token : Token} {d : Nat} {e test next : Expr} {es found inner : List Expr}
  {arms : List (Expr × List Expr)} {otherwise : Option (List Expr)} {stop : List String} {c : Cursor}

theorem yields_items_done : Yields (fun n => items n found) ⟨.symbol .closeSquare :: more, d⟩ found.reverse
    ⟨.symbol .closeSquare :: more, d⟩ := Yields.succ (yields_rest yields_pure)

theorem yields_items_last (hne : tokens.head? ≠ some (.symbol .closeSquare))
    (h : Yields statement ⟨tokens, d⟩ e ⟨.symbol .closeSquare :: more, d⟩) :
    Yields (fun n => items n found) ⟨tokens, d⟩ (e :: found).reverse ⟨.symbol .closeSquare :: more, d⟩ := by
  refine Yields.succ ?_
  simp only [items]
  refine yields_rest ?_
  simp only [if_neg hne]
  refine h.bind (yields_accept_not ?_ yields_pure)
  rintro _ ⟨⟩
  nofun

theorem yields_items_comma (hne : tokens.head? ≠ some (.symbol .closeSquare))
    (h : Yields statement ⟨tokens, d⟩ e ⟨.symbol .comma :: more, d⟩)
    (h' : Yields (fun n => items n (e :: found)) ⟨more, d⟩ es c) :
    Yields (fun n => items n found) ⟨tokens, d⟩ es c := by
  refine Yields.succ ?_
  simp only [items]
  refine yields_rest ?_
  simp only [if_neg hne]
  exact h.bind (yields_accept rfl h')

theorem yields_body_done (hskip : tokens.dropWhile (· = .separator) = more) (hc : Closes stop more) :
    Yields (fun n => body stop n found) ⟨tokens, d⟩ found.reverse ⟨more, d⟩ := by
  refine Yields.succ ?_
  simp only [body]
  refine yields_skip (yields_rest ?_)
  simp only [hskip]
  rw [Closes] at hc
  simp only [if_pos hc]
  exact yields_pure

theorem yields_body_next (hskip : tokens.dropWhile (· = .separator) = more) (hc : ¬Closes stop more)
    (h : Yields statement ⟨more, d⟩ e ⟨after, d⟩) (ha : Closes stop after ∨ ∃ others, after = .separator :: others)
    (h' : Yields (fun n => body stop n (e :: found)) ⟨after, d⟩ es c) :
    Yields (fun n => body stop n found) ⟨tokens, d⟩ es c := by
  refine Yields.succ ?_
  simp only [body]
  refine yields_skip (yields_rest ?_)
  simp only [hskip]
  rw [Closes] at hc
  simp only [if_neg hc]
  refine h.bind (yields_rest ?_)
  cases after with
  | nil => exact h'
  | cons token others =>
    have hgo : (decide (token = .separator) || atWord stop (token :: others)) = true := by
      rcases ha with hclose | ⟨_, hsep⟩
      · rw [Closes, List.isEmpty_cons, Bool.false_or] at hclose
        rw [hclose, Bool.or_true]
      · cases hsep
        rfl
    simp only [if_pos hgo]
    exact h'

theorem yields_alternative_none (h : ∀ t ∈ more.head?, t ≠ .ident "else") :
    Yields alternative ⟨more, d⟩ none ⟨more, d⟩ :=
  Yields.succ (yields_accept_not h yields_pure)

theorem yields_alternative_some (h : Yields (fun n => body ["end"] n []) ⟨tokens, d⟩ es c) :
    Yields alternative ⟨.ident "else" :: tokens, d⟩ (some es) c :=
  Yields.succ (yields_accept rfl (h.bind yields_pure))

theorem yields_arms_last (ht : ∀ t ∈ tokens.head?, t ≠ .ident "then")
    (hb : Yields (fun n => body ["elsif", "else", "end"] n []) ⟨tokens, d⟩ inner ⟨more, d⟩)
    (hm : ∀ t ∈ more.head?, t ≠ .ident "elsif")
    (ho : Yields alternative ⟨more, d⟩ otherwise ⟨.ident "end" :: after, d⟩) :
    Yields (fun n => Calculator.arms false n test arms) ⟨tokens, d⟩ (.choice ((test, inner) :: arms).reverse otherwise)
      ⟨after, d⟩ :=
  Yields.succ (yields_accept_not ht (hb.bind (yields_accept_not hm (ho.bind (yields_expect rfl)))))

theorem yields_arms_next (ht : ∀ t ∈ tokens.head?, t ≠ .ident "then")
    (hb : Yields (fun n => body ["elsif", "else", "end"] n []) ⟨tokens, d⟩ inner ⟨.ident "elsif" :: more, d⟩)
    (hn : Yields statement ⟨more, d⟩ next ⟨after, d⟩)
    (ha : Yields (fun n => Calculator.arms false n next ((test, inner) :: arms)) ⟨after, d⟩ e c) :
    Yields (fun n => Calculator.arms false n test arms) ⟨tokens, d⟩ e c :=
  Yields.succ (yields_accept_not ht (hb.bind (yields_accept rfl (hn.bind ha))))

end Sequences

end LineShell.Calculator
