import LineShell.Proofs.Calculator.Rendering
/-!
# RoundTrip — renderings are read back

A list of well-formed trees is the program of its rendering, if there is room for the trees (`image_parse`).  In a
rendering every tree nests its parts two levels deeper at most, so half the nesting limit is room for its height.
-/
namespace LineShell.Calculator

open Production

/-- **A tree that is read back at a depth**, where nothing follows that could go on. -/
structure Expr.ReadsAt (d : Nat) (e : Expr) : Prop where
  first : ∃ token after, e.tokens = token :: after ∧ token.isFirst = true
  yields : ∀ more, Ends more → Yields statement ⟨e.tokens ++ more, d⟩ e ⟨more, d⟩

section Heads

variable {token : Token} {more tokens : List Token} {stop : List String} {d : Nat} {e : Expr}

theorem ne_of_isFirst {other : Token} (h : token.isFirst = true) (ho : other.isFirst = false) : token ≠ other := by
  rintro rfl
  rw [h] at ho
  cases ho

theorem not_closes_of_isFirst (hs : stop ⊆ ["elsif", "else", "end"]) (h : token.isFirst = true) :
    ¬Closes stop (token :: more) := by
  intro hc
  match token, h with
  | .ident name, h =>
    have hmem : name ∈ stop := List.contains_iff_mem.1 hc
    rw [Token.isFirst, List.contains_iff_mem.2 (hs hmem)] at h
    cases h
  | .int _, _ | .symbol _, _ => cases hc

/-- **Where statements end**, no expression goes on. -/
theorem Closes.ends (h : Closes stop tokens) : Ends tokens := by
  cases tokens with
  | nil => nofun
  | cons token more =>
    match token, h with
    | .ident _, _ => exact ends_cons ⟨nofun, nofun⟩
    | .int _, h | .symbol _, h | .separator, h => cases h

theorem Closes.head_ne_separator (h : Closes stop tokens) : ∀ t ∈ tokens.head?, t ≠ .separator := by
  rintro t ht rfl
  cases tokens with
  | nil => cases ht
  | cons token more =>
    cases ht
    cases h

theorem noAssignment_cons (h : ∀ t ∈ more.head?, t ≠ .symbol .assign) : NoAssignment (token :: more) := by
  rintro name after heq
  cases heq
  exact h _ rfl rfl

theorem Expr.ReadsAt.head (h : e.ReadsAt d) : ∀ t ∈ (e.tokens ++ more).head?, t.isFirst = true := by
  obtain ⟨token, after, htokens, hfirst⟩ := h.first
  rw [htokens]
  rintro t ⟨⟩
  exact hfirst

theorem Expr.ReadsAt.noAssignment (h : e.ReadsAt d) : NoAssignment (token :: (e.tokens ++ more)) :=
  noAssignment_cons fun t ht => ne_of_isFirst (h.head t ht) rfl

end Heads

section Lists

variable {d : Nat} {es found : List Expr} {more : List Token} {stop : List String}

/-- **Rendered items are read back** up to the closing bracket. -/
theorem yields_items : ∀ {es found : List Expr}, (∀ e ∈ es, e.ReadsAt d) →
    Yields (fun n => items n found) ⟨tokensBetween (.symbol .comma) es ++ .symbol .closeSquare :: more, d⟩
      (found.reverse ++ es) ⟨.symbol .closeSquare :: more, d⟩
  | [], found, _ => by
    rw [List.append_nil]
    exact yields_items_done
  | [e], found, h => by
    have he := h e List.mem_cons_self
    have hread := he.yields (.symbol .closeSquare :: more) (ends_cons ⟨nofun, nofun⟩)
    have hne : (e.tokens ++ .symbol .closeSquare :: more).head? ≠ some (.symbol .closeSquare) :=
      fun heq => ne_of_isFirst (he.head _ heq) rfl rfl
    rw [← List.reverse_cons]
    exact yields_items_last hne hread
  | e :: next :: rest, found, h => by
    obtain ⟨he, hrest⟩ := List.forall_mem_cons.1 h
    have htail : Yields (fun n => items n (e :: found)) _ _ _ := yields_items hrest
    have hread := he.yields (.symbol .comma :: (tokensBetween (.symbol .comma) (next :: rest) ++
      .symbol .closeSquare :: more)) (ends_cons ⟨nofun, nofun⟩)
    rw [tokensBetween, List.append_assoc, List.cons_append]
    rw [List.reverse_cons, List.append_assoc, List.singleton_append] at htail
    exact yields_items_comma (fun heq => ne_of_isFirst (he.head _ heq) rfl rfl) hread htail

theorem dropWhile_lead {lead : List Token} (hl : ∀ t ∈ lead, t = .separator)
    (hm : ∀ t ∈ more.head?, t ≠ .separator) : (lead ++ more).dropWhile (· = .separator) = more := by
  rw [List.dropWhile_append_of_pos fun t ht => decide_eq_true (hl t ht)]
  cases more with
  | nil => rfl
  | cons t more => exact List.dropWhile_cons_of_neg fun h => hm t rfl (of_decide_eq_true h)

/-- **Rendered statements are read back**, whatever separators lead them, up to where statements end. -/
theorem yields_body (hs : stop ⊆ ["elsif", "else", "end"]) (hm : Closes stop more) : ∀ (lead : List Token)
    {es found : List Expr}, (∀ t ∈ lead, t = .separator) → (∀ e ∈ es, e.ReadsAt d) →
    Yields (fun n => body stop n found) ⟨lead ++ (tokensBetween .separator es ++ more), d⟩ (found.reverse ++ es)
      ⟨more, d⟩
  | lead, [], found, hl, _ => by
    rw [List.append_nil]
    exact yields_body_done (dropWhile_lead hl hm.head_ne_separator) hm
  | lead, e :: es, found, hl, h => by
    obtain ⟨he, hrest⟩ := List.forall_mem_cons.1 h
    obtain ⟨between, hb, htokens⟩ := exists_tokensBetween_cons .separator e es
    rw [htokens, List.append_assoc, List.append_assoc]
    -- Behind the statement comes the end of the body, or the separator that leads the others.
    generalize hafter : between ++ (tokensBetween .separator es ++ more) = after
    have hgoes : Closes stop after ∨ ∃ others, after = .separator :: others := by
      rcases hb with ⟨rfl, rfl⟩ | rfl
      · exact .inl (hafter ▸ hm)
      · exact .inr ⟨_, hafter.symm⟩
    have hends : Ends after := by
      rcases hgoes with hclose | ⟨others, rfl⟩
      · exact hclose.ends
      · exact ends_cons ⟨nofun, nofun⟩
    have hclose : ¬Closes stop (e.tokens ++ after) := by
      obtain ⟨token, others, heq, hfirst⟩ := he.first
      rw [heq]
      exact not_closes_of_isFirst hs hfirst
    have htail : Yields (fun n => body stop n (e :: found)) ⟨after, d⟩ ((e :: found).reverse ++ es) ⟨more, d⟩ := by
      rw [← hafter]
      refine yields_body hs hm between (fun t ht => ?_) hrest
      rcases hb with ⟨rfl, -⟩ | rfl
      · cases ht
      · exact List.mem_singleton.1 ht
    rw [List.reverse_cons, List.append_assoc, List.singleton_append] at htail
    have hne : ∀ t ∈ (e.tokens ++ after).head?, t ≠ .separator := fun t ht => ne_of_isFirst (he.head t ht) rfl
    exact yields_body_next (dropWhile_lead hl hne) hclose (he.yields after hends) hgoes htail

theorem closes_arms (arms : List (Expr × List Expr)) (otherwise : Option (List Expr)) :
    Closes ["elsif", "else", "end"]
      (armTokens "elsif" arms ++ (alternativeTokens otherwise ++ .ident "end" :: more)) := by
  match arms, otherwise with
  | [], none | [], some _ | _ :: _, _ => rfl

theorem yields_alternative {otherwise : Option (List Expr)} (h : ∀ inner ∈ otherwise, ∀ e ∈ inner, e.ReadsAt d) :
    Yields alternative ⟨alternativeTokens otherwise ++ .ident "end" :: more, d⟩ otherwise
      ⟨.ident "end" :: more, d⟩ := by
  cases otherwise with
  | none =>
    refine yields_alternative_none ?_
    rintro _ ⟨⟩
    decide
  | some inner =>
    have hclose : Closes ["end"] (.ident "end" :: more) := rfl
    exact yields_alternative_some (yields_body (by decide) hclose [] (List.forall_mem_nil _) (h inner rfl))

theorem yields_arm_body (arms : List (Expr × List Expr)) (otherwise : Option (List Expr)) (more : List Token)
    {inner : List Expr} (hi : ∀ e ∈ inner, e.ReadsAt d) :
    Yields (fun n => body ["elsif", "else", "end"] n [])
      ⟨.separator :: (tokensBetween .separator inner ++ (armTokens "elsif" arms ++
        (alternativeTokens otherwise ++ .ident "end" :: more))), d⟩
      inner ⟨armTokens "elsif" arms ++ (alternativeTokens otherwise ++ .ident "end" :: more), d⟩ :=
  yields_body (by decide) (closes_arms arms otherwise) [.separator] (fun _ => List.mem_singleton.1) hi

/-- **Rendered arms are read back**, from the separator behind the condition of the first one on. -/
theorem yields_arms {otherwise : Option (List Expr)} (ho : ∀ inner ∈ otherwise, ∀ e ∈ inner, e.ReadsAt d)
    {arms found : List (Expr × List Expr)} {test : Expr} {inner : List Expr} (hi : ∀ e ∈ inner, e.ReadsAt d)
    (ha : ∀ arm ∈ arms, arm.1.ReadsAt d ∧ ∀ e ∈ arm.2, e.ReadsAt d) :
    Yields (fun n => Calculator.arms false n test found)
      ⟨.separator :: (tokensBetween .separator inner ++ (armTokens "elsif" arms ++
        (alternativeTokens otherwise ++ .ident "end" :: more))), d⟩
      (.choice (found.reverse ++ (test, inner) :: arms) otherwise) ⟨more, d⟩ := by
  have hthen {after : List Token} : ∀ t ∈ (Token.separator :: after).head?, t ≠ .ident "then" := by
    rintro _ ⟨⟩
    decide
  -- By the arms that follow: each takes over the condition and the body of the one before it.
  induction arms generalizing test inner found with
  | nil =>
    have helsif : ∀ t ∈ (alternativeTokens otherwise ++ .ident "end" :: more).head?, t ≠ .ident "elsif" := by
      cases otherwise with
      | none | some _ =>
        rintro _ ⟨⟩
        decide
    rw [← List.reverse_cons]
    exact yields_arms_last hthen (yields_arm_body [] otherwise more hi) helsif (yields_alternative ho)
  | cons arm arms ih =>
    obtain ⟨next, body⟩ := arm
    obtain ⟨⟨hnext, hb⟩, harms⟩ := List.forall_mem_cons.1 ha
    have hbody := yields_arm_body ((next, body) :: arms) otherwise more hi
    simp only [armTokens, List.cons_append, List.append_assoc] at hbody ⊢
    rw [List.append_cons found.reverse, ← List.reverse_cons]
    exact yields_arms_next hthen hbody (hnext.yields _ (ends_cons ⟨nofun, nofun⟩)) (ih hb harms)

end Lists

/-! ## Room for a tree -/

/-- **There is room for a tree at a depth**, its parts being two levels deeper each. -/
def Expr.Fits (d : Nat) (e : Expr) : Prop := d + 2 * e.height ≤ maxDepth + 1

section Fits

variable {d : Nat} {e inner : Expr} {arms : List (Expr × List Expr)} {otherwise : Option (List Expr)}

theorem Expr.Fits.lt (h : e.Fits d) : d < maxDepth := by
  have hpos : 0 < e.height := (Expr.Path.here e).length_lt
  unfold Expr.Fits at h
  omega

theorem Expr.Fits.part (h : e.Fits d) (hlt : inner.height < e.height) : inner.Fits (d + 2) := by
  unfold Expr.Fits at h ⊢
  omega

theorem Expr.Fits.above (h : e.Fits (d + 1)) : e.Fits d := by
  unfold Expr.Fits at h ⊢
  omega

theorem height_lt_of_heightAll {es : List Expr} {k : Nat} (h : heightAll es < k) : ∀ e ∈ es, e.height < k :=
  fun e he => Nat.lt_of_le_of_lt (heightAll_le_iff.1 (Nat.le_refl _) e he) h

theorem heightArms_lt : heightArms arms < (Expr.choice arms otherwise).height := by
  cases otherwise with
  | none => exact Nat.lt_succ_self _
  | some body => exact Nat.lt_succ_of_le (Nat.le_max_left _ _)

theorem height_lt_of_arm (otherwise : Option (List Expr)) :
    ∀ arm ∈ arms, arm.1.height < (Expr.choice arms otherwise).height ∧
      ∀ e ∈ arm.2, e.height < (Expr.choice arms otherwise).height := by
  intro arm ha
  obtain ⟨htest, hbody⟩ := heightArms_le_iff.1 (Nat.le_refl (heightArms arms)) arm ha
  exact ⟨Nat.lt_of_le_of_lt htest heightArms_lt, fun e he => Nat.lt_of_le_of_lt (hbody e he) heightArms_lt⟩

theorem height_lt_of_otherwise :
    ∀ body ∈ otherwise, ∀ e ∈ body, e.height < (Expr.choice arms otherwise).height := by
  rintro body ⟨⟩
  exact height_lt_of_heightAll (Nat.lt_succ_of_le (Nat.le_max_right _ _))

end Fits

/-! ## One constructor after the other -/

section Constructors

variable {d : Nat} {more : List Token} {e : Expr}

theorem yields_unary_rounded (h : e.ReadsAt d) (more : List Token) :
    Yields unary ⟨round e.tokens ++ more, d⟩ e ⟨more, d⟩ := by
  rw [round, List.cons_append, List.append_assoc]
  exact yields_unary_round (h.yields _ (ends_cons ⟨nofun, nofun⟩))

/-- **A tree of one token** is read back wherever a statement can be. -/
theorem readsAt_of_token {token : Token} (hw : e.WellFormed) (ht : e.tokens = [token]) (hd : d < maxDepth)
    (h : ∀ more, Yields unary ⟨token :: more, d + 1⟩ e ⟨more, d + 1⟩) : e.ReadsAt d := by
  refine ⟨hw.exists_first, fun more hm => ?_⟩
  rw [ht]
  exact yields_statement_of_unary hd (noAssignment_cons fun t ht => (hm t ht).1) (h more) hm

/-- **A tree in brackets or between words** is read back where its parts are, a level deeper. -/
theorem readsAt_of_unary (hw : e.WellFormed) (hd : d < maxDepth) (hn : ∀ more, NoAssignment (e.tokens ++ more))
    (h : ∀ more, Yields unary ⟨e.tokens ++ more, d + 1⟩ e ⟨more, d + 1⟩) : e.ReadsAt d :=
  ⟨hw.exists_first, fun more hm => yields_statement_of_unary hd (hn more) (h more) hm⟩

theorem yields_unary_choice {arms : List (Expr × List Expr)} {otherwise : Option (List Expr)} (hne : arms ≠ [])
    (ha : ∀ arm ∈ arms, arm.1.ReadsAt d ∧ ∀ e ∈ arm.2, e.ReadsAt d)
    (ho : ∀ body ∈ otherwise, ∀ e ∈ body, e.ReadsAt d) :
    Yields unary ⟨(Expr.choice arms otherwise).tokens ++ more, d⟩ (.choice arms otherwise) ⟨more, d⟩ := by
  obtain ⟨⟨test, inner⟩, arms, rfl⟩ := List.exists_cons_of_ne_nil hne
  obtain ⟨⟨htest, hinner⟩, harms⟩ := List.forall_mem_cons.1 ha
  simp only [Expr.tokens, armTokens, List.cons_append, List.append_assoc, List.nil_append]
  exact yields_unary_if (htest.yields _ (ends_cons ⟨nofun, nofun⟩)) (yields_arms ho hinner harms)

theorem yields_unary_begin {inner : List Expr} (h : ∀ e ∈ inner, e.ReadsAt d) :
    Yields unary ⟨(Expr.block inner).tokens ++ more, d⟩ (.block inner) ⟨more, d⟩ := by
  have hclose : Closes ["end"] (.ident "end" :: more) := rfl
  simp only [Expr.tokens, List.cons_append, List.append_assoc, List.nil_append]
  exact yields_unary_block (yields_body (by decide) hclose [] (List.forall_mem_nil _) h)

theorem yields_unary_items {inner : List Expr} (h : ∀ e ∈ inner, e.ReadsAt d) :
    Yields unary ⟨(Expr.array inner).tokens ++ more, d⟩ (.array inner) ⟨more, d⟩ := by
  simp only [Expr.tokens, List.cons_append, List.append_assoc, List.nil_append]
  exact yields_unary_array (yields_items h)

end Constructors

/-- **A well-formed tree is read back** wherever there is room for it. -/
theorem Expr.WellFormed.readsAt {e : Expr} (h : e.WellFormed) : ∀ {d : Nat}, e.Fits d → e.ReadsAt d := by
  -- By the tree: a part in brackets starts two levels deeper, one for the tree's own statement and one for its operator
  -- or its brackets; a first operand, items and what stands between words start one level deeper.
  induction h with
  | nil => exact fun hd => readsAt_of_token .nil rfl hd.lt fun _ => yields_unary_nil
  | bool b =>
    cases b with
    | false => exact fun hd => readsAt_of_token (.bool _) rfl hd.lt fun _ => yields_unary_false
    | true => exact fun hd => readsAt_of_token (.bool _) rfl hd.lt fun _ => yields_unary_true
  | int hn => exact fun hd => readsAt_of_token (.int hn) rfl hd.lt fun _ => yields_unary_int _
  | var hn => exact fun hd => readsAt_of_token (.var hn) rfl hd.lt fun _ => yields_unary_var hn.2
  | @assign name value hn hv ih =>
    intro d hd
    have hvalue : value.Fits (d + 2) := hd.part (Nat.lt_succ_self _)
    refine ⟨(Expr.WellFormed.assign hn hv).exists_first, fun more hm => yields_statement_assign hd.lt hn.2 ?_⟩
    exact yields_statement_of_unary hvalue.above.lt (fun _ _ => nofun) (yields_unary_rounded (ih hvalue) more) hm
  | @array items hw ih =>
    intro d hd
    have hitem : ∀ e ∈ items, e.ReadsAt (d + 1) := fun e he =>
      ih e he (hd.part (height_lt_of_heightAll (Nat.lt_succ_self _) e he)).above
    exact readsAt_of_unary (.array hw) hd.lt (fun _ _ _ => nofun) fun _ => yields_unary_items hitem
  | @unary op operand hw ih =>
    intro d hd
    have hoperand : operand.Fits (d + 2) := hd.part (Nat.lt_succ_self _)
    have hop : op.token.unary? = some op := by cases op <;> rfl
    refine readsAt_of_unary (.unary hw) hd.lt (fun _ => ?_) fun _ => ?_
    · exact noAssignment_cons (by rintro _ ⟨⟩; decide)
    · exact yields_unary_operator hop hoperand.above.lt (yields_unary_rounded (ih hoperand) _)
  | @binary op left right hl hr ihl ihr =>
    intro d hd
    have hleft : left.Fits (d + 1) := (hd.part (Nat.lt_succ_of_le (Nat.le_max_left _ _))).above
    have hright : right.Fits (d + 2) := hd.part (Nat.lt_succ_of_le (Nat.le_max_right _ _))
    refine ⟨(Expr.WellFormed.binary hl hr).exists_first, fun more hm => ?_⟩
    simp only [Expr.tokens, List.append_assoc, List.cons_append]
    have hfirst := yields_unary_rounded (ihl hleft)
    have hsecond := yields_unary_rounded (ihr hright)
    exact yields_statement_of_operands hleft.lt (fun _ _ => nofun) (hfirst _) (hsecond more) hm
  | @choice arms otherwise hne ht hb ho iht ihb iho =>
    intro d hd
    have harms : ∀ arm ∈ arms, arm.1.ReadsAt (d + 1) ∧ ∀ e ∈ arm.2, e.ReadsAt (d + 1) := fun arm ha => by
      obtain ⟨htest, hbody⟩ := height_lt_of_arm otherwise arm ha
      exact ⟨iht arm ha (hd.part htest).above, fun e he => ihb arm ha e he (hd.part (hbody e he)).above⟩
    have hother : ∀ body ∈ otherwise, ∀ e ∈ body, e.ReadsAt (d + 1) := fun body hbody e he =>
      iho body hbody e he (hd.part (height_lt_of_otherwise body hbody e he)).above
    refine readsAt_of_unary (.choice hne ht hb ho) hd.lt (fun more => ?_) fun _ => yields_unary_choice hne harms hother
    obtain ⟨⟨test, inner⟩, rest, rfl⟩ := List.exists_cons_of_ne_nil hne
    simp only [Expr.tokens, armTokens, List.cons_append, List.append_assoc]
    exact (harms _ List.mem_cons_self).1.noAssignment
  | @block inner hw ih =>
    intro d hd
    have hinner : ∀ e ∈ inner, e.ReadsAt (d + 1) := fun e he =>
      ih e he (hd.part (height_lt_of_heightAll (Nat.lt_succ_self _) e he)).above
    refine readsAt_of_unary (.block hw) hd.lt (fun more => ?_) fun _ => yields_unary_begin hinner
    cases inner with
    | nil => exact noAssignment_cons (by rintro _ ⟨⟩; decide)
    | cons e es =>
      obtain ⟨lead, -, htokens⟩ := exists_tokensBetween_cons .separator e es
      simp only [Expr.tokens, htokens, List.cons_append, List.append_assoc]
      exact (hinner e List.mem_cons_self).noAssignment

/-- **Well-formed trees with room for them are the program of their tokens.** -/
theorem parseTokens_tokensBetween {statements : List Expr} (h : ∀ e ∈ statements, e.WellFormed ∧ e.Fits 0) :
    parseTokens (tokensBetween .separator statements) = .ok statements := by
  have hread : ∀ e ∈ statements, e.ReadsAt 0 := fun e he => (h e he).1.readsAt (h e he).2
  have hclose : Closes [] [] := rfl
  have hbody : Yields (fun n => body [] n []) ⟨tokensBetween .separator statements ++ [], 0⟩ statements ⟨[], 0⟩ :=
    yields_body (List.nil_subset _) hclose [] (List.forall_mem_nil _) hread
  rw [List.append_nil] at hbody
  exact parseTokens_of_yields hbody rfl

theorem parse_render {statements : List Expr} (h : ∀ e ∈ statements, e.WellFormed ∧ e.Fits 0) :
    parse (render statements) = .ok statements :=
  parse_eq_ok_iff.2 ⟨_, scan_render fun e he => (h e he).1, parseTokens_tokensBetween h⟩

/-- **Programs are lists of well-formed trees, and half the nesting limit is room for one.** Every tree of a program is
well formed, and well-formed trees of a height up to half the limit are the program of their rendering. -/
theorem image_parse :
    (∀ text statements, parse text = .ok statements → ∀ e ∈ statements, e.WellFormed) ∧
      ∀ statements : List Expr, (∀ e ∈ statements, e.WellFormed ∧ e.height ≤ 64) →
        parse (render statements) = .ok statements := by
  refine ⟨fun text statements h => wellFormed_of_parse h, fun statements h => ?_⟩
  have hfits : ∀ e ∈ statements, e.WellFormed ∧ e.Fits 0 := fun e he => by
    obtain ⟨hw, hheight⟩ := h e he
    refine ⟨hw, ?_⟩
    -- A program starts at depth 0, and a tree takes up twice its height.
    unfold Expr.Fits maxDepth
    omega
  exact parse_eq_ok_iff.2 ⟨_, scan_render fun e he => (h e he).1, parseTokens_tokensBetween hfits⟩

/-- **A condition that assigns a negative number, and an empty body for when it does not hold.** -/
theorem image_parse_choice :
    (∀ e ∈ [Expr.choice [(.assign "x" (.unary .neg (.lit (.int 1))), [])] (some [])], e.WellFormed) ∧
      parse "if x = ( - ( 1 ) ) ; else end" =
        .ok [.choice [(.assign "x" (.unary .neg (.lit (.int 1))), [])] (some [])] := by
  have htest : (Expr.assign "x" (.unary .neg (.lit (.int 1)))).WellFormed :=
    .assign ⟨by decide +kernel, by decide⟩ (.unary (.int (by decide)))
  have hwell : (Expr.choice [(.assign "x" (.unary .neg (.lit (.int 1))), [])] (some [])).WellFormed := by
    refine .choice (List.cons_ne_nil _ _) (List.forall_mem_singleton.2 htest) ?_ ?_
    · exact List.forall_mem_singleton.2 (List.forall_mem_nil _)
    · rintro _ ⟨⟩
      exact List.forall_mem_nil _
  have hparse := image_parse.2 _ (List.forall_mem_singleton.2 ⟨hwell, by decide⟩)
  have htext : render [.choice [(.assign "x" (.unary .neg (.lit (.int 1))), [])] (some [])] =
      "if x = ( - ( 1 ) ) ; else end" := by decide +kernel
  rw [htext] at hparse
  exact ⟨image_parse.1 _ _ hparse, hparse⟩

end LineShell.Calculator
