import LineShell.Proofs.Calculator.Course
import LineShell.Proofs.Calculator.Depth
/-!
# Growth — how deep values get over texts run one after another

Every assignment may bind a value deeper than all that was bound before, by what its program text gains (`gain`).  What
is bound gets no deeper than these gains together (`noDeeper_course`).  The nesting limit is on one text and bounds no
sum of them, so values stay within it only as long as that sum does (`depth_le_maxDepth_iff`).
-/
namespace LineShell.Calculator

/-- **Bindings no deeper than so much**, each. -/
def NoDeeper (d : Nat) (b : Bindings) : Prop := ∀ name v, b.lookup name = some v → v.depth ≤ d

/-- **A computation that deepens the bindings**, from `d` to `d'` at most, also where it fails, and whose result is as
`Q` says. -/
def Deepens {α : Type} (d d' : Nat) (Q : α → Prop) (x : Evaluation α) : Prop :=
  ∀ b, NoDeeper d b → NoDeeper d' (outcome x b).2 ∧ ∀ a, (outcome x b).1 = .ok a → Q a

section Deepens

variable {α β : Type} {b : Bindings} {d d₁ d' : Nat} {P : β → Prop} {Q : α → Prop}

theorem NoDeeper.mono (h : NoDeeper d b) (hd : d ≤ d') : NoDeeper d' b :=
  fun name v hv => Nat.le_trans (h name v hv) hd

theorem noDeeper_write {name : String} {v : Value} (h : NoDeeper d b) (hv : v.depth ≤ d) :
    NoDeeper d (b.bind name v) := by
  intro other w hother
  rw [Bindings.lookup_bind] at hother
  split at hother
  · cases hother
    exact hv
  · exact h other w hother

theorem Deepens.anti {x : Evaluation α} (h : Deepens d₁ d' Q x) (hd : d ≤ d₁) : Deepens d d' Q x :=
  fun b hb => h b (hb.mono hd)

theorem deepens_pure {a : α} (hd : d ≤ d') (ha : Q a) : Deepens d d' Q (pure a) := by
  refine fun b hb => ⟨hb.mono hd, fun a' h => ?_⟩
  cases h
  exact ha

theorem deepens_bind {x : Evaluation β} {next : β → Evaluation α} (hx : Deepens d d₁ P x) (hd : d₁ ≤ d')
    (hnext : ∀ a, P a → Deepens d₁ d' Q (next a)) : Deepens d d' Q (x >>= next) := by
  intro b hb
  have hfirst := hx b hb
  obtain ⟨a, b', ho, h⟩ | ⟨f, b', ho, h⟩ := outcome_bind_cases x next b <;> rw [ho] at hfirst <;> rw [h]
  · exact hnext a (hfirst.2 a rfl) b' hfirst.1
  · exact ⟨hfirst.1.mono hd, nofun⟩

theorem deepens_valueOf {name : String} {k : Nat} (hd : d ≤ d') (hk : d ≤ k) :
    Deepens d d' (fun v => v.depth ≤ k) (valueOf name) := by
  intro b hb
  rw [outcome_valueOf]
  refine ⟨hb.mono hd, fun v hv => ?_⟩
  cases hl : b.lookup name <;> rw [hl] at hv <;> cases hv
  exact Nat.le_trans (hb name v hl) hk

theorem deepens_write {name : String} {v : Value} (hd : d ≤ d') (hv : v.depth ≤ d') :
    Deepens d d' (fun _ => True) (modify (·.bind name v) : Evaluation Unit) :=
  fun _ hb => ⟨noDeeper_write (hb.mono hd) hv, fun _ _ => trivial⟩

theorem deepens_settle {r : Except EvalFault Value} {Q : Value → Prop} (hd : d ≤ d') (hr : ∀ v, r = .ok v → Q v) :
    Deepens d d' Q (settle r) := by
  intro b hb
  rw [outcome_settle]
  exact ⟨hb.mono hd, hr⟩

end Deepens

/-! ## Evaluation

From bindings no deeper than `d`, evaluation leaves ones no deeper than `d'`, where there is room between the two for
what is gained, and gives a value no deeper than `k`, where there is room above `d'` for the literals around it. -/

mutual

/-- **What an expression binds is deeper by what it gains**, and so is its value, but for the literals around it. -/
theorem deepens_eval : ∀ (e : Expr) {d d' k : Nat}, e.WellFormed → 1 ≤ d → d + gain e.subtrees ≤ d' →
    d' + e.nesting ≤ k → Deepens d d' (fun v => v.depth ≤ k) e.eval
  | .lit v, d, d', k, hw, hd, hg, hn => by
    have hv : v.depth = 1 := by cases hw <;> rfl
    exact deepens_pure (by omega) (by omega)
  | .var name, d, d', k, _, _, hg, hn => deepens_valueOf (by omega) (by omega)
  | .assign name value, d, d', k, hw, hd, hg, hn => by
    cases hw with
    | assign _ hw =>
      simp only [Expr.subtrees, gain_cons, Expr.gain] at hg
      refine deepens_bind (deepens_eval value hw hd (Nat.le_refl _) (Nat.le_refl _)) (by omega) fun v hv => ?_
      have hwrite : Deepens (d + gain value.subtrees) d' (fun _ => True) (modify (·.bind name v) : Evaluation Unit) :=
        deepens_write (by omega) (by omega)
      exact deepens_bind hwrite (Nat.le_refl _) fun _ _ => deepens_pure (Nat.le_refl _) (by omega)
  | .array [], d, d', k, _, hd, hg, hn => by
    have heval : (Expr.array []).eval = pure (.array []) := rfl
    rw [heval]
    exact deepens_pure (by omega) (show 1 ≤ k by omega)
  | .array (item :: rest), d, d', k, hw, hd, hg, hn => by
    cases hw with
    | array hw =>
      simp only [Expr.subtrees, gain_cons, Expr.gain, Nat.zero_add, Expr.nesting] at hg hn
      -- The literal itself is the one level that its items do not have.
      obtain ⟨k, rfl⟩ : ∃ k', k = k' + 1 := Nat.exists_eq_succ_of_ne_zero (by omega)
      refine deepens_bind (deepens_evalItems (item :: rest) (k := k) hw hd hg ?_ nofun) (Nat.le_refl _) fun vs hvs => ?_
      · rw [nestingAll]
        omega
      · exact deepens_pure (Nat.le_refl _) (Value.depth_array_le_iff.2 hvs)
  | .unary op operand, d, d', k, hw, hd, hg, hn => by
    cases hw with
    | unary hw =>
      simp only [Expr.subtrees, gain_cons, Expr.gain, Nat.zero_add] at hg
      refine deepens_bind (deepens_eval operand hw hd hg (Nat.le_refl _)) (Nat.le_refl _) fun v _ => ?_
      refine deepens_settle (Nat.le_refl _) fun w hres => ?_
      rw [depth_of_unary hres]
      omega
  | .binary op left right, d, d', k, hw, hd, hg, hn => by
    cases hw with
    | binary hleft hright =>
      simp only [Expr.subtrees, gain_cons, gain_append, Expr.gain, Nat.zero_add, Expr.nesting] at hg hn
      have hl : Deepens d (d + gain left.subtrees) (fun v => v.depth ≤ k) left.eval :=
        deepens_eval left hleft hd (Nat.le_refl _) (by omega)
      have hr : Deepens (d + gain left.subtrees) d' (fun v => v.depth ≤ k) right.eval :=
        deepens_eval right hright (by omega) (by omega) (by omega)
      cases op with
      | and =>
        refine deepens_bind hl (by omega) fun l hlk => ?_
        split
        · exact hr
        · exact deepens_pure (by omega) hlk
      | or =>
        refine deepens_bind hl (by omega) fun l hlk => ?_
        split
        · exact deepens_pure (by omega) hlk
        · exact hr
      | _ =>
        refine deepens_bind hl (by omega) fun l hlk => deepens_bind hr (Nat.le_refl _) fun r hrk => ?_
        exact deepens_settle (Nat.le_refl _) fun v hres => depth_of_binary hres hlk hrk
  | .choice arms none, d, d', k, hw, hd, hg, hn => by
    cases hw with
    | choice _ htests hbodies _ =>
      simp only [Expr.subtrees, gain_cons, Expr.gain, Nat.zero_add, Expr.nesting] at hg hn
      refine deepens_evalArms arms (fun arm ha => ⟨htests arm ha, hbodies arm ha⟩) hd hg hn ?_
      exact deepens_pure (by omega) (show 1 ≤ k by omega)
  | .choice arms (some otherwise), d, d', k, hw, hd, hg, hn => by
    cases hw with
    | choice _ htests hbodies hother =>
      simp only [Expr.subtrees, gain_cons, gain_append, Expr.gain, Nat.zero_add, Expr.nesting] at hg hn
      refine deepens_evalArms arms (fun arm ha => ⟨htests arm ha, hbodies arm ha⟩) hd (by omega) (by omega) ?_
      exact deepens_evalBody otherwise (hother otherwise rfl) (by omega) (by omega) (show 1 ≤ k by omega) (by omega)
  | .block body, d, d', k, hw, hd, hg, hn => by
    cases hw with
    | block hw =>
      simp only [Expr.subtrees, gain_cons, Expr.gain, Nat.zero_add] at hg
      exact deepens_evalBody body hw hd hg (show 1 ≤ k by omega) hn

theorem deepens_evalItems : ∀ (items : List Expr) {known : List Value} {d d' k : Nat}, AllWellFormed items → 1 ≤ d →
    d + gain (subtreesAll items) ≤ d' → d' + nestingAll items ≤ k → (∀ v ∈ known, v.depth ≤ k) →
      Deepens d d' (fun vs => ∀ v ∈ vs, v.depth ≤ k) (evalItems items known)
  | [], known, d, d', k, _, _, hg, _, hk => deepens_pure (by omega) fun v hv => hk v (List.mem_reverse.1 hv)
  | item :: rest, known, d, d', k, hw, hd, hg, hn, hk => by
    obtain ⟨hitem, hrest⟩ := List.forall_mem_cons.1 hw
    simp only [subtreesAll, gain_append, nestingAll] at hg hn
    refine deepens_bind (deepens_eval item hitem hd (Nat.le_refl _) (Nat.le_refl _)) (by omega) fun v hv => ?_
    exact deepens_evalItems rest hrest (by omega) (by omega) (by omega) (List.forall_mem_cons.2 ⟨by omega, hk⟩)

theorem deepens_evalArms : ∀ (arms : List (Expr × List Expr)) {otherwise : Evaluation Value} {d d' k : Nat},
    (∀ arm ∈ arms, arm.1.WellFormed ∧ AllWellFormed arm.2) → 1 ≤ d → d + gain (subtreesArms arms) ≤ d' →
      d' + nestingArms arms ≤ k → Deepens (d + gain (subtreesArms arms)) d' (fun v => v.depth ≤ k) otherwise →
        Deepens d d' (fun v => v.depth ≤ k) (evalArms arms otherwise)
  | [], _, d, d', k, _, _, hg, _, ho => ho
  | (test, body) :: rest, otherwise, d, d', k, hw, hd, hg, hn, ho => by
    obtain ⟨⟨htest, hbody⟩, hrest⟩ := List.forall_mem_cons.1 hw
    simp only [subtreesArms, gain_append, nestingArms] at hg hn ho
    refine deepens_bind (deepens_eval test htest hd (Nat.le_refl _) (Nat.le_refl _)) (by omega) fun v _ => ?_
    -- Either the body is evaluated or the arms after it, and there is room for both.
    split
    · exact deepens_evalBody body hbody (by omega) (by omega) (show 1 ≤ k by omega) (by omega)
    · exact deepens_evalArms rest hrest (by omega) (by omega) (by omega) (ho.anti (by omega))

theorem deepens_evalBody : ∀ (body : List Expr) {last : Value} {d d' k : Nat}, AllWellFormed body → 1 ≤ d →
    d + gain (subtreesAll body) ≤ d' → last.depth ≤ k → d' + nestingAll body ≤ k →
      Deepens d d' (fun v => v.depth ≤ k) (evalBody body last)
  | [], last, d, d', k, _, _, hg, hl, _ => deepens_pure (by omega) hl
  | e :: rest, last, d, d', k, hw, hd, hg, hl, hn => by
    obtain ⟨he, hrest⟩ := List.forall_mem_cons.1 hw
    simp only [subtreesAll, gain_append, nestingAll] at hg hn
    refine deepens_bind (deepens_eval e he hd (Nat.le_refl _) (Nat.le_refl _)) (by omega) fun v hv => ?_
    exact deepens_evalBody rest hrest (by omega) (by omega) (by omega) (by omega)

end

/-! ## Texts one after another -/

/-- **The statements of the programs among texts**, in order. -/
def programs (texts : List String) : List Expr := texts.flatMap fun text => (parse text).toOption.getD []

/-- **How much deeper than a scalar** the assignments of the programs among texts can make a value. -/
def gained (texts : List String) : Nat := gain (subtreesAll (programs texts))

section Course

variable {d : Nat} {session : Session}

theorem subtreesAll_programs_cons (text : String) (texts : List String) : subtreesAll (programs (text :: texts)) =
    subtreesAll ((parse text).toOption.getD []) ++ subtreesAll (programs texts) := subtreesAll_append _ _

theorem gained_cons (text : String) (texts : List String) :
    gained (text :: texts) = gain (subtreesAll ((parse text).toOption.getD [])) + gained texts := by
  rw [gained, subtreesAll_programs_cons, gain_append, gained]

theorem noDeeper_run (text : String) (hd : 1 ≤ d) (h : NoDeeper d session.vars) :
    NoDeeper (d + gain (subtreesAll ((parse text).toOption.getD []))) (run text session).2.vars := by
  cases hp : parse text with
  | error f =>
    rw [run_of_fault hp]
    exact h
  | ok program =>
    rw [run_of_parse hp]
    exact (deepens_evalBody program (wellFormed_of_parse hp) hd (Nat.le_refl _)
      (show 1 ≤ d + gain (subtreesAll program) + nestingAll program by omega) (Nat.le_refl _) _ h).1

/-- **What is bound gets no deeper than the gains of all programs together.** -/
theorem noDeeper_course : ∀ (texts : List String) {d : Nat} {session : Session}, 1 ≤ d → NoDeeper d session.vars →
    NoDeeper (d + gained texts) (course texts session).vars
  | [], _, _, _, h => h
  | text :: texts, d, session, hd, h => by
    have hrest := noDeeper_course texts (Nat.le_add_right_of_le hd) (noDeeper_run text hd h)
    rw [gained_cons, ← Nat.add_assoc]
    exact hrest

/-- **No assignment of a program gains more than the nesting limit leaves.** -/
theorem gain_le_of_mem : ∀ texts : List String, ∀ e ∈ subtreesAll (programs texts), e.gain ≤ maxDepth - 2
  | text :: texts, e, he => by
    rw [subtreesAll_programs_cons, List.mem_append] at he
    rcases he with he | he
    · cases hp : parse text with
      | error f =>
        rw [hp] at he
        cases he
      | ok program =>
        rw [hp] at he
        exact gain_le_of_parse hp e he
    · exact gain_le_of_mem texts e he

end Course

/-! ## Depths without bound -/

/-- **A text that makes its name's value an item of itself.** -/
def wrapping : String := "x = ( [ x ] )"

theorem parse_wrapping : parse wrapping = .ok [.assign "x" (.array [.var "x"])] := by
  have hx : IsVariable "x" := ⟨by decide +kernel, by decide⟩
  have hwell : (Expr.assign "x" (.array [.var "x"])).WellFormed :=
    .assign hx (.array (List.forall_mem_singleton.2 (.var hx)))
  have hfits : (Expr.assign "x" (.array [.var "x"])).Fits 0 := by
    unfold Expr.Fits
    decide
  have hparse := parse_render (List.forall_mem_singleton.2 ⟨hwell, hfits⟩)
  have htext : render [.assign "x" (.array [.var "x"])] = wrapping := by decide +kernel
  rwa [htext] at hparse

theorem run_wrapping {session : Session} {v : Value} (h : session.vars.lookup "x" = some v) :
    (run wrapping session).2.vars = session.vars.bind "x" (.array [v]) := by
  have hitem : outcome (evalItems [.var "x"] []) session.vars = (.ok [v], session.vars) := by
    simp only [evalItems, Expr.eval, outcome_bind, outcome_valueOf, h, Option.elim_some, outcome_pure,
      List.reverse_singleton]
  rw [run_of_parse parse_wrapping]
  simp only [evalBody, Expr.eval, outcome_bind, hitem, outcome_pure, outcome_write]

theorem exists_depth_wrapping : ∀ (n : Nat) {session : Session} {v : Value}, session.vars.lookup "x" = some v →
    ∃ w, (course (List.replicate n wrapping) session).vars.lookup "x" = some w ∧ w.depth = v.depth + n
  | 0, _, v, h => ⟨v, h, rfl⟩
  | n + 1, session, v, h => by
    have hbound : (run wrapping session).2.vars.lookup "x" = some (.array [v]) := by
      rw [run_wrapping h, Bindings.lookup_bind, if_pos rfl]
    obtain ⟨w, hw, hd⟩ := exists_depth_wrapping n hbound
    have hv : (Value.array [v]).depth = v.depth + 1 := by rw [Value.depth, Value.deepest, Value.deepest, Nat.max_zero]
    exact ⟨w, hw, by omega⟩

theorem gained_wrapping (n : Nat) : gained (List.replicate n wrapping) = n := by
  induction n with
  | zero => rfl
  | succ n ih =>
    rw [List.replicate_succ, gained_cons, parse_wrapping, ih]
    exact Nat.add_comm 1 n

/-- **Whatever texts gain, some that gain as much** bind a value as deep as that. -/
theorem exists_depth_of_gained (n : Nat) : ∃ texts v, gained texts = n ∧
    (course texts (.start .empty)).vars.lookup "x" = some v ∧ v.depth = 1 + n := by
  have hstart : (run "x = 1" (.start .empty)).2.vars.lookup "x" = some (.int 1) := by decide +kernel
  have hnone : gain (subtreesAll ((parse "x = 1").toOption.getD [])) = 0 := by decide +kernel
  obtain ⟨v, hv, hd⟩ := exists_depth_wrapping n hstart
  refine ⟨"x = 1" :: List.replicate n wrapping, v, ?_, hv, hd⟩
  rw [gained_cons, hnone, gained_wrapping, Nat.zero_add]

/-- **Values stay within the nesting limit as long as texts gain less than it together**, and no longer.  Texts gain at
most one level for each array literal with items, and at most `maxDepth - 2` for each assignment, in the programs among
them. -/
theorem depth_le_maxDepth_iff (n : Nat) :
    ((∀ texts, gained texts ≤ n → ∀ name v, (course texts (.start .empty)).vars.lookup name = some v →
      v.depth ≤ maxDepth) ↔ n < maxDepth) ∧
      ∀ texts, gained texts ≤ (subtreesAll (programs texts)).countP Expr.wraps ∧
        gained texts ≤ (maxDepth - 2) * (subtreesAll (programs texts)).countP Expr.assigns := by
  refine ⟨⟨fun hwithin => Nat.lt_of_not_le fun hn => ?_, fun hn texts hgained name v hv => ?_⟩, fun texts => ⟨?_, ?_⟩⟩
  · obtain ⟨texts, v, hgained, hv, hd⟩ := exists_depth_of_gained maxDepth
    have := hwithin texts (hgained ▸ hn) "x" v hv
    omega
  · have hempty : NoDeeper 1 (Session.start .empty).vars := nofun
    have := noDeeper_course texts (Nat.le_refl 1) hempty name v hv
    omega
  · exact Nat.le_trans (Nat.le_add_right _ _) (gain_add_nestingAll_le (programs texts))
  · exact gain_le (gain_le_of_mem texts)

/-- **A value with what it was before as its items**, and two texts that fail after it. -/
theorem depth_le_maxDepth_iff_fault :
    let texts := ["x = [1]; x = [x] + x; y", "x = 2 +"]
    gained texts ≤ 2 ∧
      (course texts (.start .empty)).vars.lookup "x" = some (.array [.array [.int 1], .int 1]) ∧
        (Value.array [.array [.int 1], .int 1]).depth ≤ maxDepth := by
  intro texts
  have hgained : gained texts ≤ 2 := by decide +kernel
  have hbound : (course texts (.start .empty)).vars.lookup "x" = some (.array [.array [.int 1], .int 1]) := by
    decide +kernel
  exact ⟨hgained, hbound, (depth_le_maxDepth_iff 2).1.2 (by decide) texts hgained "x" _ hbound⟩

/-- **A value deeper than the nesting limit**, after nine texts far within it. -/
theorem exists_depth_gt_maxDepth : ∃ v,
    (course ("x = 1" :: List.replicate 8 "x = [[[[[[[[[[[[[[[[x]]]]]]]]]]]]]]]]") (.start .empty)).vars.lookup "x" =
      some v ∧ maxDepth < v.depth := by
  have hdeep : ((course ("x = 1" :: List.replicate 8 "x = [[[[[[[[[[[[[[[[x]]]]]]]]]]]]]]]]")
      (.start .empty)).vars.lookup "x").any (fun v => decide (maxDepth < v.depth)) = true := by decide +kernel
  obtain ⟨v, hv, hd⟩ := (Option.any_eq_true _ _).1 hdeep
  exact ⟨v, hv, of_decide_eq_true hd⟩

end LineShell.Calculator
