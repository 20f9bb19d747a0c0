import LineShell.Calculator.Program
import LineShell.Statement.Keyword
/-!
# Nesting — openers and closers among tokens

What a rule reads is well nested: every opener is closed by a closer of its kind.  A rule that ends for want of a closer
has read an opener too many (`nesting`).
-/
namespace LineShell.Calculator

open Statement (blockWords closingWord)

/-- **What opens and closes**: brackets of two shapes, and blocks. -/
inductive Pair where
  | round
  | square
  | block
  deriving DecidableEq, Repr

def Pair.closer : Pair → String
  | round => ")"
  | square => "]"
  | block => closingWord

def Token.opens? : Token → Option Pair
  | .symbol .openRound => some .round
  | .symbol .openSquare => some .square
  | .ident name => if blockWords.contains name then some .block else none
  | _ => none

def Token.closes? : Token → Option Pair
  | .symbol .closeRound => some .round
  | .symbol .closeSquare => some .square
  | .ident name => if name = closingWord then some .block else none
  | _ => none

/-- **Tokens that are well nested.** -/
inductive Nested : List Token → Prop
  | nil : Nested []
  | plain {token after} : token.opens? = none → token.closes? = none → Nested after → Nested (token :: after)
  | pair {opener inner closer after p} : opener.opens? = some p → closer.closes? = some p → Nested inner →
      Nested after → Nested (opener :: (inner ++ closer :: after))

/-- **How many more openers than closers** of a kind there are. -/
def surplus (p : Pair) (tokens : List Token) : Int :=
  tokens.countP (fun t => decide (t.opens? = some p)) - tokens.countP (fun t => decide (t.closes? = some p))

section Nested

variable {p : Pair} {token : Token} {tokens before after : List Token}

theorem Token.opens?_ident (name : String) (p : Pair) :
    decide ((Token.ident name).opens? = some p) = (blockWords.contains name && decide (p = .block)) := by
  show decide ((if blockWords.contains name then some Pair.block else none) = some p) = _
  cases blockWords.contains name <;> cases p <;> rfl

theorem Token.closes?_ident (name : String) (p : Pair) :
    decide ((Token.ident name).closes? = some p) = (name == closingWord && decide (p = .block)) := by
  show decide ((if name = closingWord then some Pair.block else none) = some p) = _
  by_cases hn : name = closingWord
  · rw [if_pos hn, beq_iff_eq.2 hn]
    cases p <;> rfl
  · rw [if_neg hn, beq_eq_false_iff_ne.2 hn]
    cases p <;> rfl

theorem Token.closes?_of_opens? (h : token.opens? = some p) : token.closes? = none := by
  match token, h with
  | .symbol .openRound, _ | .symbol .openSquare, _ => rfl
  | .ident name, h =>
    by_cases hn : name = closingWord
    · subst hn
      cases h
    · exact if_neg hn

theorem Token.opens?_of_closes? (h : token.closes? = some p) : token.opens? = none := by
  cases ho : token.opens? with
  | none => rfl
  | some q =>
    rw [closes?_of_opens? ho] at h
    cases h

theorem surplus_append (p : Pair) (tokens after : List Token) :
    surplus p (tokens ++ after) = surplus p tokens + surplus p after := by
  unfold surplus
  rw [List.countP_append, List.countP_append]
  omega

theorem surplus_cons (p : Pair) (token : Token) (after : List Token) :
    surplus p (token :: after) = surplus p [token] + surplus p after := surplus_append p [token] after

theorem surplus_plain (ho : token.opens? = none) (hc : token.closes? = none) : surplus p [token] = 0 := by
  simp [surplus, ho, hc]

theorem surplus_opener (h : token.opens? = some p) (q : Pair) : surplus q [token] = if p = q then 1 else 0 := by
  by_cases hq : p = q <;> simp [surplus, h, hq, Token.closes?_of_opens? h]

theorem surplus_closer (h : token.closes? = some p) (q : Pair) : surplus q [token] = if p = q then -1 else 0 := by
  by_cases hq : p = q <;> simp [surplus, h, hq, Token.opens?_of_closes? h]

/-- **What is well nested closes all that it opens.** -/
theorem Nested.surplus_eq_zero (h : Nested tokens) (p : Pair) : surplus p tokens = 0 := by
  induction h with
  | nil => rfl
  | @plain token after ho hc _ ih => rw [surplus_cons, surplus_plain ho hc, ih, Int.add_zero]
  | @pair opener inner closer after q ho hc _ _ ih ih' =>
    rw [surplus_cons, surplus_append, surplus_cons p closer, surplus_opener ho, surplus_closer hc, ih, ih']
    split <;> rfl

theorem nested_singleton (ho : token.opens? = none) (hc : token.closes? = none) : Nested [token] := .plain ho hc .nil

theorem Nested.append (h : Nested tokens) (h' : Nested after) : Nested (tokens ++ after) := by
  induction h with
  | nil => exact h'
  | plain ho hc _ ih => exact .plain ho hc ih
  | pair ho hc hinner _ _ ih =>
    rw [List.cons_append, List.append_assoc, List.cons_append]
    exact .pair ho hc hinner ih

/-- **Nested tokens put among nested tokens** leave them nested, wherever they are put. -/
theorem Nested.insert {inserted : List Token} (hi : Nested inserted) (h : Nested tokens) :
    ∀ {before after : List Token}, tokens = before ++ after → Nested (before ++ (inserted ++ after)) := by
  induction h with
  | nil =>
    intro before after heq
    obtain ⟨rfl, rfl⟩ := List.append_eq_nil_iff.1 heq.symm
    exact hi.append .nil
  | @plain token rest ho hc h ih =>
    intro before after heq
    cases before with
    | nil =>
      subst heq
      exact hi.append (.plain ho hc h)
    | cons t before =>
      obtain ⟨rfl, hafter⟩ := List.cons.inj heq
      exact .plain ho hc (ih hafter)
  | @pair opener inner closer rest p ho hc hinner hrest ihinner ihrest =>
    intro before after heq
    cases before with
    | nil =>
      subst heq
      exact hi.append (.pair ho hc hinner hrest)
    | cons t before =>
      obtain ⟨rfl, hafter⟩ := List.cons.inj heq
      -- The place is past what the pair encloses, or inside it.
      rcases List.append_eq_append_iff.1 hafter with ⟨past, rfl, hpast⟩ | ⟨ahead, rfl, rfl⟩
      · cases past with
        | nil =>
          -- Right before the closer.
          rw [List.nil_append] at hpast
          subst hpast
          have hin := hinner.append hi
          rw [List.append_nil, List.cons_append, ← List.append_assoc]
          exact .pair ho hc hin hrest
        | cons c past =>
          obtain ⟨rfl, hrestpast⟩ := List.cons.inj hpast
          rw [List.cons_append, List.append_assoc, List.cons_append]
          exact .pair ho hc hinner (ihrest hrestpast)
      · have hin := ihinner rfl
        rw [List.cons_append, ← List.append_assoc inserted, ← List.append_assoc before]
        exact .pair ho hc hin hrest

end Nested

namespace Production

/-- **What a halt for want of a closer says** of the tokens: an opener of its kind is left open. -/
def Lacks (h : Halt) (tokens : List Token) : Prop :=
  ∀ wanted, h = .fault (.expected wanted none) → ∃ p : Pair, p.closer = wanted ∧ 0 < surplus p tokens

/-- **A rule that reads what `before` needs to be well nested.** -/
def Nests {α : Type} (before : List Token) (rule : Production α) (c : Cursor) : Prop :=
  Meets rule (fun _ c' => ∃ read, c.rest = read ++ c'.rest ∧ Nested (before ++ read))
    (fun h _ => Lacks h (before ++ c.rest)) c

variable {α β : Type} {before tokens after : List Token} {c : Cursor} {h : Halt} {token opener : Token} {p : Pair}

theorem lacks_of_ne (hf : ∀ wanted, h ≠ .fault (.expected wanted none)) : Lacks h tokens :=
  fun wanted he => absurd he (hf wanted)

theorem lacks_tooDeep : Lacks (.fault .tooDeep) tokens := lacks_of_ne nofun

theorem Lacks.behind (ho : opener.opens? = some p) (hl : Lacks h tokens) : Lacks h ([opener] ++ tokens) := by
  intro wanted he
  obtain ⟨q, hq, hlt⟩ := hl wanted he
  refine ⟨q, hq, ?_⟩
  rw [surplus_append, surplus_opener ho]
  split <;> omega

theorem Lacks.insert {inserted : List Token} (hi : Nested inserted) (hl : Lacks h (before ++ after)) :
    Lacks h (before ++ (inserted ++ after)) := by
  intro wanted he
  obtain ⟨q, hq, hlt⟩ := hl wanted he
  refine ⟨q, hq, ?_⟩
  rw [surplus_append] at hlt
  rw [surplus_append, surplus_append, hi.surplus_eq_zero q]
  omega

theorem nests_pure {a : α} (hb : Nested before) : Nests before (pure a) c :=
  ⟨[], rfl, by rwa [List.append_nil]⟩

theorem nests_fail {f : ParseFault} (hf : ∀ wanted, f ≠ .expected wanted none) :
    Nests before (fail f : Production α) c :=
  lacks_of_ne fun wanted he => hf wanted (Halt.fault.inj he)

theorem nests_stall : Nests before (stall : Production α) c := lacks_of_ne nofun

theorem nests_rest {next : List Token → Production α} (h : Nests before (next c.rest) c) :
    Nests before (rest >>= next) c := by
  unfold Nests
  rwa [meets_bind, meets_rest]

/-- **Nested tokens read first** do not matter to what is read after them. -/
theorem nests_read {read after : List Token} {next : Unit → Production α} (hr : Nested read)
    (hc : c.rest = read ++ after) (h : Nests before (next ()) { c with rest := after }) :
    Nests before (resume after >>= next) c := by
  unfold Nests
  rw [meets_bind, meets_resume]
  refine Meets.mono h (fun a c' ⟨more, hm, hn⟩ => ⟨read ++ more, ?_, hr.insert hn rfl⟩) fun e c' hl => ?_
  · rw [hc, List.append_assoc]
    exact congrArg _ hm
  · rw [hc]
    exact hl.insert hr

theorem nests_bind {rule : Production α} {next : α → Production β} (h : Nests [] rule c)
    (hb : ∀ e, Lacks e c.rest → Lacks e (before ++ c.rest)) (hn : ∀ a c', Nests before (next a) c') :
    Nests before (rule >>= next) c := by
  unfold Nests
  rw [meets_bind]
  -- What the first rule reads is nested by itself, so it can stand before what the second one reads.
  refine Meets.mono h (fun a c' ⟨read, hc, hr⟩ => ?_) fun e _ hl => hb e hl
  refine Meets.mono (hn a c') (fun b c'' ⟨more, hm, hn⟩ => ⟨read ++ more, ?_, hr.insert hn rfl⟩) fun e c'' hl => ?_
  · rw [hc, hm, List.append_assoc]
  · rw [hc]
    exact hl.insert hr

theorem nests_seq {rule : Production α} {next : α → Production β} (h : Nests [] rule c)
    (hn : ∀ a c', Nests [] (next a) c') : Nests [] (rule >>= next) c :=
  nests_bind h (fun _ hl => hl) hn

/-- **One rule after another, behind an opener** that the second one closes. -/
theorem nests_behind {rule : Production α} {next : α → Production β} (ho : opener.opens? = some p)
    (h : Nests [] rule c) (hn : ∀ a c', Nests [opener] (next a) c') : Nests [opener] (rule >>= next) c :=
  nests_bind h (fun _ hl => Lacks.behind ho hl) hn

theorem nests_return {rule : Production α} {f : α → β} (h : Nests before rule c) :
    Nests before (rule >>= fun a => pure (f a)) c := by
  unfold Nests
  rw [meets_bind]
  exact h

theorem nests_resume {after : List Token} {next : Unit → Production α} (hc : c.rest = token :: after)
    (h : Nests [token] (next ()) { c with rest := after }) : Nests [] (resume after >>= next) c := by
  unfold Nests
  rw [meets_bind, meets_resume]
  refine Meets.mono h (fun a c' ⟨read, hr, hn⟩ => ⟨token :: read, ?_, hn⟩) fun e c' hl => ?_
  · rw [hc, List.cons_append]
    exact congrArg _ hr
  · rw [hc]
    exact hl

/-- **The closer of an opener.** Where it is wanted and the tokens are at their end, the opener is left open. -/
theorem nests_close {a : α} (ho : opener.opens? = some p) (hc : token.closes? = some p) :
    Nests [opener] (expect token p.closer >>= fun _ => pure a) c := by
  unfold Nests
  rw [meets_bind, meets_expect]
  refine ⟨fun after hr => ⟨[token], hr, .pair ho hc .nil .nil⟩, fun _ wanted he => ?_⟩
  obtain ⟨hw, hr⟩ := ParseFault.expected.inj (Halt.fault.inj he)
  refine ⟨p, hw, ?_⟩
  rw [List.head?_eq_none_iff.1 hr, List.append_nil, surplus_opener ho, if_pos rfl]
  decide

theorem nests_accept {next : Bool → Production α} (ho : token.opens? = none) (hc : token.closes? = none)
    (h : ∀ b c', Nests before (next b) c') : Nests before (accept token >>= next) c := by
  unfold Nests
  rw [meets_bind, meets_accept]
  refine ⟨fun after hr => ?_, fun _ => h false c⟩
  have hread : Nests before (resume after >>= fun _ => next true) c :=
    nests_read (nested_singleton ho hc) hr (h true { c with rest := after })
  unfold Nests at hread
  rwa [meets_bind, meets_resume] at hread

theorem nests_skip {next : Unit → Production α} (h : ∀ c', Nests before (next ()) c') :
    Nests before (skipSeparators >>= next) c := by
  have hsep : ∀ tokens : List Token, (∀ t ∈ tokens, t = .separator) → Nested tokens := by
    intro tokens hs
    induction tokens with
    | nil => exact .nil
    | cons t tokens ih =>
      obtain ⟨rfl, hafter⟩ := List.forall_mem_cons.1 hs
      exact .plain rfl rfl (ih hafter)
  have htaken : Nested (c.rest.takeWhile (· = .separator)) := hsep _ fun t ht =>
    of_decide_eq_true (List.all_eq_true.1 List.all_takeWhile t ht)
  have hread : Nests before (resume (c.rest.dropWhile (· = .separator)) >>= next) c :=
    nests_read htaken List.takeWhile_append_dropWhile.symm (h _)
  unfold Nests at hread ⊢
  rwa [meets_bind, meets_resume] at hread

theorem nests_nested {rule : Production α} (h : Nests before rule { c with depth := c.depth + 1 }) :
    Nests before (nested rule) c := by
  unfold Nests
  rw [meets_nested]
  exact ⟨fun _ => lacks_tooDeep, fun _ => h⟩

end Production

open Production

/-- **Every rule with an allowance of `n` reads nested tokens.** A word that is read has its rule close it, and the arms
of a choice close the word that the choice began with. -/
structure Nesting (n : Nat) : Prop where
  statement : ∀ c, Nests [] (statement n) c
  assignment : ∀ c, Nests [] (assignment n) c
  chain : ∀ t c, Nests [] (chain t n) c
  operand : ∀ t c, Nests [] (operand t n) c
  links : ∀ t left c, Nests [] (links t n left) c
  unary : ∀ c, Nests [] (unary n) c
  primary : ∀ c, Nests [] (primary n) c
  items : ∀ found c, Nests [] (items n found) c
  named : ∀ word c, Nests [.ident word] (named word n) c
  arms : ∀ opener negated test found c, opener.opens? = some .block → Nests [opener] (arms negated n test found) c
  alternative : ∀ c, Nests [] (alternative n) c
  body : ∀ stop found c, Nests [] (body stop n found) c

theorem plain_of_not_reserved {name : String} (h : ¬reservedWords.contains name) :
    (Token.ident name).opens? = none ∧ (Token.ident name).closes? = none := by
  have hne (word : String) (hw : word ∈ reservedWords) : name ≠ word := by
    rintro rfl
    exact h (List.contains_iff_mem.2 hw)
  constructor
  · refine if_neg fun hb => ?_
    have hsub : ∀ word ∈ blockWords, word ∈ reservedWords := by decide
    exact hne name (hsub name (List.contains_iff_mem.1 hb)) rfl
  · exact if_neg (hne "end" (by decide))

theorem nested_of_binary? {t : Tier} {token : Token} {o : BinOp} (h : token.binary? t = some o) : Nested [token] := by
  match token, h with
  | .symbol (.op _), _ => exact nested_singleton rfl rfl

theorem nested_of_unary? {token : Token} {o : UnOp} (h : token.unary? = some o) : Nested [token] := by
  match token, h with
  | .symbol (.op _), _ | .symbol .bang, _ => exact nested_singleton rfl rfl

namespace Nesting

variable {n : Nat} (p : Nesting n) (c : Cursor)

include p

theorem statement_succ : Nests [] (Calculator.statement (n + 1)) c := nests_nested (p.assignment _)

theorem assignment_succ : Nests [] (Calculator.assignment (n + 1)) c := by
  refine nests_rest ?_
  split
  · rename_i name after hc
    split
    · exact nests_fail nofun
    · rename_i hr
      obtain ⟨ho, hclose⟩ := plain_of_not_reserved hr
      have hread : Nested [.ident name, .symbol .assign] := .plain ho hclose (.plain rfl rfl .nil)
      exact nests_read hread hc (nests_return (p.statement _))
  · exact p.chain .or c

theorem chain_succ (t : Tier) : Nests [] (Calculator.chain t (n + 1)) c := by
  rw [Calculator.chain]
  unfold Nests
  rw [meets_restored]
  exact nests_seq (p.operand t c) fun left c' => p.links t left c'

theorem operand_succ (t : Tier) : Nests [] (Calculator.operand t (n + 1)) c := by
  rw [Calculator.operand]
  split
  · exact p.chain _ c
  · exact p.unary c

theorem links_succ (t : Tier) (left : Expr) : Nests [] (Calculator.links t (n + 1) left) c := by
  rw [Calculator.links]
  refine nests_rest ?_
  split
  · exact nests_pure .nil
  · rename_i token after hc
    split
    · exact nests_pure .nil
    · rename_i o ho
      refine nests_read (nested_of_binary? ho) hc ?_
      unfold Nests
      rw [meets_bind, meets_descend]
      refine ⟨fun _ => lacks_tooDeep, fun _ => ?_⟩
      exact nests_seq (p.operand t _) fun right c' => p.links t _ c'

theorem unary_succ : Nests [] (Calculator.unary (n + 1)) c := by
  refine nests_rest ?_
  split
  · exact p.primary c
  · rename_i token after hc
    split
    · exact p.primary c
    · rename_i o ho
      exact nests_read (nested_of_unary? ho) hc (nests_return (nests_nested (p.unary _)))

theorem primary_succ : Nests [] (Calculator.primary (n + 1)) c := by
  refine nests_rest ?_
  rcases hc : c.rest with _ | ⟨token, after⟩
  · exact nests_fail nofun
  match token, hc with
  | .int _, hc => exact nests_resume hc (nests_pure (nested_singleton rfl rfl))
  | .symbol .openRound, hc =>
    refine nests_resume hc (nests_behind (p := .round) rfl (p.statement _) fun inner c' => ?_)
    exact nests_close (p := .round) rfl rfl
  | .symbol .openSquare, hc =>
    refine nests_resume hc (nests_behind (p := .square) rfl (p.items _ _) fun found c' => ?_)
    exact nests_close (p := .square) rfl rfl
  | .ident word, hc => exact nests_resume hc (p.named word _)
  | .symbol (.op _), _ | .symbol .bang, _ | .symbol .assign, _ | .symbol .closeRound, _ | .symbol .closeSquare, _
  | .symbol .comma, _ | .separator, _ => exact nests_fail nofun

theorem items_succ (found : List Expr) : Nests [] (Calculator.items (n + 1) found) c := by
  refine nests_rest ?_
  split
  · exact nests_pure .nil
  · refine nests_seq (p.statement c) fun item c' => nests_accept rfl rfl fun more c'' => ?_
    split
    · exact p.items _ c''
    · exact nests_pure .nil

theorem named_succ (word : String) : Nests [.ident word] (Calculator.named word (n + 1)) c := by
  have harms (negated : Bool) (f : Expr → Expr) (ho : (Token.ident word).opens? = some .block) :
      Nests [.ident word] (Calculator.statement n >>= fun e => Calculator.arms negated n (f e) []) c :=
    nests_behind ho (p.statement c) fun e c' => p.arms _ negated (f e) [] c' ho
  rw [Calculator.named]
  split
  · rename_i hw
    exact nests_pure (nested_singleton (hw ▸ by decide) (hw ▸ by decide))
  split
  · rename_i hw
    exact nests_pure (nested_singleton (hw ▸ by decide) (hw ▸ by decide))
  split
  · rename_i hw
    exact nests_pure (nested_singleton (hw ▸ by decide) (hw ▸ by decide))
  split
  · rename_i hw
    exact harms false id (hw ▸ by decide)
  split
  · rename_i hw
    exact harms true (.unary .not) (hw ▸ by decide)
  split
  · rename_i hw
    have ho : (Token.ident word).opens? = some .block := hw ▸ by decide
    exact nests_behind ho (p.body _ _ c) fun inner c' => nests_close (p := .block) ho (by decide)
  split
  · exact nests_fail fun wanted he => by cases he
  split
  · exact nests_fail fun wanted he => by cases he
  · rename_i hr
    obtain ⟨ho, hclose⟩ := plain_of_not_reserved hr
    exact nests_pure (nested_singleton ho hclose)

theorem arms_succ (opener : Token) (negated : Bool) (test : Expr) (found : List (Expr × List Expr))
    (ho : opener.opens? = some .block) : Nests [opener] (Calculator.arms negated (n + 1) test found) c := by
  refine nests_accept rfl rfl fun _ c₁ => nests_behind ho (p.body _ _ c₁) fun inner c₂ => ?_
  refine nests_accept rfl rfl fun more c₃ => ?_
  split
  · exact nests_behind ho (p.statement c₃) fun next c₄ => p.arms opener negated next _ c₄ ho
  · exact nests_behind ho (p.alternative c₃) fun otherwise c₄ => nests_close (p := .block) ho (by decide)

theorem alternative_succ : Nests [] (Calculator.alternative (n + 1)) c := by
  refine nests_accept rfl rfl fun more c' => ?_
  split
  · exact nests_return (p.body _ _ c')
  · exact nests_pure .nil

theorem body_succ (stop : List String) (found : List Expr) : Nests [] (Calculator.body stop (n + 1) found) c := by
  refine nests_skip fun c' => nests_rest ?_
  split
  · exact nests_pure .nil
  · refine nests_seq (p.statement c') fun e c'' => nests_rest ?_
    split
    · exact p.body _ _ c''
    · split
      · exact p.body _ _ c''
      · exact nests_fail nofun

end Nesting

/-- **Every rule reads nested tokens**, whatever its allowance. -/
theorem nesting : ∀ n, Nesting n
  | 0 => by constructor <;> intros <;> exact nests_stall
  | n + 1 =>
    let p := nesting n
    { statement := p.statement_succ
      assignment := p.assignment_succ
      chain := fun t c => p.chain_succ c t
      operand := fun t c => p.operand_succ c t
      links := fun t left c => p.links_succ c t left
      unary := p.unary_succ
      primary := p.primary_succ
      items := fun found c => p.items_succ c found
      named := fun word c => p.named_succ c word
      arms := fun opener negated test found c => p.arms_succ c opener negated test found
      alternative := p.alternative_succ
      body := fun stop found c => p.body_succ c stop found }

theorem nests_program (allowance : Nat) (c : Cursor) : Nests [] (program allowance) c := by
  refine nests_seq ((nesting _).body [] [] c) fun statements c' => nests_rest ?_
  split
  · exact nests_pure .nil
  · exact nests_fail nofun

/-- **The tokens of a program are well nested.** -/
theorem nested_of_parseTokens {tokens : List Token} {statements : List Expr}
    (h : parseTokens tokens = .ok statements) : Nested tokens := by
  obtain ⟨c, hc⟩ := parseTokens_eq_ok_iff.1 h
  have hn := nests_program (allowance tokens) ⟨tokens, 0⟩
  rw [Nests, Meets, hc] at hn
  obtain ⟨read, hread, hnested⟩ := hn
  rw [(program_eq_ok_iff.1 hc).2, List.append_nil] at hread
  rw [show tokens = read from hread]
  exact hnested

/-- **A program that ends where a closer is wanted** leaves an opener of its kind open. -/
theorem surplus_of_parseTokens {tokens : List Token} {wanted : String}
    (h : parseTokens tokens = .error (.expected wanted none)) :
    ∃ p : Pair, p.closer = wanted ∧ 0 < surplus p tokens := by
  obtain ⟨c, hc⟩ := parseTokens_eq_error_iff.1 h
  have hn := nests_program (allowance tokens) ⟨tokens, 0⟩
  rw [Nests, Meets, hc] at hn
  exact hn wanted rfl

end LineShell.Calculator
