import LineShell.Calculator.Program
/-!
# Phrase — which tokens write which tree

A tree is written by the tokens of its parts and the marks around them, and every rule of the grammar builds the tree
that the tokens it reads write (`writes_of_parseTokens`).  What the tokens of a program and its trees have in common is
proved by induction on that relation, and the rules need not be gone through again.
-/
namespace LineShell.Calculator

/-- **The tokens of a literal's value.** No literal writes an array. -/
def literalTokens : Value → List Token
  | .nil => [.ident "nil"]
  | .bool true => [.ident "true"]
  | .bool false => [.ident "false"]
  | .int n => [.int n]
  | .array _ => []

/-- **The token that writes a unary operator.** -/
def UnOp.token : UnOp → Token
  | neg => .symbol (.op .sub)
  | not => .symbol .bang

/-- **What tokens write**: an expression, or a part of one that has no tree of its own. -/
inductive Phrase where
  | expr (e : Expr)
  /-- The items of an array, between its brackets. -/
  | items (es : List Expr)
  | statements (es : List Expr)
  /-- A choice from the body of an arm on, to its `end`: that body, the arms after it, and the body for when none
  holds. -/
  | remainder (inner : List Expr) (arms : List (Expr × List Expr)) (otherwise : Option (List Expr))
  | alternative (otherwise : Option (List Expr))

/-- **The tokens of a phrase.** How tightly operators bind, and where a statement has to end, is left open. -/
inductive Writes : Phrase → List Token → Prop
  | int (n : Int64) : Writes (.expr (.lit (.int n))) [.int n]
  | nil : Writes (.expr (.lit .nil)) [.ident "nil"]
  | true : Writes (.expr (.lit (.bool .true))) [.ident "true"]
  | false : Writes (.expr (.lit (.bool .false))) [.ident "false"]
  | var {name} : ¬reservedWords.contains name → Writes (.expr (.var name)) [.ident name]
  | assign {name value tokens} : ¬reservedWords.contains name → Writes (.expr value) tokens →
      Writes (.expr (.assign name value)) (.ident name :: .symbol .assign :: tokens)
  | round {e tokens} : Writes (.expr e) tokens →
      Writes (.expr e) (.symbol .openRound :: (tokens ++ [.symbol .closeRound]))
  | array {items tokens} : Writes (.items items) tokens →
      Writes (.expr (.array items)) (.symbol .openSquare :: (tokens ++ [.symbol .closeSquare]))
  | unary {op operand tokens} : Writes (.expr operand) tokens →
      Writes (.expr (.unary op operand)) (op.token :: tokens)
  | binary {op left right before after} : Writes (.expr left) before → Writes (.expr right) after →
      Writes (.expr (.binary op left right)) (before ++ .symbol (.op op) :: after)
  | choice {test inner arms otherwise before after} : Writes (.expr test) before →
      Writes (.remainder inner arms otherwise) after →
      Writes (.expr (.choice ((test, inner) :: arms) otherwise)) (.ident "if" :: (before ++ after))
  | negated {test inner arms otherwise before after} : Writes (.expr test) before →
      Writes (.remainder inner arms otherwise) after →
      Writes (.expr (.choice ((.unary .not test, inner) :: arms) otherwise)) (.ident "unless" :: (before ++ after))
  | block {body tokens} : Writes (.statements body) tokens →
      Writes (.expr (.block body)) (.ident "begin" :: (tokens ++ [.ident "end"]))
  | noItem : Writes (.items []) []
  | lastItem {e tokens} : Writes (.expr e) tokens → Writes (.items [e]) tokens
  | item {e es before after} : Writes (.expr e) before → Writes (.items es) after →
      Writes (.items (e :: es)) (before ++ .symbol .comma :: after)
  | noStatement : Writes (.statements []) []
  | separator {es tokens} : Writes (.statements es) tokens → Writes (.statements es) (.separator :: tokens)
  | statement {e es before after} : Writes (.expr e) before → Writes (.statements es) after →
      Writes (.statements (e :: es)) (before ++ after)
  | mark {inner arms otherwise tokens} : Writes (.remainder inner arms otherwise) tokens →
      Writes (.remainder inner arms otherwise) (.ident "then" :: tokens)
  | lastArm {inner otherwise before after} : Writes (.statements inner) before → Writes (.alternative otherwise) after →
      Writes (.remainder inner [] otherwise) (before ++ (after ++ [.ident "end"]))
  | arm {inner test next arms otherwise before middle after} : Writes (.statements inner) before →
      Writes (.expr test) middle → Writes (.remainder next arms otherwise) after →
      Writes (.remainder inner ((test, next) :: arms) otherwise) (before ++ .ident "elsif" :: (middle ++ after))
  | noAlternative : Writes (.alternative none) []
  | alternative {body tokens} : Writes (.statements body) tokens →
      Writes (.alternative (some body)) (.ident "else" :: tokens)

namespace Production

/-- **A rule whose result and the tokens it reads** are as `P` says, when it succeeds. -/
def Finds {α : Type} (P : α → List Token → Prop) (rule : Production α) (c : Cursor) : Prop :=
  Meets rule (fun a c' => ∃ read, c.rest = read ++ c'.rest ∧ P a read) (fun _ _ => True) c

variable {α β : Type} {P Q : α → List Token → Prop} {R : β → List Token → Prop} {c : Cursor} {token : Token}
  {after : List Token}

theorem Finds.mono {rule : Production α} (h : Finds P rule c) (hPQ : ∀ a read, P a read → Q a read) : Finds Q rule c :=
  Meets.mono h (fun a _ ⟨read, hc, hP⟩ => ⟨read, hc, hPQ a read hP⟩) fun _ _ _ => trivial

theorem finds_pure {a : α} (h : P a []) : Finds P (pure a) c := ⟨[], rfl, h⟩

theorem finds_fail {f : ParseFault} : Finds P (fail f) c := trivial

theorem finds_stall : Finds P stall c := trivial

/-- **One rule after another**: the second one's tokens come after those of the first. -/
theorem finds_bind {rule : Production α} {next : α → Production β} (h : Finds P rule c)
    (hn : ∀ a c' read, P a read → Finds (fun b more => R b (read ++ more)) (next a) c') :
    Finds R (rule >>= next) c := by
  unfold Finds
  rw [meets_bind]
  refine Meets.mono h (fun a c' ⟨read, hc, hP⟩ => ?_) fun _ _ _ => trivial
  refine Meets.mono (hn a c' read hP) (fun b c'' ⟨more, hc', hR⟩ => ⟨read ++ more, ?_, hR⟩) fun _ _ _ => trivial
  rw [hc, hc', List.append_assoc]

theorem finds_return {rule : Production α} {f : α → β} (h : Finds P rule c) (hf : ∀ a read, P a read → R (f a) read) :
    Finds R (rule >>= fun a => pure (f a)) c :=
  finds_bind h fun a _ read hP => finds_pure (by rw [List.append_nil]; exact hf a read hP)

theorem finds_rest {next : List Token → Production α} (h : Finds P (next c.rest) c) : Finds P (rest >>= next) c := by
  unfold Finds
  rwa [meets_bind, meets_rest]

theorem finds_resume (read : List Token) {next : Unit → Production α} (hc : c.rest = read ++ after)
    (h : Finds (fun a more => P a (read ++ more)) (next ()) { c with rest := after }) :
    Finds P (resume after >>= next) c := by
  unfold Finds
  rw [meets_bind, meets_resume]
  refine Meets.mono h (fun a c' ⟨more, hm, hP⟩ => ⟨read ++ more, ?_, hP⟩) fun _ _ _ => trivial
  rw [hc, List.append_assoc]
  exact congrArg _ hm

theorem finds_accept {next : Bool → Production α}
    (ht : ∀ c', Finds (fun a more => P a (token :: more)) (next true) c') (hf : ∀ c', Finds P (next false) c') :
    Finds P (accept token >>= next) c := by
  unfold Finds
  rw [meets_bind, meets_accept]
  refine ⟨fun after hc => ?_, fun _ => hf c⟩
  refine Meets.mono (ht { c with rest := after }) (fun a c' ⟨more, hm, hP⟩ => ?_) fun _ _ _ => trivial
  refine ⟨token :: more, ?_, hP⟩
  rw [hc]
  exact congrArg _ hm

theorem finds_expect {wanted : String} {a : α} (h : P a [token]) :
    Finds P (expect token wanted >>= fun _ => pure a) c := by
  unfold Finds
  rw [meets_bind, meets_expect]
  exact ⟨fun after hc => ⟨[token], hc, h⟩, fun _ => trivial⟩

theorem finds_skip {next : Unit → Production α}
    (h : ∀ c' skipped, (∀ t ∈ skipped, t = .separator) → Finds (fun a more => P a (skipped ++ more)) (next ()) c') :
    Finds P (skipSeparators >>= next) c := by
  have hskipped : ∀ t ∈ c.rest.takeWhile (· = .separator), t = .separator := fun t ht =>
    of_decide_eq_true (List.all_eq_true.1 List.all_takeWhile t ht)
  exact finds_resume _ List.takeWhile_append_dropWhile.symm (h _ _ hskipped)

theorem finds_nested {rule : Production α} (h : Finds P rule { c with depth := c.depth + 1 }) :
    Finds P (nested rule) c := by
  unfold Finds
  rw [meets_nested]
  exact ⟨fun _ => trivial, fun _ => h⟩

end Production

open Production

/-- **Separators before statements** change nothing. -/
theorem Writes.skip {es : List Expr} {tokens : List Token} (h : Writes (.statements es) tokens) :
    ∀ {skipped : List Token}, (∀ t ∈ skipped, t = .separator) → Writes (.statements es) (skipped ++ tokens)
  | [], _ => h
  | t :: skipped, hs => by
    obtain ⟨ht, hs⟩ := List.forall_mem_cons.1 hs
    exact ht ▸ .separator (h.skip hs)

theorem eq_of_binary? {t : Tier} {token : Token} {o : BinOp} (h : token.binary? t = some o) :
    token = .symbol (.op o) := by
  match token, h with
  | .symbol (.op o'), h =>
    simp only [Token.binary?] at h
    split at h <;> cases h
    rfl

theorem eq_of_unary? {token : Token} {o : UnOp} (h : token.unary? = some o) : token = o.token := by
  match token, h with
  | .symbol (.op .sub), h | .symbol .bang, h =>
    cases h
    rfl

/-- **The elements found and those that a phrase writes after them.** -/
def After {α : Type} (found : List α) (writes : List α → Prop) (all : List α) : Prop :=
  ∃ more, all = found.reverse ++ more ∧ writes more

theorem After.cons {α : Type} {a : α} {found all : List α} {P Q : List α → Prop} (h : After (a :: found) P all)
    (hPQ : ∀ more, P more → Q (a :: more)) : After found Q all := by
  obtain ⟨more, rfl, hP⟩ := h
  exact ⟨a :: more, by rw [List.reverse_cons, List.append_assoc, List.singleton_append], hPQ more hP⟩

theorem After.of_nil {α : Type} {all : List α} {P : List α → Prop} (h : After [] P all) : P all := by
  obtain ⟨more, rfl, hP⟩ := h
  exact hP

/-- **Every rule with an allowance of `n` finds what the tokens it reads write.** A rule that goes on from what is
found already adds to it. -/
structure Phrasing (n : Nat) : Prop where
  statement : ∀ c, Finds (fun e => Writes (.expr e)) (statement n) c
  assignment : ∀ c, Finds (fun e => Writes (.expr e)) (assignment n) c
  chain : ∀ t c, Finds (fun e => Writes (.expr e)) (chain t n) c
  operand : ∀ t c, Finds (fun e => Writes (.expr e)) (operand t n) c
  links : ∀ t left before c, Writes (.expr left) before →
    Finds (fun e read => Writes (.expr e) (before ++ read)) (links t n left) c
  unary : ∀ c, Finds (fun e => Writes (.expr e)) (unary n) c
  primary : ∀ c, Finds (fun e => Writes (.expr e)) (primary n) c
  items : ∀ found c, Finds (fun es read => After found (fun more => Writes (.items more) read) es) (items n found) c
  named : ∀ word c, Finds (fun e read => Writes (.expr e) (.ident word :: read)) (named word n) c
  arms : ∀ negated test found c, Finds (fun e read => ∃ inner arms otherwise,
    e = .choice (found.reverse ++ (test, inner) :: arms) otherwise ∧ Writes (.remainder inner arms otherwise) read)
    (arms negated n test found) c
  alternative : ∀ c, Finds (fun otherwise => Writes (.alternative otherwise)) (alternative n) c
  body : ∀ stop found c,
    Finds (fun es read => After found (fun more => Writes (.statements more) read) es) (body stop n found) c

namespace Phrasing

variable {n : Nat} (p : Phrasing n) (c : Cursor)

include p

theorem statement_succ : Finds (fun e => Writes (.expr e)) (Calculator.statement (n + 1)) c :=
  finds_nested (p.assignment _)

theorem assignment_succ : Finds (fun e => Writes (.expr e)) (Calculator.assignment (n + 1)) c := by
  refine finds_rest ?_
  split
  · rename_i name after hc
    split
    · exact finds_fail
    · rename_i hr
      refine finds_resume [.ident name, .symbol .assign] hc (finds_return (p.statement _) fun value read hv => ?_)
      exact .assign hr hv
  · exact p.chain .or c

theorem chain_succ (t : Tier) : Finds (fun e => Writes (.expr e)) (Calculator.chain t (n + 1)) c := by
  rw [Calculator.chain]
  unfold Finds
  rw [meets_restored]
  exact finds_bind (p.operand t c) fun left c' read hleft => p.links t left read c' hleft

theorem operand_succ (t : Tier) : Finds (fun e => Writes (.expr e)) (Calculator.operand t (n + 1)) c := by
  rw [Calculator.operand]
  split
  · exact p.chain _ c
  · exact p.unary c

theorem links_succ (t : Tier) (left : Expr) (before : List Token) (hleft : Writes (.expr left) before) :
    Finds (fun e read => Writes (.expr e) (before ++ read)) (Calculator.links t (n + 1) left) c := by
  have hdone : Writes (.expr left) (before ++ []) := by rwa [List.append_nil]
  rw [Calculator.links]
  refine finds_rest ?_
  split
  · exact finds_pure hdone
  · rename_i token after hc
    split
    · exact finds_pure hdone
    · rename_i o ho
      rw [eq_of_binary? ho] at hc
      refine finds_resume [.symbol (.op o)] hc ?_
      unfold Finds
      rw [meets_bind, meets_descend]
      refine ⟨fun _ => trivial, fun _ => ?_⟩
      refine finds_bind (p.operand t _) fun right c' read hright => ?_
      exact (p.links t _ _ c' (.binary hleft hright)).mono fun e more he => by simpa using he

theorem unary_succ : Finds (fun e => Writes (.expr e)) (Calculator.unary (n + 1)) c := by
  refine finds_rest ?_
  split
  · exact p.primary c
  · rename_i token after hc
    split
    · exact p.primary c
    · rename_i o ho
      rw [eq_of_unary? ho] at hc
      refine finds_resume [o.token] hc (finds_return (finds_nested (p.unary _)) fun operand read hoperand => ?_)
      exact .unary hoperand

theorem primary_succ : Finds (fun e => Writes (.expr e)) (Calculator.primary (n + 1)) c := by
  refine finds_rest ?_
  rcases hc : c.rest with _ | ⟨token, after⟩
  · exact finds_fail
  match token, hc with
  | .int k, hc => exact finds_resume [.int k] hc (finds_pure (.int k))
  | .symbol .openRound, hc =>
    refine finds_resume [.symbol .openRound] hc (finds_bind (p.statement _) fun inner c' read hi => ?_)
    exact finds_expect (.round hi)
  | .symbol .openSquare, hc =>
    refine finds_resume [.symbol .openSquare] hc (finds_bind (p.items [] _) fun found c' read hf => ?_)
    exact finds_expect (.array hf.of_nil)
  | .ident word, hc => exact finds_resume [.ident word] hc (p.named word _)
  | .symbol (.op _), _ | .symbol .bang, _ | .symbol .assign, _ | .symbol .closeRound, _ | .symbol .closeSquare, _
  | .symbol .comma, _ | .separator, _ => exact finds_fail

theorem items_succ (found : List Expr) :
    Finds (fun es read => After found (fun more => Writes (.items more) read) es)
      (Calculator.items (n + 1) found) c := by
  refine finds_rest ?_
  split
  · exact finds_pure ⟨[], (List.append_nil _).symm, .noItem⟩
  · refine finds_bind (p.statement c) fun item c' read hitem => finds_accept (fun c'' => ?_) fun c'' => ?_
    · refine (p.items (item :: found) c'').mono fun es more hes => ?_
      exact hes.cons fun _ hmore => .item hitem hmore
    · refine finds_pure ⟨[item], List.reverse_cons, ?_⟩
      rw [List.append_nil]
      exact .lastItem hitem

theorem named_succ (word : String) :
    Finds (fun e read => Writes (.expr e) (.ident word :: read)) (Calculator.named word (n + 1)) c := by
  rw [Calculator.named]
  split
  · rename_i hw
    exact finds_pure (hw ▸ .true)
  split
  · rename_i hw
    exact finds_pure (hw ▸ .false)
  split
  · rename_i hw
    exact finds_pure (hw ▸ .nil)
  split
  · rename_i hw
    refine finds_bind (p.statement c) fun test c' read ht => (p.arms false test [] c').mono fun e more he => ?_
    obtain ⟨inner, arms, otherwise, rfl, hmore⟩ := he
    exact hw ▸ .choice ht hmore
  split
  · rename_i hw
    refine finds_bind (p.statement c) fun test c' read ht => (p.arms true _ [] c').mono fun e more he => ?_
    obtain ⟨inner, arms, otherwise, rfl, hmore⟩ := he
    exact hw ▸ .negated ht hmore
  split
  · rename_i hw
    refine finds_bind (p.body ["end"] [] c) fun inner c' read hi => ?_
    exact finds_expect (hw ▸ .block hi.of_nil)
  split
  · exact finds_fail
  split
  · exact finds_fail
  · rename_i hr
    exact finds_pure (.var hr)

theorem arms_succ (negated : Bool) (test : Expr) (found : List (Expr × List Expr)) :
    Finds (fun e read => ∃ inner arms otherwise, e = .choice (found.reverse ++ (test, inner) :: arms) otherwise ∧
      Writes (.remainder inner arms otherwise) read) (Calculator.arms negated (n + 1) test found) c := by
  have hbody (c' : Cursor) (stop : List String) :
      Finds (fun e read => ∃ inner arms otherwise, e = .choice (found.reverse ++ (test, inner) :: arms) otherwise ∧
        Writes (.remainder inner arms otherwise) read)
        (Calculator.body stop n [] >>= fun inner => accept (.ident "elsif") >>= fun more =>
          if more = true then
            Calculator.statement n >>= fun next => Calculator.arms negated n next ((test, inner) :: found)
          else Calculator.alternative n >>= fun otherwise => expect (.ident "end") "end" >>= fun _ =>
            pure (.choice ((test, inner) :: found).reverse otherwise)) c' := by
    refine finds_bind (p.body stop [] c') fun inner c₁ before hi => finds_accept (fun c₂ => ?_) fun c₂ => ?_
    · refine finds_bind (p.statement c₂) fun next c₃ middle hn => ?_
      refine (p.arms negated next ((test, inner) :: found) c₃).mono fun e after he => ?_
      obtain ⟨inner', arms, otherwise, rfl, hrest⟩ := he
      exact ⟨inner, (next, inner') :: arms, otherwise, by simp, .arm hi.of_nil hn hrest⟩
    · refine finds_bind (p.alternative c₂) fun otherwise c₃ after ho => finds_expect ?_
      exact ⟨inner, [], otherwise, by simp, .lastArm hi.of_nil ho⟩
  refine finds_accept (fun c' => (hbody c' _).mono fun e read he => ?_) fun c' => hbody c' _
  obtain ⟨inner, arms, otherwise, he, hread⟩ := he
  exact ⟨inner, arms, otherwise, he, .mark hread⟩

theorem alternative_succ :
    Finds (fun otherwise => Writes (.alternative otherwise)) (Calculator.alternative (n + 1)) c := by
  refine finds_accept (fun c' => finds_return (p.body ["end"] [] c') fun es read hes => ?_) fun c' =>
    finds_pure .noAlternative
  exact .alternative hes.of_nil

theorem body_succ (stop : List String) (found : List Expr) :
    Finds (fun es read => After found (fun more => Writes (.statements more) read) es)
      (Calculator.body stop (n + 1) found) c := by
  refine finds_skip fun c' skipped hs => finds_rest ?_
  have hgo (e : Expr) (c'' : Cursor) (read : List Token) (he : Writes (.expr e) read) :
      Finds (fun es more => After found (fun found => Writes (.statements found) (skipped ++ (read ++ more))) es)
        (Calculator.body stop n (e :: found)) c'' :=
    (p.body stop (e :: found) c'').mono fun es more hes => hes.cons fun _ hmore => Writes.skip (.statement he hmore) hs
  split
  · exact finds_pure ⟨[], (List.append_nil _).symm, Writes.skip .noStatement hs⟩
  · refine finds_bind (p.statement c') fun e c'' read he => finds_rest ?_
    split
    · exact hgo e c'' read he
    · split
      · exact hgo e c'' read he
      · exact finds_fail

end Phrasing

/-- **Every rule finds what the tokens it reads write**, whatever its allowance. -/
theorem phrasing : ∀ n, Phrasing n
  | 0 => by constructor <;> intros <;> exact finds_stall
  | n + 1 =>
    let p := phrasing n
    { statement := p.statement_succ
      assignment := p.assignment_succ
      chain := fun t c => p.chain_succ c t
      operand := fun t c => p.operand_succ c t
      links := fun t left before c => p.links_succ c t left before
      unary := p.unary_succ
      primary := p.primary_succ
      items := fun found c => p.items_succ c found
      named := fun word c => p.named_succ c word
      arms := fun negated test found c => p.arms_succ c negated test found
      alternative := p.alternative_succ
      body := fun stop found c => p.body_succ c stop found }

/-- **The tokens of a program write its statements.** -/
theorem writes_of_parseTokens {tokens : List Token} {statements : List Expr}
    (h : parseTokens tokens = .ok statements) : Writes (.statements statements) tokens := by
  obtain ⟨c, hc⟩ := parseTokens_eq_ok_iff.1 h
  obtain ⟨hbody, hrest⟩ := program_eq_ok_iff.1 hc
  have hf := (phrasing (allowance tokens)).body [] [] ⟨tokens, 0⟩
  rw [Finds, Meets, hbody] at hf
  obtain ⟨read, hread, hwrites⟩ := hf
  rw [hrest, List.append_nil] at hread
  rw [show tokens = read from hread]
  exact hwrites.of_nil

end LineShell.Calculator
