import LineShell.Calculator.Program
/-!
# Blame — what a fault of the grammar quotes

A message of the grammar quotes no token but those it was given, and wants none but a closer.  `blaming` says so for all
rules at once, and `blames_of_parseTokens` for programs.
-/
namespace LineShell.Calculator

/-- **A fault that blames one of these tokens**, or where they end. -/
def ParseFault.Blames (tokens : List Token) : ParseFault → Prop
  | stray _ | literal _ => False
  | unexpected found => found ∈ tokens
  | expected wanted found => wanted ∈ [")", "]", "end"] ∧ ∀ token ∈ found, token ∈ tokens
  | reserved name | unsupported name => .ident name ∈ tokens
  | unexpectedEnd | tooDeep => True

namespace Production

variable {α β : Type} {tokens after : List Token}

/-- **A rule that stays with these tokens**: where only they are left it leaves only them, and blames one of them. -/
def StaysWith (tokens : List Token) (rule : Production α) : Prop :=
  ∀ c, c.rest ⊆ tokens →
    Meets rule (fun _ c' => c'.rest ⊆ tokens) (fun h _ => ∀ f, h = .fault f → f.Blames tokens) c

theorem staysWith_pure (a : α) : StaysWith tokens (pure a) := fun _ hc => hc

theorem staysWith_fail {f : ParseFault} (h : f.Blames tokens) : StaysWith tokens (fail f : Production α) := by
  rintro c - f ⟨⟩
  exact h

theorem staysWith_stall : StaysWith tokens (stall : Production α) := fun _ _ _ he => nomatch he

theorem staysWith_bind {rule : Production α} {next : α → Production β} (h : StaysWith tokens rule)
    (hn : ∀ a, StaysWith tokens (next a)) : StaysWith tokens (rule >>= next) := by
  intro c hc
  rw [meets_bind]
  exact (h c hc).mono (fun a c' hc' => hn a c' hc') fun _ _ he => he

theorem staysWith_rest {next : List Token → Production α}
    (h : ∀ left, left ⊆ tokens → StaysWith tokens (next left)) : StaysWith tokens (rest >>= next) := by
  intro c hc
  rw [meets_bind, meets_rest]
  exact h c.rest hc c hc

theorem staysWith_resume (h : after ⊆ tokens) : StaysWith tokens (resume after) := fun _ _ => h

theorem staysWith_descend : StaysWith tokens descend := by
  intro c hc
  rw [meets_descend]
  refine ⟨?_, fun _ => hc⟩
  rintro - f ⟨⟩
  trivial

theorem staysWith_nested {rule : Production α} (h : StaysWith tokens rule) : StaysWith tokens (nested rule) := by
  intro c hc
  rw [meets_nested]
  refine ⟨?_, fun _ => h _ hc⟩
  rintro - f ⟨⟩
  trivial

theorem staysWith_restored {rule : Production α} (h : StaysWith tokens rule) : StaysWith tokens (restored rule) := by
  intro c hc
  rw [meets_restored]
  exact h c hc

theorem staysWith_accept (token : Token) : StaysWith tokens (accept token) := by
  intro c hc
  rw [meets_accept]
  refine ⟨fun after hr => ?_, fun _ => hc⟩
  rw [hr] at hc
  exact List.subset_of_cons_subset hc

theorem staysWith_expect {wanted : String} (token : Token) (hw : wanted ∈ [")", "]", "end"]) :
    StaysWith tokens (expect token wanted) := by
  intro c hc
  rw [meets_expect]
  constructor
  · intro after hr
    rw [hr] at hc
    exact List.subset_of_cons_subset hc
  · rintro - f ⟨⟩
    exact ⟨hw, fun token ht => hc (List.mem_of_mem_head? ht)⟩

theorem staysWith_skip : StaysWith tokens skipSeparators := fun _ hc =>
  List.Subset.trans (List.dropWhile_sublist _).subset hc

end Production

open Production

/-- **Every rule with an allowance of `n` stays with the tokens** it is given; so does one for a word among them. -/
structure Blaming (tokens : List Token) (n : Nat) : Prop where
  statement : StaysWith tokens (statement n)
  assignment : StaysWith tokens (assignment n)
  chain : ∀ t, StaysWith tokens (chain t n)
  operand : ∀ t, StaysWith tokens (operand t n)
  links : ∀ t left, StaysWith tokens (links t n left)
  unary : StaysWith tokens (unary n)
  primary : StaysWith tokens (primary n)
  items : ∀ found, StaysWith tokens (items n found)
  named : ∀ word, .ident word ∈ tokens → StaysWith tokens (named word n)
  arms : ∀ negated test found, StaysWith tokens (arms negated n test found)
  alternative : StaysWith tokens (alternative n)
  body : ∀ stop found, StaysWith tokens (body stop n found)

namespace Blaming

variable {tokens : List Token} {n : Nat} (p : Blaming tokens n)

include p

theorem assignment_succ : StaysWith tokens (Calculator.assignment (n + 1)) := by
  refine staysWith_rest fun left hleft => ?_
  split
  · obtain ⟨hname, hafter⟩ := List.cons_subset.1 hleft
    split
    · exact staysWith_fail hname
    · refine staysWith_bind (staysWith_resume (List.subset_of_cons_subset hafter)) fun _ => ?_
      exact staysWith_bind p.statement fun _ => staysWith_pure _
  · exact p.chain .or

theorem operand_succ (t : Tier) : StaysWith tokens (Calculator.operand t (n + 1)) := by
  rw [Calculator.operand]
  split
  · exact p.chain _
  · exact p.unary

theorem links_succ (t : Tier) (left : Expr) : StaysWith tokens (Calculator.links t (n + 1) left) := by
  refine staysWith_rest fun left hleft => ?_
  split
  · exact staysWith_pure _
  · obtain ⟨-, hafter⟩ := List.cons_subset.1 hleft
    split
    · exact staysWith_pure _
    · refine staysWith_bind (staysWith_resume hafter) fun _ => staysWith_bind staysWith_descend fun _ => ?_
      exact staysWith_bind (p.operand t) fun _ => p.links t _

theorem unary_succ : StaysWith tokens (Calculator.unary (n + 1)) := by
  refine staysWith_rest fun left hleft => ?_
  split
  · exact p.primary
  · obtain ⟨-, hafter⟩ := List.cons_subset.1 hleft
    split
    · exact p.primary
    · refine staysWith_bind (staysWith_resume hafter) fun _ => ?_
      exact staysWith_bind (staysWith_nested p.unary) fun _ => staysWith_pure _

theorem primary_succ : StaysWith tokens (Calculator.primary (n + 1)) := by
  refine staysWith_rest fun left hleft => ?_
  rcases left with _ | ⟨token, after⟩
  · exact staysWith_fail trivial
  obtain ⟨htoken, hafter⟩ := List.cons_subset.1 hleft
  have hresume := staysWith_resume hafter
  match token, htoken with
  | .int _, _ => exact staysWith_bind hresume fun _ => staysWith_pure _
  | .symbol .openRound, _ =>
    refine staysWith_bind hresume fun _ => staysWith_bind p.statement fun _ => ?_
    exact staysWith_bind (staysWith_expect _ (by simp)) fun _ => staysWith_pure _
  | .symbol .openSquare, _ =>
    refine staysWith_bind hresume fun _ => staysWith_bind (p.items []) fun _ => ?_
    exact staysWith_bind (staysWith_expect _ (by simp)) fun _ => staysWith_pure _
  | .ident word, hword => exact staysWith_bind hresume fun _ => p.named word hword
  | .symbol (.op _), ht | .symbol .bang, ht | .symbol .assign, ht | .symbol .closeRound, ht
  | .symbol .closeSquare, ht | .symbol .comma, ht | .separator, ht => exact staysWith_fail ht

theorem items_succ (found : List Expr) : StaysWith tokens (Calculator.items (n + 1) found) := by
  refine staysWith_rest fun left _ => ?_
  split
  · exact staysWith_pure _
  · refine staysWith_bind p.statement fun item => staysWith_bind (staysWith_accept _) fun more => ?_
    split
    · exact p.items _
    · exact staysWith_pure _

theorem named_succ (word : String) (hword : .ident word ∈ tokens) :
    StaysWith tokens (Calculator.named word (n + 1)) := by
  rw [Calculator.named]
  split
  · exact staysWith_pure _
  split
  · exact staysWith_pure _
  split
  · exact staysWith_pure _
  split
  · exact staysWith_bind p.statement fun _ => p.arms _ _ _
  split
  · exact staysWith_bind p.statement fun _ => p.arms _ _ _
  split
  · refine staysWith_bind (p.body _ _) fun _ => ?_
    exact staysWith_bind (staysWith_expect _ (by simp)) fun _ => staysWith_pure _
  split
  · exact staysWith_fail hword
  split
  · exact staysWith_fail hword
  · exact staysWith_pure _

theorem arms_succ (negated : Bool) (test : Expr) (found : List (Expr × List Expr)) :
    StaysWith tokens (Calculator.arms negated (n + 1) test found) := by
  refine staysWith_bind (staysWith_accept _) fun _ => staysWith_bind (p.body _ _) fun inner => ?_
  refine staysWith_bind (staysWith_accept _) fun more => ?_
  split
  · exact staysWith_bind p.statement fun _ => p.arms _ _ _
  · refine staysWith_bind p.alternative fun _ => ?_
    exact staysWith_bind (staysWith_expect _ (by simp)) fun _ => staysWith_pure _

theorem alternative_succ : StaysWith tokens (Calculator.alternative (n + 1)) := by
  refine staysWith_bind (staysWith_accept _) fun more => ?_
  split
  · exact staysWith_bind (p.body _ _) fun _ => staysWith_pure _
  · exact staysWith_pure _

theorem body_succ (stop : List String) (found : List Expr) :
    StaysWith tokens (Calculator.body stop (n + 1) found) := by
  refine staysWith_bind staysWith_skip fun _ => staysWith_rest fun before _ => ?_
  split
  · exact staysWith_pure _
  · refine staysWith_bind p.statement fun e => staysWith_rest fun left hleft => ?_
    split
    · exact p.body _ _
    · split
      · exact p.body _ _
      · exact staysWith_fail (hleft List.mem_cons_self)

end Blaming

/-- **Every rule stays with the tokens it is given**, whatever its allowance. -/
theorem blaming (tokens : List Token) : ∀ n, Blaming tokens n
  | 0 => by constructor <;> intros <;> exact staysWith_stall
  | n + 1 =>
    let p := blaming tokens n
    { statement := staysWith_nested p.assignment
      assignment := p.assignment_succ
      chain := fun t => staysWith_restored (staysWith_bind (p.operand t) fun left => p.links t left)
      operand := p.operand_succ
      links := p.links_succ
      unary := p.unary_succ
      primary := p.primary_succ
      items := p.items_succ
      named := p.named_succ
      arms := p.arms_succ
      alternative := p.alternative_succ
      body := p.body_succ }

/-- **A fault of a program's tokens blames one of them**, or where they end. -/
theorem blames_of_parseTokens {tokens : List Token} {f : ParseFault} (h : parseTokens tokens = .error f) :
    f.Blames tokens := by
  have hprogram : StaysWith tokens (program (allowance tokens)) := by
    refine staysWith_bind ((blaming tokens _).body [] []) fun _ => staysWith_rest fun left hleft => ?_
    split
    · exact staysWith_pure _
    · exact staysWith_fail (hleft List.mem_cons_self)
  obtain ⟨c, hc⟩ := parseTokens_eq_error_iff.1 h
  have hblames := hprogram ⟨tokens, 0⟩ (List.Subset.refl _)
  rw [Meets, hc] at hblames
  exact hblames f rfl

end LineShell.Calculator
