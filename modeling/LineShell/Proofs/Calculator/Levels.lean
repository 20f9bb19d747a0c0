import LineShell.Calculator.Program
import LineShell.Proofs.Calculator.Height
/-!
# Levels — what the nesting limit bounds

A rule entered at a level builds trees whose paths stay within the levels left, as long as only the steps that cost a
level are counted (`levelled`).  The steps that are free are not bounded, so a tree can be higher than the limit:
`height_le_maxDepth_iff` says exactly when it is not.
-/
namespace LineShell.Calculator

/-- **A tree built at a level** stays within the limit, by the steps that cost a level. -/
def Within (level : Nat) (e : Expr) : Prop := ∀ path, e.Path path → path.count .level + level ≤ maxDepth

/-- **Trees built one level below** `level`. -/
def PartsWithin (level : Nat) (es : List Expr) : Prop := ∀ e ∈ es, Within (level + 1) e

/-- **A condition** of a choice at a level. -/
def TestWithin (level : Nat) (test : Expr) : Prop :=
  ∀ path, test.Path path → (test.testCharge :: path).count .level + level ≤ maxDepth

/-- **The arms** of a choice at a level. -/
def ArmsWithin (level : Nat) (arms : List (Expr × List Expr)) : Prop :=
  ∀ arm ∈ arms, TestWithin level arm.1 ∧ PartsWithin level arm.2

section Within

variable {level : Nat} {e left right test : Expr} {es : List Expr} {arms : List (Expr × List Expr)}
  {otherwise : Option (List Expr)} {op : BinOp} {uop : UnOp} {name : String} {v : Value}

theorem Within.anti {lower : Nat} (h : Within lower e) (hl : level ≤ lower) : Within level e := fun path hp =>
  Nat.le_trans (Nat.add_le_add_left hl _) (h path hp)

theorem Within.weaken (h : Within (level + 1) e) : Within level e := h.anti (Nat.le_succ level)

/-- A step that costs a level leads to a part one level below. -/
theorem Within.step (h : Within (level + 1) e) {path : List Charge} (hp : e.Path path) :
    (Charge.level :: path).count .level + level ≤ maxDepth := by
  have := h path hp
  rw [List.count_cons_self]
  omega

theorem within_lit (hl : level ≤ maxDepth) : Within level (.lit v) := by
  rintro _ ⟨⟩
  rwa [List.count_nil, Nat.zero_add]

theorem within_var (hl : level ≤ maxDepth) : Within level (.var name) := by
  rintro _ ⟨⟩
  rwa [List.count_nil, Nat.zero_add]

theorem within_assign (h : Within (level + 1) e) : Within level (.assign name e) := by
  intro path hp
  cases hp with
  | here => exact h.weaken [] (.here e)
  | value hp => exact h.step hp

theorem within_array (hl : level ≤ maxDepth) (h : PartsWithin level es) : Within level (.array es) := by
  intro path hp
  cases hp with
  | here => rwa [List.count_nil, Nat.zero_add]
  | item he hp => exact (h _ he).step hp

theorem within_unary (h : Within (level + 1) e) : Within level (.unary uop e) := by
  intro path hp
  cases hp with
  | here => exact h.weaken [] (.here e)
  | operand hp => exact h.step hp

theorem within_binary (hleft : Within level left) (hright : Within (level + 1) right) :
    Within level (.binary op left right) := by
  intro path hp
  cases hp with
  | here => exact hleft [] (.here left)
  | left hp =>
    rw [List.count_cons_of_ne (by decide)]
    exact hleft _ hp
  | right hp => exact hright.step hp

theorem testWithin_of_within (h : Within (level + 1) test) : TestWithin level test := by
  intro path hp
  cases hc : test.testCharge with
  | level => exact h.step hp
  | free =>
    rw [List.count_cons_of_ne (by decide)]
    exact h.weaken _ hp

/-- The negation before a condition is free. -/
theorem testWithin_not (h : Within (level + 1) e) : TestWithin level (.unary .not e) := by
  intro path hp
  rw [show (Expr.unary .not e).testCharge = .free from rfl, List.count_cons_of_ne (by decide)]
  exact within_unary h path hp

theorem within_choice (hl : level ≤ maxDepth) (ha : ArmsWithin level arms)
    (ho : ∀ body, otherwise = some body → PartsWithin level body) : Within level (.choice arms otherwise) := by
  intro path hp
  cases hp with
  | here => rwa [List.count_nil, Nat.zero_add]
  | test harm hp => exact (ha _ harm).1 _ hp
  | arm harm he hp => exact ((ha _ harm).2 _ he).step hp
  | otherwise he hp => exact (ho _ rfl _ he).step hp

theorem within_block (hl : level ≤ maxDepth) (h : PartsWithin level es) : Within level (.block es) := by
  intro path hp
  cases hp with
  | here => rwa [List.count_nil, Nat.zero_add]
  | inner he hp => exact (h _ he).step hp

theorem partsWithin_nil : PartsWithin level [] := nofun

theorem PartsWithin.cons (he : Within (level + 1) e) (h : PartsWithin level es) : PartsWithin level (e :: es) :=
  List.forall_mem_cons.2 ⟨he, h⟩

theorem PartsWithin.reverse (h : PartsWithin level es) : PartsWithin level es.reverse :=
  fun e he => h e (List.mem_reverse.1 he)

end Within

namespace Production

/-- **A rule that builds what `P` says** when it succeeds, and comes back to the level it was entered at. -/
def Builds {α : Type} (P : α → Prop) (rule : Production α) (c : Cursor) : Prop :=
  c.depth ≤ maxDepth → Meets rule (fun a c' => P a ∧ c'.depth = c.depth) (fun _ _ => True) c

variable {α β : Type} {P : α → Prop} {R : β → Prop} {c : Cursor}

theorem builds_pure {a : α} (h : P a) : Builds P (pure a) c := fun _ => ⟨h, rfl⟩

theorem builds_fail (f : ParseFault) : Builds P (fail f) c := fun _ => trivial

theorem builds_stall : Builds P stall c := fun _ => trivial

theorem builds_bind {rule : Production α} {next : α → Production β} (h : Builds P rule c)
    (hn : ∀ a c', P a → c'.depth = c.depth → Builds R (next a) c') : Builds R (rule >>= next) c := by
  intro hd
  rw [meets_bind]
  refine (h hd).mono (fun a c' ⟨ha, hc⟩ => ?_) fun _ _ _ => trivial
  exact (hn a c' ha hc (hc ▸ hd)).mono (fun _ _ ⟨hr, hc'⟩ => ⟨hr, hc'.trans hc⟩) fun _ _ _ => trivial

theorem builds_return {rule : Production α} {f : α → β} (h : Builds P rule c) (hf : ∀ a, P a → R (f a)) :
    Builds R (rule >>= fun a => pure (f a)) c :=
  builds_bind h fun a _ ha _ => builds_pure (hf a ha)

theorem builds_rest {next : List Token → Production α} (h : Builds P (next c.rest) c) : Builds P (rest >>= next) c := by
  intro hd
  rw [meets_bind, meets_rest]
  exact h hd

theorem builds_resume {after : List Token} {next : Unit → Production α}
    (h : Builds P (next ()) { c with rest := after }) : Builds P (resume after >>= next) c := by
  intro hd
  rw [meets_bind, meets_resume]
  exact h hd

theorem builds_skip {next : Unit → Production α} (h : ∀ c', c'.depth = c.depth → Builds P (next ()) c') :
    Builds P (skipSeparators >>= next) c := by
  intro hd
  rw [meets_bind, meets_skipSeparators]
  exact h { c with rest := c.rest.dropWhile (· = .separator) } rfl hd

theorem builds_accept {token : Token} {next : Bool → Production α}
    (h : ∀ b c', c'.depth = c.depth → Builds P (next b) c') : Builds P (accept token >>= next) c := by
  intro hd
  rw [meets_bind, meets_accept]
  exact ⟨fun after _ => h true { c with rest := after } rfl hd, fun _ => h false c rfl hd⟩

theorem builds_expect {token : Token} {wanted : String} {a : α} (h : P a) :
    Builds P (expect token wanted >>= fun _ => pure a) c := by
  intro hd
  rw [meets_bind, meets_expect]
  exact ⟨fun _ _ => ⟨h, rfl⟩, fun _ => trivial⟩

theorem builds_nested {rule : Production α} (h : Builds P rule { c with depth := c.depth + 1 }) :
    Builds P (nested rule) c := by
  intro _
  rw [meets_nested]
  refine ⟨fun _ => trivial, fun hlt => (h hlt).mono (fun a c' ⟨ha, hc⟩ => ⟨ha, ?_⟩) fun _ _ _ => trivial⟩
  rw [ascend, hc]
  exact Nat.add_sub_cancel _ _

end Production

open Production

/-- **Every rule with an allowance of `n` builds within the limit.** A statement is built a level below the rule that
starts it, and the rest of a chain keeps what its left operand was built at. -/
structure Levelled (n : Nat) : Prop where
  statement : ∀ c, Builds (Within (c.depth + 1)) (statement n) c
  assignment : ∀ c, Builds (Within c.depth) (assignment n) c
  chain : ∀ t c, Builds (Within c.depth) (chain t n) c
  operand : ∀ t c, Builds (Within c.depth) (operand t n) c
  links : ∀ t left level c, level ≤ c.depth → c.depth ≤ maxDepth → Within level left →
    Meets (links t n left) (fun e _ => Within level e) (fun _ _ => True) c
  unary : ∀ c, Builds (Within c.depth) (unary n) c
  primary : ∀ c, Builds (Within c.depth) (primary n) c
  items : ∀ found c, PartsWithin c.depth found → Builds (PartsWithin c.depth) (items n found) c
  named : ∀ word c, Builds (Within c.depth) (named word n) c
  arms : ∀ negated test found c, TestWithin c.depth test → ArmsWithin c.depth found →
    Builds (Within c.depth) (arms negated n test found) c
  alternative : ∀ c, Builds (fun otherwise => ∀ es, otherwise = some es → PartsWithin c.depth es) (alternative n) c
  body : ∀ stop found c, PartsWithin c.depth found → Builds (PartsWithin c.depth) (body stop n found) c

namespace Levelled

variable {n : Nat} (l : Levelled n) (c : Cursor)

include l

theorem statement_succ : Builds (Within (c.depth + 1)) (Calculator.statement (n + 1)) c :=
  builds_nested (l.assignment { c with depth := c.depth + 1 })

theorem assignment_succ : Builds (Within c.depth) (Calculator.assignment (n + 1)) c := by
  refine builds_rest ?_
  split
  · rename_i name after _
    split
    · exact builds_fail _
    · exact builds_resume (builds_return (l.statement { c with rest := after }) fun _ => within_assign)
  · exact l.chain .or c

/-- A chain comes back to the level of its left operand, so what the links keep is what the chain promises. -/
theorem chain_succ (t : Tier) : Builds (Within c.depth) (Calculator.chain t (n + 1)) c := by
  intro hd
  rw [Calculator.chain, meets_restored, meets_bind]
  refine (l.operand t c hd).mono (fun left c' h => ?_) fun _ _ _ => trivial
  obtain ⟨hleft, hc⟩ := h
  exact (l.links t left c.depth c' (Nat.le_of_eq hc.symm) (hc ▸ hd) hleft).mono (fun _ _ he => ⟨he, rfl⟩)
    fun _ _ _ => trivial

theorem operand_succ (t : Tier) : Builds (Within c.depth) (Calculator.operand t (n + 1)) c := by
  rw [Calculator.operand]
  split
  · exact l.chain _ c
  · exact l.unary c

/-- The right operand is built a level further down than the left one, whatever the level reached. -/
theorem links_succ (t : Tier) (left : Expr) (level : Nat) (hl : level ≤ c.depth) (_ : c.depth ≤ maxDepth)
    (hleft : Within level left) :
    Meets (Calculator.links t (n + 1) left) (fun e _ => Within level e) (fun _ _ => True) c := by
  rw [Calculator.links, meets_bind, meets_rest]
  split
  · exact hleft
  · rename_i token after _
    split
    · exact hleft
    · rw [meets_bind, meets_resume, meets_bind, meets_descend]
      refine ⟨fun _ => trivial, fun hlt => ?_⟩
      rw [meets_bind]
      refine (l.operand t ⟨after, c.depth + 1⟩ hlt).mono (fun right c' h => ?_) fun _ _ _ => trivial
      obtain ⟨hright, hc⟩ := h
      -- The levels that the chain has taken so far are more than the tree needs.
      have hlevel : Within (level + 1) right := hright.anti (Nat.succ_le_succ hl)
      refine l.links t _ level c' ?_ (hc ▸ hlt) (within_binary hleft hlevel)
      rw [hc]
      exact Nat.le_succ_of_le hl

theorem unary_succ : Builds (Within c.depth) (Calculator.unary (n + 1)) c := by
  refine builds_rest ?_
  split
  · exact l.primary c
  · rename_i token after _
    split
    · exact l.primary c
    · exact builds_resume (builds_return (builds_nested (l.unary ⟨after, c.depth + 1⟩)) fun _ => within_unary)

theorem primary_succ : Builds (Within c.depth) (Calculator.primary (n + 1)) c := by
  intro hd
  refine builds_rest ?_ hd
  rcases hc : c.rest with _ | ⟨token, after⟩
  · exact builds_fail _
  match token with
  | .int _ => exact builds_resume (builds_pure (within_lit hd))
  | .symbol .openRound =>
    refine builds_resume (builds_bind (l.statement { c with rest := after }) fun inner c' hi _ => ?_)
    exact builds_expect hi.weaken
  | .symbol .openSquare =>
    refine builds_resume (builds_bind (l.items [] { c with rest := after } partsWithin_nil) fun found c' hf _ => ?_)
    exact builds_expect (within_array hd hf)
  | .ident word => exact builds_resume (l.named word { c with rest := after })
  | .symbol (.op _) | .symbol .bang | .symbol .assign | .symbol .closeRound | .symbol .closeSquare
  | .symbol .comma | .separator => exact builds_fail _

theorem items_succ (found : List Expr) (hf : PartsWithin c.depth found) :
    Builds (PartsWithin c.depth) (Calculator.items (n + 1) found) c := by
  refine builds_rest ?_
  split
  · exact builds_pure hf.reverse
  · refine builds_bind (l.statement c) fun item c' hi hc => builds_accept fun more c'' hc' => ?_
    have hcons : PartsWithin c''.depth (item :: found) := (hc'.trans hc) ▸ hf.cons hi
    split
    · exact (hc'.trans hc) ▸ l.items _ c'' hcons
    · exact builds_pure (hf.cons hi).reverse

theorem named_succ (word : String) : Builds (Within c.depth) (Calculator.named word (n + 1)) c := by
  intro hd
  have harms (negated : Bool) (f : Expr → Expr) (hf : ∀ e, Within (c.depth + 1) e → TestWithin c.depth (f e)) :
      Builds (Within c.depth) (Calculator.statement n >>= fun e => Calculator.arms negated n (f e) []) c := by
    refine builds_bind (l.statement c) fun e c' he hc => ?_
    exact hc ▸ l.arms negated (f e) [] c' (hc.symm ▸ hf e he) nofun
  rw [Calculator.named]
  split
  · exact builds_pure (within_lit hd) hd
  split
  · exact builds_pure (within_lit hd) hd
  split
  · exact builds_pure (within_lit hd) hd
  split
  · exact harms false id (fun _ => testWithin_of_within) hd
  split
  · exact harms true (.unary .not) (fun _ => testWithin_not) hd
  split
  · refine builds_bind (l.body ["end"] [] c partsWithin_nil) (fun inner c' hi _ => ?_) hd
    exact builds_expect (within_block hd hi)
  split
  · exact builds_fail _ hd
  split
  · exact builds_fail _ hd
  · exact builds_pure (within_var hd) hd

theorem arms_succ (negated : Bool) (test : Expr) (found : List (Expr × List Expr)) (ht : TestWithin c.depth test)
    (hf : ArmsWithin c.depth found) : Builds (Within c.depth) (Calculator.arms negated (n + 1) test found) c := by
  intro hd
  refine builds_accept (fun _ c₁ h₁ => ?_) hd
  refine builds_bind (l.body _ [] c₁ partsWithin_nil) fun inner c₂ hi h₂ => builds_accept fun more c₃ h₃ => ?_
  rw [h₁] at hi
  have hcons : ArmsWithin c.depth ((test, inner) :: found) := List.forall_mem_cons.2 ⟨⟨ht, hi⟩, hf⟩
  have h : c₃.depth = c.depth := h₃.trans (h₂.trans h₁)
  split
  · refine builds_bind (l.statement c₃) fun next c₄ hn h₄ => ?_
    have h' : c₄.depth = c.depth := h₄.trans h
    exact h' ▸ l.arms negated next _ c₄ (h' ▸ h ▸ testWithin_of_within hn) (h' ▸ hcons)
  · refine builds_bind (l.alternative c₃) fun otherwise c₄ ho _ => builds_expect ?_
    rw [h] at ho
    exact within_choice hd (fun arm ha => hcons arm (List.mem_reverse.1 ha)) ho

theorem alternative_succ : Builds (fun otherwise => ∀ es, otherwise = some es → PartsWithin c.depth es)
    (Calculator.alternative (n + 1)) c := by
  refine builds_accept fun more c' hc => ?_
  split
  · refine hc ▸ builds_return (l.body _ [] c' partsWithin_nil) fun es hes es' heq => ?_
    exact Option.some.inj heq ▸ hes
  · exact builds_pure nofun

theorem body_succ (stop : List String) (found : List Expr) (hf : PartsWithin c.depth found) :
    Builds (PartsWithin c.depth) (Calculator.body stop (n + 1) found) c := by
  refine builds_skip fun c' hc => builds_rest ?_
  rw [← hc] at hf ⊢
  split
  · exact builds_pure hf.reverse
  · refine builds_bind (l.statement c') fun e c'' he hc' => builds_rest ?_
    have hcons : PartsWithin c''.depth (e :: found) := hc' ▸ hf.cons he
    rw [← hc']
    split
    · exact l.body _ _ c'' hcons
    · split
      · exact l.body _ _ c'' hcons
      · exact builds_fail _

end Levelled

/-- **Every rule builds within the limit**, whatever its allowance. -/
theorem levelled : ∀ n, Levelled n
  | 0 => by constructor <;> intros <;> first | exact builds_stall | trivial
  | n + 1 =>
    let l := levelled n
    { statement := l.statement_succ
      assignment := l.assignment_succ
      chain := fun t c => l.chain_succ c t
      operand := fun t c => l.operand_succ c t
      links := fun t left level c => l.links_succ c t left level
      unary := l.unary_succ
      primary := l.primary_succ
      items := fun found c => l.items_succ c found
      named := fun word c => l.named_succ c word
      arms := fun negated test found c => l.arms_succ c negated test found
      alternative := l.alternative_succ
      body := fun stop found c => l.body_succ c stop found }

/-- **The statements of a program are built at the first level.** -/
theorem within_of_parse {text : String} {statements : List Expr} (h : parse text = .ok statements) :
    PartsWithin 0 statements := by
  obtain ⟨tokens, -, hp⟩ := parse_eq_ok_iff.1 h
  obtain ⟨c, hc⟩ := parseTokens_eq_ok_iff.1 hp
  have hb : Builds (PartsWithin 0) (program (allowance tokens)) ⟨tokens, 0⟩ := by
    refine builds_bind ((levelled _).body [] [] ⟨tokens, 0⟩ partsWithin_nil) fun es c' hes _ => builds_rest ?_
    split
    · exact builds_pure hes
    · exact builds_fail _
  have hm := hb (Nat.zero_le _)
  rw [Meets, hc] at hm
  exact hm.1

/-- **What the nesting limit bounds, and what it does not**: every path of a program has fewer than `maxDepth` steps
that cost a level, and the program is no higher than the limit just when its paths with free steps are short of it as
well. -/
theorem height_le_maxDepth_iff {text : String} {statements : List Expr} (h : parse text = .ok statements) :
    (∀ e ∈ statements, ∀ path, e.Path path → path.count .level < maxDepth) ∧
      ((∀ e ∈ statements, e.height ≤ maxDepth) ↔
        ∀ e ∈ statements, ∀ path, e.Path path → .free ∈ path → path.length < maxDepth) := by
  have hlevel (e : Expr) (he : e ∈ statements) (path : List Charge) (hp : e.Path path) :
      path.count .level < maxDepth := within_of_parse h e he path hp
  refine ⟨hlevel, fun hh e he path hp _ => Expr.height_le_iff.1 (hh e he) path hp, fun hfree e he => ?_⟩
  refine Expr.height_le_iff.2 fun path hp => ?_
  by_cases hf : .free ∈ path
  · exact hfree e he path hp hf
  · -- Every step of such a path costs a level.
    have hall : path.count .level = path.length := by
      refine List.count_eq_length.2 fun charge hc => ?_
      cases charge with
      | level => rfl
      | free => exact absurd hc hf
    exact hall ▸ hlevel e he path hp

/-- **A negated condition and a left operand**, whose steps are free. -/
theorem height_le_maxDepth_iff_unless : ∃ statements, parse "unless 1 - 2 then x = -3 end" = .ok statements ∧
    (∀ e ∈ statements, ∀ path, e.Path path → path.count .level < maxDepth) ∧
      ((∀ e ∈ statements, e.height ≤ maxDepth) ↔
        ∀ e ∈ statements, ∀ path, e.Path path → .free ∈ path → path.length < maxDepth) := by
  obtain ⟨statements, h⟩ : ∃ statements, parse "unless 1 - 2 then x = -3 end" = .ok statements :=
    exists_of_isOk (by decide +kernel)
  exact ⟨statements, h, height_le_maxDepth_iff h⟩

/-- **A program higher than the limit**: a sum under as many signs as fit. -/
theorem exists_height_gt_maxDepth : ∃ statements,
    parse (String.ofList (List.replicate 127 '-') ++ "1+1") = .ok statements ∧
      ∃ e ∈ statements, maxDepth < e.height := by
  have hhigh : (parse (String.ofList (List.replicate 127 '-') ++ "1+1")).toOption.any
      (fun statements => statements.any fun e => decide (maxDepth < e.height)) = true := by decide +kernel
  cases h : parse (String.ofList (List.replicate 127 '-') ++ "1+1") with
  | error f =>
    rw [h] at hhigh
    exact absurd hhigh Bool.false_ne_true
  | ok statements =>
    rw [h] at hhigh
    obtain ⟨e, he, hlt⟩ := List.any_eq_true.1 hhigh
    exact ⟨statements, rfl, e, he, of_decide_eq_true hlt⟩

end LineShell.Calculator
