import LineShell.Proofs.Calculator.Rendering
/-!
# Precedence — how a chain of operators is grouped

A chain of atoms with operators between them and no brackets is split at the rightmost of its loosest operators, and so
are the two chains that this leaves.  The levels of the grammar, each with its own loop, come to the same tree
(`parse_chain`): the levels that a loop takes are no more than the operators it has read.
-/
namespace LineShell.Calculator

open Production

/-- **How tightly an operator binds**: the loosest not at all. -/
def BinOp.precedence : BinOp → Nat
  | or => 0
  | and => 1
  | eq | ne => 2
  | le | ge | lt | gt => 3
  | add | sub => 4
  | mul | div | rem => 5

/-- **A literal or a variable.** -/
inductive Atom where
  | int (n : Int64) (nonneg : 0 ≤ n.toInt)
  | var (name : String) (isVariable : IsVariable name)

namespace Atom

def token : Atom → Token
  | int n _ => .int n
  | var name _ => .ident name

def expr : Atom → Expr
  | int n _ => .lit (.int n)
  | var name _ => .var name

end Atom

/-- **Atoms with operators between them.** -/
structure Chain where
  first : Atom
  links : List (BinOp × Atom)

namespace Chain

def length (c : Chain) : Nat := c.links.length

def operators (c : Chain) : List BinOp := c.links.map Prod.fst

def tokens (c : Chain) : List Token := c.first.token :: c.links.flatMap fun link => [.symbol (.op link.1), link.2.token]

/-- **Two chains with an operator between them.** -/
def join (left : Chain) (o : BinOp) (right : Chain) : Chain :=
  ⟨left.first, left.links ++ (o, right.first) :: right.links⟩

/-- **A chain split at the rightmost of its loosest operators.** -/
structure Splits (c left : Chain) (o : BinOp) (right : Chain) : Prop where
  eq : c = left.join o right
  left : ∀ o' ∈ left.operators, o.precedence ≤ o'.precedence
  right : ∀ o' ∈ right.operators, o.precedence < o'.precedence

/-- **The tree of a chain**: an atom's, or that of the two chains it is split into. -/
inductive Groups : Chain → Expr → Prop
  | atom (a : Atom) : Groups ⟨a, []⟩ a.expr
  | split {c left o right l r} : c.Splits left o right → Groups left l → Groups right r → Groups c (.binary o l r)

/-- **A chain is parsed as a tree**: it can be written, and however it is written it is that program. -/
def ParsedAs (c : Chain) (e : Expr) : Prop :=
  (∃ text, scan text = .ok c.tokens) ∧ ∀ text, scan text = .ok c.tokens → parse text = .ok [e]

section Join

variable {left right : Chain} {o : BinOp}

theorem tokens_join : (left.join o right).tokens = left.tokens ++ .symbol (.op o) :: right.tokens := by
  simp [tokens, join]

theorem length_join : (left.join o right).length = left.length + right.length + 1 := by
  simp only [length, join, List.length_append, List.length_cons]
  omega

theorem operators_join : (left.join o right).operators = left.operators ++ o :: right.operators := by
  simp [operators, join]

end Join

/-! ### Splitting -/

theorem exists_loosest : ∀ {links : List (BinOp × Atom)}, links ≠ [] → ∃ before link after,
    links = before ++ link :: after ∧ (∀ l ∈ before, link.1.precedence ≤ l.1.precedence) ∧
      ∀ l ∈ after, link.1.precedence < l.1.precedence
  | [], h => absurd rfl h
  | first :: links, _ => by
    by_cases hl : links = []
    · subst hl
      exact ⟨[], first, [], rfl, by simp, by simp⟩
    · obtain ⟨before, link, after, rfl, hbefore, hafter⟩ := exists_loosest hl
      by_cases hle : link.1.precedence ≤ first.1.precedence
      · exact ⟨first :: before, link, after, rfl, List.forall_mem_cons.2 ⟨hle, hbefore⟩, hafter⟩
      · refine ⟨[], first, _, rfl, by simp, fun l hmem => ?_⟩
        rcases List.mem_append.1 hmem with h | h
        · have := hbefore l h
          omega
        · rcases List.mem_cons.1 h with rfl | h
          · omega
          · have := hafter l h
            omega

theorem exists_splits {c : Chain} (h : 1 ≤ c.length) : ∃ left o right, c.Splits left o right := by
  obtain ⟨first, links⟩ := c
  obtain ⟨before, ⟨o, a⟩, after, rfl, hbefore, hafter⟩ := exists_loosest (List.ne_nil_of_length_pos h)
  refine ⟨⟨first, before⟩, o, ⟨a, after⟩, rfl, fun o' ho => ?_, fun o' ho => ?_⟩
  · obtain ⟨l, hl, rfl⟩ := List.mem_map.1 ho
    exact hbefore l hl
  · obtain ⟨l, hl, rfl⟩ := List.mem_map.1 ho
    exact hafter l hl

theorem exists_groups (c : Chain) : ∃ e, c.Groups e := by
  by_cases h : 1 ≤ c.length
  · obtain ⟨left, o, right, hsplit⟩ := exists_splits h
    have hlength : c.length = left.length + right.length + 1 := hsplit.eq ▸ length_join
    obtain ⟨l, hl⟩ := exists_groups left
    obtain ⟨r, hr⟩ := exists_groups right
    exact ⟨_, .split hsplit hl hr⟩
  · obtain ⟨first, links⟩ := c
    obtain rfl : links = [] := List.eq_nil_of_length_eq_zero (by simp only [length] at h; omega)
    exact ⟨_, .atom first⟩
termination_by c.length

end Chain

/-! ### The levels of the grammar -/

theorem BinOp.precedence_add_height (o : BinOp) : o.precedence + o.tier.height = 6 := by cases o <;> rfl

theorem Tier.eq_of_height {t t' : Tier} (h : t.height = t'.height) : t = t' := by
  cases t <;> cases t' <;> simp [height] at h ⊢

variable {t : Tier} {c left right : Chain} {o : BinOp} {e l r : Expr}

/-- **A chain is an operand of a level** wherever no tighter operator follows, and there is room for its operators. -/
def IsOperand (t : Tier) (c : Chain) (e : Expr) : Prop :=
  ∀ d more, d + c.length ≤ maxDepth → (∀ t' : Tier, t'.height < t.height → Stops t' more) →
    Yields (operand t) ⟨c.tokens ++ more, d⟩ e ⟨more, d⟩

/-- **The loop of a level gathers a chain**: started on it, the loop comes to where it has the chain's tree, no deeper
than the chain has operators, and goes on from there. -/
def Gathers (t : Tier) (c : Chain) (e : Expr) : Prop :=
  ∀ d, d + c.length ≤ maxDepth → ∃ d', d' ≤ d + c.length ∧ ∀ more e' c',
    (∀ t' : Tier, t'.height < t.height → Stops t' more) → Yields (fun n => links t n e) ⟨more, d'⟩ e' c' →
      Yields (fun n => operand t n >>= links t n) ⟨c.tokens ++ more, d⟩ e' c'

theorem IsOperand.gathers (h : IsOperand t c e) : Gathers t c e := fun d hd =>
  ⟨d, Nat.le_add_right _ _, fun more _ _ hs hy => (h d more hd hs).bind hy⟩

theorem Gathers.yields_chain (h : Gathers t c e) {d : Nat} {more : List Token} (hd : d + c.length ≤ maxDepth)
    (hs : ∀ t' : Tier, t'.height ≤ t.height → Stops t' more) : Yields (chain t) ⟨c.tokens ++ more, d⟩ e ⟨more, d⟩ := by
  obtain ⟨d', -, hloop⟩ := h d hd
  have hopen := hloop more e ⟨more, d'⟩ (fun t' ht => hs t' (Nat.le_of_lt ht))
    (yields_links_of_stops (hs t (Nat.le_refl _)))
  refine Yields.succ ?_
  simp only [chain]
  exact yields_restored hopen

/-- **What a level gathers is an operand of every looser one.** -/
theorem Gathers.isOperand (h : Gathers t c e) {t' : Tier} (hlt : t.height < t'.height) : IsOperand t' c e := by
  intro d more hd hs
  cases ht : t'.tighter with
  | none =>
    have hone : t'.height = 1 := by
      cases t' <;> cases ht
      rfl
    have := t.height_pos
    omega
  | some t'' =>
    have hheight := Tier.height_tighter ht
    have hg : Gathers t'' c e := by
      by_cases heq : t''.height = t.height
      · rwa [Tier.eq_of_height heq]
      · exact (Gathers.isOperand h (by omega)).gathers
    exact yields_operand_of_chain ht (hg.yields_chain hd fun t₀ ht₀ => hs t₀ (by omega))
termination_by t'.height

/-- **One more operator of the level.** The chain behind it is one operand. -/
theorem Gathers.join (hl : Gathers o.tier left l) (hr : IsOperand o.tier right r) :
    Gathers o.tier (left.join o right) (.binary o l r) := by
  intro d hd
  rw [Chain.length_join] at hd
  obtain ⟨d', hle, hloop⟩ := hl d (by omega)
  refine ⟨d' + 1, by rw [Chain.length_join]; omega, fun more e' c' hs hy => ?_⟩
  rw [Chain.tokens_join, List.append_assoc]
  refine hloop _ e' c' (fun t' ht => stops_of_ne fun heq => ?_) (Yields.succ ?_)
  · rw [heq] at ht
    exact Nat.lt_irrefl _ ht
  · have hop : (Token.symbol (.op o)).binary? o.tier = some o := if_pos rfl
    simp only [links, List.cons_append]
    refine yields_rest ?_
    simp only [hop]
    have hright := hr (d' + 1) more (by omega) hs
    exact yields_resume (yields_descend (c := ⟨_, d'⟩) (by simp only; omega) (hright.bind hy))

theorem isOperand_atom (a : Atom) (t : Tier) : IsOperand t ⟨a, []⟩ a.expr := by
  intro d more _ hs
  refine yields_operand ?_ t hs
  cases a with
  | int n _ => exact yields_unary_int n
  | var name h => exact yields_unary_var h.2

/-- **A chain is gathered by every level that has all its operators**, and is an operand where all are tighter. -/
theorem Chain.Groups.gathers (h : c.Groups e) : ∀ t : Tier,
    ((∀ o ∈ c.operators, o.tier.height ≤ t.height) → Gathers t c e) ∧
      ((∀ o ∈ c.operators, o.tier.height < t.height) → IsOperand t c e) := by
  induction h with
  | atom a => exact fun t => ⟨fun _ => (isOperand_atom a t).gathers, fun _ => isOperand_atom a t⟩
  | @split c left o right l r hsplit _ _ ihl ihr =>
    obtain ⟨rfl, hleft, hright⟩ := hsplit
    have hroot : Gathers o.tier (left.join o right) (.binary o l r) := by
      refine .join ((ihl o.tier).1 fun o' ho => ?_) ((ihr o.tier).2 fun o' ho => ?_)
      · have := hleft o' ho
        have := o.precedence_add_height
        have := o'.precedence_add_height
        omega
      · have := hright o' ho
        have := o.precedence_add_height
        have := o'.precedence_add_height
        omega
    have hmem : o ∈ (left.join o right).operators := by simp [Chain.operators_join]
    refine fun t => ⟨fun h => ?_, fun h => hroot.isOperand (h o hmem)⟩
    by_cases heq : o.tier.height = t.height
    · rwa [← Tier.eq_of_height heq]
    · exact (hroot.isOperand (Nat.lt_of_le_of_ne (h o hmem) heq)).gathers

/-! ### Programs -/

namespace Chain

theorem noAssignment (c : Chain) : NoAssignment c.tokens := by
  intro name after h
  obtain ⟨first, _ | ⟨link, links⟩⟩ := c <;> simp [tokens] at h

theorem dropWhile_tokens (c : Chain) : c.tokens.dropWhile (· = .separator) = c.tokens :=
  List.dropWhile_cons_of_neg (by cases c.first <;> simp [Atom.token])

theorem not_closes (c : Chain) : ¬Closes [] c.tokens := by
  obtain ⟨first, links⟩ := c
  cases first <;> simp [Closes, tokens, Atom.token, atWord]

theorem isScanned (c : Chain) : ∀ token ∈ c.tokens, token.IsScanned := by
  have hatom : ∀ a : Atom, a.token.IsScanned
    | .int _ h => h
    | .var _ h => h.1
  refine List.forall_mem_cons.2 ⟨hatom _, fun token ht => ?_⟩
  obtain ⟨link, -, ht⟩ := List.mem_flatMap.1 ht
  rcases List.mem_cons.1 ht with rfl | ht
  · trivial
  · rw [List.mem_singleton.1 ht]
    exact hatom _

theorem Groups.parsedAs (h : c.Groups e) (hlength : c.length ≤ 127) : c.ParsedAs e := by
  refine ⟨⟨_, scan_write c.isScanned⟩, fun text hscan => parse_eq_ok_iff.2 ⟨_, hscan, ?_⟩⟩
  have hgathers : Gathers .or c e := (h.gathers .or).1 fun o _ => o.tier.height_pos.2
  have hchain : Yields (Calculator.chain .or) ⟨c.tokens ++ [], 1⟩ e ⟨[], 1⟩ :=
    hgathers.yields_chain (by unfold maxDepth; omega) fun _ _ => nofun
  rw [List.append_nil] at hchain
  have hstatement := yields_statement_of_chain (d := 0) (by decide) c.noAssignment hchain
  have hclose : Closes [] [] := rfl
  have hbody : Yields (fun n => body [] n []) ⟨c.tokens, 0⟩ [e] ⟨[], 0⟩ :=
    yields_body_next c.dropWhile_tokens c.not_closes hstatement (.inl hclose) (yields_body_done rfl hclose)
  exact parseTokens_of_yields hbody rfl

end Chain

/-- **Chains are grouped by precedence, and from the left.** A chain of up to 127 operators is one tree, with the
rightmost of the loosest operators at its root, what the chain to its left is parsed as on the left, and what the chain
to its right is parsed as on the right. -/
theorem parse_chain (c : Chain) (hsome : 1 ≤ c.length) (hlength : c.length ≤ 127) :
    (∃ left o right, c.Splits left o right) ∧ ∀ left o right, c.Splits left o right →
      ∃ l r, c.ParsedAs (.binary o l r) ∧ left.ParsedAs l ∧ right.ParsedAs r := by
  refine ⟨Chain.exists_splits hsome, fun left o right hsplit => ?_⟩
  have hsum : c.length = left.length + right.length + 1 := hsplit.eq ▸ Chain.length_join
  obtain ⟨l, hl⟩ := left.exists_groups
  obtain ⟨r, hr⟩ := right.exists_groups
  have hwhole : c.Groups (.binary o l r) := .split hsplit hl hr
  exact ⟨l, r, hwhole.parsedAs hlength, hl.parsedAs (by omega), hr.parsedAs (by omega)⟩

/-- **Two subtractions and a product**: the second subtraction is the root, and not the product. -/
theorem parse_chain_subtractions :
    let a : Atom := .var "a" ⟨by decide +kernel, by decide⟩
    let k (n : Int64) (h : 0 ≤ n.toInt) : Atom := .int n h
    let c : Chain := ⟨a, [(.sub, k 5 (by decide)), (.mul, a), (.sub, k 1 (by decide))]⟩
    let left : Chain := ⟨a, [(.sub, k 5 (by decide)), (.mul, a)]⟩
    1 ≤ c.length ∧ c.length ≤ 127 ∧ scan "a-5 *a -1" = .ok c.tokens ∧
      ∃ l, parse "a-5 *a -1" = .ok [.binary .sub l (.lit (.int 1))] ∧ left.ParsedAs l := by
  intro a k c left
  have hscan : scan "a-5 *a -1" = .ok c.tokens := scan_of_toOption (by decide +kernel)
  have hone : (⟨k 1 (by decide), []⟩ : Chain).ParsedAs (.lit (.int 1)) :=
    (Chain.Groups.atom (k 1 (by decide))).parsedAs (by decide)
  obtain ⟨l, r, hwhole, hleft, hright⟩ := (parse_chain c (by decide) (by decide)).2 left .sub ⟨k 1 (by decide), []⟩
    ⟨rfl, by decide, by decide⟩
  obtain ⟨⟨text, htext⟩, hparse⟩ := hone
  have hr : r = .lit (.int 1) := by
    have hsame := (hright.2 text htext).symm.trans (hparse text htext)
    simpa using hsame
  exact ⟨by decide, by decide, hscan, l, hr ▸ hwhole.2 _ hscan, hleft⟩

end LineShell.Calculator
