import LineShell.Proofs.Calculator.Phrase
import LineShell.Proofs.Calculator.Spelling
/-!
# Subtree — the expressions in a tree, and the names that a program uses

A program uses a name where it reads or binds one.  The names it uses are the names among its tokens, without the
reserved words and in the same order (`names_of_writes`).
-/
namespace LineShell.Calculator

mutual

/-- **The expressions in a tree**, each before its parts, and the parts from left to right. -/
def Expr.subtrees : Expr → List Expr
  | .lit v => [.lit v]
  | .var name => [.var name]
  | .assign name value => .assign name value :: value.subtrees
  | .array items => .array items :: subtreesAll items
  | .unary op operand => .unary op operand :: operand.subtrees
  | .binary op left right => .binary op left right :: (left.subtrees ++ right.subtrees)
  | .choice arms none => .choice arms none :: subtreesArms arms
  | .choice arms (some otherwise) => .choice arms (some otherwise) :: (subtreesArms arms ++ subtreesAll otherwise)
  | .block body => .block body :: subtreesAll body

def subtreesAll : List Expr → List Expr
  | [] => []
  | e :: rest => e.subtrees ++ subtreesAll rest

def subtreesArms : List (Expr × List Expr) → List Expr
  | [] => []
  | (test, body) :: rest => test.subtrees ++ (subtreesAll body ++ subtreesArms rest)

end

theorem subtreesAll_append (before after : List Expr) :
    subtreesAll (before ++ after) = subtreesAll before ++ subtreesAll after := by
  induction before with
  | nil => rfl
  | cons e rest ih => rw [List.cons_append, subtreesAll, subtreesAll, ih, List.append_assoc]

theorem subtrees_choice (arms : List (Expr × List Expr)) (otherwise : Option (List Expr)) :
    (Expr.choice arms otherwise).subtrees =
      .choice arms otherwise :: (subtreesArms arms ++ subtreesAll (otherwise.getD [])) := by
  cases otherwise with
  | none => exact congrArg _ (List.append_nil _).symm
  | some body => rfl

/-- **The name that an expression reads or binds** itself, its parts apart. -/
def Expr.name? : Expr → Option String
  | .var name | .assign name _ => some name
  | _ => none

/-! ## The names of a program are its tokens' -/

/-- **The expressions in the trees of a phrase.** -/
def Phrase.subtrees : Phrase → List Expr
  | expr e => e.subtrees
  | items es | statements es => subtreesAll es
  | remainder inner arms otherwise => subtreesAll inner ++ (subtreesArms arms ++ subtreesAll (otherwise.getD []))
  | alternative otherwise => subtreesAll (otherwise.getD [])

def Phrase.names (p : Phrase) : List String := p.subtrees.filterMap Expr.name?

/-- **The names among tokens that are not reserved**, in order. -/
def unreserved (tokens : List Token) : List String := (names tokens).filter fun name => !reservedWords.contains name

section Unreserved

variable {name : String} {before after : List Token}

theorem unreserved_append : unreserved (before ++ after) = unreserved before ++ unreserved after := by
  rw [unreserved, names, List.filterMap_append, List.filter_append]
  rfl

theorem unreserved_cons_name (h : ¬reservedWords.contains name) :
    unreserved (.ident name :: after) = name :: unreserved after := List.filter_cons_of_pos (by simpa using h)

theorem unreserved_cons_reserved (h : reservedWords.contains name = true) :
    unreserved (.ident name :: after) = unreserved after := List.filter_cons_of_neg (by simpa using h)

theorem unreserved_cons_unary (op : UnOp) : unreserved (op.token :: after) = unreserved after := by cases op <;> rfl

theorem unreserved_concat_symbol (s : Symbol) : unreserved (before ++ [.symbol s]) = unreserved before := by
  rw [unreserved_append]
  exact List.append_nil _

end Unreserved

/-- **The tokens that write a phrase name its variables**, in their order, and nothing else but reserved words. -/
theorem names_of_writes {p : Phrase} {tokens : List Token} (h : Writes p tokens) : p.names = unreserved tokens := by
  induction h with
  | int | nil | true | false | noItem | noStatement | noAlternative => rfl
  | var hn =>
    rw [unreserved_cons_name hn]
    rfl
  | assign hn _ ih =>
    rw [unreserved_cons_name hn]
    exact congrArg _ ih
  | round _ ih | array _ ih => exact ih.trans (unreserved_concat_symbol _).symm
  | unary _ ih =>
    rw [unreserved_cons_unary]
    exact ih
  | binary _ _ ih ih' | item _ _ ih ih' | statement _ _ ih ih' =>
    rw [unreserved_append]
    exact (List.filterMap_append ..).trans (congr (congrArg _ ih) ih')
  | choice _ _ ih ih' =>
    rw [unreserved_cons_reserved (by decide), unreserved_append, ← ih, ← ih']
    simp only [Phrase.names, Phrase.subtrees, subtrees_choice, subtreesArms, List.append_assoc,
      ← List.filterMap_append]
    exact List.filterMap_cons_none rfl
  | negated _ _ ih ih' =>
    -- The word stands for two expressions, the choice and the negation, and neither has a name.
    rw [unreserved_cons_reserved (by decide), unreserved_append, ← ih, ← ih']
    simp only [Phrase.names, Phrase.subtrees, subtrees_choice, subtreesArms, Expr.subtrees, List.append_assoc,
      ← List.filterMap_append, List.cons_append]
    exact (List.filterMap_cons_none rfl).trans (List.filterMap_cons_none rfl)
  | block _ ih =>
    rw [unreserved_cons_reserved (by decide), unreserved_append, unreserved_cons_reserved (by decide), ← ih]
    exact (List.append_nil _).symm
  | lastItem _ ih =>
    rw [← ih, Phrase.names, Phrase.subtrees, subtreesAll, subtreesAll, List.append_nil]
    rfl
  | separator _ ih => exact ih
  | mark _ ih | alternative _ ih =>
    rw [unreserved_cons_reserved (by decide)]
    exact ih
  | lastArm _ _ ih ih' =>
    rw [unreserved_append, unreserved_append, unreserved_cons_reserved (by decide), ← ih, ← ih']
    simp only [Phrase.names, Phrase.subtrees, subtreesArms, List.nil_append, List.filterMap_append]
    exact congrArg _ (List.append_nil _).symm
  | arm _ _ _ ih ih' ih'' =>
    rw [unreserved_append, unreserved_cons_reserved (by decide), unreserved_append, ← ih, ← ih', ← ih'']
    simp only [Phrase.names, Phrase.subtrees, subtreesArms, List.append_assoc, List.filterMap_append]

/-- **A name that a program uses is a name among its tokens**, and not reserved. -/
theorem mem_unreserved_of_parse {text : String} {statements : List Expr} (h : parse text = .ok statements) :
    ∃ tokens, scan text = .ok tokens ∧
      ∀ e ∈ subtreesAll statements, ∀ name ∈ e.name?, name ∈ unreserved tokens := by
  obtain ⟨tokens, hscan, hparse⟩ := parse_eq_ok_iff.1 h
  refine ⟨tokens, hscan, fun e he name hname => ?_⟩
  rw [← names_of_writes (writes_of_parseTokens hparse)]
  exact List.mem_filterMap.2 ⟨e, he, hname⟩

theorem mem_unreserved_iff {tokens : List Token} {name : String} :
    name ∈ unreserved tokens ↔ .ident name ∈ tokens ∧ ¬reservedWords.contains name := by
  have hnames : name ∈ names tokens ↔ .ident name ∈ tokens := by
    rw [names, List.mem_filterMap]
    constructor
    · rintro ⟨token, ht, hn⟩
      cases token <;> cases hn
      exact ht
    · exact fun h => ⟨_, h, rfl⟩
  rw [unreserved, List.mem_filter, hnames, Bool.not_eq_true', Bool.eq_false_iff]

end LineShell.Calculator
