import LineShell.Proofs.Calculator.Phrase
/-!
# Traversal — nothing is lost between the tokens and the trees

The leaves and operators of the trees of a program, from left to right, are its tokens less the marks that only show
where a part begins or ends (`traversal_of_parse`).
-/
namespace LineShell.Calculator

mutual

/-- **The leaves and operators of a tree**, in order, as the tokens that write them. -/
def Expr.traversal : Expr → List Token
  | .lit v => literalTokens v
  | .var name => [.ident name]
  | .assign name value => .ident name :: .symbol .assign :: value.traversal
  | .array items => traversalAll items
  | .unary op operand => op.token :: operand.traversal
  | .binary op left right => left.traversal ++ .symbol (.op op) :: right.traversal
  | .choice arms none => traversalArms arms
  | .choice arms (some otherwise) => traversalArms arms ++ traversalAll otherwise
  | .block body => traversalAll body

def traversalAll : List Expr → List Token
  | [] => []
  | e :: rest => e.traversal ++ traversalAll rest

def traversalArms : List (Expr × List Expr) → List Token
  | [] => []
  | (test, body) :: rest => test.traversal ++ (traversalAll body ++ traversalArms rest)

end

/-- **The words that only show where a part begins or ends.** -/
def structuralWords : List String := ["if", "elsif", "else", "then", "begin", "end"]

/-- **What a token leaves in the tree**, if anything: brackets, commas, separators and structural words nothing, an
`unless` a negation, and any other token itself. -/
def Token.kept? : Token → Option Token
  | .separator | .symbol .openRound | .symbol .closeRound | .symbol .openSquare | .symbol .closeSquare
  | .symbol .comma => none
  | .ident word =>
    if structuralWords.contains word then none
    else if word = "unless" then some (.symbol .bang)
    else some (.ident word)
  | token => some token

/-- **The leaves and operators of a phrase.** -/
def Phrase.traversal : Phrase → List Token
  | expr e => e.traversal
  | items es | statements es => traversalAll es
  | remainder inner arms otherwise => traversalAll inner ++ (traversalArms arms ++ traversalAll (otherwise.getD []))
  | alternative otherwise => traversalAll (otherwise.getD [])

theorem traversal_choice (arms : List (Expr × List Expr)) (otherwise : Option (List Expr)) :
    (Expr.choice arms otherwise).traversal = traversalArms arms ++ traversalAll (otherwise.getD []) := by
  cases otherwise with
  | none => exact (List.append_nil _).symm
  | some body => rfl

/-- **A name that is not reserved is kept.** -/
theorem kept?_name {name : String} (h : ¬reservedWords.contains name) :
    (Token.ident name).kept? = some (.ident name) := by
  have hsub : ∀ word ∈ structuralWords, word ∈ reservedWords := by decide
  have hstructural : ¬structuralWords.contains name := fun hs =>
    h (List.contains_iff_mem.2 (hsub name (List.contains_iff_mem.1 hs)))
  have hunless : name ≠ "unless" := by
    rintro rfl
    exact h (by decide)
  rw [Token.kept?, if_neg hstructural, if_neg hunless]

theorem kept?_unary (op : UnOp) : op.token.kept? = some op.token := by cases op <;> rfl

/-- **The tokens that write a phrase keep its leaves and operators**, in their order, and nothing else. -/
theorem traversal_of_writes {p : Phrase} {tokens : List Token} (h : Writes p tokens) :
    tokens.filterMap Token.kept? = p.traversal := by
  induction h with
  | int n => rfl
  | nil | true | false => rfl
  | var hn => rw [List.filterMap_cons_some (kept?_name hn)]; rfl
  | assign hn _ ih =>
    have hassign : (Token.symbol .assign).kept? = some (.symbol .assign) := rfl
    rw [List.filterMap_cons_some (kept?_name hn), List.filterMap_cons_some hassign, ih]
    rfl
  | round _ ih => rw [List.filterMap_cons_none rfl, List.filterMap_append, ih]; exact List.append_nil _
  | array _ ih => rw [List.filterMap_cons_none rfl, List.filterMap_append, ih]; exact List.append_nil _
  | unary _ ih => rw [List.filterMap_cons_some (kept?_unary _), ih]; rfl
  | @binary op _ _ _ _ _ _ ih ih' =>
    have hop : (Token.symbol (.op op)).kept? = some (.symbol (.op op)) := rfl
    rw [List.filterMap_append, List.filterMap_cons_some hop, ih, ih']
    rfl
  | choice _ _ ih ih' =>
    rw [List.filterMap_cons_none rfl, List.filterMap_append, ih, ih']
    simp only [Phrase.traversal, traversal_choice, traversalArms, List.append_assoc]
  | negated _ _ ih ih' =>
    -- The negation stands where the word stood.
    have hunless : (Token.ident "unless").kept? = some (.symbol .bang) := rfl
    rw [List.filterMap_cons_some hunless, List.filterMap_append, ih, ih']
    simp only [Phrase.traversal, traversal_choice, traversalArms, Expr.traversal, UnOp.token, List.append_assoc,
      List.cons_append]
  | block _ ih => rw [List.filterMap_cons_none rfl, List.filterMap_append, ih]; exact List.append_nil _
  | noItem => rfl
  | lastItem _ ih => rw [ih]; exact (List.append_nil _).symm
  | item _ _ ih ih' => rw [List.filterMap_append, List.filterMap_cons_none rfl, ih, ih']; rfl
  | noStatement => rfl
  | separator _ ih => rw [List.filterMap_cons_none rfl, ih]
  | statement _ _ ih ih' => rw [List.filterMap_append, ih, ih']; rfl
  | mark _ ih => rw [List.filterMap_cons_none rfl, ih]
  | lastArm _ _ ih ih' =>
    rw [List.filterMap_append, List.filterMap_append, ih, ih']
    simp only [Phrase.traversal, traversalArms, List.nil_append]
    exact congrArg _ (List.append_nil _)
  | arm _ _ _ ih ih' ih'' =>
    rw [List.filterMap_append, List.filterMap_cons_none rfl, List.filterMap_append, ih, ih', ih'']
    simp only [Phrase.traversal, traversalArms, List.append_assoc]
  | noAlternative => rfl
  | alternative _ ih => rw [List.filterMap_cons_none rfl, ih]; rfl

/-- **Nothing is lost, doubled or moved**: the leaves and operators of a program's trees, in order, are the tokens of
its text less its brackets, commas, separators and structural words, with a negation for every `unless`. -/
theorem traversal_of_parse {text : String} {statements : List Expr} (h : parse text = .ok statements) :
    ∃ tokens, scan text = .ok tokens ∧ traversalAll statements = tokens.filterMap Token.kept? := by
  obtain ⟨tokens, hscan, hparse⟩ := parse_eq_ok_iff.1 h
  exact ⟨tokens, hscan, (traversal_of_writes (writes_of_parseTokens hparse)).symm⟩

/-- **A trailing comma, an optional mark, further arms and a negated choice.** -/
theorem traversal_of_parse_choices : ∃ statements,
    parse "if a then x = [1, (-2),]\nelsif true; nil else begin b + 1 end end; unless c end" = .ok statements ∧
      ∃ tokens, scan "if a then x = [1, (-2),]\nelsif true; nil else begin b + 1 end end; unless c end" = .ok tokens ∧
        traversalAll statements = tokens.filterMap Token.kept? := by
  obtain ⟨statements, h⟩ : ∃ statements,
      parse "if a then x = [1, (-2),]\nelsif true; nil else begin b + 1 end end; unless c end" = .ok statements :=
    exists_of_isOk (by decide +kernel)
  exact ⟨statements, h, traversal_of_parse h⟩

end LineShell.Calculator
