import LineShell.Proofs.Calculator.Height
import LineShell.Proofs.Calculator.Phrase
import LineShell.Proofs.Calculator.Reading
import LineShell.Proofs.Calculator.Writing
/-!
# Rendering — the trees that programs are, and their canonical text

Every tree of a program is well formed (`wellFormed_of_parse`), and well-formed trees can be rendered: as text whose
tokens are the trees' own (`scan_render`), with the parts of a tree apart from one another by marks.
-/
namespace LineShell.Calculator

/-- **A name that a variable can have.** -/
def IsVariable (name : String) : Prop := isName name = true ∧ ¬reservedWords.contains name

/-- **A well-formed tree.** Its literals are `nil`, booleans and integers without a sign, its names are names of
variables, and its choices have arms. -/
inductive Expr.WellFormed : Expr → Prop
  | nil : WellFormed (.lit .nil)
  | bool (b : Bool) : WellFormed (.lit (.bool b))
  | int {n : Int64} : 0 ≤ n.toInt → WellFormed (.lit (.int n))
  | var {name} : IsVariable name → WellFormed (.var name)
  | assign {name value} : IsVariable name → WellFormed value → WellFormed (.assign name value)
  | array {items} : (∀ e ∈ items, WellFormed e) → WellFormed (.array items)
  | unary {op operand} : WellFormed operand → WellFormed (.unary op operand)
  | binary {op left right} : WellFormed left → WellFormed right → WellFormed (.binary op left right)
  | choice {arms otherwise} : arms ≠ [] → (∀ arm ∈ arms, WellFormed arm.1) →
      (∀ arm ∈ arms, ∀ e ∈ arm.2, WellFormed e) → (∀ body ∈ otherwise, ∀ e ∈ body, WellFormed e) →
      WellFormed (.choice arms otherwise)
  | block {body} : (∀ e ∈ body, WellFormed e) → WellFormed (.block body)

/-! ## Programs are well formed -/

def AllWellFormed (es : List Expr) : Prop := ∀ e ∈ es, e.WellFormed

/-- **A well-formed phrase**: all its trees are. -/
def Phrase.WellFormed : Phrase → Prop
  | expr e => e.WellFormed
  | items es | statements es => AllWellFormed es
  | remainder inner arms otherwise =>
    AllWellFormed inner ∧ (∀ arm ∈ arms, arm.1.WellFormed ∧ AllWellFormed arm.2) ∧
      ∀ body ∈ otherwise, AllWellFormed body
  | alternative otherwise => ∀ body ∈ otherwise, AllWellFormed body

theorem wellFormed_choice {test : Expr} {inner : List Expr} {arms : List (Expr × List Expr)}
    {otherwise : Option (List Expr)} (ht : test.WellFormed) (h : (Phrase.remainder inner arms otherwise).WellFormed) :
    (Expr.choice ((test, inner) :: arms) otherwise).WellFormed := by
  obtain ⟨hinner, harms, ho⟩ := h
  refine .choice (List.cons_ne_nil _ _) ?_ ?_ ho
  · exact List.forall_mem_cons.2 ⟨ht, fun arm ha => (harms arm ha).1⟩
  · exact List.forall_mem_cons.2 ⟨hinner, fun arm ha => (harms arm ha).2⟩

/-- **Tokens of a text write well-formed phrases** only. -/
theorem wellFormed_of_writes {p : Phrase} {tokens : List Token} (h : Writes p tokens)
    (ht : ∀ token ∈ tokens, token.IsScanned) : p.WellFormed := by
  have hcons {token : Token} {tokens : List Token} (h : ∀ t ∈ token :: tokens, t.IsScanned) :
      token.IsScanned ∧ ∀ t ∈ tokens, t.IsScanned := List.forall_mem_cons.1 h
  have happend {before after : List Token} (h : ∀ t ∈ before ++ after, t.IsScanned) :
      (∀ t ∈ before, t.IsScanned) ∧ ∀ t ∈ after, t.IsScanned := List.forall_mem_append.1 h
  induction h with
  | int n => exact .int (hcons ht).1
  | nil => exact .nil
  | true | false => exact .bool _
  | var hn => exact .var ⟨(hcons ht).1, hn⟩
  | assign hn _ ih => exact .assign ⟨(hcons ht).1, hn⟩ (ih (hcons (hcons ht).2).2)
  | round _ ih => exact ih (happend (hcons ht).2).1
  | array _ ih => exact .array (ih (happend (hcons ht).2).1)
  | unary _ ih => exact .unary (ih (hcons ht).2)
  | binary _ _ ih ih' => exact .binary (ih (happend ht).1) (ih' (hcons (happend ht).2).2)
  | choice _ _ ih ih' =>
    obtain ⟨hbefore, hafter⟩ := happend (hcons ht).2
    exact wellFormed_choice (ih hbefore) (ih' hafter)
  | negated _ _ ih ih' =>
    obtain ⟨hbefore, hafter⟩ := happend (hcons ht).2
    exact wellFormed_choice (.unary (ih hbefore)) (ih' hafter)
  | block _ ih => exact .block (ih (happend (hcons ht).2).1)
  | noItem | noStatement => exact List.forall_mem_nil _
  | lastItem _ ih => exact List.forall_mem_singleton.2 (ih ht)
  | item _ _ ih ih' => exact List.forall_mem_cons.2 ⟨ih (happend ht).1, ih' (hcons (happend ht).2).2⟩
  | statement _ _ ih ih' => exact List.forall_mem_cons.2 ⟨ih (happend ht).1, ih' (happend ht).2⟩
  | separator _ ih | mark _ ih => exact ih (hcons ht).2
  | lastArm _ _ ih ih' =>
    obtain ⟨hbefore, hafter⟩ := happend ht
    exact ⟨ih hbefore, List.forall_mem_nil _, ih' (happend hafter).1⟩
  | arm _ _ _ ih ih' ih'' =>
    obtain ⟨hbefore, hrest⟩ := happend ht
    obtain ⟨hmiddle, hafter⟩ := happend (hcons hrest).2
    obtain ⟨hnext, harms, ho⟩ := ih'' hafter
    exact ⟨ih hbefore, List.forall_mem_cons.2 ⟨⟨ih' hmiddle, hnext⟩, harms⟩, ho⟩
  | noAlternative => nofun
  | alternative _ ih =>
    rintro _ ⟨⟩
    exact ih (hcons ht).2

/-- **Every tree of a program is well formed.** -/
theorem wellFormed_of_parse {text : String} {statements : List Expr} (h : parse text = .ok statements) :
    AllWellFormed statements := by
  obtain ⟨tokens, hscan, hparse⟩ := parse_eq_ok_iff.1 h
  exact wellFormed_of_writes (writes_of_parseTokens hparse) (isScanned_of_scan hscan)

/-! ## Renderings -/

/-- **Tokens in round brackets.** -/
def round (tokens : List Token) : List Token := .symbol .openRound :: (tokens ++ [.symbol .closeRound])

mutual

/-- **The tokens that render a tree.** Operands and assigned values stand in brackets, items have a comma between them
and statements a separator, and a condition ends with a separator. -/
def Expr.tokens : Expr → List Token
  | .lit v => literalTokens v
  | .var name => [.ident name]
  | .assign name value => .ident name :: .symbol .assign :: round value.tokens
  | .array items => .symbol .openSquare :: (tokensBetween (.symbol .comma) items ++ [.symbol .closeSquare])
  | .unary op operand => op.token :: round operand.tokens
  | .binary op left right => round left.tokens ++ .symbol (.op op) :: round right.tokens
  | .choice arms otherwise => armTokens "if" arms ++ (alternativeTokens otherwise ++ [.ident "end"])
  | .block body => .ident "begin" :: (tokensBetween .separator body ++ [.ident "end"])

def tokensBetween (between : Token) : List Expr → List Token
  | [] => []
  | [e] => e.tokens
  | e :: next :: rest => e.tokens ++ between :: tokensBetween between (next :: rest)

/-- **The arms of a choice**, the first of which starts with `word`. -/
def armTokens (word : String) : List (Expr × List Expr) → List Token
  | [] => []
  | (test, body) :: rest =>
    .ident word :: (test.tokens ++ .separator :: (tokensBetween .separator body ++ armTokens "elsif" rest))

def alternativeTokens : Option (List Expr) → List Token
  | none => []
  | some body => .ident "else" :: tokensBetween .separator body

end

/-- **Trees rendered**, one statement each. -/
def render (statements : List Expr) : String := write (tokensBetween .separator statements)

/-- **Whether a rendered tree can start with a token.** None that does ends what it stands in. -/
def Token.isFirst : Token → Bool
  | .int _ | .symbol (.op _) | .symbol .bang | .symbol .openRound | .symbol .openSquare => true
  | .ident name => !(["elsif", "else", "end"].contains name)
  | .symbol .assign | .symbol .closeRound | .symbol .closeSquare | .symbol .comma | .separator => false

theorem isFirst_variable {name : String} (h : IsVariable name) : (Token.ident name).isFirst = true := by
  have hsub : ∀ word ∈ ["elsif", "else", "end"], word ∈ reservedWords := by decide
  have hnot : ["elsif", "else", "end"].contains name = false := Bool.eq_false_iff.2 fun hc =>
    h.2 (List.contains_iff_mem.2 (hsub name (List.contains_iff_mem.1 hc)))
  rw [Token.isFirst, hnot]
  rfl

theorem Expr.WellFormed.exists_first {e : Expr} (h : e.WellFormed) :
    ∃ token after, e.tokens = token :: after ∧ token.isFirst = true := by
  cases h with
  | nil => exact ⟨_, _, rfl, by decide⟩
  | bool b => cases b <;> exact ⟨_, _, rfl, by decide⟩
  | int => exact ⟨_, _, rfl, rfl⟩
  | var hn | assign hn => exact ⟨_, _, rfl, isFirst_variable hn⟩
  | array | binary => exact ⟨_, _, rfl, rfl⟩
  | @unary op => cases op <;> exact ⟨_, _, rfl, rfl⟩
  | @choice arms _ hne =>
    obtain ⟨arm, rest, rfl⟩ := List.exists_cons_of_ne_nil hne
    exact ⟨_, _, rfl, by decide⟩
  | block => exact ⟨_, _, rfl, by decide⟩

/-- **The tokens of trees** are those of the first, and of the others behind a token if there are others. -/
theorem exists_tokensBetween_cons (between : Token) (e : Expr) (es : List Expr) :
    ∃ lead, (lead = [] ∧ es = [] ∨ lead = [between]) ∧
      tokensBetween between (e :: es) = e.tokens ++ (lead ++ tokensBetween between es) := by
  cases es with
  | nil => exact ⟨[], .inl ⟨rfl, rfl⟩, (List.append_nil _).symm⟩
  | cons next rest => exact ⟨[between], .inr rfl, rfl⟩

section Parts

variable {P : Token → Prop} {between : Token} {arms : List (Expr × List Expr)} {word : String}

theorem forall_mem_tokensBetween (hb : P between) : ∀ {es : List Expr}, (∀ e ∈ es, ∀ token ∈ e.tokens, P token) →
    ∀ token ∈ tokensBetween between es, P token
  | [], _ => List.forall_mem_nil _
  | [e], h => h e (List.mem_singleton_self e)
  | _ :: _ :: _, h => by
    obtain ⟨he, hrest⟩ := List.forall_mem_cons.1 h
    exact List.forall_mem_append.2 ⟨he, List.forall_mem_cons.2 ⟨hb, forall_mem_tokensBetween hb hrest⟩⟩

theorem forall_mem_armTokens (hs : P .separator) (hw : P (.ident word)) (he : P (.ident "elsif"))
    (ht : ∀ arm ∈ arms, ∀ token ∈ arm.1.tokens, P token) (hb : ∀ arm ∈ arms, ∀ e ∈ arm.2, ∀ token ∈ e.tokens, P token) :
    ∀ token ∈ armTokens word arms, P token := by
  induction arms generalizing word with
  | nil => exact List.forall_mem_nil _
  | cons arm rest ih =>
    obtain ⟨htest, hts⟩ := List.forall_mem_cons.1 ht
    obtain ⟨hbody, hbs⟩ := List.forall_mem_cons.1 hb
    have hrest := List.forall_mem_append.2 ⟨forall_mem_tokensBetween hs hbody, ih he hts hbs⟩
    exact List.forall_mem_cons.2 ⟨hw, List.forall_mem_append.2 ⟨htest, List.forall_mem_cons.2 ⟨hs, hrest⟩⟩⟩

theorem forall_mem_round {tokens : List Token} (ho : P (.symbol .openRound)) (hc : P (.symbol .closeRound))
    (h : ∀ token ∈ tokens, P token) : ∀ token ∈ round tokens, P token :=
  List.forall_mem_cons.2 ⟨ho, List.forall_mem_append.2 ⟨h, List.forall_mem_singleton.2 hc⟩⟩

end Parts

/-- **The tokens of a well-formed tree** are tokens that the scan can find. -/
theorem Expr.WellFormed.isScanned {e : Expr} (h : e.WellFormed) : ∀ token ∈ e.tokens, token.IsScanned := by
  have hword (word : String) (hw : isName word = true) : (Token.ident word).IsScanned := hw
  have hround {tokens : List Token} (h : ∀ token ∈ tokens, token.IsScanned) : ∀ token ∈ round tokens, token.IsScanned :=
    forall_mem_round trivial trivial h
  have hbetween {es : List Expr} (between : Token) (hb : between.IsScanned)
      (h : ∀ e ∈ es, ∀ token ∈ e.tokens, token.IsScanned) : ∀ token ∈ tokensBetween between es, token.IsScanned :=
    forall_mem_tokensBetween hb h
  have hend := List.forall_mem_singleton.2 (hword "end" (by decide +kernel))
  induction h with
  | nil => exact List.forall_mem_singleton.2 (hword "nil" (by decide +kernel))
  | bool b =>
    cases b with
    | false => exact List.forall_mem_singleton.2 (hword "false" (by decide +kernel))
    | true => exact List.forall_mem_singleton.2 (hword "true" (by decide +kernel))
  | int hn => exact List.forall_mem_singleton.2 hn
  | var hn => exact List.forall_mem_singleton.2 (hword _ hn.1)
  | assign hn _ ih => exact List.forall_mem_cons.2 ⟨hword _ hn.1, List.forall_mem_cons.2 ⟨trivial, hround ih⟩⟩
  | array _ ih =>
    have hclose : (Token.symbol .closeSquare).IsScanned := trivial
    have hitems := hbetween (.symbol .comma) trivial ih
    exact List.forall_mem_cons.2 ⟨trivial, List.forall_mem_append.2 ⟨hitems, List.forall_mem_singleton.2 hclose⟩⟩
  | @unary op _ _ ih => exact List.forall_mem_cons.2 ⟨by cases op <;> trivial, hround ih⟩
  | binary _ _ ih ih' => exact List.forall_mem_append.2 ⟨hround ih, List.forall_mem_cons.2 ⟨trivial, hround ih'⟩⟩
  | @choice arms otherwise _ _ _ _ iht ihb iho =>
    have hif := hword "if" (by decide +kernel)
    have helsif := hword "elsif" (by decide +kernel)
    refine List.forall_mem_append.2 ⟨forall_mem_armTokens trivial hif helsif iht ihb, ?_⟩
    refine List.forall_mem_append.2 ⟨?_, hend⟩
    cases otherwise with
    | none => exact List.forall_mem_nil _
    | some body =>
      exact List.forall_mem_cons.2 ⟨hword "else" (by decide +kernel), hbetween .separator trivial (iho body rfl)⟩
  | block _ ih =>
    have hbody := List.forall_mem_append.2 ⟨hbetween .separator trivial ih, hend⟩
    exact List.forall_mem_cons.2 ⟨hword "begin" (by decide +kernel), hbody⟩

/-- **A rendering is scanned as its tokens.** -/
theorem scan_render {statements : List Expr} (h : AllWellFormed statements) :
    scan (render statements) = .ok (tokensBetween .separator statements) :=
  scan_write (forall_mem_tokensBetween trivial fun e he => (h e he).isScanned)

end LineShell.Calculator
