import LineShell.Calculator.Expr
import LineShell.Calculator.Production
/-!
# Grammar — the rules of the language

Each rule is a function of an allowance of calls, and every call that it makes has one less.  An allowance in proportion
to the tokens left is never used up (`progress`), so what a rule answers is about the tokens alone.
-/
namespace LineShell.Calculator

open Production

/-- **The words with a fixed meaning.** None of them names a variable. -/
def reservedWords : List String :=
  ["if", "elsif", "else", "unless", "then", "end", "begin", "true", "false", "nil", "class", "module", "def", "do"]

/-- **The constructs that are recognised and not evaluated.** -/
def unsupportedWords : List String := ["class", "module", "def", "do"]

/-- **Whether the next token is one of the words.** -/
def atWord (words : List String) : List Token → Bool
  | .ident name :: _ => words.contains name
  | _ => false

/-- **The unary operator that a token writes.** -/
def Token.unary? : Token → Option UnOp
  | .symbol (.op .sub) => some .neg
  | .symbol .bang => some .not
  | _ => none

/-- **The binary operator of a level that a token writes.** -/
def Token.binary? (t : Tier) : Token → Option BinOp
  | .symbol (.op o) => if o.tier = t then some o else none
  | _ => none

mutual

/-- **A statement**, a level deeper than what it stands in. -/
def statement : Nat → Production Expr
  | 0 => stall
  | n + 1 => nested (assignment n)

/-- **An assignment, or any other expression.** A name and an equals sign make an assignment. -/
def assignment : Nat → Production Expr
  | 0 => stall
  | n + 1 => do
    match ← rest with
    | .ident name :: .symbol .assign :: after =>
      if reservedWords.contains name then fail (.reserved name)
      else
        resume after
        return .assign name (← statement n)
    | _ => chain .or n

/-- **Operands of one level and the operators between them.** -/
def chain (t : Tier) : Nat → Production Expr
  | 0 => stall
  | n + 1 => restored do links t n (← operand t n)

/-- **An operand of a level**: a chain of the next tighter level, or a unary expression. -/
def operand (t : Tier) : Nat → Production Expr
  | 0 => stall
  | n + 1 =>
    match t.tighter with
    | some tighter => chain tighter n
    | none => unary n

/-- **The rest of a chain** after `left`, grouped from the left. Every operator takes one level more, for the tree grows
on its left side. -/
def links (t : Tier) : Nat → Expr → Production Expr
  | 0, _ => stall
  | n + 1, left => do
    match ← rest with
    | [] => return left
    | token :: after =>
      match token.binary? t with
      | none => return left
      | some o =>
        resume after
        descend
        links t n (.binary o left (← operand t n))

/-- **A primary expression behind any number of unary operators**, each a level deeper. -/
def unary : Nat → Production Expr
  | 0 => stall
  | n + 1 => do
    match ← rest with
    | [] => primary n
    | token :: after =>
      match token.unary? with
      | none => primary n
      | some o =>
        resume after
        return .unary o (← nested (unary n))

/-- **A literal, a statement in brackets, an array, or what a word stands for.** -/
def primary : Nat → Production Expr
  | 0 => stall
  | n + 1 => do
    match ← rest with
    | [] => fail .unexpectedEnd
    | .int k :: after =>
      resume after
      return .lit (.int k)
    | .symbol .openRound :: after =>
      resume after
      let inner ← statement n
      expect (.symbol .closeRound) ")"
      return inner
    | .symbol .openSquare :: after =>
      resume after
      let found ← items n []
      expect (.symbol .closeSquare) "]"
      return .array found
    | .ident word :: after =>
      resume after
      named word n
    | token :: _ => fail (.unexpected token)

/-- **The items of an array**, after those found (last first), up to its end. A comma may stand after the last. -/
def items : Nat → List Expr → Production (List Expr)
  | 0, _ => stall
  | n + 1, found => do
    if (← rest).head? = some (.symbol .closeSquare) then return found.reverse
    else
      let item ← statement n
      if ← accept (.symbol .comma) then items n (item :: found)
      else return (item :: found).reverse

/-- **What a word stands for**, the word itself being read. -/
def named (word : String) : Nat → Production Expr
  | 0 => stall
  | n + 1 =>
    if word = "true" then return .lit (.bool true)
    else if word = "false" then return .lit (.bool false)
    else if word = "nil" then return .lit .nil
    else if word = "if" then do arms false n (← statement n) []
    else if word = "unless" then do arms true n (.unary .not (← statement n)) []
    else if word = "begin" then do
      let inner ← body ["end"] n []
      expect (.ident "end") "end"
      return .block inner
    else if unsupportedWords.contains word then fail (.unsupported word)
    else if reservedWords.contains word then fail (.unexpected (.ident word))
    else return .var word

/-- **The arms of a choice**, after those found (last first), from the body of the one whose condition is `test` to the
closing `end`. A negated choice has no `elsif`. -/
def arms (negated : Bool) : Nat → Expr → List (Expr × List Expr) → Production Expr
  | 0, _, _ => stall
  | n + 1, test, found => do
    let _ ← accept (.ident "then")
    let inner ← body (if negated then ["else", "end"] else ["elsif", "else", "end"]) n []
    if ← accept (.ident "elsif") then
      let next ← statement n
      arms negated n next ((test, inner) :: found)
    else
      let otherwise ← alternative n
      expect (.ident "end") "end"
      return .choice ((test, inner) :: found).reverse otherwise

/-- **The `else` body of a choice**, if there is one. -/
def alternative : Nat → Production (Option (List Expr))
  | 0 => stall
  | n + 1 => do
    if ← accept (.ident "else") then return some (← body ["end"] n [])
    else return none

/-- **Statements**, after those found (last first), up to one of the words `stop` or the end of the tokens. -/
def body (stop : List String) : Nat → List Expr → Production (List Expr)
  | 0, _ => stall
  | n + 1, found => do
    skipSeparators
    let before ← rest
    if before.isEmpty || atWord stop before then return found.reverse
    else
      let e ← statement n
      match ← rest with
      | [] => body stop n (e :: found)
      | token :: after =>
        if token = .separator || atWord stop (token :: after) then body stop n (e :: found)
        else fail (.unexpected token)

end

end LineShell.Calculator
