import LineShell.Calculator.Grammar
/-!
# Plan — the rules of the grammar as trees of their steps

What a rule does on its way is not seen in its answer, for a function has no steps.  So every rule has a plan, the tree
of its steps and of the calls that it makes, and is the run of its plan (`Rule.run_succ`).
-/
namespace LineShell.Calculator

open Production (nested restored)

/-- **A rule of the grammar**, and all that it is called with but its allowance. -/
inductive Rule : Type → Type
  | statement : Rule Expr
  | assignment : Rule Expr
  | chain (t : Tier) : Rule Expr
  | operand (t : Tier) : Rule Expr
  | links (t : Tier) (left : Expr) : Rule Expr
  | unary : Rule Expr
  | primary : Rule Expr
  | items (found : List Expr) : Rule (List Expr)
  | named (word : String) : Rule Expr
  | arms (negated : Bool) (test : Expr) (found : List (Expr × List Expr)) : Rule Expr
  | alternative : Rule (Option (List Expr))
  | body (stop : List String) (found : List Expr) : Rule (List Expr)

def Rule.run (n : Nat) : {α : Type} → Rule α → Production α
  | _, statement => Calculator.statement n
  | _, assignment => Calculator.assignment n
  | _, chain t => Calculator.chain t n
  | _, operand t => Calculator.operand t n
  | _, links t left => Calculator.links t n left
  | _, unary => Calculator.unary n
  | _, primary => Calculator.primary n
  | _, items found => Calculator.items n found
  | _, named word => Calculator.named word n
  | _, arms negated test found => Calculator.arms negated n test found
  | _, alternative => Calculator.alternative n
  | _, body stop found => Calculator.body stop n found

/-- **What a rule does, step by step**: it reads the tokens, changes the level, and calls rules. -/
inductive Plan : Type → Type 1
  | done {α : Type} (a : α) : Plan α
  | fail {α : Type} (f : ParseFault) : Plan α
  | rest : Plan (List Token)
  | resume (tokens : List Token) : Plan Unit
  | accept (token : Token) : Plan Bool
  | expect (token : Token) (wanted : String) : Plan Unit
  | skipSeparators : Plan Unit
  | descend : Plan Unit
  | nested {α : Type} (p : Plan α) : Plan α
  | restored {α : Type} (p : Plan α) : Plan α
  | seq {α β : Type} (p : Plan α) (next : α → Plan β) : Plan β
  | call {α : Type} (r : Rule α) : Plan α

instance : Monad Plan where
  pure := .done
  bind := .seq

/-- **The production that a plan describes**, where each rule called has an allowance of `n`. -/
def Plan.run (n : Nat) : {α : Type} → Plan α → Production α
  | _, done a => pure a
  | _, fail f => Production.fail f
  | _, rest => Production.rest
  | _, resume tokens => Production.resume tokens
  | _, accept token => Production.accept token
  | _, expect token wanted => Production.expect token wanted
  | _, skipSeparators => Production.skipSeparators
  | _, descend => Production.descend
  | _, nested p => Production.nested (p.run n)
  | _, restored p => Production.restored (p.run n)
  | _, seq p next => p.run n >>= fun a => (next a).run n
  | _, call r => r.run n

namespace Rule

/-- **What a rule does** before its allowance is at an end. -/
def plan : {α : Type} → Rule α → Plan α
  | _, statement => .nested (.call assignment)
  | _, assignment => do
    match ← .rest with
    | .ident name :: .symbol .assign :: after =>
      if reservedWords.contains name then .fail (.reserved name)
      else
        .resume after
        return .assign name (← .call statement)
    | _ => .call (chain .or)
  | _, chain t => .restored do .call (links t (← .call (operand t)))
  | _, operand t =>
    match t.tighter with
    | some tighter => .call (chain tighter)
    | none => .call unary
  | _, links t left => do
    match ← .rest with
    | [] => return left
    | token :: after =>
      match token.binary? t with
      | none => return left
      | some o =>
        .resume after
        .descend
        .call (links t (.binary o left (← .call (operand t))))
  | _, unary => do
    match ← .rest with
    | [] => .call primary
    | token :: after =>
      match token.unary? with
      | none => .call primary
      | some o =>
        .resume after
        return .unary o (← .nested (.call unary))
  | _, primary => do
    match ← .rest with
    | [] => .fail .unexpectedEnd
    | .int k :: after =>
      .resume after
      return .lit (.int k)
    | .symbol .openRound :: after =>
      .resume after
      let inner ← .call statement
      .expect (.symbol .closeRound) ")"
      return inner
    | .symbol .openSquare :: after =>
      .resume after
      let found ← .call (items [])
      .expect (.symbol .closeSquare) "]"
      return .array found
    | .ident word :: after =>
      .resume after
      .call (named word)
    | token :: _ => .fail (.unexpected token)
  | _, items found => do
    if (← .rest).head? = some (.symbol .closeSquare) then return found.reverse
    else
      let item ← .call statement
      if ← .accept (.symbol .comma) then .call (items (item :: found))
      else return (item :: found).reverse
  | _, named word =>
    if word = "true" then return .lit (.bool true)
    else if word = "false" then return .lit (.bool false)
    else if word = "nil" then return .lit .nil
    else if word = "if" then do .call (arms false (← .call statement) [])
    else if word = "unless" then do .call (arms true (.unary .not (← .call statement)) [])
    else if word = "begin" then do
      let inner ← .call (body ["end"] [])
      .expect (.ident "end") "end"
      return .block inner
    else if unsupportedWords.contains word then .fail (.unsupported word)
    else if reservedWords.contains word then .fail (.unexpected (.ident word))
    else return .var word
  | _, arms negated test found => do
    let _ ← .accept (.ident "then")
    let inner ← .call (body (if negated then ["else", "end"] else ["elsif", "else", "end"]) [])
    if ← .accept (.ident "elsif") then
      let next ← .call statement
      .call (arms negated next ((test, inner) :: found))
    else
      let otherwise ← .call alternative
      .expect (.ident "end") "end"
      return .choice ((test, inner) :: found).reverse otherwise
  | _, alternative => do
    if ← .accept (.ident "else") then return some (← .call (body ["end"] []))
    else return none
  | _, body stop found => do
    .skipSeparators
    let before ← .rest
    if before.isEmpty || atWord stop before then return found.reverse
    else
      let e ← .call statement
      match ← .rest with
      | [] => .call (body stop (e :: found))
      | token :: after =>
        if token = .separator || atWord stop (token :: after) then .call (body stop (e :: found))
        else .fail (.unexpected token)

theorem run_zero {α : Type} (r : Rule α) : r.run 0 = Production.stall := by cases r <;> rfl

end Rule

theorem Plan.run_ite {α : Type} {n : Nat} {P : Prop} [Decidable P] {p q : Plan α} :
    (if P then p else q).run n = if P then p.run n else q.run n :=
  apply_ite _ P p q

/-- **A rule is the run of its plan**, with one call less for the rules that it calls. -/
theorem Rule.run_succ {α : Type} (n : Nat) (r : Rule α) : r.run (n + 1) = r.plan.run n := by
  cases r with
  | statement => rfl
  | assignment =>
    refine bind_congr fun tokens => ?_
    rcases tokens with _ | ⟨token, _ | ⟨next, after⟩⟩
    · rfl
    · cases token <;> rfl
    · cases token with
      | ident name =>
        cases next with
        | symbol s =>
          cases s with
          | assign =>
            dsimp only
            rw [Plan.run_ite]
            rfl
          | _ => rfl
        | _ => rfl
      | _ => rfl
  | chain t => rfl
  | operand t => cases t <;> rfl
  | links t left =>
    refine bind_congr fun tokens => ?_
    cases tokens with
    | nil => rfl
    | cons token after =>
      dsimp only
      cases token.binary? t <;> rfl
  | unary =>
    refine bind_congr fun tokens => ?_
    cases tokens with
    | nil => rfl
    | cons token after =>
      dsimp only
      cases token.unary? <;> rfl
  | primary =>
    refine bind_congr fun tokens => ?_
    match tokens with
    | [] | .int _ :: _ | .ident _ :: _ | .separator :: _ => rfl
    | .symbol s :: _ => cases s <;> rfl
  | items found =>
    refine bind_congr fun tokens => ?_
    rw [Plan.run_ite]
    refine congrArg (ite _ _) (bind_congr fun item => bind_congr fun more => ?_)
    cases more <;> rfl
  | named word =>
    rw [run, Calculator.named, plan]
    simp only [Plan.run_ite]
    rfl
  | arms negated test found =>
    refine bind_congr fun _ => bind_congr fun inner => bind_congr fun more => ?_
    cases more <;> rfl
  | alternative =>
    refine bind_congr fun more => ?_
    cases more <;> rfl
  | body stop found =>
    refine bind_congr fun _ => bind_congr fun before => ?_
    rw [Plan.run_ite]
    refine congrArg (ite _ _) (bind_congr fun e => bind_congr fun tokens => ?_)
    cases tokens with
    | nil => rfl
    | cons token after =>
      dsimp only
      rw [Plan.run_ite]
      rfl

end LineShell.Calculator
