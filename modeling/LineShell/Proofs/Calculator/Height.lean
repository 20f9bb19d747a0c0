import LineShell.Calculator.Expr
/-!
# Height — how high a tree is, and the paths down it

The height of a tree is the number of expressions on its longest path (`Expr.height_le_iff`).  A step of a path is
marked with what it costs the nesting limit: a level or nothing.
-/
namespace LineShell.Calculator

mutual

/-- **The height of a tree**: the expressions on its longest path from the root to a leaf. -/
def Expr.height : Expr → Nat
  | .lit _ | .var _ => 1
  | .assign _ value => value.height + 1
  | .array items => heightAll items + 1
  | .unary _ operand => operand.height + 1
  | .binary _ left right => max left.height right.height + 1
  | .choice arms none => heightArms arms + 1
  | .choice arms (some otherwise) => max (heightArms arms) (heightAll otherwise) + 1
  | .block body => heightAll body + 1

def heightAll : List Expr → Nat
  | [] => 0
  | e :: rest => max e.height (heightAll rest)

def heightArms : List (Expr × List Expr) → Nat
  | [] => 0
  | (test, body) :: rest => max (max test.height (heightAll body)) (heightArms rest)

end

/-- **What a step from an expression to a part of it costs** of the nesting limit. -/
inductive Charge where
  | level
  | free
  deriving DecidableEq, Repr

/-- **What the step to the condition of an arm costs.** The negation that an `unless` sets before its condition is
free. -/
def Expr.testCharge : Expr → Charge
  | .unary .not _ => .free
  | _ => .level

/-- **The paths down a tree**, by what their steps cost. The step to the left operand of an operator is free. -/
inductive Expr.Path : Expr → List Charge → Prop
  | here (e : Expr) : Path e []
  | value {name value path} : Path value path → Path (.assign name value) (.level :: path)
  | item {items e path} : e ∈ items → Path e path → Path (.array items) (.level :: path)
  | operand {op operand path} : Path operand path → Path (.unary op operand) (.level :: path)
  | left {op left right path} : Path left path → Path (.binary op left right) (.free :: path)
  | right {op left right path} : Path right path → Path (.binary op left right) (.level :: path)
  | test {arms otherwise arm path} : arm ∈ arms → Path arm.1 path →
      Path (.choice arms otherwise) (arm.1.testCharge :: path)
  | arm {arms otherwise arm e path} : arm ∈ arms → e ∈ arm.2 → Path e path →
      Path (.choice arms otherwise) (.level :: path)
  | otherwise {arms body e path} : e ∈ body → Path e path → Path (.choice arms (some body)) (.level :: path)
  | inner {body e path} : e ∈ body → Path e path → Path (.block body) (.level :: path)

theorem heightAll_le_iff {k : Nat} : ∀ {es : List Expr}, heightAll es ≤ k ↔ ∀ e ∈ es, e.height ≤ k
  | [] => by simp [heightAll]
  | e :: es => by rw [heightAll, Nat.max_le, heightAll_le_iff, List.forall_mem_cons]

theorem heightArms_le_iff {k : Nat} : ∀ {arms : List (Expr × List Expr)},
    heightArms arms ≤ k ↔ ∀ arm ∈ arms, arm.1.height ≤ k ∧ ∀ e ∈ arm.2, e.height ≤ k
  | [] => by simp [heightArms]
  | (test, body) :: arms => by
    rw [heightArms, Nat.max_le, Nat.max_le, heightAll_le_iff, heightArms_le_iff, List.forall_mem_cons]

theorem Expr.Path.length_lt {e : Expr} {path : List Charge} (h : e.Path path) : path.length < e.height := by
  induction h with
  | here e =>
    cases e with
    | choice arms otherwise => cases otherwise <;> exact Nat.succ_pos _
    | _ => exact Nat.succ_pos _
  | value _ ih => exact Nat.succ_lt_succ ih
  | item he _ ih => exact Nat.succ_lt_succ (Nat.lt_of_lt_of_le ih (heightAll_le_iff.1 (Nat.le_refl _) _ he))
  | operand _ ih => exact Nat.succ_lt_succ ih
  | left _ ih => exact Nat.succ_lt_succ (Nat.lt_of_lt_of_le ih (Nat.le_max_left _ _))
  | right _ ih => exact Nat.succ_lt_succ (Nat.lt_of_lt_of_le ih (Nat.le_max_right _ _))
  | @test arms otherwise arm path ha _ ih =>
    have hle := (heightArms_le_iff.1 (Nat.le_refl (heightArms arms)) arm ha).1
    cases otherwise with
    | none => exact Nat.succ_lt_succ (Nat.lt_of_lt_of_le ih hle)
    | some body => exact Nat.succ_lt_succ (Nat.lt_of_lt_of_le ih (Nat.le_trans hle (Nat.le_max_left _ _)))
  | @arm arms otherwise arm e path ha he _ ih =>
    have hle := (heightArms_le_iff.1 (Nat.le_refl (heightArms arms)) arm ha).2 e he
    cases otherwise with
    | none => exact Nat.succ_lt_succ (Nat.lt_of_lt_of_le ih hle)
    | some body => exact Nat.succ_lt_succ (Nat.lt_of_lt_of_le ih (Nat.le_trans hle (Nat.le_max_left _ _)))
  | otherwise he _ ih =>
    have hle := heightAll_le_iff.1 (Nat.le_refl _) _ he
    exact Nat.succ_lt_succ (Nat.lt_of_lt_of_le ih (Nat.le_trans hle (Nat.le_max_right _ _)))
  | inner he _ ih => exact Nat.succ_lt_succ (Nat.lt_of_lt_of_le ih (heightAll_le_iff.1 (Nat.le_refl _) _ he))

theorem Expr.height_le : ∀ (k : Nat) (e : Expr), (∀ path, e.Path path → path.length < k) → e.height ≤ k
  | 0, e, h => absurd (h [] (.here e)) (Nat.lt_irrefl 0)
  | _ + 1, .lit _, _ | _ + 1, .var _, _ => Nat.succ_le_succ (Nat.zero_le _)
  | k + 1, .assign _ value, h =>
    Nat.succ_le_succ (height_le k value fun _ hp => Nat.lt_of_succ_lt_succ (h _ (.value hp)))
  | k + 1, .array items, h => by
    refine Nat.succ_le_succ (heightAll_le_iff.2 fun e he => ?_)
    exact height_le k e fun _ hp => Nat.lt_of_succ_lt_succ (h _ (.item he hp))
  | k + 1, .unary _ operand, h =>
    Nat.succ_le_succ (height_le k operand fun _ hp => Nat.lt_of_succ_lt_succ (h _ (.operand hp)))
  | k + 1, .binary _ left right, h => by
    refine Nat.succ_le_succ (Nat.max_le.2 ⟨?_, ?_⟩)
    · exact height_le k left fun _ hp => Nat.lt_of_succ_lt_succ (h _ (.left hp))
    · exact height_le k right fun _ hp => Nat.lt_of_succ_lt_succ (h _ (.right hp))
  | k + 1, .choice arms none, h => by
    refine Nat.succ_le_succ (heightArms_le_iff.2 fun arm ha => ⟨?_, fun e he => ?_⟩)
    · exact height_le k arm.1 fun _ hp => Nat.lt_of_succ_lt_succ (h _ (.test ha hp))
    · exact height_le k e fun _ hp => Nat.lt_of_succ_lt_succ (h _ (.arm ha he hp))
  | k + 1, .choice arms (some body), h => by
    refine Nat.succ_le_succ (Nat.max_le.2 ⟨heightArms_le_iff.2 fun arm ha => ⟨?_, fun e he => ?_⟩, ?_⟩)
    · exact height_le k arm.1 fun _ hp => Nat.lt_of_succ_lt_succ (h _ (.test ha hp))
    · exact height_le k e fun _ hp => Nat.lt_of_succ_lt_succ (h _ (.arm ha he hp))
    · refine heightAll_le_iff.2 fun e he => ?_
      exact height_le k e fun _ hp => Nat.lt_of_succ_lt_succ (h _ (.otherwise he hp))
  | k + 1, .block body, h => by
    refine Nat.succ_le_succ (heightAll_le_iff.2 fun e he => ?_)
    exact height_le k e fun _ hp => Nat.lt_of_succ_lt_succ (h _ (.inner he hp))

/-- **The height of a tree is the length of its longest path**, the root counted. -/
theorem Expr.height_le_iff {e : Expr} {k : Nat} : e.height ≤ k ↔ ∀ path, e.Path path → path.length < k :=
  ⟨fun h _ hp => Nat.lt_of_lt_of_le hp.length_lt h, Expr.height_le k e⟩

end LineShell.Calculator
