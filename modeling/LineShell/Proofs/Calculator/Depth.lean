import LineShell.Calculator.Evaluation
import LineShell.Proofs.Calculator.Levels
import LineShell.Proofs.Calculator.Subtree
/-!
# Depth — how deep values are, and how much deeper a program can make them

An array literal makes its value one level deeper than its items, and an assignment keeps what its value has gained for
later.  The nesting limit bounds what one assignment can gain (`gain_le_of_parse`), and no program gains more than
it has array literals (`gain_add_nesting_le`).
-/
namespace LineShell

namespace Value

mutual

/-- **The depth of a value**: 1 for a scalar and the empty array, and one more than its deepest item for an array. -/
def depth : Value → Nat
  | nil | bool _ | int _ => 1
  | array items => deepest items + 1

/-- **The depth of the deepest of some values**, or 0 where there are none. -/
def deepest : List Value → Nat
  | [] => 0
  | v :: vs => max v.depth (deepest vs)

end

theorem depth_pos : ∀ v : Value, 0 < v.depth
  | nil | bool _ | int _ | array _ => Nat.succ_pos _

theorem deepest_le_iff {k : Nat} : ∀ {vs : List Value}, deepest vs ≤ k ↔ ∀ v ∈ vs, v.depth ≤ k
  | [] => by simp [deepest]
  | v :: vs => by rw [deepest, Nat.max_le, deepest_le_iff, List.forall_mem_cons]

theorem depth_array_le_iff {k : Nat} {vs : List Value} : (array vs).depth ≤ k + 1 ↔ ∀ v ∈ vs, v.depth ≤ k := by
  rw [depth, Nat.succ_le_succ_iff, deepest_le_iff]

end Value

namespace Calculator

/-! ## What operators do to depths -/

section Operators

variable {l r v : Value} {k : Nat}

theorem depth_of_fitting {n : Option Int64} (h : fitting n = .ok v) : v.depth = 1 := by
  cases n <;> cases h
  rfl

theorem depth_of_unary {op : UnOp} (h : op.apply l = .ok v) : v.depth = 1 := by
  unfold UnOp.apply at h
  split at h
  · cases h
    rfl
  · exact depth_of_fitting h
  · cases h

theorem depth_of_onIntegers {op : BinOp} {a b : Int64} (h : op.onIntegers a b = .ok v) : v.depth = 1 := by
  cases op with
  | add | sub | mul => exact depth_of_fitting h
  | div | rem =>
    simp only [BinOp.onIntegers] at h
    split at h
    · cases h
    · exact depth_of_fitting h
  | lt | le | gt | ge =>
    cases h
    rfl
  | eq | ne | and | or => cases h

/-- **No operator makes a value deeper** than its operands are. -/
theorem depth_of_binary {op : BinOp} (h : op.apply l r = .ok v) (hl : l.depth ≤ k) (hr : r.depth ≤ k) :
    v.depth ≤ k := by
  have hk : 1 ≤ k := Nat.le_trans l.depth_pos hl
  unfold BinOp.apply at h
  split at h
  · cases h
    exact hk
  · cases h
    exact hk
  · cases h
    obtain ⟨k, rfl⟩ : ∃ k', k = k' + 1 := Nat.exists_eq_succ_of_ne_zero (Nat.ne_of_gt hk)
    rw [Value.depth_array_le_iff] at hl hr ⊢
    exact List.forall_mem_append.2 ⟨hl, hr⟩
  · rw [depth_of_onIntegers h]
    exact hk
  · cases h
  · cases h

end Operators

/-! ## What programs can gain -/

mutual

/-- **How many array literals stand one in another** around a part that the value of an expression can be made of.
What is assigned is counted where it is bound, and a literal without items makes nothing deeper. -/
def Expr.nesting : Expr → Nat
  | .lit _ | .var _ | .assign _ _ | .unary _ _ | .array [] => 0
  | .array (item :: rest) => max item.nesting (nestingAll rest) + 1
  | .binary _ left right => max left.nesting right.nesting
  | .choice arms none => nestingArms arms
  | .choice arms (some otherwise) => max (nestingArms arms) (nestingAll otherwise)
  | .block body => nestingAll body

def nestingAll : List Expr → Nat
  | [] => 0
  | e :: rest => max e.nesting (nestingAll rest)

/-- **Of arms the bodies count**, since a condition is no part of the value. -/
def nestingArms : List (Expr × List Expr) → Nat
  | [] => 0
  | (_, body) :: rest => max (nestingAll body) (nestingArms rest)

end

/-- **What an expression binds deeper** than what is bound already, its parts apart. -/
def Expr.gain : Expr → Nat
  | .assign _ value => value.nesting
  | _ => 0

/-- **What expressions gain together**, their parts apart. -/
def gain : List Expr → Nat
  | [] => 0
  | e :: rest => e.gain + gain rest

/-- **An array literal with items.** -/
def Expr.wraps : Expr → Bool
  | .array (_ :: _) => true
  | _ => false

def Expr.assigns : Expr → Bool
  | .assign _ _ => true
  | _ => false

section Gain

variable {e : Expr} {es es' : List Expr}

@[simp] theorem gain_cons : gain (e :: es) = e.gain + gain es := rfl

@[simp] theorem gain_append : gain (es ++ es') = gain es + gain es' := by
  induction es with
  | nil => exact (Nat.zero_add _).symm
  | cons e es ih => rw [List.cons_append, gain_cons, gain_cons, ih, Nat.add_assoc]

/-- **Assignments that gain no more than so much each** gain no more than that together. -/
theorem gain_le {k : Nat} (h : ∀ e ∈ es, e.gain ≤ k) : gain es ≤ k * es.countP Expr.assigns := by
  induction es with
  | nil => exact Nat.zero_le _
  | cons e es ih =>
    obtain ⟨he, hes⟩ := List.forall_mem_cons.1 h
    have hrest := ih hes
    rw [gain_cons]
    cases e with
    | assign name value =>
      rw [List.countP_cons_of_pos rfl, Nat.mul_succ]
      omega
    | _ =>
      rw [List.countP_cons_of_neg Bool.false_ne_true]
      exact Nat.le_trans (Nat.le_of_eq (Nat.zero_add _)) hrest

end Gain

mutual

/-- **A tree gains no more than one level for each array literal in it**, what its own value gains included. -/
theorem gain_add_nesting_le : ∀ e : Expr, gain e.subtrees + e.nesting ≤ e.subtrees.countP Expr.wraps
  | .lit _ | .var _ => Nat.zero_le _
  | .assign name value => by
    have := gain_add_nesting_le value
    simp only [Expr.subtrees, gain_cons, Expr.gain, Expr.nesting, List.countP_cons]
    omega
  | .array [] => Nat.zero_le _
  | .array (item :: rest) => by
    have := gain_add_nesting_le item
    have := gain_add_nestingAll_le rest
    rw [Expr.subtrees, List.countP_cons_of_pos rfl]
    simp only [subtreesAll, gain_cons, gain_append, Expr.gain, Expr.nesting, List.countP_append]
    omega
  | .unary op operand => by
    have := gain_add_nesting_le operand
    simp only [Expr.subtrees, gain_cons, Expr.gain, Expr.nesting, List.countP_cons]
    omega
  | .binary op left right => by
    have := gain_add_nesting_le left
    have := gain_add_nesting_le right
    simp only [Expr.subtrees, gain_cons, gain_append, Expr.gain, Expr.nesting, List.countP_cons, List.countP_append]
    omega
  | .choice arms none => by
    have := gain_add_nestingArms_le arms
    simp only [Expr.subtrees, gain_cons, Expr.gain, Expr.nesting, List.countP_cons]
    omega
  | .choice arms (some otherwise) => by
    have := gain_add_nestingArms_le arms
    have := gain_add_nestingAll_le otherwise
    simp only [Expr.subtrees, gain_cons, gain_append, Expr.gain, Expr.nesting, List.countP_cons, List.countP_append]
    omega
  | .block body => by
    have := gain_add_nestingAll_le body
    simp only [Expr.subtrees, gain_cons, Expr.gain, Expr.nesting, List.countP_cons]
    omega

theorem gain_add_nestingAll_le : ∀ es : List Expr,
    gain (subtreesAll es) + nestingAll es ≤ (subtreesAll es).countP Expr.wraps
  | [] => Nat.zero_le _
  | e :: rest => by
    have := gain_add_nesting_le e
    have := gain_add_nestingAll_le rest
    simp only [subtreesAll, gain_append, nestingAll, List.countP_append]
    omega

theorem gain_add_nestingArms_le : ∀ arms : List (Expr × List Expr),
    gain (subtreesArms arms) + nestingArms arms ≤ (subtreesArms arms).countP Expr.wraps
  | [] => Nat.zero_le _
  | (test, body) :: rest => by
    have := gain_add_nesting_le test
    have := gain_add_nestingAll_le body
    have := gain_add_nestingArms_le rest
    simp only [subtreesArms, gain_append, nestingArms, List.countP_append]
    omega

end

/-! ## What the nesting limit bounds -/

/-- **A tree that is as many levels deep**, or deeper: some path down it costs so many levels. -/
def Expr.Reaches (e : Expr) (n : Nat) : Prop := ∃ path, e.Path path ∧ n ≤ path.count .level

section Reaches

variable {e part : Expr} {n : Nat}

theorem reaches_zero (e : Expr) : e.Reaches 0 := ⟨[], .here e, Nat.zero_le _⟩

theorem Expr.Reaches.step {charge : Charge} (h : part.Reaches n)
    (hstep : ∀ {path}, part.Path path → e.Path (charge :: path)) : e.Reaches n := by
  obtain ⟨path, hp, hn⟩ := h
  exact ⟨_, hstep hp, Nat.le_trans hn List.count_le_count_cons⟩

theorem Expr.Reaches.level (h : part.Reaches n) (hstep : ∀ {path}, part.Path path → e.Path (.level :: path)) :
    e.Reaches (n + 1) := by
  obtain ⟨path, hp, hn⟩ := h
  refine ⟨_, hstep hp, ?_⟩
  rw [List.count_cons_self]
  exact Nat.succ_le_succ hn

theorem Within.le_of_reaches {level : Nat} (h : Within level e) (hr : e.Reaches n) : n + level ≤ maxDepth := by
  obtain ⟨path, hp, hn⟩ := hr
  exact Nat.le_trans (Nat.add_le_add_right hn level) (h path hp)

end Reaches

section Parts

variable {part : Expr} {n : Nat}

mutual

/-- **A tree is as deep as the trees in it.** -/
theorem reaches_of_mem (h : part.Reaches n) : ∀ e : Expr, part ∈ e.subtrees → e.Reaches n
  | .lit v, hm => List.mem_singleton.1 hm ▸ h
  | .var name, hm => List.mem_singleton.1 hm ▸ h
  | .assign name value, hm => by
    rcases List.mem_cons.1 hm with rfl | hm
    · exact h
    · exact (reaches_of_mem h value hm).step .value
  | .array items, hm => by
    rcases List.mem_cons.1 hm with rfl | hm
    · exact h
    · obtain ⟨item, hi, hr⟩ := exists_reaches_of_mem h items hm
      exact hr.step (.item hi)
  | .unary op operand, hm => by
    rcases List.mem_cons.1 hm with rfl | hm
    · exact h
    · exact (reaches_of_mem h operand hm).step .operand
  | .binary op left right, hm => by
    rcases List.mem_cons.1 hm with rfl | hm
    · exact h
    rcases List.mem_append.1 hm with hm | hm
    · exact (reaches_of_mem h left hm).step .left
    · exact (reaches_of_mem h right hm).step .right
  | .choice arms none, hm => by
    rcases List.mem_cons.1 hm with rfl | hm
    · exact h
    · obtain ⟨arm, ha, hr | ⟨e, he, hr⟩⟩ := exists_reaches_of_memArms h arms hm
      · exact hr.step (.test ha)
      · exact hr.step (.arm ha he)
  | .choice arms (some otherwise), hm => by
    rcases List.mem_cons.1 hm with rfl | hm
    · exact h
    rcases List.mem_append.1 hm with hm | hm
    · obtain ⟨arm, ha, hr | ⟨e, he, hr⟩⟩ := exists_reaches_of_memArms h arms hm
      · exact hr.step (.test ha)
      · exact hr.step (.arm ha he)
    · obtain ⟨e, he, hr⟩ := exists_reaches_of_mem h otherwise hm
      exact hr.step (.otherwise he)
  | .block body, hm => by
    rcases List.mem_cons.1 hm with rfl | hm
    · exact h
    · obtain ⟨inner, hi, hr⟩ := exists_reaches_of_mem h body hm
      exact hr.step (.inner hi)

theorem exists_reaches_of_mem (h : part.Reaches n) : ∀ es : List Expr, part ∈ subtreesAll es →
    ∃ e ∈ es, e.Reaches n
  | e :: rest, hm => by
    rcases List.mem_append.1 hm with hm | hm
    · exact ⟨e, List.mem_cons_self, reaches_of_mem h e hm⟩
    · obtain ⟨e', he, hr⟩ := exists_reaches_of_mem h rest hm
      exact ⟨e', List.mem_cons_of_mem _ he, hr⟩

theorem exists_reaches_of_memArms (h : part.Reaches n) : ∀ arms : List (Expr × List Expr),
    part ∈ subtreesArms arms → ∃ arm ∈ arms, arm.1.Reaches n ∨ ∃ e ∈ arm.2, e.Reaches n
  | (test, body) :: rest, hm => by
    rcases List.mem_append.1 hm with hm | hm
    · exact ⟨_, List.mem_cons_self, .inl (reaches_of_mem h test hm)⟩
    rcases List.mem_append.1 hm with hm | hm
    · exact ⟨_, List.mem_cons_self, .inr (exists_reaches_of_mem h body hm)⟩
    · obtain ⟨arm, ha, hr⟩ := exists_reaches_of_memArms h rest hm
      exact ⟨arm, List.mem_cons_of_mem _ ha, hr⟩

end

end Parts

mutual

/-- **Array literals one in another stand each a level below the other.** -/
theorem reaches_of_le : ∀ (e : Expr) {n : Nat}, n ≤ e.nesting → e.Reaches n
  | .lit _, _, h | .var _, _, h | .assign _ _, _, h | .unary _ _, _, h | .array [], _, h => by
    rw [Nat.le_zero.1 h]
    exact reaches_zero _
  | .array (_ :: _), 0, _ => reaches_zero _
  -- Any item stands a level below the literal, also one that is no literal itself.
  | .array (item :: _), 1, _ => (reaches_zero item).level (.item List.mem_cons_self)
  | .array (item :: rest), n + 2, h => by
    obtain h | h : n + 1 ≤ item.nesting ∨ n + 1 ≤ nestingAll rest := by
      rw [Expr.nesting] at h
      omega
    · exact (reaches_of_le item h).level (.item List.mem_cons_self)
    · obtain ⟨e, he, hr⟩ := exists_reaches_of_le rest h
      exact hr.level (.item (List.mem_cons_of_mem _ he))
  | .binary op left right, n, h => by
    obtain h | h : n ≤ left.nesting ∨ n ≤ right.nesting := by
      rw [Expr.nesting] at h
      omega
    · exact (reaches_of_le left h).step .left
    · exact (reaches_of_le right h).step .right
  | .choice _ _, 0, _ | .block _, 0, _ => reaches_zero _
  | .choice arms none, n + 1, h => by
    obtain ⟨arm, ha, e, he, hr⟩ := exists_reaches_of_leArms arms h
    exact hr.step (.arm ha he)
  | .choice arms (some otherwise), n + 1, h => by
    obtain h | h : n + 1 ≤ nestingArms arms ∨ n + 1 ≤ nestingAll otherwise := by
      rw [Expr.nesting] at h
      omega
    · obtain ⟨arm, ha, e, he, hr⟩ := exists_reaches_of_leArms arms h
      exact hr.step (.arm ha he)
    · obtain ⟨e, he, hr⟩ := exists_reaches_of_le otherwise h
      exact hr.step (.otherwise he)
  | .block body, n + 1, h => by
    obtain ⟨e, he, hr⟩ := exists_reaches_of_le body h
    exact hr.step (.inner he)

theorem exists_reaches_of_le : ∀ (es : List Expr) {n : Nat}, n + 1 ≤ nestingAll es → ∃ e ∈ es, e.Reaches (n + 1)
  | e :: rest, n, h => by
    obtain h | h : n + 1 ≤ e.nesting ∨ n + 1 ≤ nestingAll rest := by
      rw [nestingAll] at h
      omega
    · exact ⟨e, List.mem_cons_self, reaches_of_le e h⟩
    · obtain ⟨e', he, hr⟩ := exists_reaches_of_le rest h
      exact ⟨e', List.mem_cons_of_mem _ he, hr⟩

theorem exists_reaches_of_leArms : ∀ (arms : List (Expr × List Expr)) {n : Nat}, n + 1 ≤ nestingArms arms →
    ∃ arm ∈ arms, ∃ e ∈ arm.2, e.Reaches (n + 1)
  | (_, body) :: rest, n, h => by
    obtain h | h : n + 1 ≤ nestingAll body ∨ n + 1 ≤ nestingArms rest := by
      rw [nestingArms] at h
      omega
    · exact ⟨_, List.mem_cons_self, exists_reaches_of_le body h⟩
    · obtain ⟨arm, ha, hr⟩ := exists_reaches_of_leArms rest h
      exact ⟨arm, List.mem_cons_of_mem _ ha, hr⟩

end

/-- **What the nesting limit leaves for an assignment**: a level is the statement's and one the assigned value's. -/
theorem gain_le_of_parse {text : String} {statements : List Expr} (h : parse text = .ok statements) :
    ∀ e ∈ subtreesAll statements, e.gain ≤ maxDepth - 2 := by
  intro e he
  cases e with
  | assign name value =>
    have hvalue : (Expr.assign name value).Reaches (value.nesting + 1) :=
      (reaches_of_le value (Nat.le_refl _)).level .value
    obtain ⟨statement, hs, hr⟩ := exists_reaches_of_mem hvalue statements he
    have := (within_of_parse h statement hs).le_of_reaches hr
    rw [Expr.gain]
    omega
  | _ => exact Nat.zero_le _

end Calculator

end LineShell
