import LineShell.Proofs.Calculator.Law
/-!
# Overflow — which exact results there is a word for

An operator on words answers the word with its exact result, if there is one.  Rounding down is done on what the machine
rounds toward zero, and comes to the exact quotient and remainder (`floorDiv?_eq`, `floorMod?_eq`).  So a range error is
an overflow, except that the least word modulo minus one ends in one although it is nought (`overflows_iff`).
-/
namespace LineShell.Integer

/-! ### Division rounded down, from division rounded toward zero -/

section Rounding

variable {a b : Int}

theorem tmod_bounds (hb : b ≠ 0) :
    (a.tmod b).natAbs < b.natAbs ∧ (0 ≤ a → 0 ≤ a.tmod b) ∧ (a ≤ 0 → a.tmod b ≤ 0) := by
  refine ⟨?_, Int.tmod_nonneg b, fun ha => ?_⟩
  · rw [Int.natAbs_tmod]
    exact Nat.mod_lt _ (by omega)
  · have hneg := Int.tmod_nonneg b (Int.neg_nonneg_of_nonpos ha)
    rw [Int.neg_tmod] at hneg
    omega

/-- **Quotient and remainder rounded down** are those rounded toward zero, moved by one divisor where there is a
remainder and it has not the sign of the divisor. -/
theorem floor_of_tmod (hb : b ≠ 0) :
    (a.tmod b ≠ 0 ∧ (a.tmod b < 0 ↔ ¬b < 0) → a.fdiv b = a.tdiv b - 1 ∧ a.fmod b = a.tmod b + b) ∧
      (¬(a.tmod b ≠ 0 ∧ (a.tmod b < 0 ↔ ¬b < 0)) → a.fdiv b = a.tdiv b ∧ a.fmod b = a.tmod b) := by
  obtain ⟨hlt, -, -⟩ := tmod_bounds (a := a) hb
  have hsum := Int.tmod_add_mul_tdiv a b
  have hmoved : a.tmod b + b + b * (a.tdiv b - 1) = a := by
    rw [Int.mul_sub, Int.mul_one]
    omega
  rcases Int.lt_or_gt_of_ne hb with hneg | hpos
  · constructor <;> intro h
    · exact (Int.fdiv_fmod_unique' hneg).2 ⟨hmoved, by omega, by omega⟩
    · exact (Int.fdiv_fmod_unique' hneg).2 ⟨hsum, by omega, by omega⟩
  · constructor <;> intro h
    · exact (Int.fdiv_fmod_unique hpos).2 ⟨hmoved, by omega, by omega⟩
    · exact (Int.fdiv_fmod_unique hpos).2 ⟨hsum, by omega, by omega⟩

theorem inRange_tdiv_sub_one (ha : InRange a) (hb : b ≠ 0) (hr : a.tmod b ≠ 0) (hq : InRange (a.tdiv b)) :
    InRange (a.tdiv b - 1) := by
  obtain ⟨hlt, -, -⟩ := tmod_bounds (a := a) hb
  have hsum := Int.tmod_add_mul_tdiv a b
  rw [inRange_iff] at *
  by_cases hleast : a.tdiv b = -9223372036854775808
  · -- The divisor is two or more, signs apart, so the dividend would be past the range.
    rw [hleast] at hsum
    omega
  · omega

end Rounding

section Words

variable {a b : Int64}

theorem undivided_iff : undivided a b = true ↔ b = 0 ∨ a = Int64.minValue ∧ b = -1 := by
  simp [undivided]

theorem toInt_quotient (h : ¬(a = Int64.minValue ∧ b = -1)) : (a / b).toInt = a.toInt.tdiv b.toInt := by
  by_cases ha : a = Int64.minValue
  · exact Int64.toInt_div_of_ne_right a b fun hb => h ⟨ha, hb⟩
  · exact Int64.toInt_div_of_ne_left a b ha

theorem toInt_eq_zero : a.toInt = 0 ↔ a = 0 := by
  rw [← Int64.toInt_inj, Int64.toInt_zero]

/-- **Two words of two signs**, as a test on exact values. -/
theorem signs_iff : decide (a < 0) ≠ decide (b < 0) ↔ (a.toInt < 0 ↔ ¬b.toInt < 0) := by
  rw [toInt_lt_zero, toInt_lt_zero]
  by_cases ha : a < 0 <;> by_cases hb : b < 0 <;> simp [ha, hb]

/-- **When a word result is moved by one divisor**, as a test on exact values. -/
theorem moves_iff (c : Int64) : (a % b ≠ 0 ∧ decide (c < 0) ≠ decide (b < 0)) ↔
    (a.toInt.tmod b.toInt ≠ 0 ∧ (c.toInt < 0 ↔ ¬b.toInt < 0)) := by
  rw [Ne, ← toInt_eq_zero, Int64.toInt_mod, signs_iff]

/-- **A quotient that is moved can be moved**: there is a word one less. -/
theorem sub?_quotient (h : ¬undivided a b = true) (hr : a % b ≠ 0) : sub? (a / b) 1 = some (a / b - 1) := by
  rw [undivided_iff, not_or] at h
  obtain ⟨hb, hx⟩ := h
  rw [Ne, ← toInt_eq_zero, Int64.toInt_mod] at hr
  have hq := toInt_quotient hx
  refine sub?_eq_some ?_
  rw [hq, Int64.toInt_one]
  exact inRange_tdiv_sub_one (inRange_toInt a) (fun hz => hb (toInt_eq_zero.1 hz)) hr (hq ▸ inRange_toInt _)

/-- **A remainder that is moved can be moved**: it and the divisor have two signs. -/
theorem add?_remainder (h : decide (a < 0) ≠ decide (b < 0)) : add? a b = some (a + b) := by
  have ha := inRange_iff.1 (inRange_toInt a)
  have hb := inRange_iff.1 (inRange_toInt b)
  have hsigns := signs_iff.1 h
  refine add?_eq_some (inRange_iff.2 ?_)
  by_cases hneg : b.toInt < 0 <;> omega

/-- **The word quotient rounded down** is the exact one, where there is a word for it. -/
theorem floorDiv?_eq (hb : b ≠ 0) : floorDiv? a b = fit? (a.toInt.fdiv b.toInt) := by
  by_cases hx : a = Int64.minValue ∧ b = -1
  · obtain ⟨rfl, rfl⟩ := hx
    decide
  · have hz : b.toInt ≠ 0 := fun h => hb (toInt_eq_zero.1 h)
    have hundivided : undivided a b ≠ true := fun h => (undivided_iff.1 h).elim hb hx
    obtain ⟨-, hnonneg, hnonpos⟩ := tmod_bounds (a := a.toInt) hz
    obtain ⟨hmoved, hkept⟩ := floor_of_tmod (a := a.toInt) hz
    have hq := toInt_quotient hx
    rw [floorDiv?, if_neg hundivided]
    symm
    split
    · rename_i h
      have hless := sub?_quotient hundivided h.1
      rw [moves_iff] at h
      rw [(hmoved (by omega)).1, ← hq]
      exact hless
    · rename_i h
      rw [moves_iff] at h
      rw [fit?_eq_some_iff, (hkept (by omega)).1, hq]

/-- **The word remainder with the sign of the divisor** is the exact one, except that the least word modulo minus one
has none. -/
theorem floorMod?_eq (hb : b ≠ 0) (hx : ¬(a = Int64.minValue ∧ b = -1)) :
    floorMod? a b = fit? (a.toInt.fmod b.toInt) := by
  have hz : b.toInt ≠ 0 := fun h => hb (toInt_eq_zero.1 h)
  have hundivided : undivided a b ≠ true := fun h => (undivided_iff.1 h).elim hb hx
  obtain ⟨hmoved, hkept⟩ := floor_of_tmod (a := a.toInt) hz
  rw [floorMod?, if_neg hundivided]
  symm
  split
  · rename_i h
    have hsum := add?_remainder h.2
    rw [moves_iff, Int64.toInt_mod] at h
    rw [(hmoved h).2, ← Int64.toInt_mod]
    exact hsum
  · rename_i h
    rw [moves_iff, Int64.toInt_mod] at h
    rw [fit?_eq_some_iff, (hkept h).2, Int64.toInt_mod]

end Words

end LineShell.Integer

namespace LineShell.Calculator

open Integer (InRange fit?)

/-- **The exact result of an operator**, for those that compute a number. -/
def BinOp.exact? : BinOp → Int → Int → Option Int
  | add, a, b => some (a + b)
  | sub, a, b => some (a - b)
  | mul, a, b => some (a * b)
  | div, a, b => if b = 0 then none else some (a.fdiv b)
  | rem, a, b => if b = 0 then none else some (a.fmod b)
  | _, _, _ => none

/-- **The remainder that is refused** although it is nought. -/
def Refused (op : BinOp) (a b : Int64) : Prop := op = .rem ∧ a = Int64.minValue ∧ b = -1

section Apply

variable {op : BinOp} {a b : Int64} {n : Int}

theorem BinOp.apply_of_exact (h : op.exact? a.toInt b.toInt = some n) (hx : ¬Refused op a b) :
    op.apply (.int a) (.int b) = fitting (fit? n) := by
  have hz : ∀ {m : Int}, (if b.toInt = 0 then none else some m) = some n → b ≠ 0 ∧ m = n := by
    intro m hm
    split at hm
    · cases hm
    · rename_i hb
      exact ⟨fun he => hb (he ▸ Int64.toInt_zero), Option.some.inj hm⟩
  cases op with
  | add | sub | mul =>
    cases h
    rfl
  | div =>
    obtain ⟨hb, rfl⟩ := hz h
    show (if b = 0 then _ else _) = _
    rw [if_neg hb, Integer.floorDiv?_eq hb]
  | rem =>
    obtain ⟨hb, rfl⟩ := hz h
    show (if b = 0 then _ else _) = _
    rw [if_neg hb, Integer.floorMod?_eq hb fun ⟨hl, hm⟩ => hx ⟨rfl, hl, hm⟩]
  | _ => cases h

theorem BinOp.apply_of_refused (hx : Refused op a b) : op.apply (.int a) (.int b) = .error .overflow := by
  obtain ⟨rfl, rfl, rfl⟩ := hx
  rfl

end Apply

/-! ### Evaluation -/

/-- **A text applies an operator to two words**: it is one expression whose operands come to them. -/
def Applies (text : String) (session : Session) (op : BinOp) (a b : Int64) : Prop :=
  ∃ left right vars vars', parse text = .ok [.binary op left right] ∧
    outcome left.eval session.vars = (.ok (.int a), vars) ∧ outcome right.eval vars = (.ok (.int b), vars')

/-- **A text negates a word**: it is one expression whose operand comes to it. -/
def Negates (text : String) (session : Session) (a : Int64) : Prop :=
  ∃ operand vars, parse text = .ok [.unary .neg operand] ∧ outcome operand.eval session.vars = (.ok (.int a), vars)

/-- **A text ends in a range error.** -/
def Overflows (text : String) (session : Session) : Prop :=
  ∃ e, (run text session).1 = .error e ∧ e.kind = "RangeError"

section Evaluation

variable {text : String} {session : Session} {op : BinOp} {a b : Int64} {n : Int} {e : Expr}

theorem outcome_var {name : String} {v : Value} {vars : Bindings} (h : vars.lookup name = some v) :
    outcome (Expr.var name).eval vars = (.ok v, vars) := by
  rw [Expr.eval, outcome_valueOf, h]
  rfl

theorem outcome_binary {left right : Expr} {l r : Value} {vars vars' vars'' : Bindings} (hand : op ≠ .and)
    (hor : op ≠ .or) (hl : outcome left.eval vars = (.ok l, vars')) (hr : outcome right.eval vars' = (.ok r, vars'')) :
    outcome (Expr.binary op left right).eval vars = (op.apply l r, vars'') := by
  have heval : (Expr.binary op left right).eval =
      left.eval >>= fun l => right.eval >>= fun r => settle (op.apply l r) := by
    cases op with
    | and => exact absurd rfl hand
    | or => exact absurd rfl hor
    | _ => rfl
  simp only [heval, outcome_bind, hl, hr, outcome_settle]

theorem Applies.run (h : Applies text session op a b) (hand : op ≠ .and) (hor : op ≠ .or) :
    (run text session).1 = (op.apply (.int a) (.int b)).mapError EvalFault.toError := by
  obtain ⟨left, right, vars, vars', hparse, hl, hr⟩ := h
  rw [run_of_expression hparse, outcome_binary hand hor hl hr]

theorem Negates.run (h : Negates text session a) :
    (run text session).1 = (fitting (fit? (-a.toInt))).mapError EvalFault.toError := by
  obtain ⟨operand, vars, hparse, ho⟩ := h
  rw [run_of_expression hparse, Expr.eval]
  simp only [outcome_bind, ho, outcome_settle]
  rfl

theorem mapError_fitting_iff : (∃ e, (fitting (fit? n)).mapError EvalFault.toError = .error e ∧ e.kind = "RangeError") ↔
    ¬InRange n := by
  rw [← Integer.fit?_eq_none_iff]
  cases fit? n with
  | none => exact ⟨fun _ => rfl, fun _ => ⟨_, rfl, rfl⟩⟩
  | some w => exact ⟨nofun, nofun⟩

/-- **A range error is an overflow**, and nothing else but the one remainder that is refused. A text that applies an
operator to two words ends in one just when the exact result is out of range, or when it is the least word modulo minus
one, which is nought; and so does a text that negates a word, just when the opposite is out of range. -/
theorem overflows_iff (text : String) (session : Session) :
    (∀ {op a b n}, Applies text session op a b → op.exact? a.toInt b.toInt = some n →
      (Overflows text session ↔ ¬InRange n ∨ Refused op a b) ∧ (Refused op a b → n = 0)) ∧
    ∀ {a}, Negates text session a → (Overflows text session ↔ ¬InRange (-a.toInt)) := by
  refine ⟨fun {op a b n} h hn => ⟨?_, ?_⟩, fun {a} h => ?_⟩
  · have hand : op ≠ .and := by rintro rfl; cases hn
    have hor : op ≠ .or := by rintro rfl; cases hn
    rw [Overflows, h.run hand hor]
    by_cases hx : Refused op a b
    · rw [BinOp.apply_of_refused hx]
      exact ⟨fun _ => .inr hx, fun _ => ⟨_, rfl, rfl⟩⟩
    · rw [BinOp.apply_of_exact hn hx, mapError_fitting_iff, or_iff_left hx]
  · rintro ⟨rfl, rfl, rfl⟩
    have hnought : BinOp.rem.exact? Int64.minValue.toInt (-1 : Int64).toInt = some 0 := by decide
    exact Option.some.inj (hn.symm.trans hnought)
  · rw [Overflows, h.run, mapError_fitting_iff]

/-- **One less than the least word, and its opposite.** -/
theorem overflows_iff_least :
    let session := Session.start (.ofList [("a", .int Int64.minValue)])
    Applies "a - 1" session .sub Int64.minValue 1 ∧
      BinOp.sub.exact? Int64.minValue.toInt (1 : Int64).toInt = some (Int64.minValue.toInt - 1) ∧
      (Overflows "a - 1" session ↔ ¬InRange (Int64.minValue.toInt - 1) ∨ Refused .sub Int64.minValue 1) ∧
      Negates "-a" session Int64.minValue ∧ (Overflows "-a" session ↔ ¬InRange (-Int64.minValue.toInt)) := by
  intro session
  have hleast : outcome (Expr.var "a").eval session.vars = (.ok (.int Int64.minValue), session.vars) :=
    outcome_var (by decide +kernel)
  have hsub : parse "a - 1" = .ok [.binary .sub (.var "a") (.lit (.int 1))] :=
    parse_eq_ok_iff.2 ⟨[.ident "a", .symbol (.op .sub), .int 1], scan_of_toOption (by decide +kernel), rfl⟩
  have hneg : parse "-a" = .ok [.unary .neg (.var "a")] :=
    parse_eq_ok_iff.2 ⟨[.symbol (.op .sub), .ident "a"], scan_of_toOption (by decide +kernel), rfl⟩
  have happlies : Applies "a - 1" session .sub Int64.minValue 1 := ⟨_, _, _, _, hsub, hleast, rfl⟩
  have hnegates : Negates "-a" session Int64.minValue := ⟨_, _, hneg, hleast⟩
  have hexact : BinOp.sub.exact? Int64.minValue.toInt (1 : Int64).toInt = some (Int64.minValue.toInt - 1) := rfl
  obtain ⟨hoverflows, -⟩ := (overflows_iff "a - 1" session).1 happlies hexact
  exact ⟨happlies, hexact, hoverflows, hnegates, (overflows_iff "-a" session).2 hnegates⟩

/-- **The least word modulo minus one is nought**, and ends in a range error. -/
theorem exists_overflow_inRange :
    let session := Session.start (.ofList [("a", .int Int64.minValue)])
    Applies "a % -1" session .rem Int64.minValue (-1) ∧
      BinOp.rem.exact? Int64.minValue.toInt (-1 : Int64).toInt = some 0 ∧ InRange 0 ∧ Overflows "a % -1" session := by
  intro session
  have hleast : outcome (Expr.var "a").eval session.vars = (.ok (.int Int64.minValue), session.vars) :=
    outcome_var (by decide +kernel)
  have hparse : parse "a % -1" = .ok [.binary .rem (.var "a") (.unary .neg (.lit (.int 1)))] :=
    parse_eq_ok_iff.2
      ⟨[.ident "a", .symbol (.op .rem), .symbol (.op .sub), .int 1], scan_of_toOption (by decide +kernel), rfl⟩
  have happlies : Applies "a % -1" session .rem Int64.minValue (-1) := ⟨_, _, _, _, hparse, hleast, rfl⟩
  refine ⟨happlies, by decide, by decide, EvalFault.overflow.toError, ?_, rfl⟩
  rw [happlies.run (by decide) (by decide), BinOp.apply_of_refused ⟨rfl, rfl, rfl⟩]
  rfl

end Evaluation

end LineShell.Calculator
