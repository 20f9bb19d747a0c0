import LineShell.Proofs.Calculator.Overflow
/-!
# Division — the law of division rounded down

Quotient and remainder are corrected apart, each from what the machine rounds toward zero, and yet they fit together:
the dividend is the quotient times the divisor and the remainder.  Some of the operations on the way are not checked.
Taken one by one, with a stop wherever the machine would trap, they come to the same answers, so that none of them ever
traps (`floor_division`).
-/
namespace LineShell.Integer

/-! ### One operation at a time -/

/-- **The quotient rounded toward zero**, where the divisor is not zero and there is a word for it. -/
def quotient? (a b : Int64) : Option Int64 := if b = 0 then none else fit? (a.toInt.tdiv b.toInt)

/-- **The remainder of rounding toward zero.** The machine has one only where it has a quotient. -/
def remainder? (a b : Int64) : Option Int64 :=
  if (quotient? a b).isSome then fit? (a.toInt.tmod b.toInt) else none

/-- **Quotient rounded down, by operations that stop where the machine would trap.** The outer `none` is the stop, the
inner one the answer of the checked division that comes first. -/
def floorDivByStep (a b : Int64) : Option (Option Int64) :=
  match quotient? a b with
  | none => some none
  | some q => do
    let r ← remainder? a b
    if r ≠ 0 ∧ decide (a < 0) ≠ decide (b < 0) then
      let less ← sub? q 1
      return some less
    else return some q

/-- **Remainder with the sign of the divisor, by operations that stop where the machine would trap.** -/
def floorModByStep (a b : Int64) : Option (Option Int64) :=
  match remainder? a b with
  | none => some none
  | some r => do
    if r ≠ 0 ∧ decide (r < 0) ≠ decide (b < 0) then
      let moved ← add? r b
      return some moved
    else return some r

section Steps

variable {a b : Int64}

theorem quotient?_eq (a b : Int64) : quotient? a b = if undivided a b then none else some (a / b) := by
  rw [quotient?]
  by_cases hb : b = 0
  · rw [if_pos hb, if_pos (undivided_iff.2 (.inl hb))]
  · rw [if_neg hb]
    by_cases hx : a = Int64.minValue ∧ b = -1
    · obtain ⟨rfl, rfl⟩ := hx
      decide
    · rw [if_neg fun h => (undivided_iff.1 h).elim hb hx, fit?_eq_some_iff]
      exact toInt_quotient hx

theorem remainder?_eq (a b : Int64) : remainder? a b = if undivided a b then none else some (a % b) := by
  rw [remainder?, quotient?_eq]
  split
  · rfl
  · exact fit?_eq_some_iff.2 (Int64.toInt_mod a b)

theorem floorDivByStep_eq (a b : Int64) : floorDivByStep a b = some (floorDiv? a b) := by
  rw [floorDivByStep, quotient?_eq, remainder?_eq, floorDiv?]
  by_cases h : undivided a b = true
  · simp only [if_pos h]
  · simp only [if_neg h, Option.bind_eq_bind, Option.bind_some]
    split
    · rename_i hmoved
      rw [sub?_quotient h hmoved.1]
      rfl
    · rfl

theorem floorModByStep_eq (a b : Int64) : floorModByStep a b = some (floorMod? a b) := by
  rw [floorModByStep, remainder?_eq, floorMod?]
  by_cases h : undivided a b = true
  · simp only [if_pos h]
  · simp only [if_neg h]
    split
    · rename_i hmoved
      rw [add?_remainder hmoved.2]
      rfl
    · rfl

end Steps

/-! ### The law -/

/-- **Quotient and remainder rounded down** make up the dividend, and the remainder lies between nought and the
divisor. -/
theorem floor_law {a b : Int} (hb : b ≠ 0) : a = a.fdiv b * b + a.fmod b ∧
    (a.fmod b = 0 ∨ (a.fmod b).sign = b.sign) ∧ (a.fmod b).natAbs < b.natAbs := by
  rcases Int.lt_or_gt_of_ne hb with hneg | hpos
  · obtain ⟨hsum, hlow, hhigh⟩ := (Int.fdiv_fmod_unique' hneg).1 (And.intro (Eq.refl (a.fdiv b)) (Eq.refl (a.fmod b)))
    rw [Int.mul_comm b] at hsum
    refine ⟨by omega, ?_, by omega⟩
    rw [Int.sign_eq_neg_one_of_neg hneg, Int.sign_eq_neg_one_iff_neg]
    omega
  · obtain ⟨hsum, hlow, hhigh⟩ := (Int.fdiv_fmod_unique hpos).1 (And.intro (Eq.refl (a.fdiv b)) (Eq.refl (a.fmod b)))
    rw [Int.mul_comm b] at hsum
    refine ⟨by omega, ?_, by omega⟩
    rw [Int.sign_eq_one_of_pos hpos, Int.sign_eq_one_iff_pos]
    omega

/-- **The law of division rounded down.** Where there are a quotient and a remainder, they make up the dividend exactly,
and the remainder is nought or has the sign of the divisor, and is smaller than it. On the way no operation traps: not
the remainder that tells whether the quotient is corrected, and neither of the two corrections. -/
theorem floor_division (a b : Int64) :
    (∀ q r, floorDiv? a b = some q → floorMod? a b = some r →
      a.toInt = q.toInt * b.toInt + r.toInt ∧ (r.toInt = 0 ∨ r.toInt.sign = b.toInt.sign) ∧
        r.toInt.natAbs < b.toInt.natAbs) ∧
      floorDivByStep a b = some (floorDiv? a b) ∧ floorModByStep a b = some (floorMod? a b) := by
  refine ⟨fun q r hq hr => ?_, floorDivByStep_eq a b, floorModByStep_eq a b⟩
  have hdivided : ¬undivided a b = true := fun h => by
    rw [floorDiv?, if_pos h] at hq
    cases hq
  rw [undivided_iff, not_or] at hdivided
  obtain ⟨hb, hx⟩ := hdivided
  rw [floorDiv?_eq hb, fit?_eq_some_iff] at hq
  rw [floorMod?_eq hb hx, fit?_eq_some_iff] at hr
  rw [hq, hr]
  exact floor_law fun hz => hb (toInt_eq_zero.1 hz)

/-- **The least word divided by the greatest**, which corrects both, and by its opposite. -/
theorem floor_division_least :
    floorDiv? Int64.minValue Int64.maxValue = some (-2) ∧
      floorMod? Int64.minValue Int64.maxValue = some 9223372036854775806 ∧
      Int64.minValue.toInt = (-2 : Int64).toInt * Int64.maxValue.toInt + (9223372036854775806 : Int64).toInt ∧
      floorDivByStep Int64.minValue (-1) = some none ∧ floorDiv? Int64.minValue (-1) = none := by
  have hq : floorDiv? Int64.minValue Int64.maxValue = some (-2) := by decide
  have hr : floorMod? Int64.minValue Int64.maxValue = some 9223372036854775806 := by decide
  have hnone : floorDiv? Int64.minValue (-1) = none := by decide
  obtain ⟨hlaw, -⟩ := floor_division Int64.minValue Int64.maxValue
  obtain ⟨-, hstep, -⟩ := floor_division Int64.minValue (-1)
  exact ⟨hq, hr, (hlaw _ _ hq hr).1, hnone ▸ hstep, hnone⟩

end LineShell.Integer
