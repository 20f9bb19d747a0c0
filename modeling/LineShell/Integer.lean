/-!
# Integer — arithmetic on 64-bit words that refuses to wrap

Integers are signed 64-bit words.  An operation whose result does not fit answers `none`; division rounds down, and a
remainder has the sign of the divisor.
-/
namespace LineShell.Integer

/-- **The word with an exact value**, if there is one. -/
def fit? (n : Int) : Option Int64 :=
  if Int64.minValue.toInt ≤ n ∧ n ≤ Int64.maxValue.toInt then some (Int64.ofInt n) else none

/-- **The exact values that there is a word for.** -/
def InRange (n : Int) : Prop := Int64.minValue.toInt ≤ n ∧ n ≤ Int64.maxValue.toInt

instance : DecidablePred InRange := fun _ => instDecidableAnd

theorem inRange_iff {n : Int} : InRange n ↔ -9223372036854775808 ≤ n ∧ n ≤ 9223372036854775807 := Iff.rfl

theorem inRange_toInt (a : Int64) : InRange a.toInt := ⟨a.minValue_le_toInt, a.toInt_le⟩

theorem toInt_lt_zero {a : Int64} : a.toInt < 0 ↔ a < 0 := by
  rw [Int64.lt_iff_toInt_lt, Int64.toInt_zero]

/-- **Every word but the least has an opposite.** -/
theorem toInt_neg_of_ne {a : Int64} (h : a ≠ Int64.minValue) : (-a).toInt = -a.toInt := by
  have hne : a.toInt ≠ Int64.minValue.toInt := fun he => h (Int64.toInt_inj.1 he)
  rw [Int64.toInt_minValue] at hne
  obtain ⟨hlow, hhigh⟩ := inRange_iff.1 (inRange_toInt a)
  rw [Int64.toInt_neg]
  exact Int.bmod_eq_of_le (by omega) (by omega)

theorem fit?_eq (n : Int) : fit? n = if InRange n then some (Int64.ofInt n) else none := rfl

theorem fit?_eq_none_iff {n : Int} : fit? n = none ↔ ¬InRange n := by
  rw [fit?_eq]
  split <;> simp_all

/-- **What fits** is the word with that exact value. -/
theorem fit?_eq_some_iff {n : Int} {w : Int64} : fit? n = some w ↔ w.toInt = n := by
  rw [fit?_eq]
  constructor
  · intro h
    split at h
    · rename_i hr
      cases h
      exact Int64.toInt_ofInt_of_le hr.1 (Int.lt_of_le_sub_one hr.2)
    · cases h
  · intro h
    rw [if_pos (h ▸ inRange_toInt w), ← h, Int64.ofInt_toInt]

theorem fit?_toInt (w : Int64) : fit? w.toInt = some w := fit?_eq_some_iff.2 rfl

def add? (a b : Int64) : Option Int64 := fit? (a.toInt + b.toInt)

def sub? (a b : Int64) : Option Int64 := fit? (a.toInt - b.toInt)

def mul? (a b : Int64) : Option Int64 := fit? (a.toInt * b.toInt)

def neg? (a : Int64) : Option Int64 := fit? (-a.toInt)

/-- **A sum that fits** is what the machine adds up. -/
theorem add?_eq_some {a b : Int64} (h : InRange (a.toInt + b.toInt)) : add? a b = some (a + b) := by
  obtain ⟨hlow, hhigh⟩ := inRange_iff.1 h
  rw [add?, fit?_eq_some_iff, Int64.toInt_add]
  exact Int.bmod_eq_of_le (by omega) (by omega)

/-- **A difference that fits** is what the machine takes off. -/
theorem sub?_eq_some {a b : Int64} (h : InRange (a.toInt - b.toInt)) : sub? a b = some (a - b) := by
  obtain ⟨hlow, hhigh⟩ := inRange_iff.1 h
  rw [sub?, fit?_eq_some_iff, Int64.toInt_sub]
  exact Int.bmod_eq_of_le (by omega) (by omega)

/-- **Whether a word division has no answer**: the divisor is zero, or the least word is divided by minus one. -/
def undivided (a b : Int64) : Bool := b == 0 || (a == Int64.minValue && b == -1)

/-- **Quotient rounded down.** The machine rounds toward zero, so a quotient with a remainder and operands of two signs
is one less. -/
def floorDiv? (a b : Int64) : Option Int64 :=
  if undivided a b then none
  else if a % b ≠ 0 ∧ decide (a < 0) ≠ decide (b < 0) then some (a / b - 1)
  else some (a / b)

/-- **Remainder with the sign of the divisor.** It has an answer exactly where the quotient has one: the least word
modulo minus one is refused as well. -/
def floorMod? (a b : Int64) : Option Int64 :=
  if undivided a b then none
  else if a % b ≠ 0 ∧ decide (a % b < 0) ≠ decide (b < 0) then some (a % b + b)
  else some (a % b)

/-- **The number that decimal digits write.** -/
def decimal (digits : List Char) : Nat :=
  digits.foldl (fun n c => 10 * n + (c.toNat - '0'.toNat)) 0

/-- **The word that decimal digits write**, if it is in range. -/
def literal? (digits : List Char) : Option Int64 := fit? (decimal digits)

/-- **Whether a text is an integer**: an optional sign, then one or more of the ten digits, and a value in range. -/
def isInteger (text : String) : Bool :=
  match text.toList with
  | '-' :: digits => written digits && (fit? (-(decimal digits))).isSome
  | '+' :: digits => written digits && (literal? digits).isSome
  | digits => written digits && (literal? digits).isSome
where
  /-- **One digit or more, and nothing else.** -/
  written (digits : List Char) : Bool := !digits.isEmpty && digits.all Char.isDigit

end LineShell.Integer
