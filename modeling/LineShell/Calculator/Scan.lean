import LineShell.Calculator.Fault
import LineShell.Integer
import LineShell.Text.Blank
import LineShell.Text.Word
/-!
# Scan — from text to tokens

A `#` starts a comment that runs to the end of the line.  A line feed ends a statement unless a round or square bracket
is open; a semicolon always does.  A literal is a run of the ten digits and underscores that starts with a digit; a name
is a run of word characters that starts with a letter or underscore.  Of two symbols that fit, the longer is taken.
-/
namespace LineShell.Calculator

def Symbol.double? : Char → Char → Option Symbol
  | '|', '|' => some (.op .or)
  | '&', '&' => some (.op .and)
  | '=', '=' => some (.op .eq)
  | '!', '=' => some (.op .ne)
  | '<', '=' => some (.op .le)
  | '>', '=' => some (.op .ge)
  | _, _ => none

def Symbol.single? : Char → Option Symbol
  | '<' => some (.op .lt)
  | '>' => some (.op .gt)
  | '+' => some (.op .add)
  | '-' => some (.op .sub)
  | '*' => some (.op .mul)
  | '/' => some (.op .div)
  | '%' => some (.op .rem)
  | '!' => some .bang
  | '=' => some .assign
  | '(' => some .openRound
  | ')' => some .closeRound
  | '[' => some .openSquare
  | ']' => some .closeSquare
  | ',' => some .comma
  | _ => none

/-- **The symbol that `c` starts**, and what follows it. -/
def Symbol.leading? (c : Char) : List Char → Option (Symbol × List Char)
  | [] => (single? c).map (·, [])
  | d :: rest =>
    match double? c d with
    | some s => some (s, rest)
    | none => (single? c).map (·, d :: rest)

/-- **A symbol of two characters is taken where there is one**, and one of a single character otherwise. -/
theorem Symbol.leading?_eq_some_iff {c : Char} {cs rest : List Char} {s : Symbol} :
    leading? c cs = some (s, rest) ↔
      (∃ d, cs = d :: rest ∧ double? c d = some s) ∨
        (single? c = some s ∧ rest = cs ∧ ∀ d ∈ cs.head?, double? c d = none) := by
  cases cs with
  | nil =>
    rw [leading?, Option.map_eq_some_iff]
    constructor
    · rintro ⟨s', hs, he⟩
      cases he
      exact .inr ⟨hs, rfl, fun d hd => by cases hd⟩
    · rintro (⟨d, he, -⟩ | ⟨hs, rfl, -⟩)
      · cases he
      · exact ⟨s, hs, rfl⟩
  | cons d ds =>
    rw [leading?]
    cases hd : double? c d with
    | some s' =>
      constructor
      · intro he
        cases he
        exact .inl ⟨d, rfl, hd⟩
      · rintro (⟨d', he, hd'⟩ | ⟨-, -, hnone⟩)
        · cases he
          cases hd.symm.trans hd'
          rfl
        · rw [hnone d rfl] at hd
          cases hd
    | none =>
      constructor
      · intro h
        obtain ⟨s', hs, he⟩ := Option.map_eq_some_iff.1 h
        cases he
        refine .inr ⟨hs, rfl, fun d' hd' => ?_⟩
        cases hd'
        exact hd
      · rintro (⟨d', he, hd'⟩ | ⟨hs, rfl, -⟩)
        · cases he
          rw [hd'] at hd
          cases hd
        · exact Option.map_eq_some_iff.2 ⟨s, hs, rfl⟩

/-- **What follows a symbol is no longer than what followed its first character.** -/
theorem Symbol.length_le_of_leading? {c : Char} {cs rest : List Char} {s : Symbol}
    (h : leading? c cs = some (s, rest)) : rest.length ≤ cs.length := by
  rcases leading?_eq_some_iff.1 h with ⟨d, rfl, -⟩ | ⟨-, rfl, -⟩
  · exact Nat.le_succ _
  · exact Nat.le_refl _

/-- **How many brackets are open after a symbol.** Round and square brackets share one count, and a closer too many is
ignored. -/
def Symbol.track (opened : Nat) : Symbol → Nat
  | openRound | openSquare => opened + 1
  | closeRound | closeSquare => opened - 1
  | _ => opened

/-- **A character of a literal** after its first. -/
def isDigitOrUnderscore (c : Char) : Bool := c.isDigit || c == '_'

/-- **The tokens of the characters left**, after those already found (last first), with `opened` brackets open. -/
def scanFrom (opened : Nat) (found : List Token) (cs : List Char) : Except ParseFault (List Token) :=
  match cs with
  | [] => .ok found.reverse
  | c :: rest =>
    if c = '#' then scanFrom opened found (rest.dropWhile (· ≠ '\n'))
    else if c = ';' then scanFrom opened (.separator :: found) rest
    else if c = '\n' then scanFrom opened (if opened = 0 then .separator :: found else found) rest
    else if Text.isBlank c then scanFrom opened found rest
    else if c.isDigit then
      let digits := c :: (rest.takeWhile isDigitOrUnderscore).filter (· ≠ '_')
      match Integer.literal? digits with
      | some n => scanFrom opened (.int n :: found) (rest.dropWhile isDigitOrUnderscore)
      | none => .error (.literal (String.ofList digits))
    else if Text.isLetter c || c = '_' then
      let name := String.ofList (c :: rest.takeWhile Text.isWordChar)
      scanFrom opened (.ident name :: found) (rest.dropWhile Text.isWordChar)
    else
      match _ : Symbol.leading? c rest with
      | some (s, after) => scanFrom (s.track opened) (.symbol s :: found) after
      | none => .error (.stray c)
termination_by cs.length
decreasing_by
  all_goals simp only [List.length_cons]
  · exact Nat.lt_succ_of_le (List.dropWhile_sublist _).length_le
  · omega
  · omega
  · omega
  · exact Nat.lt_succ_of_le (List.dropWhile_sublist _).length_le
  · exact Nat.lt_succ_of_le (List.dropWhile_sublist _).length_le
  · exact Nat.lt_succ_of_le (Symbol.length_le_of_leading? (by assumption))

def scan (text : String) : Except ParseFault (List Token) := scanFrom 0 [] text.toList

theorem scan_of_toOption {text : String} {tokens : List Token} (h : (scan text).toOption = some tokens) :
    scan text = .ok tokens := by
  cases hs : scan text with
  | ok found =>
    rw [hs] at h
    cases h
    rfl
  | error f =>
    rw [hs] at h
    cases h

end LineShell.Calculator
