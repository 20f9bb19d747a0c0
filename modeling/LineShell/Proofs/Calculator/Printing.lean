import LineShell.Proofs.Calculator.Depth
import LineShell.Proofs.Calculator.Writing
/-!
# Printing — the tokens of a value's text

A negative integer is printed as a sign and the digits of its opposite, which are two tokens, and the scan finds them
unless there is no word for the opposite: so the text of a value is no tokens where the least word is in it
(`scanFrom_text`).
-/
namespace LineShell.Value

open Calculator (Token)

mutual

/-- **The integers in a value**, from left to right. -/
def integers : Value → List Int64
  | nil | bool _ => []
  | int n => [n]
  | array items => integersOf items

def integersOf : List Value → List Int64
  | [] => []
  | v :: vs => v.integers ++ integersOf vs

end

mutual

/-- **The tokens of a value's text.** -/
def tokens : Value → List Token
  | nil => [.ident "nil"]
  | bool .true => [.ident "true"]
  | bool .false => [.ident "false"]
  | int n => if n < 0 then [.symbol (.op .sub), .int (-n)] else [.int n]
  | array [] => [.symbol .openSquare, .symbol .closeSquare]
  | array (item :: items) => .symbol .openSquare :: (item.tokens ++ tokensMore items)

/-- **The tokens of the rest of an array's text**: the items after the first, and the closing bracket. -/
def tokensMore : List Value → List Token
  | [] => [.symbol .closeSquare]
  | item :: items => .symbol .comma :: (item.tokens ++ tokensMore items)

end

/-- **The tokens of an array's text behind its opening bracket.** -/
def tokensWithin : List Value → List Token
  | [] => [.symbol .closeSquare]
  | item :: items => item.tokens ++ tokensMore items

theorem tokens_array (items : List Value) : (array items).tokens = .symbol .openSquare :: tokensWithin items := by
  cases items <;> rfl

mutual

theorem write_append (before before' : String) : ∀ v : Value, write (before ++ before') v = before ++ write before' v
  | nil | bool .true | bool .false | int _ | array [] => String.append_assoc ..
  | array (item :: items) => by
    rw [write, write, String.append_assoc, write_append before _ item, writeMore_append before _ items]

theorem writeMore_append (before before' : String) : ∀ items : List Value,
    writeMore (before ++ before') items = before ++ writeMore before' items
  | [] => String.append_assoc ..
  | item :: items => by
    rw [writeMore, writeMore, String.append_assoc, write_append before _ item, writeMore_append before _ items]

end

theorem write_eq (before : String) (v : Value) : write before v = before ++ v.text := by
  rw [text, ← write_append, String.append_empty]

theorem writeMore_eq (before : String) (items : List Value) :
    writeMore before items = before ++ writeMore "" items := by
  rw [← writeMore_append, String.append_empty]

theorem toList_writeMore_nil : (writeMore "" []).toList = [']'] := by
  rw [writeMore, String.empty_append]
  rfl

theorem toList_text_array (item : Value) (items : List Value) :
    (array (item :: items)).text.toList = '[' :: (item.text.toList ++ (writeMore "" items).toList) := by
  rw [text, write, writeMore_eq, write_eq]
  simp

theorem toList_writeMore (item : Value) (items : List Value) :
    (writeMore "" (item :: items)).toList = ',' :: ' ' :: (item.text.toList ++ (writeMore "" items).toList) := by
  rw [writeMore, writeMore_eq, write_eq]
  simp

end LineShell.Value

namespace LineShell.Calculator

open Text (EndsRun isWordChar)

section Scan

variable {opened : Nat} {found : List Token} {rest cs : List Char} {c : Char} {s : Symbol}

/-- **A symbol that is never the first half of another** is read by itself. -/
theorem scanFrom_single (hs : Symbol.single? c = some s) (hd : ∀ d, Symbol.double? c d = none) (cs : List Char) :
    scanFrom opened found (c :: cs) = scanFrom (s.track opened) (.symbol s :: found) cs :=
  scanFrom_symbol (Symbol.leading?_eq_some_iff.2 (.inr ⟨hs, rfl, fun d _ => hd d⟩))

theorem scanFrom_minus (cs : List Char) :
    scanFrom opened found ('-' :: cs) = scanFrom opened (.symbol (.op .sub) :: found) cs :=
  scanFrom_single (s := .op .sub) rfl (fun _ => rfl) cs

theorem scanFrom_open (cs : List Char) :
    scanFrom opened found ('[' :: cs) = scanFrom (opened + 1) (.symbol .openSquare :: found) cs :=
  scanFrom_single (s := .openSquare) rfl (fun _ => rfl) cs

theorem scanFrom_close (cs : List Char) :
    scanFrom (opened + 1) found (']' :: cs) = scanFrom opened (.symbol .closeSquare :: found) cs :=
  scanFrom_single (s := .closeSquare) rfl (fun _ => rfl) cs

theorem scanFrom_comma (cs : List Char) :
    scanFrom opened found (',' :: ' ' :: cs) = scanFrom opened (.symbol .comma :: found) cs :=
  (scanFrom_single (s := .comma) rfl (fun _ => rfl) _).trans (scanFrom_blank (by decide) (by decide))

/-- **What the scan makes of text with these integers and tokens**, and of the rest behind it: tokens, unless the least
word is among the integers. -/
def scanned (opened : Nat) (found : List Token) (rest : List Char) (ns : List Int64) (tokens : List Token) :
    Except ParseFault (List Token) :=
  if Int64.minValue ∈ ns then .error (.literal "9223372036854775808")
  else scanFrom opened (tokens.reverse ++ found) rest

theorem scanned_cons (token : Token) (ns : List Int64) (tokens : List Token) :
    scanned opened (token :: found) rest ns tokens = scanned opened found rest ns (token :: tokens) := by
  rw [scanned, scanned, List.reverse_cons, List.append_assoc, List.singleton_append]

/-- **One text behind another**: the rest behind the first is the second and what is behind that. -/
theorem scanned_append {middle : List Char} {opened' : Nat} {ns ns' : List Int64} {tokens tokens' : List Token}
    (h : ∀ found, scanFrom opened found middle = scanned opened' found rest ns' tokens') :
    scanned opened found middle ns tokens = scanned opened' found rest (ns ++ ns') (tokens ++ tokens') := by
  by_cases hn : Int64.minValue ∈ ns
  · rw [scanned, scanned, if_pos hn, if_pos (List.mem_append_left _ hn)]
  · rw [scanned, if_neg hn, h]
    simp only [scanned, List.mem_append, hn, false_or, List.reverse_append, List.append_assoc]

theorem scanFrom_word_text {name : String} {v : Value} (htext : v.text = name) (hname : isName name = true)
    (hintegers : v.integers = []) (htokens : v.tokens = [.ident name]) (hr : EndsRun isWordChar rest) :
    scanFrom opened found (v.text.toList ++ rest) = scanned opened found rest v.integers v.tokens := by
  rw [htext, scanFrom_ident hname hr, hintegers, htokens]
  rfl

theorem scanFrom_int_text (n : Int64) (hr : EndsRun isWordChar rest) :
    scanFrom opened found ((Value.int n).text.toList ++ rest) =
      scanned opened found rest (Value.int n).integers (Value.int n).tokens := by
  have htext : (Value.int n).text = toString n.toInt := String.empty_append
  by_cases hneg : n < 0
  · obtain ⟨k, hk⟩ : ∃ k : Nat, n.toInt = Int.negSucc k := by
      refine Int.eq_negSucc_of_lt_zero ?_
      exact Integer.toInt_lt_zero.2 hneg
    have hchars : (Value.int n).text.toList = '-' :: Nat.toDigits 10 (k + 1) := by
      rw [htext, hk]
      show ("-" ++ toString (k + 1)).toList = _
      rw [String.toList_append]
      exact congrArg _ Nat.toList_repr
    rw [hchars, List.cons_append, scanFrom_minus, scanFrom_digits _ hr]
    by_cases hleast : n = Int64.minValue
    · -- The opposite of the least word is one past the range, and so are the digits.
      have hk' : k + 1 = 2 ^ 63 := by
        rw [hleast, Int64.toInt_minValue] at hk
        omega
      have hnone : Integer.fit? ((2 ^ 63 : Nat) : Int) = none := by decide
      have hdigits : toString (2 ^ 63) = "9223372036854775808" := by decide +kernel
      have hmem : Int64.minValue ∈ (Value.int n).integers := hleast ▸ List.mem_cons_self
      rw [hk', hnone, scanned, if_pos hmem, ← hdigits]
    · have hfit : Integer.fit? ((k + 1 : Nat) : Int) = some (-n) := by
        rw [Integer.fit?_eq_some_iff, Integer.toInt_neg_of_ne hleast, hk]
        rfl
      rw [hfit]
      simp [scanned, Value.integers, Value.tokens, hneg, Ne.symm hleast]
  · have hnonneg : 0 ≤ n.toInt := Int.not_lt.1 fun h => hneg (Integer.toInt_lt_zero.1 h)
    have hne : Int64.minValue ≠ n := fun h => hneg (h ▸ by decide)
    have hread : scanFrom opened found ((Token.int n).written.toList ++ rest) = _ := scanFrom_int hnonneg hr
    rw [htext]
    refine hread.trans ?_
    simp [scanned, Value.integers, Value.tokens, hneg, hne]

theorem endsRun_writeMore (items : List Value) (rest : List Char) :
    EndsRun isWordChar ((Value.writeMore "" items).toList ++ rest) := by
  intro c hc
  cases items with
  | nil =>
    rw [Value.toList_writeMore_nil] at hc
    cases hc
    decide +kernel
  | cons item items =>
    rw [Value.toList_writeMore] at hc
    cases hc
    decide +kernel

mutual

/-- **The text of a value is scanned as its tokens**, unless the least word is in it. -/
theorem scanFrom_text : ∀ (v : Value) {opened : Nat} {found : List Token} {rest : List Char}, EndsRun isWordChar rest →
    scanFrom opened found (v.text.toList ++ rest) = scanned opened found rest v.integers v.tokens
  | .nil, _, _, _, hr => scanFrom_word_text String.empty_append (by decide +kernel) rfl rfl hr
  | .bool true, _, _, _, hr => scanFrom_word_text String.empty_append (by decide +kernel) rfl rfl hr
  | .bool false, _, _, _, hr => scanFrom_word_text String.empty_append (by decide +kernel) rfl rfl hr
  | .int n, _, _, _, hr => scanFrom_int_text n hr
  | .array [], _, _, _, _ => by
    have htext : (Value.array []).text = "[]" := String.empty_append
    rw [htext]
    exact (scanFrom_open _).trans (scanFrom_close _)
  | .array (item :: items), opened, found, rest, _ => by
    have hword := endsRun_writeMore items rest
    rw [Value.toList_text_array, List.cons_append, scanFrom_open, List.append_assoc, scanFrom_text item hword,
      scanned_append fun found => scanFrom_writeMore items, scanned_cons]
    rfl

theorem scanFrom_writeMore : ∀ (items : List Value) {opened : Nat} {found : List Token} {rest : List Char},
    scanFrom (opened + 1) found ((Value.writeMore "" items).toList ++ rest) =
      scanned opened found rest (Value.integersOf items) (Value.tokensMore items)
  | [], _, _, _ => by
    rw [Value.toList_writeMore_nil]
    exact scanFrom_close _
  | item :: items, opened, found, rest => by
    have hword := endsRun_writeMore items rest
    rw [Value.toList_writeMore, List.cons_append, List.cons_append, scanFrom_comma, List.append_assoc,
      scanFrom_text item hword, scanned_append fun found => scanFrom_writeMore items, scanned_cons]
    rfl

end

theorem scan_text (v : Value) : scan v.text =
    if Int64.minValue ∈ v.integers then .error (.literal "9223372036854775808") else .ok v.tokens := by
  have hread : scanFrom 0 [] (v.text.toList ++ []) = scanned 0 [] [] v.integers v.tokens := scanFrom_text v nofun
  rw [List.append_nil] at hread
  rw [scan, hread, scanned, List.append_nil, scanFrom_nil, List.reverse_reverse]

end Scan

end LineShell.Calculator
