import LineShell.Calculator.Token
import LineShell.Value
/-!
# Fault — what can be wrong with a program, and how it is said

A fault is a cause.  Its kind and message are what the user reads, as `kind: message`.
-/
namespace LineShell.Calculator

/-- **Why a text is no program.** -/
inductive ParseFault where
  | stray (c : Char)
  /-- A literal past the largest integer; its digits. -/
  | literal (digits : String)
  /-- A token that cannot stand where it stands. -/
  | unexpected (found : Token)
  /-- The end of the text where an expression should start. -/
  | unexpectedEnd
  /-- A token, or the end of the text, in place of the one token that can follow. -/
  | expected (wanted : String) (found : Option Token)
  | reserved (name : String)
  | unsupported (word : String)
  /-- Nesting past the limit. -/
  | tooDeep
  deriving DecidableEq, Repr

namespace ParseFault

def kind : ParseFault → String
  | literal _ => "RangeError"
  | unsupported _ => "NotImplementedError"
  | tooDeep => "SystemStackError"
  | _ => "SyntaxError"

def message : ParseFault → String
  | stray c => "unexpected character '" ++ c.toString ++ "'"
  | literal digits => "integer literal " ++ digits ++ " is too large"
  | unexpected found => "unexpected '" ++ found.text ++ "'"
  | unexpectedEnd => "unexpected end of input"
  | expected wanted (some found) => "unexpected '" ++ found.text ++ "', expecting '" ++ wanted ++ "'"
  | expected wanted none => "unexpected end of input, expecting '" ++ wanted ++ "'"
  | reserved name => "can't assign to " ++ name
  | unsupported word => "'" ++ word ++ "' is not supported by this evaluator"
  | tooDeep => "stack level too deep"

/-- A message that starts otherwise than one about the end of the text. -/
theorem message_ne {f : ParseFault} {start rest : String} (hf : f.message = start ++ rest) (i : Nat) (wanted : String)
    (hi : i < start.toList.length ∧ i < "unexpected end of input, expecting '".toList.length ∧
      start.toList[i]? ≠ "unexpected end of input, expecting '".toList[i]?) :
    f.message ≠ "unexpected end of input, expecting '" ++ wanted ++ "'" := by
  obtain ⟨hstart, hend, hne⟩ := hi
  intro he
  rw [hf, String.append_assoc] at he
  have hc := congrArg (fun s => s.toList[i]?) he
  simp only [String.toList_append] at hc
  rw [List.getElem?_append_left hstart, List.getElem?_append_left hend] at hc
  exact hne hc

/-- **The message about the end of the text** is of no other fault. -/
theorem eq_expected_of_message {f : ParseFault} {wanted : String}
    (h : f.message = "unexpected end of input, expecting '" ++ wanted ++ "'") : f = .expected wanted none := by
  cases f with
  | expected w found =>
    cases found with
    | none =>
      have hm : "unexpected end of input, expecting '" ++ w ++ "'" =
          "unexpected end of input, expecting '" ++ wanted ++ "'" := h
      rw [String.append_left_inj, String.append_right_inj] at hm
      rw [hm]
    | some token =>
      have hm : (ParseFault.expected w (some token)).message =
          "unexpected '" ++ (token.text ++ ("', expecting '" ++ (w ++ "'"))) := by
        show "unexpected '" ++ token.text ++ "', expecting '" ++ w ++ "'" = _
        rw [String.append_assoc, String.append_assoc, String.append_assoc]
      exact absurd h (message_ne hm 11 wanted (by decide +kernel))
  | unexpectedEnd =>
    have hl := congrArg String.length h
    rw [String.length_append, String.length_append] at hl
    have hshort : unexpectedEnd.message.length = 23 := by decide +kernel
    have hlong : "unexpected end of input, expecting '".length = 36 := by decide +kernel
    rw [hshort, hlong] at hl
    clear h hshort hlong
    omega
  | tooDeep => exact absurd h (message_ne String.append_empty.symm 0 wanted (by decide +kernel))
  | stray c => exact absurd h (message_ne (String.append_assoc ..) 11 wanted (by decide +kernel))
  | literal digits => exact absurd h (message_ne (String.append_assoc ..) 0 wanted (by decide +kernel))
  | unexpected found => exact absurd h (message_ne (String.append_assoc ..) 11 wanted (by decide +kernel))
  | reserved name => exact absurd h (message_ne rfl 0 wanted (by decide +kernel))
  | unsupported word => exact absurd h (message_ne (String.append_assoc ..) 0 wanted (by decide +kernel))

end ParseFault

/-- **Why a program has no value.** -/
inductive EvalFault where
  | undefined (name : String)
  | overflow
  | dividedByZero
  /-- An integer on the left and something else on the right. -/
  | notInteger (operand : Kind)
  | noUnary (op : UnOp) (receiver : Kind)
  | noBinary (op : BinOp) (receiver : Kind)
  deriving DecidableEq, Repr

namespace EvalFault

def kind : EvalFault → String
  | undefined _ => "NameError"
  | overflow => "RangeError"
  | dividedByZero => "ZeroDivisionError"
  | notInteger _ => "TypeError"
  | noUnary _ _ => "NoMethodError"
  | noBinary _ _ => "NoMethodError"

def message : EvalFault → String
  | undefined name => "undefined local variable or method '" ++ name ++ "'"
  | overflow => "integer overflow"
  | dividedByZero => "divided by 0"
  | notInteger operand => operand.name ++ " can't be coerced into Integer"
  | noUnary op receiver => "undefined method '" ++ op.text ++ "@' for " ++ receiver.name
  | noBinary op receiver => "undefined method '" ++ op.text ++ "' for " ++ receiver.name

end EvalFault

end LineShell.Calculator
