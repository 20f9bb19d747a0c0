import LineShell.Evaluator.Basic
import LineShell.Text.Encoding
import LineShell.Text.Line
/-!
# Drill — an evaluator that errs and breaks down on demand

For exercising the shell: what it does with a text is decided by the first trigger word that the text contains.
-/
namespace LineShell

/-- **Whether `part` occurs in `cs`.** -/
def occursIn (part : List Char) : List Char → Bool
  | [] => part.isEmpty
  | c :: cs => part.isPrefixOf (c :: cs) || occursIn part cs

/-- **The drill.** `boom` breaks down after a binding, `owned` with the text as the message, `odd` without a message,
and `fail` errs. Any other text binds `n` to the number of its dispatch and is answered with its length in bytes. -/
def Evaluator.drill : Evaluator Unit where
  evaluate text session memory :=
    let contains (word : String) : Bool := occursIn word.toList text.toList
    if contains "boom" then
      ⟨.breakdown (some "boom went the evaluator"),
        { session with vars := session.vars.bind "touched" (.bool true) }, memory⟩
    else if contains "owned" then ⟨.breakdown (some ("owned " ++ Text.trim text)), session, memory⟩
    else if contains "odd" then ⟨.breakdown none, session, memory⟩
    else if contains "fail" then ⟨.error ⟨"Scripted", Text.trim text⟩, session, memory⟩
    else
      ⟨.value (.array [.int (Int64.ofNat (Text.encode text).length), .nil]),
        { session with vars := session.vars.bind "n" (.int session.dispatched.toInt64) }, memory⟩

end LineShell
