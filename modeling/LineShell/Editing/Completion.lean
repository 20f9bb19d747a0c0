import LineShell.Editing.Palette
import LineShell.Text.Encoding
import LineShell.Text.Name
/-!
# Completion — the words that the word being typed may become
-/
namespace LineShell.Editing

/-- **The word characters at the end** of some characters. -/
def wordAtEnd (cs : List Char) : List Char := (cs.reverse.takeWhile Text.isWordChar).reverse

/-- **The keywords and known names that start with a text**, in ascending order, each once. -/
def candidates (known : List String) (start : String) : List String :=
  Text.ascending ((Statement.blockWords ++ otherKeywords ++ [Statement.closingWord] ++ known).filter
    (start.toList.isPrefixOf ·.toList))

/-- **What is offered** is a keyword or a known name, and starts with what is typed. -/
theorem mem_candidates_iff {known : List String} {word start : String} : word ∈ candidates known start ↔
    (isKeyword word = true ∨ word ∈ known) ∧ start.toList <+: word.toList := by
  rw [candidates, Text.mem_ascending, List.mem_filter, List.mem_append, isKeyword_iff, List.isPrefixOf_iff_prefix]

/-- **A completion**: where the word being typed starts, in bytes, and what it may become. -/
structure Completion where
  start : Nat
  candidates : List String
  deriving DecidableEq, Repr

/-- **The completion of the word before a byte offset.** There is none at an offset past the end of the line or inside a
character, and nothing is suggested where no word is being typed. -/
def complete? (known : List String) (line : String) (offset : Nat) : Option Completion :=
  (Text.splitAtByte? offset line.toList).map fun (before, _) =>
    let word := String.ofList (wordAtEnd before)
    if word.isEmpty then ⟨offset, []⟩ else ⟨offset - word.utf8ByteSize, candidates known word⟩

end LineShell.Editing
