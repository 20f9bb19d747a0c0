import LineShell.Editing.Assistant
import LineShell.Proofs.Calculator.Course
/-!
# Recognition — the names of a session in the line that is edited

A line that is one word is shown in the colour of that word (`highlight_word`) and completed from its start
(`complete?_word`).  The names that programs bind are words, and neither keywords nor integers, so they are shown as
names and completed (`bound_name_usable`).
-/
namespace LineShell.Editing

open Calculator (IsVariable isName course run)
open Text (isWordChar)

/-- **A line that is one word**: word characters, and at least one. -/
def IsWord (line : String) : Prop := line ≠ "" ∧ line.toList.all isWordChar = true

section Words

variable {known : List String} {line name : String}

/-- **A word is shown in its colour**, if it has one. -/
theorem highlight_word (h : IsWord line) : highlight known line =
    (colourOfWord known line).elim line fun colour => colour.code ++ line ++ resetCode := by
  have hpieces : Text.pieces line.toList = [.word line.toList] := by
    obtain ⟨hne, hall⟩ := h
    cases hcs : line.toList with
    | nil => exact absurd (String.toList_eq_nil_iff.1 hcs) hne
    | cons c cs => exact Text.pieces_of_all (hcs ▸ hall)
  rw [highlight, hpieces, List.map_singleton, String.join_cons, String.join_nil, String.append_empty, paint, colourOf,
    String.ofList_toList, Text.Piece.text, Text.Piece.chars, String.ofList_toList]
  cases colourOfWord known line <;> rfl

theorem wordAtEnd_of_all {cs : List Char} (h : cs.all isWordChar = true) : wordAtEnd cs = cs := by
  have hall : ∀ c ∈ cs.reverse, isWordChar c = true := fun c hc => List.all_eq_true.1 h c (List.mem_reverse.1 hc)
  have htake : (cs.reverse ++ []).takeWhile isWordChar = cs.reverse ++ [].takeWhile isWordChar :=
    List.takeWhile_append_of_pos hall
  rw [List.append_nil, List.takeWhile_nil, List.append_nil] at htake
  rw [wordAtEnd, htake, List.reverse_reverse]

/-- **A word completed at its end** is replaced from its start. -/
theorem complete?_word (h : IsWord line) :
    complete? known line line.utf8ByteSize = some ⟨0, candidates known line⟩ := by
  obtain ⟨hne, hall⟩ := h
  have hsplit := Text.splitAtByte?_append line.toList []
  rw [List.append_nil, String.ofList_toList] at hsplit
  have hempty : line.isEmpty = false := String.isEmpty_eq_false_iff.2 hne
  simp only [complete?, hsplit, Option.map_some, wordAtEnd_of_all hall, String.ofList_toList, hempty, Nat.sub_self,
    Bool.false_eq_true, if_false]

/-- **A known name is a completion of itself.** -/
theorem mem_candidates (h : name ∈ known) : name ∈ candidates known name :=
  mem_candidates_iff.2 ⟨.inr h, List.prefix_refl _⟩

end Words

section Names

variable {known : List String} {name : String}

theorem isWord_of_isName (h : isName name = true) : IsWord name := by
  obtain ⟨c, cs, hcs, hstart, hrun⟩ := Calculator.exists_of_isName h
  refine ⟨?_, ?_⟩
  · rintro rfl
    cases hcs
  · rw [hcs, List.all_cons, Calculator.isWordChar_of_start hstart, hrun]
    rfl

/-- No integer starts like a name. -/
theorem isInteger_of_isName (h : isName name = true) : Integer.isInteger name = false := by
  obtain ⟨c, cs, hcs, hstart, -⟩ := Calculator.exists_of_isName h
  have hwritten : Integer.isInteger.written (c :: cs) = false := by
    rw [Integer.isInteger.written, List.all_cons, Calculator.isDigit_of_start hstart]
    rfl
  unfold Integer.isInteger
  rw [hcs]
  split
  · rename_i heq
    cases heq
    exact absurd hstart (by decide +kernel)
  · rename_i heq
    cases heq
    exact absurd hstart (by decide +kernel)
  · rw [hwritten]
    rfl

/-- **Every keyword is reserved**, so that no variable has the name of one. -/
theorem isKeyword_of_isVariable (h : IsVariable name) : isKeyword name = false := by
  have hreserved : ∀ word ∈ Statement.blockWords ++ otherKeywords ++ [Statement.closingWord],
      Calculator.reservedWords.contains word = true := by decide
  exact Bool.eq_false_iff.2 fun hk => h.2 (hreserved name (isKeyword_iff.1 hk))

theorem colourOfWord_of_isVariable (h : IsVariable name) (hk : name ∈ known) :
    colourOfWord known name = some .green := by
  rw [colourOfWord, isKeyword_of_isVariable h, isInteger_of_isName h.1, List.contains_iff_mem.2 hk]
  rfl

end Names

/-- **A bound name is a name everywhere.** After any texts, failing ones included, a bound name is a program that reads
its value and changes nothing; and an assistant told of the names that are bound shows it as a name, and offers it to
complete it. -/
theorem bound_name_usable {texts : List String} {name : String} {v : Value}
    (h : (course texts (.start .empty)).vars.lookup name = some v) :
    run name (course texts (.start .empty)) = (.ok v, course texts (.start .empty)) ∧
      ∀ (assistant : Assistant) (names : List String),
        (∀ other, other ∈ names ↔ other ∈ (course texts (.start .empty)).vars.names) →
          (∀ offset, (assistant.update names).highlight name offset = Colour.green.code ++ name ++ resetCode) ∧
            ∃ candidates, (assistant.update names).complete? name name.utf8ByteSize = some ⟨0, candidates⟩ ∧
              name ∈ candidates := by
  have hbound : (course texts (.start .empty)).vars.lookup name ≠ none := fun hnone => nomatch h.symm.trans hnone
  have hvariable : IsVariable name := Calculator.isVariable_of_course hbound
  refine ⟨Calculator.run_name hvariable h, fun assistant names hnames => ?_⟩
  have hknown : name ∈ Text.ascending names := Text.mem_ascending.2 ((hnames name).2 (Bindings.mem_names_iff.2 hbound))
  have hword := isWord_of_isName hvariable.1
  refine ⟨fun offset => ?_, candidates (Text.ascending names) name, complete?_word hword, mem_candidates hknown⟩
  rw [Assistant.highlight, Assistant.update, highlight_word hword, colourOfWord_of_isVariable hvariable hknown]
  rfl

/-- **A name with letters beyond ASCII**, bound before a fault, and a text that is no program after it. -/
theorem bound_name_usable_fault :
    let session := course ["größe = [1, -2]; x = größe; ende", "größe = nil +"] (.start .empty)
    session.vars.lookup "größe" = some (.array [.int 1, .int (-2)]) ∧
      run "größe" session = (.ok (.array [.int 1, .int (-2)]), session) ∧
        (∀ offset, (({} : Assistant).update ["größe", "x", "größe"]).highlight "größe" offset =
          "\x1b[32mgröße\x1b[0m") ∧
          ∃ candidates, (({} : Assistant).update ["größe", "x", "größe"]).complete? "größe" "größe".utf8ByteSize =
            some ⟨0, candidates⟩ ∧ "größe" ∈ candidates := by
  intro session
  have hbound : session.vars.lookup "größe" = some (.array [.int 1, .int (-2)]) := by decide +kernel
  have hnames : session.vars.names = ["größe", "x"] := by decide +kernel
  have hsame : ∀ other, other ∈ ["größe", "x", "größe"] ↔ other ∈ session.vars.names := by
    intro other
    rw [hnames]
    grind
  obtain ⟨hrun, heditor⟩ := bound_name_usable hbound
  exact ⟨hbound, hrun, heditor {} _ hsame⟩

end LineShell.Editing
