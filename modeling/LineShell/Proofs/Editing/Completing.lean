import LineShell.Editing.Assistant
/-!
# Completing — what is offered for the word being typed

The word that is completed is the longest run of word characters before the cursor, and it is replaced from its start.
What is offered are the keywords and the known names that start with it, in order and each once, in whatever way the
names were given (`complete?_exact`).
-/
namespace LineShell.Editing

open Text (isWordChar)

/-- **The longest run of word characters** that a text ends with. -/
structure LongestRun (before run : List Char) : Prop where
  suffix : run <:+ before
  isWordChar : ∀ c ∈ run, isWordChar c = true
  longest : ∀ other, other <:+ before → (∀ c ∈ other, Text.isWordChar c = true) → other.length ≤ run.length

theorem longestRun_wordAtEnd (before : List Char) : LongestRun before (wordAtEnd before) where
  suffix := by
    rw [wordAtEnd, ← List.reverse_prefix, List.reverse_reverse]
    exact List.takeWhile_prefix _
  isWordChar c hc := List.all_eq_true.1 List.all_takeWhile c (List.mem_reverse.1 hc)
  longest other hother hword := by
    obtain ⟨rest, hrest⟩ := List.reverse_prefix.2 hother
    have hall : ∀ c ∈ other.reverse, Text.isWordChar c = true := fun c hc => hword c (List.mem_reverse.1 hc)
    rw [wordAtEnd, ← hrest, List.takeWhile_append_of_pos hall]
    simp

/-- **A line that is cut at an offset is completed there.** -/
theorem complete?_append (known : List String) (before after : String) :
    ∃ front run, before = front ++ run ∧ LongestRun before.toList run.toList ∧
      complete? known (before ++ after) before.utf8ByteSize =
        some (if run.isEmpty then ⟨before.utf8ByteSize, []⟩ else ⟨front.utf8ByteSize, candidates known run⟩) := by
  have hlongest := longestRun_wordAtEnd before.toList
  obtain ⟨front, hfront⟩ := hlongest.suffix
  have hbefore : before = String.ofList front ++ String.ofList (wordAtEnd before.toList) := by
    rw [← String.ofList_append, hfront, String.ofList_toList]
  refine ⟨_, _, hbefore, by rwa [String.toList_ofList], ?_⟩
  have hsize := congrArg String.utf8ByteSize hbefore
  rw [String.utf8ByteSize_append] at hsize
  have hsplit := Text.splitAtByte?_append before.toList after.toList
  rw [String.ofList_toList] at hsplit
  have hfrontSize : before.utf8ByteSize - (String.ofList (wordAtEnd before.toList)).utf8ByteSize =
      (String.ofList front).utf8ByteSize := by omega
  simp only [complete?, String.toList_append, hsplit, Option.map_some, hfrontSize]

/-- **A line can be completed everywhere but past its end and inside a character.** -/
theorem complete?_eq_none_iff {known : List String} {line : String} {offset : Nat} :
    complete? known line offset = none ↔ Text.PastEnd offset line.toList ∨ Text.InsideChar offset line.toList := by
  rw [complete?, Option.map_eq_none_iff, Text.splitAtByte?_eq_none_iff]

/-- **A completion is exact.** There is one unless the offset is past the end of the line or inside a character, and it
starts where the longest run of word characters before the offset starts. Nothing is offered where that run is empty;
where it is not, the keywords and the names given that start with it are, in ascending order of code points and so each
once. -/
theorem complete?_exact (assistant : Assistant) (names : List String) (line : String) (offset : Nat) :
    ((assistant.update names).complete? line offset = none ↔
        Text.PastEnd offset line.toList ∨ Text.InsideChar offset line.toList) ∧
      ∀ before after, line = before ++ after → before.utf8ByteSize = offset →
        ∃ front run completion, before = front ++ run ∧ LongestRun before.toList run.toList ∧
          (assistant.update names).complete? line offset = some completion ∧
          completion.start = front.utf8ByteSize ∧
          (run = "" → completion = ⟨offset, []⟩) ∧
          (run ≠ "" → completion.candidates.Pairwise (· < ·) ∧ ∀ word, word ∈ completion.candidates ↔
            (isKeyword word = true ∨ word ∈ names) ∧ run.toList <+: word.toList) := by
  refine ⟨complete?_eq_none_iff, ?_⟩
  rintro before after rfl rfl
  obtain ⟨front, run, hbefore, hlongest, hcomplete⟩ := complete?_append (assistant.update names).names before after
  refine ⟨front, run, _, hbefore, hlongest, hcomplete, ?_, fun hrun => ?_, fun hrun => ?_⟩
  · split
    · rename_i hempty
      rw [hbefore, String.isEmpty_iff.1 hempty, String.append_empty]
    · rfl
  · rw [if_pos (String.isEmpty_iff.2 hrun)]
  · rw [if_neg fun hempty => hrun (String.isEmpty_iff.1 hempty)]
    refine ⟨Text.pairwise_ascending _, fun word => ?_⟩
    rw [mem_candidates_iff, Assistant.update, Text.mem_ascending]

/-- **A name given twice and one that is a keyword**, behind a character of two bytes. -/
theorem complete?_exact_letter :
    let assistant := ({} : Assistant).update ["ende", "e1", "ende", "else"]
    "ö:e " = "ö:e" ++ " " ∧ "ö:e".utf8ByteSize = 4 ∧
      assistant.complete? "ö:e " 4 = some ⟨3, ["e1", "else", "elsif", "end", "ende"]⟩ ∧
      (∃ front run, "ö:e" = front ++ run ∧ LongestRun "ö:e".toList run.toList ∧ front.utf8ByteSize = 3) ∧
      Text.InsideChar 1 "ö:e ".toList ∧ assistant.complete? "ö:e " 1 = none := by
  intro assistant
  have hcomplete : assistant.complete? "ö:e " 4 = some ⟨3, ["e1", "else", "elsif", "end", "ende"]⟩ := by
    decide +kernel
  have hinside : Text.InsideChar 1 "ö:e ".toList := ⟨[], 'ö', [':', 'e', ' '], by decide, by decide, by decide⟩
  obtain ⟨hnone, -⟩ := complete?_exact {} ["ende", "e1", "ende", "else"] "ö:e " 1
  obtain ⟨-, hcut⟩ := complete?_exact {} ["ende", "e1", "ende", "else"] "ö:e " 4
  obtain ⟨front, run, completion, hbefore, hlongest, hsome, hstart, -, -⟩ := hcut "ö:e" " " (by decide) (by decide)
  obtain rfl := Option.some.inj (hsome.symm.trans hcomplete)
  exact ⟨by decide, by decide, hcomplete, ⟨front, run, hbefore, hlongest, hstart.symm⟩, hinside, hnone.2 (.inr hinside)⟩

end LineShell.Editing
