/-!
# Name — sets of names as ascending lists
-/
namespace LineShell.Text

/-- **A name put in its place** in an ascending list; one that is there already is not put in again. -/
def insertName (name : String) : List String → List String
  | [] => [name]
  | first :: rest =>
    if name = first then first :: rest
    else if name < first then name :: first :: rest
    else first :: insertName name rest

/-- **The names of a list in ascending order of code points**, each once. -/
def ascending (names : List String) : List String := names.foldr insertName []

section

variable {other name : String} {names : List String}

theorem mem_insertName : other ∈ insertName name names ↔ other = name ∨ other ∈ names := by
  induction names with
  | nil => exact List.mem_cons
  | cons first rest ih =>
    unfold insertName
    split
    · rename_i h
      rw [List.mem_cons, h, ← or_assoc, or_self]
    · split
      · exact List.mem_cons
      · rw [List.mem_cons, ih, List.mem_cons, or_left_comm]

/-- **Order adds and drops no name.** -/
theorem mem_ascending : name ∈ ascending names ↔ name ∈ names := by
  induction names with
  | nil => exact Iff.rfl
  | cons first rest ih => rw [ascending, List.foldr_cons, mem_insertName, ← ascending, ih, List.mem_cons]

theorem pairwise_insertName (h : names.Pairwise (· < ·)) : (insertName name names).Pairwise (· < ·) := by
  induction names with
  | nil => exact List.pairwise_singleton _ _
  | cons first rest ih =>
    obtain ⟨hfirst, hrest⟩ := List.pairwise_cons.1 h
    unfold insertName
    split
    · exact h
    · rename_i hne
      split
      · rename_i hlt
        refine List.pairwise_cons.2 ⟨fun other hother => ?_, h⟩
        rcases List.mem_cons.1 hother with rfl | hother
        · exact hlt
        · exact String.lt_trans hlt (hfirst other hother)
      · rename_i hge
        have hgt : first < name := by
          refine Decidable.of_not_not fun hle => hne (String.le_antisymm ?_ ?_)
          · exact String.not_lt.1 hle
          · exact String.not_lt.1 hge
        refine List.pairwise_cons.2 ⟨fun other hother => ?_, ih hrest⟩
        rcases mem_insertName.1 hother with rfl | hother
        · exact hgt
        · exact hfirst other hother

/-- **Names in ascending order** are in ascending order, and none is there twice. -/
theorem pairwise_ascending (names : List String) : (ascending names).Pairwise (· < ·) := by
  induction names with
  | nil => exact .nil
  | cons first rest ih => exact pairwise_insertName ih

end

end LineShell.Text
