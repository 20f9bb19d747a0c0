import LineShell.Text.Blank
/-!
# Line — lines, their ends, and what is left of a line when its margins are cut

Generic in what ends a line, so that one definition serves characters and bytes.
-/
namespace LineShell.Text

/-- **The lines of a sequence**, each with the terminator that ends it; the last one may lack it, and is never empty. -/
def splitAfter {α : Type} (ends : α → Bool) (l : List α) : List (List α) :=
  l.foldr (fun a lines =>
    if ends a then [a] :: lines
    else match lines with
      | [] => [[a]]
      | line :: rest => (a :: line) :: rest) []

/-- **The lines of a sequence are the sequence again.** -/
theorem flatten_splitAfter {α : Type} (ends : α → Bool) (l : List α) : (splitAfter ends l).flatten = l := by
  induction l with
  | nil => rfl
  | cons a l ih =>
    rw [splitAfter, List.foldr_cons, ← splitAfter]
    split
    · rw [List.flatten_cons, ih, List.singleton_append]
    · split
      · rename_i h
        rw [h] at ih
        rw [← ih]
        rfl
      · rename_i h
        rw [h] at ih
        rw [← ih]
        rfl

section SplitAfter

variable {α : Type} {ends : α → Bool} {a : α} {run : List α}

theorem splitAfter_cons_of_ends (h : ends a = true) (l : List α) :
    splitAfter ends (a :: l) = [a] :: splitAfter ends l := by
  rw [splitAfter, List.foldr_cons, ← splitAfter, if_pos h]

theorem splitAfter_cons_of_not (h : ends a = false) (l : List α) :
    splitAfter ends (a :: l) = (a :: (splitAfter ends l).headD []) :: (splitAfter ends l).tail := by
  rw [splitAfter, List.foldr_cons, ← splitAfter, if_neg (by simp [h])]
  cases splitAfter ends l <;> rfl

/-- **What comes before any terminator belongs to the first line.** -/
theorem headD_tail_splitAfter_append (h : ∀ a ∈ run, ends a = false) (l : List α) :
    (splitAfter ends (run ++ l)).headD [] = run ++ (splitAfter ends l).headD [] ∧
      (splitAfter ends (run ++ l)).tail = (splitAfter ends l).tail := by
  induction run with
  | nil => exact ⟨rfl, rfl⟩
  | cons a run ih =>
    obtain ⟨ha, hrun⟩ := List.forall_mem_cons.1 h
    obtain ⟨hhead, htail⟩ := ih hrun
    rw [List.cons_append, splitAfter_cons_of_not ha, List.headD_cons, List.tail_cons, hhead, htail]
    exact ⟨rfl, rfl⟩

theorem splitAfter_append_of_not (hne : run ≠ []) (h : ∀ a ∈ run, ends a = false) (l : List α) :
    splitAfter ends (run ++ l) = (run ++ (splitAfter ends l).headD []) :: (splitAfter ends l).tail := by
  obtain ⟨a, run, rfl⟩ := List.exists_cons_of_ne_nil hne
  obtain ⟨ha, hrun⟩ := List.forall_mem_cons.1 h
  obtain ⟨hhead, htail⟩ := headD_tail_splitAfter_append hrun l
  rw [List.cons_append, splitAfter_cons_of_not ha, hhead, htail, List.cons_append]

theorem splitAfter_line (h : ∀ a ∈ run, ends a = false) (ha : ends a = true) (l : List α) :
    splitAfter ends (run ++ a :: l) = (run ++ [a]) :: splitAfter ends l := by
  by_cases hne : run = []
  · rw [hne, List.nil_append, List.nil_append, splitAfter_cons_of_ends ha]
  · rw [splitAfter_append_of_not hne h, splitAfter_cons_of_ends ha, List.headD_cons, List.tail_cons]

/-- **A sequence that ends with a terminator**, or is empty, ends no line early. -/
theorem splitAfter_append {before : List α} (h : ∀ a ∈ before.getLast?, ends a = true) (l : List α) :
    splitAfter ends (before ++ l) = splitAfter ends before ++ splitAfter ends l := by
  induction before with
  | nil => rfl
  | cons a before ih =>
    by_cases hb : before = []
    · subst hb
      have ha : ends a = true := h a rfl
      rw [List.singleton_append, splitAfter_cons_of_ends ha, splitAfter_cons_of_ends ha]
      rfl
    · rw [List.getLast?_cons_of_ne_nil hb] at h
      have ih := ih h
      rw [List.cons_append]
      by_cases ha : ends a = true
      · rw [splitAfter_cons_of_ends ha, splitAfter_cons_of_ends ha, ih, List.cons_append]
      · obtain ⟨line, lines, hl⟩ : ∃ line lines, splitAfter ends before = line :: lines := by
          refine List.exists_cons_of_ne_nil fun hnil => hb ?_
          rw [← flatten_splitAfter ends before, hnil]
          rfl
        have ha : ends a = false := Bool.not_eq_true _ ▸ ha
        rw [splitAfter_cons_of_not ha, splitAfter_cons_of_not ha, ih, hl]
        rfl

theorem ne_nil_of_mem_splitAfter {line l : List α} (h : line ∈ splitAfter ends l) : line ≠ [] := by
  induction l with
  | nil => cases h
  | cons a l ih =>
    cases ha : ends a with
    | true =>
      rw [splitAfter_cons_of_ends ha] at h
      rcases List.mem_cons.1 h with rfl | h
      · exact List.cons_ne_nil a []
      · exact ih h
    | false =>
      rw [splitAfter_cons_of_not ha] at h
      rcases List.mem_cons.1 h with rfl | h
      · exact List.cons_ne_nil a _
      · exact ih (List.mem_of_mem_tail h)

end SplitAfter

/-- **The lines of a text**, each with its line feed if it has one. -/
def lines (text : String) : List String :=
  (splitAfter (· == '\n') text.toList).map String.ofList

/-- **A text on one line**, without its line feed. -/
def OneLine (text : String) : Prop := '\n' ∉ text.toList

instance : DecidablePred OneLine := fun text => inferInstanceAs (Decidable ('\n' ∉ text.toList))

theorem OneLine.append {before after : String} (h : OneLine before) (h' : OneLine after) :
    OneLine (before ++ after) := by
  simp [OneLine, not_or.2 ⟨h, h'⟩]

/-- **Lines joined are those lines again**, each of a text on one line and a line feed. -/
theorem lines_join {texts : List String} (h : ∀ text ∈ texts, OneLine text) :
    lines (String.join (texts.map (· ++ "\n"))) = texts.map (· ++ "\n") := by
  induction texts with
  | nil => rfl
  | cons text texts ih =>
    obtain ⟨htext, htexts⟩ := List.forall_mem_cons.1 h
    have hrun : ∀ c ∈ text.toList, (c == '\n') = false := fun c hc =>
      beq_false_of_ne fun he => htext (he ▸ hc)
    have hlist : (text ++ "\n" ++ String.join (texts.map (· ++ "\n"))).toList =
        text.toList ++ '\n' :: (String.join (texts.map (· ++ "\n"))).toList := by simp
    rw [List.map_cons, String.join_cons, lines, hlist, splitAfter_line hrun (beq_self_eq_true _), List.map_cons]
    refine congr (congrArg _ ?_) (ih htexts)
    simp [String.ofList_append]

/-- **Characters without the white space around them.** -/
def trimChars (cs : List Char) : List Char :=
  ((cs.dropWhile isBlank).reverse.dropWhile isBlank).reverse

def trim (text : String) : String := String.ofList (trimChars text.toList)

theorem dropWhile_append_cons {α : Type} {p : α → Bool} {d : α} (r : List α) (h : p d = false) : ∀ l : List α,
    (l ++ d :: r).dropWhile p = l.dropWhile p ++ d :: r
  | [] => by
    rw [List.nil_append, List.dropWhile_cons, h]
    rfl
  | c :: l => by
    rw [List.cons_append, List.dropWhile_cons, List.dropWhile_cons, dropWhile_append_cons r h l]
    split <;> rfl

/-- **A text ends as before when its margins are cut**, white space behind its last other character apart. -/
theorem getLast?_trimChars {c : Char} (before : List Char) {blanks : List Char} (hc : isBlank c = false)
    (hb : ∀ d ∈ blanks, isBlank d = true) : (trimChars (before ++ c :: blanks)).getLast? = some c := by
  have hback : (before.dropWhile isBlank ++ c :: blanks).reverse.dropWhile isBlank =
      c :: (before.dropWhile isBlank).reverse := by
    rw [List.reverse_append, List.reverse_cons, List.append_assoc,
      List.dropWhile_append_of_pos fun d hd => hb d (List.mem_reverse.1 hd), List.singleton_append,
      List.dropWhile_cons_of_neg (by simp [hc])]
  rw [trimChars, dropWhile_append_cons blanks hc, hback, List.reverse_cons, List.getLast?_concat]

end LineShell.Text
