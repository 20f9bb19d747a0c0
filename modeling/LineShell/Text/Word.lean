import LineShell.Text.Letter
import LineShell.Text.Number
/-!
# Word — the words of a text

A word is a maximal run of word characters.  A keyword counts only as a whole word: `classify` is one word and holds no
`class`.
-/
namespace LineShell.Text

/-- **A word character**: a letter or numeral of any script, or the underscore. -/
def isWordChar (c : Char) : Bool := isLetter c || isNumber c || c == '_'

/-- **The pieces between the elements that satisfy `p`**, which are dropped: `n` of them leave `n + 1` pieces, empty
ones included. -/
def splitWhere {α : Type} (p : α → Bool) (l : List α) : List (List α) :=
  l.foldr (fun a pieces =>
    if p a then [] :: pieces
    else match pieces with
      | [] => [[a]]
      | piece :: rest => (a :: piece) :: rest) [[]]

theorem splitWhere_cons_of_pos {α : Type} {p : α → Bool} {a : α} (l : List α) (h : p a = true) :
    splitWhere p (a :: l) = [] :: splitWhere p l := by
  rw [splitWhere, List.foldr_cons, if_pos h, ← splitWhere]

theorem splitWhere_append_of_neg {α : Type} {p : α → Bool} {piece l : List α} {pieces : List (List α)}
    (hl : splitWhere p l = piece :: pieces) : ∀ run : List α, (∀ a ∈ run, p a = false) →
      splitWhere p (run ++ l) = (run ++ piece) :: pieces
  | [], _ => hl
  | a :: run, h => by
    have ha : p a = false := h a List.mem_cons_self
    have ih := splitWhere_append_of_neg hl run fun b hb => h b (List.mem_cons_of_mem a hb)
    rw [splitWhere] at ih
    rw [List.cons_append, splitWhere, List.foldr_cons, ha, ih]
    rfl

theorem splitWhere_ne_nil {α : Type} (p : α → Bool) (l : List α) : splitWhere p l ≠ [] := by
  cases l with
  | nil => exact List.cons_ne_nil _ _
  | cons a l =>
    rw [splitWhere, List.foldr_cons]
    split
    · exact List.cons_ne_nil _ _
    · split <;> exact List.cons_ne_nil _ _

theorem splitWhere_append_cons {α : Type} {p : α → Bool} {a : α} (h : p a = true) (l : List α) :
    ∀ before : List α, splitWhere p (before ++ a :: l) = splitWhere p before ++ splitWhere p l
  | [] => splitWhere_cons_of_pos l h
  | b :: before => by
    have ih := splitWhere_append_cons h l before
    by_cases hb : p b = true
    · rw [List.cons_append, splitWhere_cons_of_pos _ hb, splitWhere_cons_of_pos _ hb, ih, List.cons_append]
    · obtain ⟨piece, pieces, hp⟩ := List.exists_cons_of_ne_nil (splitWhere_ne_nil p before)
      have hrun : ∀ c ∈ [b], p c = false := by simpa using hb
      have hwhole : splitWhere p (before ++ a :: l) = piece :: (pieces ++ splitWhere p l) := by rw [ih, hp]; rfl
      have hleft : splitWhere p (b :: before) = (b :: piece) :: pieces := splitWhere_append_of_neg hp [b] hrun
      rw [hleft]
      exact splitWhere_append_of_neg hwhole [b] hrun

/-- **A run ends here**: nothing comes next, or an element that it does not go on with. -/
def EndsRun {α : Type} (p : α → Bool) (rest : List α) : Prop := ∀ a ∈ rest.head?, p a = false

section EndsRun

variable {α : Type} {p : α → Bool} {run rest : List α}

theorem takeWhile_endsRun (hrun : run.all p = true) (hr : EndsRun p rest) : (run ++ rest).takeWhile p = run := by
  rw [List.takeWhile_append_of_pos (List.all_eq_true.1 hrun)]
  cases rest with
  | nil => rw [List.takeWhile_nil, List.append_nil]
  | cons a rest => rw [List.takeWhile_cons_of_neg (Bool.eq_false_iff.1 (hr a rfl)), List.append_nil]

theorem dropWhile_endsRun (hrun : run.all p = true) (hr : EndsRun p rest) : (run ++ rest).dropWhile p = rest := by
  rw [List.dropWhile_append_of_pos (List.all_eq_true.1 hrun)]
  cases rest with
  | nil => rfl
  | cons a rest => rw [List.dropWhile_cons_of_neg (Bool.eq_false_iff.1 (hr a rfl))]

end EndsRun

/-- **Induction word by word**: a character of no word is passed over alone, and a word as a whole. -/
@[elab_as_elim] theorem wordInduction {motive : List Char → Prop} (nil : motive [])
    (other : ∀ c cs, isWordChar c = false → motive cs → motive (c :: cs))
    (word : ∀ c cs, isWordChar c = true → motive (cs.dropWhile isWordChar) → motive (c :: cs)) : ∀ cs, motive cs
  | [] => nil
  | c :: cs => by
    by_cases hc : isWordChar c = true
    · exact word c cs hc (wordInduction nil other word (cs.dropWhile isWordChar))
    · exact other c cs (Bool.eq_false_iff.2 hc) (wordInduction nil other word cs)
termination_by cs => cs.length
decreasing_by
  · exact Nat.lt_succ_of_le (List.dropWhile_sublist _).length_le
  · exact Nat.lt_succ_self _

/-- **The words among characters**, in order: what lies between the other characters, where that is not empty. -/
def wordRuns (cs : List Char) : List (List Char) :=
  (splitWhere (fun c => !isWordChar c) cs).filter (fun run => !run.isEmpty)

theorem wordRuns_cons_of_not {c : Char} (cs : List Char) (h : isWordChar c = false) :
    wordRuns (c :: cs) = wordRuns cs := by
  rw [wordRuns, splitWhere_cons_of_pos cs (by rw [h]; rfl)]
  rfl

theorem wordRuns_append_of_not : ∀ {run : List Char} (cs : List Char), (∀ c ∈ run, isWordChar c = false) →
    wordRuns (run ++ cs) = wordRuns cs
  | [], _, _ => rfl
  | c :: run, cs, h => by
    rw [List.cons_append, wordRuns_cons_of_not _ (h c List.mem_cons_self)]
    exact wordRuns_append_of_not cs fun d hd => h d (List.mem_cons_of_mem c hd)

/-- **A word character starts a word**, which goes on as far as there are word characters. -/
theorem wordRuns_cons {c : Char} (cs : List Char) (h : isWordChar c = true) :
    wordRuns (c :: cs) = (c :: cs.takeWhile isWordChar) :: wordRuns (cs.dropWhile isWordChar) := by
  have hsplit : ∃ pieces, splitWhere (fun c => !isWordChar c) (cs.dropWhile isWordChar) = [] :: pieces := by
    cases hd : cs.dropWhile isWordChar with
    | nil => exact ⟨[], rfl⟩
    | cons d ds =>
      have hne : ¬isWordChar d = true := by
        have hhead := List.head?_dropWhile_not isWordChar cs
        rw [hd] at hhead
        simpa using hhead
      exact ⟨_, splitWhere_cons_of_pos ds (by simpa using hne)⟩
  obtain ⟨pieces, hp⟩ := hsplit
  have hrun : ∀ d ∈ c :: cs.takeWhile isWordChar, (!isWordChar d) = false := by
    intro d hd
    rcases List.mem_cons.1 hd with rfl | hd
    · rw [h]; rfl
    · rw [List.all_eq_true.1 List.all_takeWhile d hd]; rfl
  have hwhole := splitWhere_append_of_neg hp _ hrun
  rw [List.cons_append, List.takeWhile_append_dropWhile, List.append_nil] at hwhole
  rw [wordRuns, wordRuns, hwhole, hp]
  rfl

/-- **A character that belongs to no word** keeps the words on its two sides apart. -/
theorem wordRuns_append_cons {c : Char} (before after : List Char) (h : isWordChar c = false) :
    wordRuns (before ++ c :: after) = wordRuns before ++ wordRuns after := by
  rw [wordRuns, splitWhere_append_cons (by rw [h]; rfl), List.filter_append]
  rfl

def words (text : String) : List String := (wordRuns text.toList).map String.ofList

end LineShell.Text
