import Mathlib.Data.Set.Card
import LineShell.Statement.Balance
/-!
# Occurrence — where the counted words and brackets stand

A word stands at a place of a text where its characters are, if the characters next to them are in no word.  The counts
of a balance are the numbers of these places (`balance_occurrences`).
-/
namespace LineShell.Statement

open Text (isWordChar wordRuns)

/-- **No word goes on here**: there is no character, or one that is in no word. -/
def Breaks (next : Option Char) : Prop := ∀ c ∈ next, isWordChar c = false

/-- **A word stands at a place**: its characters are there, and on neither side does a word character touch them. -/
def StandsAt (word cs : List Char) (i : Nat) : Prop :=
  ∃ before after, cs = before ++ (word ++ after) ∧ before.length = i ∧ Breaks before.getLast? ∧ Breaks after.head?

/-- **A word**: word characters, and at least one. -/
def IsRun (word : List Char) : Prop := word ≠ [] ∧ ∀ c ∈ word, isWordChar c = true

/-- **The places of the words in `p`**, each with its word. -/
def places (p : String → Bool) (cs : List Char) : Set (Nat × String) :=
  {place | p place.2 = true ∧ StandsAt place.2.toList cs place.1}

section Runs

variable {word run cs rest before after : List Char} {c : Char} {i : Nat}

theorem breaks_none : Breaks none := nofun

theorem breaks_some : Breaks (some c) ↔ isWordChar c = false := by simp [Breaks]

theorem IsRun.head (h : IsRun word) (h' : word ++ after = c :: cs) : isWordChar c = true := by
  obtain ⟨d, ds, rfl⟩ := List.exists_cons_of_ne_nil h.1
  rw [List.cons_append, List.cons.injEq] at h'
  exact h'.1 ▸ h.2 d List.mem_cons_self

/-- **What a text starts with is settled** where words end. -/
theorem IsRun.eq_of_append (hw : IsRun word) (hr : IsRun run) (ha : Breaks after.head?) (hb : Breaks rest.head?)
    (h : word ++ after = run ++ rest) : word = run := by
  have hword := Text.takeWhile_endsRun (List.all_eq_true.2 hw.2) ha
  rw [← hword, h, Text.takeWhile_endsRun (List.all_eq_true.2 hr.2) hb]

/-- Text that ends where no word goes on, with less in front of it. -/
theorem breaks_of_append {front back : List Char} (h : Breaks (front ++ back).getLast?) : Breaks back.getLast? := by
  rcases List.eq_nil_or_concat back with rfl | ⟨back, c, rfl⟩
  · exact breaks_none
  · simpa [← List.append_assoc] using h

/-- **A word stands behind a character that is in no word** where it stood, one place on. -/
theorem standsAt_cons (hw : IsRun word) (hc : isWordChar c = false) :
    StandsAt word (c :: cs) i ↔ ∃ j, StandsAt word cs j ∧ j + 1 = i := by
  constructor
  · rintro ⟨before, after, hcs, rfl, hbefore, hafter⟩
    cases before with
    | nil => exact absurd (hw.head hcs.symm) (ne_true_of_eq_false hc)
    | cons b before =>
      rw [List.cons_append, List.cons.injEq] at hcs
      have hlast : Breaks ([b] ++ before).getLast? := hbefore
      exact ⟨before.length, ⟨before, after, hcs.2, rfl, breaks_of_append hlast, hafter⟩, rfl⟩
  · rintro ⟨_, ⟨before, after, rfl, rfl, hbefore, hafter⟩, rfl⟩
    refine ⟨c :: before, after, rfl, rfl, ?_, hafter⟩
    rcases List.eq_nil_or_concat before with rfl | ⟨before, d, rfl⟩
    · exact breaks_some.2 hc
    · simpa [List.getLast?_cons] using hbefore

/-- **A run at the front of a text** is the word that stands there, and the other words stand behind it. -/
theorem standsAt_append (hw : IsRun word) (hr : IsRun run) (hb : Breaks rest.head?) :
    StandsAt word (run ++ rest) i ↔ (i = 0 ∧ word = run) ∨ ∃ j, StandsAt word rest j ∧ j + run.length = i := by
  constructor
  · rintro ⟨before, after, hcs, rfl, hbefore, hafter⟩
    rcases List.append_eq_append_iff.1 hcs with ⟨mid, rfl, hrest⟩ | ⟨mid, rfl, hmid⟩
    · exact .inr ⟨mid.length, ⟨mid, after, hrest, rfl, breaks_of_append hbefore, hafter⟩, by simp [Nat.add_comm]⟩
    · rcases List.eq_nil_or_concat before with rfl | ⟨before, c, rfl⟩
      · exact .inl ⟨rfl, hw.eq_of_append hr hafter hb hcs.symm⟩
      · -- The run would touch the word on its left.
        have hc : isWordChar c = true := hr.2 c (by simp)
        have hnot : isWordChar c = false := breaks_some.1 (by simpa using hbefore)
        exact absurd hc (ne_true_of_eq_false hnot)
  · rintro (⟨rfl, rfl⟩ | ⟨_, ⟨before, after, rfl, rfl, hbefore, hafter⟩, rfl⟩)
    · exact ⟨[], rest, rfl, rfl, breaks_none, hb⟩
    · refine ⟨run ++ before, after, by simp, by simp [Nat.add_comm], ?_, hafter⟩
      rcases List.eq_nil_or_concat before with rfl | ⟨before, c, rfl⟩
      · obtain ⟨d, ds, rfl⟩ := List.exists_cons_of_ne_nil hw.1
        exact absurd (hw.2 d List.mem_cons_self) (ne_true_of_eq_false (breaks_some.1 hb))
      · simpa [← List.append_assoc] using hbefore

end Runs

/-! ### Words counted by their places -/

section Places

variable {p : String → Bool} {run : String} {cs rest : List Char} {c : Char}

/-- **A place as one of a longer text**, with `k` characters more in front. -/
def shift (k : Nat) (place : Nat × String) : Nat × String := (place.1 + k, place.2)

theorem shift_injective (k : Nat) : (shift k).Injective := by
  rintro ⟨i, word⟩ ⟨j, word'⟩ h
  simpa [shift] using h

theorem places_nil (hp : ∀ word, p word = true → IsRun word.toList) : places p [] = ∅ := by
  refine Set.eq_empty_of_forall_notMem ?_
  rintro ⟨i, word⟩ ⟨hword, before, after, hcs, -⟩
  have hnil : word.toList = [] := by simp_all
  exact (hp word hword).1 hnil

theorem places_cons (hp : ∀ word, p word = true → IsRun word.toList) (hc : isWordChar c = false) :
    places p (c :: cs) = shift 1 '' places p cs := by
  ext ⟨i, word⟩
  by_cases hword : p word = true
  · simp [places, hword, standsAt_cons (hp word hword) hc, shift]
  · simp [places, hword, shift]

theorem places_append (hp : ∀ word, p word = true → IsRun word.toList) (hr : IsRun run.toList)
    (hb : Breaks rest.head?) : places p (run.toList ++ rest) =
      {place | p place.2 = true ∧ place = (0, run)} ∪ shift run.toList.length '' places p rest := by
  ext ⟨i, word⟩
  by_cases hword : p word = true
  · simp [places, hword, standsAt_append (hp word hword) hr hb, shift, String.toList_inj]
  · simp [places, hword, shift]

theorem encard_first (run : String) :
    {place : Nat × String | p place.2 = true ∧ place = (0, run)}.encard = if p run then 1 else 0 := by
  by_cases hrun : p run = true
  · have hone : {place : Nat × String | p place.2 = true ∧ place = (0, run)} = {(0, run)} := by
      ext ⟨i, word⟩
      simp +contextual [hrun]
    simp [hone, hrun]
  · have hnone : {place : Nat × String | p place.2 = true ∧ place = (0, run)} = ∅ := by
      refine Set.eq_empty_of_forall_notMem ?_
      rintro _ ⟨hword, rfl⟩
      exact hrun hword
    simp [hnone, hrun]

/-- **The words among characters are the places where they stand**, one for one. -/
theorem encard_places (hp : ∀ word, p word = true → IsRun word.toList) (cs : List Char) :
    (places p cs).encard = ((wordRuns cs).map String.ofList).countP p := by
  induction cs using Text.wordInduction with
  | nil => simp [places_nil hp, wordRuns, Text.splitWhere]
  | other c cs hc ih =>
    rw [Text.wordRuns_cons_of_not cs hc, places_cons hp hc, (shift_injective 1).encard_image, ih]
  | word c cs hc ih =>
    obtain ⟨run, hrun⟩ : ∃ run : String, run.toList = c :: cs.takeWhile isWordChar :=
      ⟨String.ofList _, String.toList_ofList⟩
    have hr : IsRun run.toList := by
      rw [hrun]
      exact ⟨List.cons_ne_nil _ _, List.forall_mem_cons.2 ⟨hc, List.all_eq_true.1 List.all_takeWhile⟩⟩
    have hb : Breaks (cs.dropWhile isWordChar).head? := fun d hd => by
      have hhead := List.head?_dropWhile_not isWordChar cs
      rw [hd] at hhead
      simpa using hhead
    have hsplit : c :: cs = run.toList ++ cs.dropWhile isWordChar := by simp [hrun]
    have hdisjoint : Disjoint {place | p place.2 = true ∧ place = (0, run)}
        (shift run.toList.length '' places p (cs.dropWhile isWordChar)) := by
      rw [Set.disjoint_left]
      rintro _ ⟨-, rfl⟩ ⟨place, -, heq⟩
      simp [shift, hrun] at heq
    rw [Text.wordRuns_cons cs hc, List.map_cons, List.countP_cons, ← hrun, String.ofList_toList, hsplit,
      places_append hp hr hb, Set.encard_union_eq hdisjoint, (shift_injective _).encard_image, ih, encard_first]
    split <;> simp [add_comm]

end Places

/-- **The occurrences of a character** are the places where it stands. -/
theorem encard_occurrences (c : Char) : ∀ cs : List Char, {i : Nat | cs[i]? = some c}.encard = cs.count c
  | [] => by simp
  | d :: cs => by
    have hrest : {i : Nat | (d :: cs)[i]? = some c} = {i | i = 0 ∧ d = c} ∪ Nat.succ '' {i | cs[i]? = some c} := by
      ext i
      cases i <;> simp
    have hdisjoint : Disjoint {i | i = 0 ∧ d = c} (Nat.succ '' {i | cs[i]? = some c}) := by
      rw [Set.disjoint_left]
      rintro _ ⟨rfl, -⟩ ⟨i, -, heq⟩
      cases heq
    rw [hrest, Set.encard_union_eq hdisjoint, Nat.succ_injective.encard_image, encard_occurrences c cs, List.count_cons]
    by_cases hd : d = c <;> simp [hd, add_comm]

theorem isRun_of_keyword : ∀ word ∈ closingWord :: blockWords, IsRun word.toList := by
  have hall : (closingWord :: blockWords).all (fun word => word.toList != [] && word.toList.all isWordChar) = true := by
    decide +kernel
  simpa [IsRun] using hall

/-- **The counts of a text are numbers of places.** The block words counted are the pairs of a place and a block word
that stands there, the closers are the places where `end` stands, and the brackets are the places where they are. -/
theorem balance_occurrences (text : String) :
    (Balance.of text).blocks.opened =
        {place : Nat × String | place.2 ∈ blockWords ∧ StandsAt place.2.toList text.toList place.1}.encard ∧
      (Balance.of text).blocks.closed = {i | StandsAt closingWord.toList text.toList i}.encard ∧
      ∀ b, ((Balance.of text).brackets b).opened = {i : Nat | text.toList[i]? = some b.opener}.encard ∧
        ((Balance.of text).brackets b).closed = {i : Nat | text.toList[i]? = some b.closer}.encard := by
  obtain ⟨hclosing, hblock⟩ := List.forall_mem_cons.1 isRun_of_keyword
  refine ⟨?_, ?_, fun b => ⟨(encard_occurrences _ _).symm, (encard_occurrences _ _).symm⟩⟩
  · have hplaces := encard_places (p := (blockWords.contains ·)) (by simpa using hblock) text.toList
    simp only [places, List.contains_iff_mem] at hplaces
    exact hplaces.symm
  · have hplaces := encard_places (p := (· == closingWord)) (by simpa using hclosing) text.toList
    have hpairs : places (· == closingWord) text.toList =
        (fun i => (i, closingWord)) '' {i | StandsAt closingWord.toList text.toList i} := by
      ext ⟨i, word⟩
      constructor
      · rintro ⟨hword, hstands⟩
        obtain rfl : word = closingWord := eq_of_beq hword
        exact ⟨i, hstands, rfl⟩
      · rintro ⟨_, hstands, heq⟩
        cases heq
        exact ⟨beq_self_eq_true _, hstands⟩
    rw [hpairs, (Prod.mk_left_injective closingWord).encard_image] at hplaces
    exact hplaces.symm

end LineShell.Statement
