import LineShell.Statement.Balance
import Mathlib.Data.List.Forall2
/-!
# Grouping — lines cut into statements

Lines are cut greedily.  A statement is a run of at least one line that is complete and has no shorter complete
beginning, and the lines that nothing completes are left over.  `collected` walks the lines and resets in their order;
`collected_cuts` says that it makes this cut between every two resets, and `Grouping.Cuts.unique` that there is no
other.
-/
namespace LineShell.Shell

open Statement (Balance)

/-- **Whether lines, joined, are a complete text.** -/
def completes (lines : List String) : Bool := (Balance.of (String.join lines)).isComplete

/-- **Lines of which no beginning is complete**, the empty one apart. -/
def Unfinished (lines : List String) : Prop := ∀ start, start <+: lines → start ≠ [] → completes start = false

/-- **A shortest complete run of lines**: at least one line, complete, and no shorter beginning is. -/
structure IsGroup (lines : List String) : Prop where
  nonempty : lines ≠ []
  complete : completes lines = true
  shortest : Unfinished lines.dropLast

/-- **Lines cut into groups**, and the lines left over. -/
structure Grouping where
  groups : List (List String)
  tail : List String

/-- **The greedy cut of some lines.** -/
structure Grouping.Cuts (g : Grouping) (lines : List String) : Prop where
  whole : g.groups.flatten ++ g.tail = lines
  groups : ∀ group ∈ g.groups, IsGroup group
  tail : Unfinished g.tail

/-- **What befalls a statement in progress**: it is dropped, or it gets one more line. -/
inductive Mark where
  | reset
  | line (text : String)
  deriving DecidableEq, Repr

def Mark.text? : Mark → Option String
  | line text => some text
  | reset => none

/-- **The lines between resets**: one piece more than there are resets. -/
def pieces : List Mark → List (List String)
  | [] => [[]]
  | .reset :: marks => [] :: pieces marks
  | .line text :: marks => (pieces marks).modifyHead (text :: ·)

/-- **The texts collected**, in order, and the lines left over, when the lines `typed` are there already. -/
def collected (typed : List String) : List Mark → List String × List String
  | [] => ([], typed)
  | .reset :: marks => collected [] marks
  | .line text :: marks =>
    if completes (typed ++ [text]) then
      (String.join (typed ++ [text]) :: (collected [] marks).1, (collected [] marks).2)
    else collected (typed ++ [text]) marks

theorem collected_line {typed : List String} {text : String} {marks : List Mark}
    (hc : completes (typed ++ [text]) = true) : collected typed (.line text :: marks) =
      (String.join (typed ++ [text]) :: (collected [] marks).1, (collected [] marks).2) := by
  rw [collected, if_pos hc]

theorem collected_line_of_not {typed : List String} {text : String} {marks : List Mark}
    (hc : completes (typed ++ [text]) = false) :
    collected typed (.line text :: marks) = collected (typed ++ [text]) marks := by
  rw [collected, if_neg (by rw [hc]; decide)]

theorem unfinished_nil : Unfinished [] := fun _ h hne => absurd (List.prefix_nil.1 h) hne

theorem Unfinished.concat {lines : List String} {line : String} (h : Unfinished lines)
    (hc : completes (lines ++ [line]) = false) : Unfinished (lines ++ [line]) := by
  intro start hs hne
  rcases List.prefix_concat_iff.1 hs with rfl | hs
  · exact hc
  · exact h start hs hne

/-- **A group ends where the lines first are complete.** -/
theorem isGroup_concat {lines : List String} {line : String} (h : Unfinished lines)
    (hc : completes (lines ++ [line]) = true) : IsGroup (lines ++ [line]) :=
  ⟨by simp, hc, by rwa [List.dropLast_concat]⟩

theorem IsGroup.not_completes {group start : List String} (h : IsGroup group) (hs : start <+: group)
    (hne : start ≠ []) (hp : start ≠ group) : completes start = false := by
  have he := List.dropLast_concat_getLast h.nonempty
  rw [← he] at hs
  rcases List.prefix_concat_iff.1 hs with hs | hs
  · exact absurd (hs.trans he) hp
  · exact h.shortest start hs hne

theorem IsGroup.eq_of_append {a b more more' : List String} (ha : IsGroup a) (hb : IsGroup b)
    (h : a ++ more = b ++ more') : a = b := by
  by_contra hne
  rcases List.prefix_or_prefix_of_prefix (List.prefix_append a more) (h ▸ List.prefix_append b more') with hab | hba
  · have := hb.not_completes hab ha.nonempty hne
    rw [ha.complete] at this
    cases this
  · have := ha.not_completes hba hb.nonempty (Ne.symm hne)
    rw [hb.complete] at this
    cases this

theorem Unfinished.ne_append {lines group more : List String} (h : Unfinished lines) (hg : IsGroup group) :
    lines ≠ group ++ more := by
  intro he
  have := h group (he ▸ List.prefix_append group more) hg.nonempty
  rw [hg.complete] at this
  cases this

/-- **Lines have one greedy cut only.** -/
theorem Grouping.Cuts.unique {g g' : Grouping} {lines : List String} (h : g.Cuts lines) (h' : g'.Cuts lines) :
    g = g' := by
  obtain ⟨groups, tail⟩ := g
  obtain ⟨groups', tail'⟩ := g'
  obtain ⟨hw, hg, ht⟩ := h
  obtain ⟨hw', hg', ht'⟩ := h'
  simp only at *
  induction groups generalizing groups' lines with
  | nil =>
    cases groups' with
    | nil =>
      rw [List.flatten_nil, List.nil_append] at hw hw'
      rw [hw, hw']
    | cons b bs =>
      rw [List.flatten_nil, List.nil_append] at hw
      rw [List.flatten_cons, List.append_assoc] at hw'
      exact absurd (hw.trans hw'.symm) (ht.ne_append (hg' b List.mem_cons_self))
  | cons a as ih =>
    rw [List.flatten_cons, List.append_assoc] at hw
    cases groups' with
    | nil =>
      rw [List.flatten_nil, List.nil_append] at hw'
      exact absurd (hw'.trans hw.symm) (ht'.ne_append (hg a List.mem_cons_self))
    | cons b bs =>
      rw [List.flatten_cons, List.append_assoc] at hw'
      -- The first groups of both begin the same lines, so they are one, and the rest is cut alike.
      have hab : a = b :=
        (hg a List.mem_cons_self).eq_of_append (hg' b List.mem_cons_self) (hw.trans hw'.symm)
      subst hab
      have hrest := List.append_cancel_left (hw.trans hw'.symm)
      have := ih bs rfl (fun x hx => hg x (List.mem_cons_of_mem _ hx)) hrest.symm
        (fun x hx => hg' x (List.mem_cons_of_mem _ hx))
      rw [Grouping.mk.injEq] at this
      rw [this.1, this.2]

theorem pieces_ne_nil (marks : List Mark) : pieces marks ≠ [] := by
  induction marks with
  | nil => exact List.cons_ne_nil _ _
  | cons mark marks ih =>
    cases mark with
    | reset => exact List.cons_ne_nil _ _
    | line text => exact fun h => ih (List.modifyHead_eq_nil_iff.1 h)

theorem flatten_pieces (marks : List Mark) : (pieces marks).flatten = marks.filterMap Mark.text? := by
  induction marks with
  | nil => rfl
  | cons mark marks ih =>
    cases mark with
    | reset => rw [pieces, List.flatten_cons, List.nil_append, ih]; rfl
    | line text =>
      obtain ⟨piece, later, hp⟩ := List.exists_cons_of_ne_nil (pieces_ne_nil marks)
      rw [pieces, hp, List.modifyHead_cons, List.flatten_cons, List.cons_append, ← List.flatten_cons, ← hp, ih]
      rfl

/-- **Collecting makes the greedy cut of every piece**, the first of which continues the lines `typed`: the texts are
the groups, joined, and what is left over is the tail of the last piece. -/
theorem collected_cuts (marks : List Mark) (typed : List String) (h : Unfinished typed) :
    ∃ gs : List Grouping, List.Forall₂ Grouping.Cuts gs ((pieces marks).modifyHead (typed ++ ·)) ∧
      (collected typed marks).1 = gs.flatMap (fun g => g.groups.map String.join) ∧
      gs.getLast?.map Grouping.tail = some (collected typed marks).2 := by
  induction marks generalizing typed with
  | nil =>
    have hcut : Grouping.Cuts ⟨[], typed⟩ (typed ++ []) := ⟨(List.append_nil typed).symm, nofun, h⟩
    exact ⟨[⟨[], typed⟩], .cons hcut .nil, rfl, rfl⟩
  | cons mark marks ih =>
    obtain ⟨piece, later, hp⟩ := List.exists_cons_of_ne_nil (pieces_ne_nil marks)
    cases mark with
    | reset =>
      obtain ⟨gs, hcuts, htexts, htail⟩ := ih [] unfinished_nil
      have hcut : Grouping.Cuts ⟨[], typed⟩ (typed ++ []) := ⟨(List.append_nil typed).symm, nofun, h⟩
      have hne : gs ≠ [] := by
        rintro rfl
        cases htail
      rw [hp, List.modifyHead_cons, List.nil_append, ← hp] at hcuts
      refine ⟨⟨[], typed⟩ :: gs, .cons hcut hcuts, htexts, ?_⟩
      rw [List.getLast?_cons_of_ne_nil hne, htail, collected]
    | line text =>
      rw [pieces, hp, List.modifyHead_cons, List.modifyHead_cons]
      by_cases hc : completes (typed ++ [text]) = true
      · obtain ⟨gs, hcuts, htexts, htail⟩ := ih [] unfinished_nil
        rw [hp, List.modifyHead_cons, List.nil_append] at hcuts
        -- The lines typed and this one are the first group of the first piece; what is collected next starts fresh.
        obtain _ | ⟨hcut, hcuts⟩ := hcuts
        rename_i g gs
        have hcut' : Grouping.Cuts ⟨(typed ++ [text]) :: g.groups, g.tail⟩ (typed ++ text :: piece) := by
          refine ⟨?_, fun group hg => ?_, hcut.tail⟩
          · rw [List.flatten_cons, List.append_assoc, hcut.whole, List.append_assoc, List.singleton_append]
          · rcases List.mem_cons.1 hg with rfl | hg
            · exact isGroup_concat h hc
            · exact hcut.groups group hg
        refine ⟨_ :: gs, .cons hcut' hcuts, ?_, ?_⟩
        · rw [collected_line hc, htexts]
          rfl
        · rw [collected_line hc, ← htail]
          cases gs <;> rfl
      · rw [Bool.not_eq_true] at hc
        obtain ⟨gs, hcuts, htexts, htail⟩ := ih (typed ++ [text]) (h.concat hc)
        rw [hp, List.modifyHead_cons, List.append_assoc, List.singleton_append] at hcuts
        refine ⟨gs, hcuts, ?_, ?_⟩
        · rw [collected_line_of_not hc, htexts]
        · rw [collected_line_of_not hc, htail]

end LineShell.Shell
