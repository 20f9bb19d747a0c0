import LineShell.Text.Encoding
import LineShell.Text.Lexeme
/-!
# Sweep — the lexemes of a line in one pass over its characters

A sweep remembers where a word began, if it stands in one.  The word is closed at the next character of no word, or at
the end of the line, and is the slice of the line between the two offsets.  No slice is asked for where the line cannot
be cut, and the lexemes are the pieces of the line that are no blanks (`sweep?_eq`).
-/
namespace LineShell.Text

theorem locate_blank (offset : Nat) (c : Char) (ps : List Piece) :
    locate offset (.blank c :: ps) = locate (offset + c.utf8Size) ps := by
  rw [locate, Piece.size, Piece.text, Piece.chars, utf8ByteSize_ofList_cons]
  rfl

theorem locate_mark (offset : Nat) (c : Char) (ps : List Piece) :
    locate offset (.mark c :: ps) = ⟨String.ofList [c], offset, false⟩ :: locate (offset + c.utf8Size) ps := by
  rw [locate, Piece.size, Piece.text, Piece.chars, utf8ByteSize_ofList_cons]
  rfl

/-- **What a sweep has come to**: the lexemes that it found, and where the word began that it stands in. -/
structure Sweep where
  found : List Lexeme
  opened : Option Nat

namespace Sweep

variable {line : String} {sweep : Sweep} {c : Char} {front run before after : List Char}

/-- **The word that is open ends**, at byte `stop`. -/
def close? (line : String) (stop : Nat) (sweep : Sweep) : Option Sweep :=
  match sweep.opened with
  | some start => (slice? line start stop).map fun text => ⟨sweep.found ++ [⟨text, start, true⟩], none⟩
  | none => some sweep

/-- **One character**, which starts at byte `offset`. -/
def step? (line : String) (offset : Nat) (c : Char) (sweep : Sweep) : Option Sweep :=
  if isWordChar c then some { sweep with opened := some (sweep.opened.getD offset) }
  else
    (sweep.close? line offset).bind fun closed =>
      if isBlank c then some closed
      else (slice? line offset (offset + c.utf8Size)).map fun text =>
        { closed with found := closed.found ++ [⟨text, offset, false⟩] }

/-- **Characters in order**, the first of which starts at byte `offset`. -/
def run? (line : String) : Nat → List Char → Sweep → Option Sweep
  | _, [], sweep => some sweep
  | offset, c :: cs, sweep => (sweep.step? line offset c).bind (run? line (offset + c.utf8Size) cs)

/-- **A sweep stands in a word behind `front`**, of which it has seen `run`, or in no word if `run` is empty: whatever
comes, what it found and what is cut out from there on are the lexemes. -/
structure Within (front run : List Char) (sweep : Sweep) : Prop where
  word : run.all isWordChar = true
  opened : sweep.opened = if run.isEmpty then none else some (String.ofList front).utf8ByteSize
  found : ∀ rest, sweep.found ++ locate (String.ofList front).utf8ByteSize (pieces (run ++ rest)) =
    locate 0 (pieces (front ++ run ++ rest))

/-- **A sweep has passed the characters `before`.** -/
def Passed (before : List Char) (sweep : Sweep) : Prop :=
  ∃ front run, before = front ++ run ∧ sweep.Within front run

/-- **A sweep has passed `before` and stands in no word**, where the next character belongs to none. -/
structure Closed (before : List Char) (sweep : Sweep) : Prop where
  opened : sweep.opened = none
  found : ∀ rest, EndsRun isWordChar rest →
    sweep.found ++ locate (String.ofList before).utf8ByteSize (pieces rest) = locate 0 (pieces (before ++ rest))

/-- **A sweep that stands in no word has passed `before`** if it found all that is cut out of it, whatever comes. -/
theorem passed_of_found (hopened : sweep.opened = none) (hfound : ∀ rest,
    sweep.found ++ locate (String.ofList before).utf8ByteSize (pieces rest) = locate 0 (pieces (before ++ rest))) :
    sweep.Passed before := by
  refine ⟨before, [], (List.append_nil _).symm, rfl, hopened, fun rest => ?_⟩
  rw [List.nil_append, List.append_nil]
  exact hfound rest

theorem passed_start : Passed [] ⟨[], none⟩ := passed_of_found rfl fun _ => rfl

/-- **A word is closed**: the slice of the line is there, and is the word that is cut out. -/
theorem close?_of_passed (h : sweep.Passed before) (hline : line.toList = before ++ after) :
    ∃ closed, sweep.close? line (String.ofList before).utf8ByteSize = some closed ∧ closed.Closed before := by
  obtain ⟨front, run, rfl, h⟩ := h
  cases run with
  | nil =>
    refine ⟨sweep, ?_, h.opened, fun rest _ => ?_⟩
    · rw [close?, h.opened]
      rfl
    · rw [← h.found rest, List.append_nil]
      rfl
  | cons c run =>
    refine ⟨⟨sweep.found ++ [⟨String.ofList (c :: run), (String.ofList front).utf8ByteSize, true⟩], none⟩, ?_, rfl,
      fun rest hrest => ?_⟩
    · rw [close?, h.opened, List.isEmpty_cons, if_neg Bool.false_ne_true]
      simp only [slice?_append hline, Option.map_some]
    · obtain ⟨hc, hrun⟩ := Bool.and_eq_true_iff.1 (List.all_cons ▸ h.word)
      rw [← h.found rest, List.cons_append, pieces_cons _ hc, takeWhile_endsRun hrun hrest,
        dropWhile_endsRun hrun hrest, List.append_assoc, String.ofList_append, String.utf8ByteSize_append]
      rfl

theorem Within.append (h : sweep.Within front run) (hc : isWordChar c = true) : Within front (run ++ [c])
    { sweep with opened := some (sweep.opened.getD (String.ofList (front ++ run)).utf8ByteSize) } where
  word := by
    rw [List.all_append, h.word, List.all_cons, hc]
    rfl
  opened := by
    rw [h.opened]
    cases run with
    | nil => simp
    | cons d run => rfl
  found rest := by simpa using h.found (c :: rest)

/-- **One character is passed**: it goes on with the word, or closes it and stands alone. -/
theorem step?_of_passed (h : sweep.Passed before) (hline : line.toList = before ++ c :: after) :
    ∃ next, sweep.step? line (String.ofList before).utf8ByteSize c = some next ∧ next.Passed (before ++ [c]) := by
  by_cases hc : isWordChar c = true
  · obtain ⟨front, run, rfl, h⟩ := h
    exact ⟨_, if_pos hc, front, run ++ [c], List.append_assoc _ _ _, h.append hc⟩
  obtain ⟨closed, hclose, hclosed⟩ := close?_of_passed h hline
  have hfound (rest : List Char) : closed.found ++
      locate (String.ofList before).utf8ByteSize ((if isBlank c then .blank c else .mark c) :: pieces rest) =
        locate 0 (pieces (before ++ [c] ++ rest)) := by
    rw [← pieces_cons_of_not rest (Bool.eq_false_iff.2 hc), List.append_assoc]
    refine hclosed.found (c :: rest) fun d hd => ?_
    cases hd
    exact Bool.eq_false_iff.2 hc
  rw [step?, if_neg hc, hclose, Option.bind_some]
  by_cases hblank : isBlank c = true
  · simp only [if_pos hblank, locate_blank, ← utf8ByteSize_append_singleton] at hfound
    rw [if_pos hblank]
    exact ⟨closed, rfl, passed_of_found hclosed.opened hfound⟩
  · have hslice := slice?_append (hline.trans (List.append_cons before c after))
    simp only [if_neg hblank, locate_mark, ← utf8ByteSize_append_singleton] at hfound
    rw [if_neg hblank, ← utf8ByteSize_append_singleton, hslice]
    exact ⟨_, rfl, passed_of_found hclosed.opened fun rest => (List.append_assoc _ _ _).trans (hfound rest)⟩

/-- **The rest of a line is passed.** -/
theorem run?_of_passed (h : sweep.Passed before) (hline : line.toList = before ++ after) :
    ∃ last, run? line (String.ofList before).utf8ByteSize after sweep = some last ∧ last.Passed line.toList := by
  induction after generalizing before sweep with
  | nil => exact ⟨sweep, rfl, hline ▸ (List.append_nil before).symm ▸ h⟩
  | cons c after ih =>
    obtain ⟨next, hstep, hnext⟩ := step?_of_passed h hline
    obtain ⟨last, hrun, hlast⟩ := ih hnext (hline.trans (List.append_cons _ _ _))
    rw [utf8ByteSize_append_singleton] at hrun
    exact ⟨last, by rw [run?, hstep, Option.bind_some, hrun], hlast⟩

end Sweep

/-- **The lexemes that a sweep finds** in a line, if all the slices that it asks for are there. -/
def sweep? (line : String) : Option (List Lexeme) :=
  ((Sweep.run? line 0 line.toList ⟨[], none⟩).bind (Sweep.close? line line.utf8ByteSize)).map Sweep.found

/-- **A sweep finds the lexemes of every line.** -/
theorem sweep?_eq (line : String) : sweep? line = some (lexemes line) := by
  obtain ⟨last, hrun, hlast⟩ := Sweep.run?_of_passed Sweep.passed_start (List.nil_append line.toList).symm
  obtain ⟨closed, hclose, hclosed⟩ := Sweep.close?_of_passed hlast (List.append_nil line.toList).symm
  have hend : EndsRun isWordChar [] := nofun
  have hfound := hclosed.found [] hend
  have hnil : locate line.utf8ByteSize (pieces []) = [] := rfl
  rw [String.ofList_toList, hnil, List.append_nil, List.append_nil] at hfound
  rw [String.ofList_nil, String.utf8ByteSize_empty] at hrun
  rw [String.ofList_toList] at hclose
  rw [sweep?, hrun, Option.bind_some, hclose, Option.map_some, hfound, lexemes]

end LineShell.Text
