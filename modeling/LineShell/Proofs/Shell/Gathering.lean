import LineShell.Shell.Reader
import LineShell.Text.Line
/-!
# Gathering — the lines a reader makes of its chunks

Where the chunks are cut makes no difference to the lines, and an empty chunk is none.  A reader gathers the first line
of the bytes it has not read yet (`gather_line`), and the lines of the bytes of a text are the bytes of its lines
(`splitAfter_encode`).
-/
namespace LineShell.Shell.Reader

open Text (splitAfter encode)

/-! ### Lines of bytes -/

theorem utf8EncodeChar_lineFeed : String.utf8EncodeChar '\n' = [lineFeed] := rfl

/-- A character of several bytes has the highest bit set in each of them. -/
theorem le_of_mem_utf8EncodeChar {c : Char} (hc : 127 < c.val.toNat) :
    ∀ b ∈ String.utf8EncodeChar c, 128 ≤ b.toNat := by
  unfold String.utf8EncodeChar
  generalize c.val.toNat = v at hc
  simp only [if_neg (Nat.not_le.2 hc)]
  split
  · simp
    omega
  · split <;> simp <;> omega

/-- **No character but the line feed has its byte among its own.** -/
theorem ne_lineFeed_of_mem_utf8EncodeChar {c : Char} (hc : c ≠ '\n') {b : UInt8} (hb : b ∈ String.utf8EncodeChar c) :
    (b == lineFeed) = false := by
  rw [beq_eq_false_iff_ne]
  rintro rfl
  by_cases hlow : c.val.toNat ≤ 127
  · rw [String.utf8EncodeChar, if_pos hlow, List.mem_singleton] at hb
    have hfeed : 10 = c.val.toNat % 256 := congrArg UInt8.toNat hb
    exact hc (Char.ext (UInt32.toNat_inj.1 (show c.val.toNat = 10 by omega)))
  · exact absurd (le_of_mem_utf8EncodeChar (Nat.lt_of_not_le hlow) lineFeed hb) (by decide)

theorem splitAfter_utf8Encode (cs : List Char) :
    splitAfter (· == lineFeed) (cs.flatMap String.utf8EncodeChar) =
      (splitAfter (· == '\n') cs).map (·.flatMap String.utf8EncodeChar) := by
  induction cs with
  | nil => rfl
  | cons c cs ih =>
    rw [List.flatMap_cons]
    by_cases hc : c = '\n'
    · subst hc
      rw [utf8EncodeChar_lineFeed, List.singleton_append, Text.splitAfter_cons_of_ends rfl,
        Text.splitAfter_cons_of_ends rfl, List.map_cons, ih]
      rfl
    · have hbytes : ∀ b ∈ String.utf8EncodeChar c, (b == lineFeed) = false := fun b =>
        ne_lineFeed_of_mem_utf8EncodeChar hc
      have hline : splitAfter (· == '\n') (c :: cs) = _ :=
        Text.splitAfter_cons_of_not (by simpa using hc) cs
      rw [Text.splitAfter_append_of_not String.utf8EncodeChar_ne_nil hbytes, ih, hline]
      cases splitAfter (· == '\n') cs <;> simp

/-- **The lines of the bytes of a text are the bytes of its lines.** -/
theorem splitAfter_encode (text : String) :
    splitAfter (· == lineFeed) (encode text) = (Text.lines text).map encode := by
  rw [Text.encode_eq_flatMap, splitAfter_utf8Encode, Text.lines, List.map_map]
  apply List.map_congr_left
  intro line _
  rw [Function.comp_apply, Text.encode_eq_flatMap, String.toList_ofList]

/-! ### The first line of the bytes left -/

/-- **The bytes not read yet**, whatever the chunks they come in. -/
def unread (r : Reader) : List UInt8 := r.held ++ r.chunks.flatten

/-- **A reader that no signal meets.** -/
structure Calm (r : Reader) : Prop where
  signals : r.signals = []
  raised : r.raised = false

theorem poll_calm {r : Reader} (h : r.Calm) : source.poll r = (false, r) := by
  obtain ⟨held, chunks, asked, signals, raised, echo, reports⟩ := r
  obtain ⟨-, hraised⟩ := h
  cases hraised
  show poll _ = _
  unfold poll
  split <;> rfl

theorem meet_calm {r : Reader} (h : r.Calm) : r.meet = r := by
  obtain ⟨held, chunks, asked, signals, raised, echo, reports⟩ := r
  obtain ⟨hsignals, hraised⟩ := h
  cases hsignals
  cases hraised
  rfl

/-- **A calm reader that asks** loses no byte, and holds none only at the end. -/
theorem ask_calm (chunks : List (List UInt8)) (r : Reader) (h : r.Calm) :
    (r.ask chunks).Calm ∧ (r.ask chunks).echo = r.echo ∧ (r.ask chunks).unread = chunks.flatten ∧
      ((r.ask chunks).held = [] → chunks.flatten = []) := by
  induction chunks generalizing r with
  | nil =>
    rw [ask, meet_calm h]
    exact ⟨⟨h.signals, h.raised⟩, rfl, rfl, fun _ => rfl⟩
  | cons chunk chunks ih =>
    cases chunk with
    | nil =>
      rw [ask, meet_calm h]
      exact ih { r with asked := r.asked + 1 } ⟨h.signals, h.raised⟩
    | cons byte bytes =>
      rw [ask, meet_calm h]
      exact ⟨⟨h.signals, h.raised⟩, rfl, rfl, nofun⟩

theorem fill_calm {r : Reader} (h : r.Calm) :
    r.fill.Calm ∧ r.fill.echo = r.echo ∧ r.fill.unread = r.unread ∧ (r.fill.held = [] → r.unread = []) := by
  unfold fill
  split
  · rename_i hheld
    have hunread : r.unread = r.chunks.flatten := by rw [unread, List.isEmpty_iff.1 hheld, List.nil_append]
    rw [hunread]
    exact ask_calm r.chunks r h
  · rename_i hheld
    exact ⟨h, rfl, rfl, fun he => absurd (List.isEmpty_iff.2 he) hheld⟩

/-- **What is gathered from a calm reader** is the first line of the bytes left, and what it is left with are the other
lines. -/
theorem gather_line (line : List UInt8) (r : Reader) (h : r.Calm) :
    (gather line r).1 = line ++ (splitAfter (· == lineFeed) r.unread).headD [] ∧
      splitAfter (· == lineFeed) (gather line r).2.unread = (splitAfter (· == lineFeed) r.unread).tail ∧
      (gather line r).2.Calm ∧ (gather line r).2.echo = r.echo := by
  -- By the bytes left: those at hand, if no line feed is among them, begin the line that the next go on with.
  obtain ⟨hcalm, hecho, hunread, hend⟩ := fill_calm h
  have hsplit := List.takeWhile_append_dropWhile (p := (· ≠ lineFeed)) (l := r.fill.held)
  have hrun : ∀ b ∈ r.fill.held.takeWhile (· ≠ lineFeed), (b == lineFeed) = false := by
    intro b hb
    simpa using List.all_eq_true.1 List.all_takeWhile b hb
  unfold gather
  split
  · rename_i feed after hd
    have hfeed : (feed == lineFeed) = true := by
      have := List.head?_dropWhile_not (· ≠ lineFeed) r.fill.held
      rw [hd] at this
      simpa using this
    have hbytes : r.unread = r.fill.held.takeWhile (· ≠ lineFeed) ++ feed :: (after ++ r.fill.chunks.flatten) := by
      rw [← List.cons_append, ← List.append_assoc, ← hd, hsplit, ← hunread]
      rfl
    rw [hbytes, Text.splitAfter_line hrun hfeed, List.headD_cons, List.tail_cons, List.append_assoc]
    exact ⟨rfl, rfl, ⟨hcalm.signals, hcalm.raised⟩, hecho⟩
  · rename_i hd
    rw [hd, List.append_nil] at hsplit
    rw [hsplit] at hrun
    split
    · rename_i hheld
      rw [hunread, hend (List.isEmpty_iff.1 hheld)]
      exact ⟨(List.append_nil _).symm, rfl, hcalm, hecho⟩
    · obtain ⟨hhead, htail⟩ := Text.headD_tail_splitAfter_append hrun r.fill.chunks.flatten
      rw [← hunread, unread, hhead, htail, ← List.append_assoc, ← hecho]
      exact gather_line (line ++ r.fill.held) { r.fill with held := [] } ⟨hcalm.signals, hcalm.raised⟩
termination_by r.left
decreasing_by exact left_drop ‹_›

/-- **The output once a prompt is shown**, if the reader shows prompts. -/
def shown (r : Reader) (prompt : String) (out : Output) : Output := if r.echo then (out.put prompt).2 else out

theorem shown_room {r : Reader} {prompt : String} {out : Output} (hroom : out.room = none) :
    (r.shown prompt out).room = none := by
  unfold shown
  rw [Output.put_of_unlimited hroom]
  split <;> exact hroom

/-- **What a calm reader reads** under a prompt: the first of the lines left is read as text if it is one. -/
theorem read_calm (prompt : String) {out : Output} {r : Reader} (h : r.Calm) (hroom : out.room = none) :
    ∃ r', r'.Calm ∧ r'.echo = r.echo ∧
      splitAfter (· == lineFeed) r'.unread = (splitAfter (· == lineFeed) r.unread).tail ∧
      source.read prompt out r =
        (reading ((splitAfter (· == lineFeed) r.unread).headD []), r.shown prompt out, r') := by
  obtain ⟨hbytes, hunread, hcalm, hecho⟩ := gather_line [] r h
  refine ⟨(gather [] r).2, hcalm, hecho, hunread, ?_⟩
  show read prompt out r = _
  unfold read shown
  rw [List.nil_append] at hbytes
  cases r.echo with
  | false => simp only [Bool.false_eq_true, if_false, hbytes]
  | true => simp only [if_true, Output.put_of_unlimited hroom, hbytes]

theorem reading_encode {text : String} (h : encode text ≠ []) : reading (encode text) = .ok (.line text) := by
  rw [reading, if_neg (by simpa using h), Text.decode?_encode]

end LineShell.Shell.Reader
