import LineShell.Shell.Run
import LineShell.Text.Encoding
/-!
# Reader — a source that reads bytes

Bytes come in chunks, and a line may be spread over any number of them.  A chunk is asked for only when the bytes before
it are used up, and an interrupt signal may come while the reader waits for one.  To hold nothing after asking is to be
at the end of input, so an empty chunk is not handed over: the next one is asked for instead.
-/
namespace LineShell.Shell

/-- **Bytes in chunks, and how far they are read.** -/
structure Reader where
  held : List UInt8 := []
  /-- The chunks not asked for yet. -/
  chunks : List (List UInt8)
  asked : Nat := 0
  /-- The chunks whose asking for is met by a signal, by number; the number past the last stands for the end. -/
  signals : List Nat := []
  /-- Whether a signal came that nobody asked about yet. -/
  raised : Bool := false
  echo : Bool
  /-- Whether signals are reported as interrupts. -/
  reports : Bool
  deriving DecidableEq, Repr

namespace Reader

def lineFeed : UInt8 := 10

/-- **A signal met**, if one comes with the chunk asked for next. It comes once. -/
def meet (r : Reader) : Reader :=
  { r with
    raised := r.raised || r.signals.contains r.asked
    signals := r.signals.filter (· ≠ r.asked) }

/-- **The first of some chunks that holds a byte**, asked for and held; nothing at their end. -/
def ask (r : Reader) : List (List UInt8) → Reader
  | [] => { r.meet with held := [], chunks := [] }
  | [] :: chunks => ask { r.meet with asked := r.asked + 1 } chunks
  | (byte :: bytes) :: chunks => { r.meet with held := byte :: bytes, chunks := chunks, asked := r.asked + 1 }

/-- **The bytes at hand**, asked for if there are none. To hold nothing then is to be at the end of input. -/
def fill (r : Reader) : Reader := if r.held.isEmpty then r.ask r.chunks else r

def left (r : Reader) : Nat := r.held.length + r.chunks.flatten.length

theorem left_ask (chunks : List (List UInt8)) (r : Reader) : (r.ask chunks).left = chunks.flatten.length := by
  induction chunks generalizing r with
  | nil => rfl
  | cons chunk chunks ih =>
    cases chunk with
    | nil => exact ih _
    | cons byte bytes => rw [List.flatten_cons, List.length_append]; rfl

/-- **Asking takes no byte.** -/
theorem left_fill (r : Reader) : r.fill.left = r.left := by
  unfold fill
  split
  · rename_i h
    rw [left_ask, left, List.isEmpty_iff.1 h, List.length_nil, Nat.zero_add]
  · rfl

/-- **To take all bytes at hand** leaves fewer, if there are any. -/
theorem left_drop {r : Reader} (h : ¬r.fill.held.isEmpty = true) :
    left { r.fill with held := [] } < r.left := by
  have hpos := List.length_pos_iff.2 (mt List.isEmpty_iff.2 h)
  rw [← left_fill r, left, left, List.length_nil, Nat.zero_add]
  exact Nat.lt_add_of_pos_left hpos

/-- **The bytes of the next line after `line`**, its line feed included; at the end of input, what there is. -/
def gather (line : List UInt8) (r : Reader) : List UInt8 × Reader :=
  match r.fill.held.dropWhile (· ≠ lineFeed) with
  | feed :: after => (line ++ r.fill.held.takeWhile (· ≠ lineFeed) ++ [feed], { r.fill with held := after })
  | [] => if r.fill.held.isEmpty then (line, r.fill) else gather (line ++ r.fill.held) { r.fill with held := [] }
termination_by r.left
decreasing_by exact left_drop ‹_›

/-- **A line takes the bytes it consists of.** -/
theorem length_gather (line : List UInt8) (r : Reader) :
    (gather line r).1.length + (gather line r).2.left = line.length + r.left := by
  have split := congrArg List.length (List.takeWhile_append_dropWhile (p := (· ≠ lineFeed)) (l := r.fill.held))
  rw [List.length_append] at split
  rw [← left_fill r]
  unfold gather
  split
  · rename_i feed after h
    rw [h] at split
    simp only [List.length_append, List.length_cons, List.length_nil, left] at split ⊢
    omega
  · split
    · rfl
    · rw [length_gather, List.length_append]
      simp only [left, List.length_nil]
      omega
termination_by r.left
decreasing_by exact left_drop ‹_›

/-- **What the bytes of a line are read as.** No bytes at all are the end of input. -/
def reading (bytes : List UInt8) : Except StreamFault Reading :=
  if bytes.isEmpty then .ok .endOfInput
  else
    match Text.decode? bytes with
    | some text => .ok (.line text)
    | none => .error .notText

/-- **The next line**, after the prompt if it is to be written. A prompt that cannot be written is a fault, and nothing
is read then. -/
def read (prompt : String) (out : Output) (r : Reader) : Except StreamFault Reading × Output × Reader :=
  match if r.echo then out.put prompt else (.ok (), out) with
  | (.error f, out) => (.error f, out, r)
  | (.ok _, out) =>
    let (bytes, r) := gather [] r
    (reading bytes, out, r)

/-- **A reading that takes bytes leaves fewer.** -/
theorem left_of_read {prompt : String} {out out' : Output} {r r' : Reader} {what : Reading}
    (h : read prompt out r = (.ok what, out', r')) (hw : what ≠ .endOfInput) : r'.left < r.left := by
  unfold read at h
  split at h
  · cases h
  · have hl := length_gather [] r
    rw [Prod.mk.injEq, Prod.mk.injEq] at h
    obtain ⟨hr, -, rfl⟩ := h
    have hne : (gather [] r).1 ≠ [] := by
      intro he
      rw [he] at hr
      cases hr
      exact hw rfl
    have := List.length_pos_iff.2 hne
    rw [List.length_nil] at hl
    omega

/-- **Whether a signal is to be reported**; if so it is forgotten. -/
def poll (r : Reader) : Bool × Reader :=
  if r.reports then (r.raised, { r with raised := false }) else (false, r)

def source : LineSource Reader where
  poll := poll
  sync _ r := r
  read := read
  left := left
  left_poll r := by
    unfold poll
    split <;> exact Nat.le_refl _
  left_sync _ _ := Nat.le_refl _
  left_read := left_of_read

end Reader

end LineShell.Shell
