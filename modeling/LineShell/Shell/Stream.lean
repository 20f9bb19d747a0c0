/-!
# Stream — bytes out, and what can go wrong with bytes

An output has room for so many bytes, or for all.  A text that does not fit is written as far as it fits, and that is a
fault.
-/
namespace LineShell.Shell

inductive StreamFault where
  | full
  | notText
  | other (message : String)
  deriving DecidableEq, Repr

def StreamFault.message : StreamFault → String
  | full => "disk full"
  | notText => "stream did not contain valid UTF-8"
  | other message => message

/-- **Bytes written, and the room left.** No room stated means room for all. -/
structure Output where
  written : ByteArray
  room : Option Nat

namespace Output

/-- **An output that never fills up.** -/
def unlimited : Output := ⟨.empty, none⟩

/-- **An output with room for `n` bytes.** -/
def limited (n : Nat) : Output := ⟨.empty, some n⟩

/-- **A text written**, as far as it fits. -/
def put (text : String) (out : Output) : Except StreamFault Unit × Output :=
  let bytes := text.toUTF8
  match out.room with
  | none => (.ok (), { out with written := out.written ++ bytes })
  | some n =>
    if bytes.size ≤ n then (.ok (), ⟨out.written ++ bytes, some (n - bytes.size)⟩)
    else (.error .full, ⟨out.written ++ bytes.extract 0 n, some 0⟩)

theorem put_of_unlimited {out : Output} (h : out.room = none) (text : String) :
    out.put text = (.ok (), { out with written := out.written ++ text.toUTF8 }) := by
  unfold put
  rw [h]

/-- **A text and a line feed written**, as far as they fit. -/
def putLine (text : String) (out : Output) : Except StreamFault Unit × Output := out.put (text ++ "\n")

end Output

end LineShell.Shell
