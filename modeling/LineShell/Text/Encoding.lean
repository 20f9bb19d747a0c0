/-!
# Encoding — text as bytes of UTF-8, and offsets into it
-/
namespace LineShell.Text

def encode (text : String) : List UInt8 := text.toUTF8.data.toList

/-- **The text that bytes spell in UTF-8**, if they spell one. -/
def decode? (bytes : List UInt8) : Option String := String.fromUTF8? bytes.toByteArray

theorem encode_eq_flatMap (text : String) : encode text = text.toList.flatMap String.utf8EncodeChar := by
  rw [encode, String.toUTF8_eq_toByteArray, ← String.utf8Encode_toList]
  exact List.toList_data_toByteArray

/-- **The bytes of a text spell it.** -/
theorem decode?_encode (text : String) : decode? (encode text) = some text := by
  have hbytes : (encode text).toByteArray = text.toByteArray := by
    rw [encode_eq_flatMap]
    exact String.utf8Encode_toList
  rw [decode?, hbytes, String.fromUTF8?, dif_pos text.isValidUTF8]
  rfl

/-- **A line cut at a byte offset**: none past its end and none inside a character. -/
def splitAtByte? : Nat → List Char → Option (List Char × List Char)
  | 0, cs => some ([], cs)
  | _ + 1, [] => none
  | n + 1, c :: cs =>
    if c.utf8Size ≤ n + 1 then
      (splitAtByte? (n + 1 - c.utf8Size) cs).map fun (left, right) => (c :: left, right)
    else none

theorem utf8ByteSize_ofList_cons (c : Char) (cs : List Char) :
    (String.ofList (c :: cs)).utf8ByteSize = c.utf8Size + (String.ofList cs).utf8ByteSize := by
  rw [String.ofList_cons, String.utf8ByteSize_append, String.utf8ByteSize_singleton]

theorem utf8ByteSize_append_singleton (before : List Char) (c : Char) :
    (String.ofList (before ++ [c])).utf8ByteSize = (String.ofList before).utf8ByteSize + c.utf8Size := by
  rw [String.ofList_append, String.utf8ByteSize_append, utf8ByteSize_ofList_cons]
  rfl

/-- **A line is cut where a beginning of it ends.** -/
theorem splitAtByte?_append : ∀ before after : List Char,
    splitAtByte? (String.ofList before).utf8ByteSize (before ++ after) = some (before, after)
  | [], after => by
    rw [String.ofList_nil, String.utf8ByteSize_empty, splitAtByte?]
    rfl
  | c :: cs, after => by
    obtain ⟨n, hn⟩ := Nat.exists_eq_succ_of_ne_zero (Nat.ne_of_gt c.utf8Size_pos)
    have hsize := utf8ByteSize_ofList_cons c cs
    have hsucc : (String.ofList (c :: cs)).utf8ByteSize = n + (String.ofList cs).utf8ByteSize + 1 := by omega
    rw [hsucc, List.cons_append, splitAtByte?, if_pos (by omega), ← hsucc, hsize, Nat.add_sub_cancel_left,
      splitAtByte?_append cs after]
    rfl

/-- **The part of a line between two byte offsets**: none where the line cannot be cut at one of them, or where they
come in the other order. -/
def slice? (line : String) (start stop : Nat) : Option String :=
  (splitAtByte? stop line.toList).bind fun (front, _) =>
    (splitAtByte? start front).map fun (_, part) => String.ofList part

theorem slice?_append {line : String} {before part after : List Char} (h : line.toList = before ++ part ++ after) :
    slice? line (String.ofList before).utf8ByteSize (String.ofList (before ++ part)).utf8ByteSize =
      some (String.ofList part) := by
  simp only [slice?, h, splitAtByte?_append, Option.bind_some, Option.map_some]

example : slice? "größe" 2 4 = some "ö" ∧ slice? "größe" 3 4 = none := by decide +kernel

/-- **An offset past the end** of a line. -/
def PastEnd (offset : Nat) (cs : List Char) : Prop := (String.ofList cs).utf8ByteSize < offset

/-- **An offset inside a character** of a line: the character starts before it and ends behind it. -/
def InsideChar (offset : Nat) (cs : List Char) : Prop :=
  ∃ before c after, cs = before ++ c :: after ∧ (String.ofList before).utf8ByteSize < offset ∧
    offset < (String.ofList before).utf8ByteSize + c.utf8Size

theorem insideChar_cons {offset : Nat} {c : Char} {cs : List Char} : InsideChar offset (c :: cs) ↔
    (0 < offset ∧ offset < c.utf8Size) ∨ (c.utf8Size ≤ offset ∧ InsideChar (offset - c.utf8Size) cs) := by
  constructor
  · rintro ⟨before, d, after, hcs, hlow, hhigh⟩
    cases before with
    | nil =>
      obtain ⟨rfl, rfl⟩ := List.cons.inj hcs
      exact .inl (by simpa using And.intro hlow hhigh)
    | cons b before =>
      obtain ⟨rfl, rfl⟩ := List.cons.inj hcs
      rw [utf8ByteSize_ofList_cons] at hlow hhigh
      exact .inr ⟨by omega, before, d, after, rfl, by omega, by omega⟩
  · rintro (⟨hlow, hhigh⟩ | ⟨hle, before, d, after, rfl, hlow, hhigh⟩)
    · exact ⟨[], c, cs, rfl, by simpa using hlow, by simpa using hhigh⟩
    · refine ⟨c :: before, d, after, rfl, ?_, ?_⟩ <;> rw [utf8ByteSize_ofList_cons] <;> omega

/-- **A line cannot be cut** past its end and inside a character, and can be everywhere else. -/
theorem splitAtByte?_eq_none_iff {offset : Nat} {cs : List Char} :
    splitAtByte? offset cs = none ↔ PastEnd offset cs ∨ InsideChar offset cs := by
  fun_induction splitAtByte? offset cs with
  | case1 cs => simp [PastEnd, InsideChar]
  | case2 n => simp [PastEnd]
  | case3 n c cs hle ih =>
    rw [Option.map_eq_none_iff, ih, insideChar_cons, PastEnd, PastEnd, utf8ByteSize_ofList_cons]
    refine or_congr (by omega) ⟨fun h => .inr ⟨hle, h⟩, fun h => ?_⟩
    rcases h with h | h
    · omega
    · exact h.2
  | case4 n c cs hgt =>
    exact iff_of_true rfl (.inr (insideChar_cons.2 (.inl (by omega))))

end LineShell.Text
