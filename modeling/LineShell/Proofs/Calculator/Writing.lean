import LineShell.Proofs.Calculator.Junction
/-!
# Writing — tokens as text, and that text as tokens

Tokens are written with a blank between one and the next.  The scan finds just what was written (`scan_write`), as long
as every token is one that it can find at all, and the tokens of a text are (`isScanned_of_scan`).
-/
namespace LineShell.Calculator

open Text (EndsRun dropWhile_endsRun isLetter isWordChar takeWhile_endsRun)

/-- **A name**: word characters, and the first a letter or the underscore. -/
def isName (name : String) : Bool :=
  match name.toList with
  | [] => false
  | c :: cs => (isLetter c || decide (c = '_')) && cs.all isWordChar

theorem exists_of_isName {name : String} (h : isName name = true) : ∃ c cs, name.toList = c :: cs ∧
    (isLetter c || decide (c = '_')) = true ∧ cs.all isWordChar = true := by
  unfold isName at h
  split at h
  · cases h
  · rename_i c cs hcs
    exact ⟨c, cs, hcs, (Bool.and_eq_true _ _).mp h⟩

namespace Token

/-- **A token that the scan can find.** No literal has a sign, and only names are names. -/
def IsScanned : Token → Prop
  | int n => 0 ≤ n.toInt
  | ident name => isName name = true
  | _ => True

/-- **A token as it stands in a text.** A separator stands as a semicolon, which brackets do not change. -/
def written : Token → String
  | separator => ";"
  | token => token.text

end Token

/-- **Tokens written**, with a blank between one and the next. -/
def write (tokens : List Token) : String := " ".intercalate (tokens.map Token.written)

section Literal

variable {digits : List Char} {n : Int64}

/-- **A literal is the word of its value.** -/
theorem literal?_eq_some_iff : Integer.literal? digits = some n ↔ n.toInt = Integer.decimal digits :=
  Integer.fit?_eq_some_iff

theorem decimal_toDigits (k : Nat) : Integer.decimal (Nat.toDigits 10 k) = k := by
  rw [Integer.decimal, ← Nat.ofDigitChars_eq_foldl, Nat.ofDigitChars_ten_toDigits]

/-- **An integer that is not negative is written in digits.** -/
theorem toList_written_int (h : 0 ≤ n.toInt) : (Token.int n).written.toList = Nat.toDigits 10 n.toInt.toNat := by
  have hn : n.toInt = (n.toInt.toNat : Int) := (Int.toNat_of_nonneg h).symm
  show (toString n.toInt).toList = _
  rw [hn]
  exact Nat.toList_repr

end Literal

section Runs

variable {rest : List Char}

/-- **What stands behind a token**: nothing, or a blank. -/
def Apart (rest : List Char) : Prop := ∀ c ∈ rest.head?, c = ' '

theorem Apart.endsRun {p : Char → Bool} (hr : Apart rest) (hp : p ' ' = false) : EndsRun p rest := fun c hc =>
  hr c hc ▸ hp

/-- **A literal ends** where a word does. -/
theorem endsRun_literal (hr : EndsRun isWordChar rest) : EndsRun isDigitOrUnderscore rest := fun c hc =>
  Bool.eq_false_iff.2 fun hl => Bool.false_ne_true ((hr c hc).symm.trans (isWordChar_of_literal hl))

end Runs

section Scan

variable {opened : Nat} {found tokens : List Token} {token : Token} {rest : List Char}

/-- **A symbol is read to its end** where a blank follows it. -/
theorem leading?_text (s : Symbol) (hr : Apart rest) :
    ∃ c cs, s.text.toList ++ rest = c :: cs ∧ Symbol.leading? c cs = some (s, rest) := by
  cases rest with
  | nil =>
    cases s with
    | op o => cases o <;> exact ⟨_, _, rfl, rfl⟩
    | _ => exact ⟨_, _, rfl, rfl⟩
  | cons c rest =>
    obtain rfl : c = ' ' := hr c rfl
    cases s with
    | op o => cases o <;> exact ⟨_, _, rfl, rfl⟩
    | _ => exact ⟨_, _, rfl, rfl⟩

/-- **A name is scanned as itself**, where it ends. -/
theorem scanFrom_ident {name : String} (h : isName name = true) (hr : EndsRun isWordChar rest) :
    scanFrom opened found (name.toList ++ rest) = scanFrom opened (.ident name :: found) rest := by
  obtain ⟨c, cs, hname, hc, hcs⟩ := exists_of_isName h
  rw [hname, List.cons_append, scanFrom_name hc, takeWhile_endsRun hcs hr, dropWhile_endsRun hcs hr, ← hname,
    String.ofList_toList]

/-- **Digits are scanned as the word of their value**, if there is one, where they end. -/
theorem scanFrom_digits (k : Nat) (hr : EndsRun isWordChar rest) :
    scanFrom opened found (Nat.toDigits 10 k ++ rest) =
      match Integer.fit? k with
      | some n => scanFrom opened (.int n :: found) rest
      | none => .error (.literal (toString k)) := by
  have hdigit : ∀ c ∈ Nat.toDigits 10 k, c.isDigit = true := fun c hc =>
    Nat.isDigit_of_mem_toDigits (by decide) (by decide) hc
  have hvalue : Integer.literal? (Nat.toDigits 10 k) = Integer.fit? k := by rw [Integer.literal?, decimal_toDigits]
  have htext : String.ofList (Nat.toDigits 10 k) = toString k := by
    rw [← String.toList_inj, String.toList_ofList]
    exact Nat.toList_repr.symm
  cases hd : Nat.toDigits 10 k with
  | nil => exact absurd hd Nat.toDigits_ne_nil
  | cons c cs =>
    rw [hd] at hdigit hvalue htext
    have hrun : cs.all isDigitOrUnderscore = true := List.all_eq_true.2 fun d hd => by
      rw [isDigitOrUnderscore, hdigit d (List.mem_cons_of_mem c hd), Bool.true_or]
    have hfilter : cs.filter (· ≠ '_') = cs := List.filter_eq_self.2 fun d hd => by
      refine decide_eq_true fun he => ?_
      have := hdigit d (List.mem_cons_of_mem c hd)
      rw [he] at this
      cases this
    have hliteral : Integer.literal? (c :: ((cs ++ rest).takeWhile isDigitOrUnderscore).filter (· ≠ '_')) =
        Integer.fit? k := by
      rw [takeWhile_endsRun hrun (endsRun_literal hr), hfilter, hvalue]
    cases hk : Integer.fit? k with
    | some n =>
      rw [List.cons_append, scanFrom_literal (hdigit c List.mem_cons_self) (hliteral.trans hk),
        dropWhile_endsRun hrun (endsRun_literal hr)]
    | none =>
      rw [List.cons_append, scanFrom_literal_of_none (hdigit c List.mem_cons_self) (hliteral.trans hk),
        takeWhile_endsRun hrun (endsRun_literal hr), hfilter, htext]

/-- **An integer that is not negative is scanned as itself**, where it ends. -/
theorem scanFrom_int {n : Int64} (h : 0 ≤ n.toInt) (hr : EndsRun isWordChar rest) :
    scanFrom opened found ((Token.int n).written.toList ++ rest) = scanFrom opened (.int n :: found) rest := by
  rw [toList_written_int h, scanFrom_digits _ hr, Int.toNat_of_nonneg h, Integer.fit?_toInt]

/-- **A token written is scanned as itself**, whatever stands apart from it. -/
theorem scanFrom_written (h : token.IsScanned) (hr : Apart rest) :
    scanFrom opened found (token.written.toList ++ rest) = scanFrom (token.track opened) (token :: found) rest := by
  have hword : EndsRun isWordChar rest := hr.endsRun (by decide +kernel)
  cases token with
  | separator => exact scanFrom_semicolon
  | symbol s =>
    obtain ⟨c, cs, htext, hs⟩ := leading?_text s hr
    show scanFrom opened found (s.text.toList ++ rest) = _
    rw [htext, scanFrom_symbol hs]
    rfl
  | ident name => exact scanFrom_ident h hword
  | int n => exact scanFrom_int h hword

theorem scanFrom_write (h : ∀ token ∈ tokens, token.IsScanned) :
    scanFrom opened found (write tokens).toList = .ok (found.reverse ++ tokens) := by
  rw [write, String.toList_intercalate, List.map_map]
  induction tokens generalizing opened found with
  | nil => rw [List.append_nil]; exact scanFrom_nil
  | cons token tokens ih =>
    obtain ⟨htoken, htokens⟩ := List.forall_mem_cons.1 h
    cases tokens with
    | nil =>
      have hread : scanFrom opened found (token.written.toList ++ []) = _ := scanFrom_written htoken nofun
      rw [List.append_nil, scanFrom_nil, List.reverse_cons] at hread
      rw [List.map_singleton, List.intercalate_singleton]
      exact hread
    | cons next tokens =>
      have hrest : scanFrom (token.track opened) (token :: found) _ = _ := ih htokens
      rw [List.map_cons, List.map_cons, List.intercalate_cons_cons, ← List.map_cons, List.append_assoc]
      refine (scanFrom_written htoken fun c hc => ?_).trans ?_
      · exact (Option.some.inj hc).symm
      · refine (scanFrom_blank (by decide) (by decide)).trans (hrest.trans ?_)
        rw [List.reverse_cons, List.append_assoc, List.singleton_append]

/-- **Tokens written are scanned as themselves.** -/
theorem scan_write (h : ∀ token ∈ tokens, token.IsScanned) : scan (write tokens) = .ok tokens := scanFrom_write h

theorem isScanned_of_scanFrom {cs : List Char} (hf : ∀ token ∈ found, token.IsScanned)
    (h : scanFrom opened found cs = .ok tokens) : ∀ token ∈ tokens, token.IsScanned := by
  fun_induction scanFrom opened found cs with
  | case1 opened found =>
    cases h
    exact fun token ht => hf token (List.mem_reverse.1 ht)
  | case2 opened found rest ih => exact ih hf h
  | case3 opened found rest _ ih => exact ih (List.forall_mem_cons.2 ⟨trivial, hf⟩) h
  | case4 opened found rest _ _ ih =>
    refine ih ?_ h
    split
    · exact List.forall_mem_cons.2 ⟨trivial, hf⟩
    · exact hf
  | case5 opened found c rest _ _ _ _ ih => exact ih hf h
  | case6 opened found c rest _ _ _ _ _ digits n hn ih =>
    refine ih (List.forall_mem_cons.2 ⟨?_, hf⟩) h
    show 0 ≤ n.toInt
    rw [literal?_eq_some_iff.1 hn]
    exact Int.natCast_nonneg _
  | case7 => cases h
  | case8 opened found c rest _ _ _ _ _ hc name ih =>
    refine ih (List.forall_mem_cons.2 ⟨?_, hf⟩) h
    show isName name = true
    rw [isName, String.toList_ofList]
    exact Bool.and_eq_true_iff.2 ⟨hc, List.all_takeWhile⟩
  | case9 opened found c rest _ _ _ _ _ _ s after hs ih => exact ih (List.forall_mem_cons.2 ⟨trivial, hf⟩) h
  | case10 => cases h

/-- **The tokens of a text** are tokens that the scan can find. -/
theorem isScanned_of_scan {text : String} (h : scan text = .ok tokens) : ∀ token ∈ tokens, token.IsScanned :=
  isScanned_of_scanFrom (List.forall_mem_nil _) h

end Scan

end LineShell.Calculator
