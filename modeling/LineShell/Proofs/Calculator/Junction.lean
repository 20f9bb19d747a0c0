import LineShell.Proofs.Calculator.Nesting
import LineShell.Proofs.Calculator.Scanning
import LineShell.Text.Line
/-!
# Junction — where one text ends and the next line begins

No token runs over a line feed, and nested tokens leave no bracket open.  So the tokens of a program and of whatever
text follows it on the next line are the tokens of each, with a separator between them (`scan_line`).
-/
namespace LineShell.Calculator

open Text (dropWhile_append_cons)

/-- **How many brackets are open after a token.** -/
def Token.track (opened : Nat) : Token → Nat
  | .symbol s => s.track opened
  | _ => opened

theorem track_of_opens? {token : Token} {p : Pair} (h : token.opens? = some p) (opened : Nat) :
    token.track opened = if p = .block then opened else opened + 1 := by
  match token, h with
  | .symbol .openRound, h | .symbol .openSquare, h => cases h; rfl
  | .ident name, h =>
    have hb := Token.opens?_ident name p
    rw [decide_eq_true h, eq_comm, Bool.and_eq_true, decide_eq_true_eq] at hb
    rw [if_pos hb.2]
    rfl

theorem track_of_closes? {token : Token} {p : Pair} (h : token.closes? = some p) (opened : Nat) :
    token.track opened = if p = .block then opened else opened - 1 := by
  match token, h with
  | .symbol .closeRound, h | .symbol .closeSquare, h => cases h; rfl
  | .ident name, h =>
    have hb := Token.closes?_ident name p
    rw [decide_eq_true h, eq_comm, Bool.and_eq_true, decide_eq_true_eq] at hb
    rw [if_pos hb.2]
    rfl

theorem Nested.track {tokens : List Token} (h : Nested tokens) (opened : Nat) :
    tokens.foldl Token.track opened = opened := by
  induction h generalizing opened with
  | nil => rfl
  | @plain token after ho hc _ ih =>
    have ht : token.track opened = opened := by
      match token, ho, hc with
      | .int _, _, _ | .ident _, _, _ | .separator, _, _ => rfl
      | .symbol (.op _), _, _ | .symbol .bang, _, _ | .symbol .assign, _, _ | .symbol .comma, _, _ => rfl
    rw [List.foldl_cons, ht, ih]
  | @pair opener inner closer after p ho hc _ _ ihinner ihafter =>
    have ht : closer.track (opener.track opened) = opened := by
      rw [track_of_closes? hc, track_of_opens? ho]
      split <;> rfl
    rw [List.foldl_cons, List.foldl_append, ihinner, List.foldl_cons, ht, ihafter]

theorem takeWhile_append_cons {α : Type} {p : α → Bool} {d : α} (r : List α) (h : p d = false) : ∀ l : List α,
    (l ++ d :: r).takeWhile p = l.takeWhile p
  | [] => by
    rw [List.nil_append, List.takeWhile_cons, h]
    rfl
  | c :: l => by rw [List.cons_append, List.takeWhile_cons, List.takeWhile_cons, takeWhile_append_cons r h l]

/-- **No symbol runs over a line feed.** -/
theorem leading?_line {c : Char} {cs after : List Char} {s : Symbol} (bs : List Char)
    (h : Symbol.leading? c cs = some (s, after)) :
    Symbol.leading? c (cs ++ '\n' :: bs) = some (s, after ++ '\n' :: bs) := by
  have hfeed : Symbol.double? c '\n' = none := by
    unfold Symbol.double?
    split <;> first | rfl | contradiction
  rw [Symbol.leading?_eq_some_iff] at h ⊢
  rcases h with ⟨d, rfl, hd⟩ | ⟨hs, rfl, hnone⟩
  · exact .inl ⟨d, rfl, hd⟩
  · refine .inr ⟨hs, rfl, fun d hd => ?_⟩
    cases after with
    | nil =>
      cases hd
      exact hfeed
    | cons e after => exact hnone d hd

section Scan

variable {opened : Nat} {found tokens : List Token} {cs bs : List Char}

/-- **A scan that comes to a line feed** with `tokens` found, and with what brackets those after `found` leave open. -/
def ComesTo (opened : Nat) (found tokens : List Token) (bs : List Char)
    (result : Except ParseFault (List Token)) : Prop :=
  ∃ new, tokens = found.reverse ++ new ∧ result = scanFrom (new.foldl Token.track opened) tokens.reverse ('\n' :: bs)

theorem ComesTo.token {token : Token} {result : Except ParseFault (List Token)}
    (h : ComesTo (token.track opened) (token :: found) tokens bs result) : ComesTo opened found tokens bs result := by
  obtain ⟨new, hnew, heq⟩ := h
  refine ⟨token :: new, ?_, heq⟩
  rw [hnew, List.reverse_cons, List.append_assoc]
  rfl

/-- **A text that is tokens** is the same tokens where a line follows. -/
theorem scanFrom_line (bs : List Char) (h : scanFrom opened found cs = .ok tokens) :
    ComesTo opened found tokens bs (scanFrom opened found (cs ++ '\n' :: bs)) := by
  fun_induction scanFrom opened found cs with
  | case1 opened found =>
    cases h
    exact ⟨[], (List.append_nil _).symm, by rw [List.nil_append, List.reverse_reverse]; rfl⟩
  | case2 opened found rest ih =>
    -- A comment ends at the line feed that follows.
    rw [List.cons_append, scanFrom_comment, dropWhile_append_cons bs (by decide)]
    exact ih h
  | case3 opened found rest _ ih =>
    rw [List.cons_append, scanFrom_semicolon]
    exact (ih h).token
  | case4 opened found rest _ _ ih =>
    rw [List.cons_append, scanFrom_lineFeed]
    have ih := ih h
    split at ih
    · rename_i ho
      rw [if_pos ho]
      exact ih.token
    · rename_i ho
      rw [if_neg ho]
      exact ih
  | case5 opened found c rest _ _ hfeed hc ih =>
    rw [List.cons_append, scanFrom_blank hc hfeed]
    exact ih h
  | case6 opened found c rest _ _ _ _ hc digits n hn ih =>
    have hliteral : Integer.literal? (c :: ((rest ++ '\n' :: bs).takeWhile isDigitOrUnderscore).filter (· ≠ '_')) =
        some n := by
      rw [takeWhile_append_cons bs (by decide)]
      exact hn
    rw [List.cons_append, scanFrom_literal hc hliteral, dropWhile_append_cons bs (by decide)]
    exact (ih h).token
  | case7 => cases h
  | case8 opened found c rest _ _ _ _ _ hc name ih =>
    rw [List.cons_append, scanFrom_name hc, takeWhile_append_cons bs (by decide +kernel),
      dropWhile_append_cons bs (by decide +kernel)]
    exact (ih h).token
  | case9 opened found c rest _ _ _ _ _ _ s after hs ih =>
    rw [List.cons_append, scanFrom_symbol (leading?_line bs hs)]
    exact (ih h).token
  | case10 => cases h

theorem scanFrom_append (earlier : List Token) :
    scanFrom opened (found ++ earlier) cs = (scanFrom opened found cs).map (earlier.reverse ++ ·) := by
  fun_induction scanFrom opened found cs with
  | case1 opened found => rw [scanFrom_nil, List.reverse_append]; rfl
  | case2 opened found rest ih => rw [scanFrom_comment, ih]
  | case3 opened found rest _ ih =>
    rw [scanFrom_semicolon]
    exact ih
  | case4 opened found rest _ _ ih =>
    rw [scanFrom_lineFeed]
    split at ih
    · rename_i ho
      rw [if_pos ho, if_pos ho]
      exact ih
    · rename_i ho
      rw [if_neg ho, if_neg ho]
      exact ih
  | case5 opened found c rest _ _ hfeed hc ih => rw [scanFrom_blank hc hfeed, ih]
  | case6 opened found c rest _ _ _ _ hc digits n hn ih =>
    rw [scanFrom_literal hc hn]
    exact ih
  | case7 opened found c rest _ _ _ _ hc digits hn =>
    rw [scanFrom_literal_of_none hc hn]
    rfl
  | case8 opened found c rest _ _ _ _ _ hc name ih =>
    rw [scanFrom_name hc]
    exact ih
  | case9 opened found c rest _ _ _ _ _ _ s after hs ih =>
    rw [scanFrom_symbol hs]
    exact ih
  | case10 opened found c rest hcomment hsemicolon hfeed hblank hdigit hstart hs =>
    rw [scanFrom, if_neg hcomment, if_neg hsemicolon, if_neg hfeed, if_neg hblank, if_neg hdigit, if_neg hstart]
    split
    · rename_i s' after' hs'
      rw [hs] at hs'
      cases hs'
    · rfl

end Scan

/-- **The tokens of two texts on lines of their own**, where those of the first are nested. -/
theorem scan_line {a : String} {tokens : List Token} (ha : scan a = .ok tokens) (hn : Nested tokens) (b : String) :
    scan (a ++ "\n" ++ b) = (scan b).map (tokens ++ .separator :: ·) := by
  obtain ⟨new, hnew, heq⟩ := scanFrom_line b.toList ha
  rw [List.reverse_nil, List.nil_append] at hnew
  subst hnew
  rw [hn.track, scanFrom, if_neg (by decide), if_neg (by decide), if_pos rfl, if_pos rfl] at heq
  have hlist : (a ++ "\n" ++ b).toList = a.toList ++ '\n' :: b.toList := by
    rw [String.toList_append, String.toList_append, List.append_assoc]
    rfl
  rw [scan, hlist, heq]
  have hfound : scanFrom 0 ([] ++ .separator :: tokens.reverse) b.toList =
      (scanFrom 0 [] b.toList).map ((Token.separator :: tokens.reverse).reverse ++ ·) := scanFrom_append _
  rw [List.nil_append, List.reverse_cons, List.reverse_reverse] at hfound
  rw [hfound]
  simp only [List.append_assoc]
  rfl

end LineShell.Calculator
