import LineShell.Calculator.Run
import LineShell.Proofs.Calculator.Extension
import LineShell.Proofs.Calculator.Junction
/-!
# Concatenation — programs one after another

A program and a text on the next line are a program if the text is one, and a fault of the text is theirs
(`parseTokens_line`).  To run them is to run the program and then, if it did not fail, the text (`run_line`).
-/
namespace LineShell.Calculator

open Production

section Body

variable {n m : Nat} {found earlier : List Expr} {c c₁ c' : Cursor} {e : Expr} {es : List Expr}

theorem body_found (stop : List String) (earlier : List Expr) : ∀ (n : Nat) (found : List Expr),
    body stop n (found ++ earlier) = (earlier.reverse ++ ·) <$> body stop n found
  | 0, _ => rfl
  | n + 1, found => by
    have ih (e : Expr) : body stop n (e :: (found ++ earlier)) = (earlier.reverse ++ ·) <$> body stop n (e :: found) :=
      body_found stop earlier n (e :: found)
    rw [body, body, map_bind]
    refine bind_congr fun _ => ?_
    rw [map_bind]
    refine bind_congr fun before => ?_
    split
    · rw [List.reverse_append, map_pure]
    · rw [map_bind]
      refine bind_congr fun e => ?_
      rw [map_bind]
      refine bind_congr fun after => ?_
      cases after with
      | nil => exact ih e
      | cons token rest =>
        simp only
        split
        · exact ih e
        · rfl

theorem body_of_nil (h : c.rest.dropWhile (· = .separator) = []) :
    body [] (n + 1) found c = .ok found.reverse ⟨[], c.depth⟩ := by
  rw [body, bind_skip, bind_rest]
  simp only [h]
  rfl

theorem atWord_nil (tokens : List Token) : atWord [] tokens = false := by
  match tokens with
  | [] | .int _ :: _ | .ident _ :: _ | .symbol _ :: _ | .separator :: _ => rfl

/-- **A statement and those after it**: what follows it is the end or a separator. -/
theorem body_of_cons {token : Token} {after : List Token}
    (h : c.rest.dropWhile (· = .separator) = token :: after) :
    body [] (n + 1) found c = (statement n >>= fun e => rest >>= fun
      | [] => body [] n (e :: found)
      | follow :: others =>
        if follow = .separator || atWord [] (follow :: others) then body [] n (e :: found)
        else fail (.unexpected follow)) ⟨token :: after, c.depth⟩ := by
  have hcall : ¬((token :: after).isEmpty || atWord [] (token :: after)) = true := by
    rw [atWord_nil]
    exact Bool.false_ne_true
  rw [body, bind_skip, bind_rest]
  simp only [h]
  rewrite [if_neg hcall]
  rfl

theorem body_next {token : Token} {after : List Token} (h : c.rest.dropWhile (· = .separator) = token :: after)
    (hs : statement n ⟨token :: after, c.depth⟩ = .ok e c₁) (hf : Follows c₁.rest) :
    body [] (n + 1) found c = body [] n (e :: found) c₁ := by
  rw [body_of_cons h, bind_of_ok hs, bind_rest]
  cases hr : c₁.rest with
  | nil => rfl
  | cons follow others =>
    rw [hr] at hf
    obtain rfl := hf follow rfl
    rfl

theorem statement_of_body {token : Token} {after : List Token}
    (h : c.rest.dropWhile (· = .separator) = token :: after) (hb : body [] (n + 1) found c = .ok es c') :
    ∃ e c₁, statement n ⟨token :: after, c.depth⟩ = .ok e c₁ ∧ Follows c₁.rest := by
  rw [body_of_cons h] at hb
  cases hs : statement n ⟨token :: after, c.depth⟩ with
  | error f c₁ =>
    rw [bind_of_error hs] at hb
    cases hb
  | ok e c₁ =>
    refine ⟨e, c₁, rfl, fun follow hf => ?_⟩
    rw [bind_of_ok hs, bind_rest] at hb
    cases hr : c₁.rest with
    | nil =>
      rw [hr] at hf
      cases hf
    | cons first others =>
      rw [hr] at hf hb
      cases hf
      by_cases hsep : follow = .separator
      · exact hsep
      · simp only [atWord_nil, Bool.or_false, decide_eq_true_eq, if_neg hsep] at hb
        cases hb

/-- **A program's statements before a separator** are read, and then those behind it. -/
theorem body_line (after : List Token) : ∀ {n m : Nat} {tokens : List Token} {depth : Nat} {found : List Expr}, n ≤ m →
    body [] n found ⟨tokens, depth⟩ = .ok es c' →
      ∃ k, body [] m found ⟨tokens ++ .separator :: after, depth⟩ = body [] k es.reverse ⟨after, c'.depth⟩
  | n + 1, m + 1, tokens, depth, found, hle, hb => by
    cases hr : tokens.dropWhile (· = .separator) with
    | nil =>
      -- Nothing but separators is left, so the statements behind them are next.
      have hskip : (tokens ++ .separator :: after).dropWhile (· = .separator) = after.dropWhile (· = .separator) := by
        rw [List.dropWhile_append, hr]
        rfl
      have hdone : body [] (n + 1) found ⟨tokens, depth⟩ = .ok found.reverse ⟨[], depth⟩ := body_of_nil hr
      rw [hb] at hdone
      cases hdone
      refine ⟨m + 1, ?_⟩
      rw [List.reverse_reverse, body, bind_skip, bind_skip, hskip]
    | cons token others =>
      have hskip : (tokens ++ .separator :: after).dropWhile (· = .separator) =
          token :: (others ++ .separator :: after) := by
        rw [List.dropWhile_append, hr]
        rfl
      obtain ⟨e, c₁, hs, hf⟩ := statement_of_body (c := ⟨tokens, depth⟩) hr hb
      rw [body_next (c := ⟨tokens, depth⟩) hr hs hf] at hb
      have hle := Nat.le_of_succ_le_succ hle
      have hcarries := (carrying (follows_separator after) hle).statement ⟨token :: others, depth⟩
      rw [Carries, Meets, hs] at hcarries
      have hs' := hcarries trivial
      obtain ⟨k, hk⟩ := body_line after hle hb
      refine ⟨k, ?_⟩
      rw [← hk]
      refine body_next (c := ⟨tokens ++ .separator :: after, depth⟩) hskip hs' ?_
      exact hf.append (follows_separator after)

theorem body_eq_of_settled {stop : List String} (hn : ∀ c', body stop n found c ≠ .error .stalled c')
    (hm : ∀ c', body stop m found c ≠ .error .stalled c') : body stop n found c = body stop m found c := by
  have hle {n m : Nat} (h : n ≤ m) (hn : ∀ c', body stop n found c ≠ .error .stalled c') :
      body stop n found c = body stop m found c :=
    (eq_of_carries ((carrying follows_nil h).body stop found c) (fun _ _ => rfl) hn).symm
  -- The smaller allowance settled, so the larger one ends alike.
  rcases Nat.le_total n m with h | h
  · exact hle h hn
  · exact (hle h hm).symm

theorem orderly_body (tokens : List Token) (stop : List String) (found : List Expr) :
    Orderly 0 (body stop (allowance tokens) found) ⟨tokens, 0⟩ :=
  (progress _).body stop found ⟨tokens, 0⟩ (by unfold allowance; simp only; omega)

theorem body_ne_stalled (tokens : List Token) (stop : List String) (found : List Expr) (c' : Cursor) :
    body stop (allowance tokens) found ⟨tokens, 0⟩ ≠ .error .stalled c' := by
  intro h
  have ho := orderly_body tokens stop found (Nat.zero_le _)
  rw [Meets, h] at ho
  exact ho.cause rfl

end Body

/-- **A program with a text behind a separator** is read as the text is, its own statements before the text's. -/
theorem program_line {first : List Token} {statements : List Expr} (h : parseTokens first = .ok statements)
    (second : List Token) : program (allowance (first ++ .separator :: second)) ⟨first ++ .separator :: second, 0⟩ =
      ((statements ++ ·) <$> program (allowance second)) ⟨second, 0⟩ := by
  obtain ⟨c, hc⟩ := parseTokens_eq_ok_iff.1 h
  obtain ⟨hbody, -⟩ := program_eq_ok_iff.1 hc
  have hdepth : c.depth = 0 := by
    have ho := orderly_body first [] [] (Nat.zero_le _)
    rw [Meets, hbody] at ho
    exact ho.depth
  have hle : allowance first ≤ allowance (first ++ .separator :: second) := by
    unfold allowance
    rw [List.length_append]
    omega
  obtain ⟨k, hk⟩ := body_line second hle hbody
  have hfound : body [] k statements.reverse = (statements ++ ·) <$> body [] k [] := by
    rw [← List.nil_append statements.reverse, body_found, List.reverse_reverse]
  rw [hdepth, hfound, map_apply] at hk
  -- The allowance left at the separator is enough, since that of the whole is.
  have hsettled (c' : Cursor) : body [] k [] ⟨second, 0⟩ ≠ .error .stalled c' := by
    intro hs
    rw [hs] at hk
    exact body_ne_stalled _ [] [] c' hk
  rw [body_eq_of_settled hsettled (body_ne_stalled second [] [])] at hk
  rw [program_eq, hk, map_apply, program_eq]
  cases body [] (allowance second) [] ⟨second, 0⟩ with
  | error f c' => rfl
  | ok found c' =>
    obtain ⟨rest, depth⟩ := c'
    cases rest <;> rfl

theorem parseTokens_line {first : List Token} {statements : List Expr} (h : parseTokens first = .ok statements)
    (second : List Token) :
    parseTokens (first ++ .separator :: second) = (parseTokens second).map (statements ++ ·) := by
  have hline := program_line h second
  rw [map_apply] at hline
  cases hs : parseTokens second with
  | ok found =>
    obtain ⟨c, hc⟩ := parseTokens_eq_ok_iff.1 hs
    rw [hc] at hline
    exact parseTokens_eq_ok_iff.2 ⟨c, hline⟩
  | error f =>
    obtain ⟨c, hc⟩ := parseTokens_eq_error_iff.1 hs
    rw [hc] at hline
    exact parseTokens_eq_error_iff.2 ⟨c, hline⟩

/-- **A program and a text on the next line.** -/
theorem parse_line {a : String} {statements : List Expr} (ha : parse a = .ok statements) (b : String) :
    parse (a ++ "\n" ++ b) = (parse b).map (statements ++ ·) := by
  obtain ⟨first, hscan, hparse⟩ := parse_eq_ok_iff.1 ha
  rw [parse, parse, scan_line hscan (nested_of_parseTokens hparse) b]
  cases scan b with
  | error f => rfl
  | ok second => exact parseTokens_line hparse second

theorem evalBody_append : ∀ (first second : List Expr) (last : Value),
    evalBody (first ++ second) last = evalBody first last >>= evalBody second
  | [], second, last => by
    rw [evalBody, pure_bind]
    rfl
  | e :: first, second, last => by
    rw [List.cons_append, evalBody, evalBody, bind_assoc]
    exact bind_congr fun v => evalBody_append first second v

/-- **The value before a program** is its value only where it has no statement. -/
theorem evalBody_last (statements : List Expr) (last : Value) :
    evalBody statements last = (fun v => if statements.isEmpty then last else v) <$> evalBody statements .nil := by
  cases statements with
  | nil => rfl
  | cons e rest =>
    rw [evalBody, evalBody]
    exact (id_map _).symm

/-- **A program and a text on the next line**: they are parsed as the program and the text are, and if the text is a
program as well, running them is running the one and then, if it did not fail, the other. -/
theorem run_line {a : String} {statements : List Expr} (ha : parse a = .ok statements) (b : String) :
    parse (a ++ "\n" ++ b) = (parse b).map (statements ++ ·) ∧
      ∀ others, parse b = .ok others → ∀ session, run (a ++ "\n" ++ b) session =
        match run a session with
        | (.error e, session') => (.error e, session')
        | (.ok v, session') =>
          match run b session' with
          | (.error e, session'') => (.error e, session'')
          | (.ok w, session'') => (.ok (if others.isEmpty then v else w), session'') := by
  have hline := parse_line ha b
  refine ⟨hline, fun others hb session => ?_⟩
  have hwhole : parse (a ++ "\n" ++ b) = .ok (statements ++ others) := by rw [hline, hb]; rfl
  rw [run, hwhole, run, ha]
  simp only [run, hb, evalBody_append]
  cases hfirst : evalBody statements .nil session.vars with
  | error f vars => rw [bind_of_error hfirst]
  | ok v vars =>
    rw [bind_of_ok hfirst, evalBody_last, map_apply]
    cases hsecond : evalBody others .nil vars <;> simp only [hsecond]

/-- **A comment, a fault of the second line and a name bound on the first.** -/
theorem run_line_comment : ∃ statements, parse "x = 1 # one" = .ok statements ∧
    parse ("x = 1 # one" ++ "\n" ++ "x + 2; y") = (parse "x + 2; y").map (statements ++ ·) ∧
      ∀ others, parse "x + 2; y" = .ok others → ∀ session, run ("x = 1 # one" ++ "\n" ++ "x + 2; y") session =
        match run "x = 1 # one" session with
        | (.error e, session') => (.error e, session')
        | (.ok v, session') =>
          match run "x + 2; y" session' with
          | (.error e, session'') => (.error e, session'')
          | (.ok w, session'') => (.ok (if others.isEmpty then v else w), session'') := by
  obtain ⟨statements, h⟩ : ∃ statements, parse "x = 1 # one" = .ok statements := exists_of_isOk (by decide +kernel)
  exact ⟨statements, h, run_line h "x + 2; y"⟩

end LineShell.Calculator
