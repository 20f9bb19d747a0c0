import LineShell.Proofs.Calculator.Concatenation
/-!
# Yield — what a rule comes to with calls enough

A rule yields a result if it finds it with some allowance and with every larger one.  The rules of this calculus take a
rule of the grammar apart without a word about allowances, and what the statements of a program yield is what the
program is parsed as (`parseTokens_of_yields`).
-/
namespace LineShell.Calculator

open Production

/-- **A rule yields a result** at a cursor, and leads to another: with calls enough, and however many more. -/
def Yields {α : Type} (rule : Nat → Production α) (c : Cursor) (a : α) (c' : Cursor) : Prop :=
  ∃ n, ∀ m, n ≤ m → rule m c = .ok a c'

section Combinators

variable {α β : Type} {rule : Nat → Production α} {next : Nat → α → Production β} {c c' c'' : Cursor} {a : α} {b : β}
  {token : Token} {after : List Token}

/-- **A rule yields what its body yields**, for which one call less is left. -/
theorem Yields.succ (h : Yields (fun n => rule (n + 1)) c a c') : Yields rule c a c' := by
  obtain ⟨n, hn⟩ := h
  refine ⟨n + 1, fun m hm => ?_⟩
  obtain ⟨k, rfl⟩ : ∃ k, m = k + 1 := ⟨m - 1, by omega⟩
  exact hn k (Nat.le_of_succ_le_succ hm)

theorem yields_of_eq {rule : Production α} (h : rule c = .ok a c') : Yields (fun _ => rule) c a c' :=
  ⟨0, fun _ _ => h⟩

theorem yields_pure : Yields (fun _ => pure a) c a c := yields_of_eq rfl

/-- **One rule after another**: calls enough for both are enough for each. -/
theorem Yields.bind (h : Yields rule c a c') (h' : Yields (fun n => next n a) c' b c'') :
    Yields (fun n => rule n >>= next n) c b c'' := by
  obtain ⟨n, hn⟩ := h
  obtain ⟨k, hk⟩ := h'
  -- The larger of two allowances is enough for both, since an allowance stays enough when it grows.
  refine ⟨max n k, fun m hm => ?_⟩
  have hfirst := hn m (Nat.le_trans (Nat.le_max_left n k) hm)
  exact (bind_of_ok hfirst).trans (hk m (Nat.le_trans (Nat.le_max_right n k) hm))

theorem yields_rest {next : Nat → List Token → Production α} (h : Yields (fun n => next n c.rest) c a c') :
    Yields (fun n => rest >>= next n) c a c' := h

theorem yields_resume {next : Nat → Unit → Production α}
    (h : Yields (fun n => next n ()) { c with rest := after } a c') :
    Yields (fun n => resume after >>= next n) c a c' := h

theorem yields_skip {next : Nat → Unit → Production α}
    (h : Yields (fun n => next n ()) ⟨c.rest.dropWhile (· = .separator), c.depth⟩ a c') :
    Yields (fun n => skipSeparators >>= next n) c a c' := h

/-- **A token that comes next is accepted.** -/
theorem accept_of_next (hc : c.rest = token :: after) : accept token c = .ok true { c with rest := after } := by
  unfold accept
  rw [bind_rest, hc]
  simp only [if_true]
  rfl

theorem yields_accept {next : Nat → Bool → Production α} (hc : c.rest = token :: after)
    (h : Yields (fun n => next n true) { c with rest := after } a c') :
    Yields (fun n => accept token >>= next n) c a c' := Yields.bind (yields_of_eq (accept_of_next hc)) h

theorem yields_accept_not {next : Nat → Bool → Production α} (hc : ∀ t ∈ c.rest.head?, t ≠ token)
    (h : Yields (fun n => next n false) c a c') : Yields (fun n => accept token >>= next n) c a c' := by
  refine Yields.bind (yields_of_eq ?_) h
  unfold accept
  rw [bind_rest]
  cases hr : c.rest with
  | nil => rfl
  | cons t others =>
    rw [hr] at hc
    simp only [if_neg (hc t rfl)]
    rfl

theorem yields_expect {wanted : String} (hc : c.rest = token :: after) :
    Yields (fun _ => expect token wanted >>= fun _ => pure a) c a { c with rest := after } := by
  refine yields_of_eq ?_
  have hread : expect token wanted c = .ok () { c with rest := after } := by
    unfold expect
    rw [bind_rest, hc]
    simp only [if_true]
    rfl
  rw [bind_of_ok hread]
  rfl

theorem yields_descend {next : Nat → Unit → Production α} (hd : c.depth < maxDepth)
    (h : Yields (fun n => next n ()) { c with depth := c.depth + 1 } a c') :
    Yields (fun n => descend >>= next n) c a c' := by
  refine Yields.bind (yields_of_eq ?_) h
  rw [descend, if_neg (Nat.not_le.2 hd)]

theorem yields_nested (hd : c.depth < maxDepth) (h : Yields rule { c with depth := c.depth + 1 } a c')
    (hc : c'.depth = c.depth + 1) : Yields (fun n => nested (rule n)) c a { c' with depth := c.depth } := by
  obtain ⟨n, hn⟩ := h
  refine ⟨n, fun m hm => ?_⟩
  simp only [nested, if_neg (Nat.not_le.2 hd), hn m hm, ascend, hc, Nat.add_sub_cancel]

theorem yields_restored (h : Yields rule c a c') :
    Yields (fun n => restored (rule n)) c a { c' with depth := c.depth } := by
  obtain ⟨n, hn⟩ := h
  refine ⟨n, fun m hm => ?_⟩
  simp only [restored, hn m hm]

end Combinators

/-- **What the statements of a program come to** with any calls that do not run out, they come to with the calls that
the program is allowed. -/
theorem body_allowance {tokens : List Token} {n : Nat} {result : EStateM.Result Halt Cursor (List Expr)}
    (h : body [] n [] ⟨tokens, 0⟩ = result) (hs : ∀ c, result ≠ .error .stalled c) :
    body [] (allowance tokens) [] ⟨tokens, 0⟩ = result := by
  rw [← body_eq_of_settled (fun c => h ▸ hs c) (body_ne_stalled tokens [] [])]
  exact h

/-- **What the statements of a program yield** is what the program is parsed as. -/
theorem parseTokens_of_yields {tokens : List Token} {statements : List Expr} {c : Cursor}
    (h : Yields (fun n => body [] n []) ⟨tokens, 0⟩ statements c) (hc : c.rest = []) :
    parseTokens tokens = .ok statements := by
  obtain ⟨n, hn⟩ := h
  have hbody := body_allowance (hn n (Nat.le_refl n)) nofun
  exact parseTokens_eq_ok_iff.2 ⟨c, program_eq_ok_iff.2 ⟨hbody, hc⟩⟩

end LineShell.Calculator
