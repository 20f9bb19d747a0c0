import LineShell.Calculator.Contract
import LineShell.Calculator.Grammar
/-!
# Progress — every rule of the grammar ends, and ends in order

A rule that succeeds has read tokens from the front and is back at the level it started at; one that fails stopped
between that level and the limit; and none stalls that was allowed twenty calls for every token left and a few more.
`progress` says so for all rules at once.
-/
namespace LineShell.Calculator

namespace Production

/-- **From one cursor to another**, `k` tokens or more are read from the front, and the level is the same. -/
structure Reads (k : Nat) (c c' : Cursor) : Prop where
  suffix : c'.rest <:+ c.rest
  length : c'.rest.length + k ≤ c.rest.length
  depth : c'.depth = c.depth

/-- **From one cursor to another**, tokens are read from the front, and levels may be taken up to the limit. -/
structure Climbs (c c' : Cursor) : Prop where
  suffix : c'.rest <:+ c.rest
  above : c.depth ≤ c'.depth
  limit : c'.depth ≤ maxDepth

/-- **A fault found further on**, and not for want of calls. -/
structure Halts (c : Cursor) (h : Halt) (c' : Cursor) : Prop extends Climbs c c' where
  cause : h ≠ .stalled

variable {α β : Type} {j k : Nat} {c c' c'' : Cursor}

theorem Reads.refl (c : Cursor) : Reads 0 c c := ⟨List.suffix_rfl, Nat.le_refl _, rfl⟩

theorem Reads.trans (h : Reads j c c') (h' : Reads k c' c'') : Reads (j + k) c c'' :=
  ⟨h'.suffix.trans h.suffix, by have := h.length; have := h'.length; omega, h'.depth.trans h.depth⟩

theorem Reads.weaken (h : Reads j c c') (hk : k ≤ j) : Reads k c c' :=
  ⟨h.suffix, by have := h.length; omega, h.depth⟩

theorem Reads.token {token : Token} {after : List Token} (h : c.rest = token :: after) :
    Reads 1 c { c with rest := after } :=
  ⟨h ▸ List.suffix_cons _ _, by simp [h], rfl⟩

theorem Climbs.refl (hd : c.depth ≤ maxDepth) : Climbs c c := ⟨List.suffix_rfl, Nat.le_refl _, hd⟩

theorem Climbs.trans (h : Climbs c c') (h' : Climbs c' c'') : Climbs c c'' :=
  ⟨h'.suffix.trans h.suffix, Nat.le_trans h.above h'.above, h'.limit⟩

theorem Reads.climbs (h : Reads k c c') (hd : c.depth ≤ maxDepth) : Climbs c c' :=
  ⟨h.suffix, Nat.le_of_eq h.depth.symm, h.depth ▸ hd⟩

theorem Climbs.halts {e : Halt} (h : Climbs c c') (h' : Halts c' e c'') : Halts c e c'' :=
  ⟨h.trans h'.toClimbs, h'.cause⟩

theorem Climbs.fault (h : Climbs c c') (f : ParseFault) : Halts c (.fault f) c' := ⟨h, nofun⟩

/-- **A rule in order at a cursor**: it reads `k` tokens or more and restores the level, or finds a fault. -/
def Orderly (k : Nat) (rule : Production α) (c : Cursor) : Prop :=
  c.depth ≤ maxDepth → Meets rule (fun _ => Reads k c) (Halts c) c

theorem Orderly.weaken {rule : Production α} (h : Orderly j rule c) (hk : k ≤ j) : Orderly k rule c :=
  fun hd => (h hd).mono (fun _ _ hr => hr.weaken hk) fun _ _ he => he

theorem orderly_pure (a : α) : Orderly 0 (pure a) c := fun _ => Reads.refl c

theorem orderly_fail (f : ParseFault) : Orderly k (fail f : Production α) c := fun hd => (Climbs.refl hd).fault f

theorem orderly_bind {rule : Production α} {next : α → Production β} (h : Orderly j rule c)
    (hn : ∀ a c', Reads j c c' → Orderly k (next a) c') : Orderly (j + k) (rule >>= next) c := by
  intro hd
  rw [meets_bind]
  refine (h hd).mono (fun a c' hr => ?_) fun _ _ he => he
  exact (hn a c' hr (hr.depth ▸ hd)).mono (fun _ _ hr' => hr.trans hr') fun _ _ he => (hr.climbs hd).halts he

theorem orderly_return {rule : Production α} (f : α → β) (h : Orderly k rule c) :
    Orderly k (rule >>= fun a => pure (f a)) c :=
  orderly_bind h fun _ _ _ => orderly_pure _

theorem orderly_rest {next : List Token → Production α} (h : Orderly k (next c.rest) c) :
    Orderly k (rest >>= next) c := by
  intro hd
  rw [meets_bind, meets_rest]
  exact h hd

theorem orderly_resume {token : Token} {after : List Token} {next : Unit → Production α}
    (hc : c.rest = token :: after) (h : Orderly k (next ()) { c with rest := after }) :
    Orderly (1 + k) (resume after >>= next) c := by
  intro hd
  have hr := Reads.token hc
  rw [meets_bind, meets_resume]
  exact (h hd).mono (fun _ _ hr' => hr.trans hr') fun _ _ he => (hr.climbs hd).halts he

theorem orderly_accept {token : Token} {next : Bool → Production α}
    (ht : ∀ c', Reads 1 c c' → Orderly k (next true) c') (hf : Orderly k (next false) c) :
    Orderly k (accept token >>= next) c := by
  intro hd
  rw [meets_bind, meets_accept]
  refine ⟨fun after hc => ?_, fun _ => hf hd⟩
  have hr := Reads.token hc
  exact (ht _ hr hd).mono (fun _ _ hr' => (hr.trans hr').weaken (by omega)) fun _ _ he => (hr.climbs hd).halts he

theorem orderly_expect (token : Token) (wanted : String) : Orderly 1 (expect token wanted) c := by
  intro hd
  rw [meets_expect]
  exact ⟨fun _ hc => Reads.token hc, fun _ => (Climbs.refl hd).fault _⟩

theorem orderly_skip {next : Unit → Production α} (h : ∀ c', Reads 0 c c' → Orderly k (next ()) c') :
    Orderly k (skipSeparators >>= next) c := by
  intro hd
  have hs := List.dropWhile_suffix (l := c.rest) (fun t => decide (t = Token.separator))
  have hr : Reads 0 c { c with rest := c.rest.dropWhile (· = .separator) } := ⟨hs, hs.length_le, rfl⟩
  rw [meets_bind, meets_skipSeparators]
  exact (h _ hr hd).mono (fun _ _ hr' => (hr.trans hr').weaken (by omega)) fun _ _ he => (hr.climbs hd).halts he

theorem orderly_nested {rule : Production α} (h : Orderly k rule { c with depth := c.depth + 1 }) :
    Orderly k (nested rule) c := by
  intro hd
  rw [meets_nested]
  refine ⟨fun _ => (Climbs.refl hd).fault _, fun hlt => (h hlt).mono (fun _ c' hr => ?_) fun _ c' he => ?_⟩
  · exact ⟨hr.suffix, hr.length, by simp [ascend, hr.depth]⟩
  · have := he.above
    have := he.limit
    simp only at *
    exact ⟨⟨he.suffix, by simp only [ascend]; omega, by simp only [ascend]; omega⟩, he.cause⟩

end Production

open Production

/-- **How many levels are as tight as this one or tighter.** -/
def Tier.height : Tier → Nat
  | or => 6
  | and => 5
  | equality => 4
  | comparison => 3
  | additive => 2
  | multiplicative => 1

theorem Tier.height_tighter {t t' : Tier} (h : t.tighter = some t') : t'.height + 1 = t.height := by
  cases t <;> cases h <;> rfl

theorem Tier.height_pos (t : Tier) : 0 < t.height ∧ t.height ≤ 6 := by cases t <;> decide

/-- **Every rule with an allowance of `n` is in order** wherever the allowance is twenty calls for every token left and
as many more as there are rules from this one to the next token. -/
structure Progress (n : Nat) : Prop where
  statement : ∀ c, 20 * c.rest.length + 16 ≤ n → Orderly 1 (statement n) c
  assignment : ∀ c, 20 * c.rest.length + 15 ≤ n → Orderly 1 (assignment n) c
  chain : ∀ t c, 20 * c.rest.length + (2 * t.height + 2) ≤ n → Orderly 1 (chain t n) c
  operand : ∀ t c, 20 * c.rest.length + (2 * t.height + 1) ≤ n → Orderly 1 (operand t n) c
  links : ∀ t left c, 20 * c.rest.length + 1 ≤ n → c.depth ≤ maxDepth →
    Meets (links t n left) (fun _ => Climbs c) (Halts c) c
  unary : ∀ c, 20 * c.rest.length + 2 ≤ n → Orderly 1 (unary n) c
  primary : ∀ c, 20 * c.rest.length + 1 ≤ n → Orderly 1 (primary n) c
  items : ∀ found c, 20 * c.rest.length + 17 ≤ n → Orderly 0 (items n found) c
  named : ∀ word c, 20 * c.rest.length + 18 ≤ n → Orderly 0 (named word n) c
  arms : ∀ negated test found c, 20 * c.rest.length + 19 ≤ n → Orderly 0 (arms negated n test found) c
  alternative : ∀ c, 20 * c.rest.length + 18 ≤ n → Orderly 0 (alternative n) c
  body : ∀ stop found c, 20 * c.rest.length + 17 ≤ n → Orderly 0 (body stop n found) c

namespace Progress

variable {n : Nat} (p : Progress n) (c : Cursor)

include p

theorem statement_succ (h : 20 * c.rest.length + 16 ≤ n + 1) : Orderly 1 (Calculator.statement (n + 1)) c :=
  orderly_nested (p.assignment _ (by simpa using by omega))

theorem assignment_succ (h : 20 * c.rest.length + 15 ≤ n + 1) : Orderly 1 (Calculator.assignment (n + 1)) c := by
  refine orderly_rest ?_
  split
  · rename_i name after hc
    split
    · exact orderly_fail _
    · have hs : after <:+ c.rest := hc ▸ (List.suffix_cons _ _).trans (List.suffix_cons _ _)
      have hr : Reads 2 c { c with rest := after } := ⟨hs, by simp [hc], rfl⟩
      have hl := hr.length
      intro hd
      rw [meets_bind, meets_resume]
      exact (orderly_return _ (p.statement { c with rest := after } (by simp only at *; omega)) hd).mono
        (fun _ _ hr' => (hr.trans hr').weaken (by omega)) fun _ _ he => (hr.climbs hd).halts he
  · exact p.chain .or c (by simp only [Tier.height]; omega)

theorem chain_succ (t : Tier) (h : 20 * c.rest.length + (2 * t.height + 2) ≤ n + 1) :
    Orderly 1 (Calculator.chain t (n + 1)) c := by
  intro hd
  rw [Calculator.chain, meets_restored, meets_bind]
  refine (p.operand t c (by omega) hd).mono (fun left c' hr => ?_) fun _ _ he => he
  have hl := hr.length
  refine (p.links t left c' (by omega) (hr.depth ▸ hd)).mono (fun _ c'' hc => ?_) fun _ _ he => (hr.climbs hd).halts he
  have hl' := hc.suffix.length_le
  exact ⟨hc.suffix.trans hr.suffix, by simp only; omega, rfl⟩

theorem operand_succ (t : Tier) (h : 20 * c.rest.length + (2 * t.height + 1) ≤ n + 1) :
    Orderly 1 (Calculator.operand t (n + 1)) c := by
  rw [Calculator.operand]
  split
  · rename_i t' ht
    have := Tier.height_tighter ht
    exact p.chain t' c (by omega)
  · have := t.height_pos
    exact p.unary c (by omega)

theorem links_succ (t : Tier) (left : Expr) (h : 20 * c.rest.length + 1 ≤ n + 1) (hd : c.depth ≤ maxDepth) :
    Meets (Calculator.links t (n + 1) left) (fun _ => Climbs c) (Halts c) c := by
  rw [Calculator.links, meets_bind, meets_rest]
  split
  · exact Climbs.refl hd
  · rename_i token after hc
    split
    · exact Climbs.refl hd
    · have hr := Reads.token hc
      have hl := hr.length
      have ht := t.height_pos
      simp only at hl
      rw [meets_bind, meets_resume, meets_bind, meets_descend]
      refine ⟨fun _ => (hr.climbs hd).fault _, fun hlt => ?_⟩
      have hup : Climbs c ⟨after, c.depth + 1⟩ := ⟨hr.suffix, Nat.le_succ _, hlt⟩
      rw [meets_bind]
      refine (p.operand t ⟨after, c.depth + 1⟩ (by simp only; omega) hlt).mono (fun right c' hr' => ?_)
        fun _ _ he => hup.halts he
      have hl' := hr'.length
      have hup' := hup.trans (hr'.climbs hlt)
      simp only at hl'
      exact (p.links t _ c' (by omega) hup'.limit).mono (fun _ _ hc' => hup'.trans hc') fun _ _ he => hup'.halts he

theorem unary_succ (h : 20 * c.rest.length + 2 ≤ n + 1) : Orderly 1 (Calculator.unary (n + 1)) c := by
  refine orderly_rest ?_
  split
  · exact p.primary c (by omega)
  · rename_i token after hc
    split
    · exact p.primary c (by omega)
    · refine (orderly_resume hc (orderly_return _ (orderly_nested (p.unary _ ?_)))).weaken (by omega)
      simp only [hc, List.length_cons] at h ⊢
      omega

theorem primary_succ (h : 20 * c.rest.length + 1 ≤ n + 1) : Orderly 1 (Calculator.primary (n + 1)) c := by
  refine orderly_rest ?_
  rcases hc : c.rest with _ | ⟨token, after⟩
  · exact orderly_fail _
  simp only [hc, List.length_cons] at h
  match token, hc with
  | .int _, hc => exact orderly_resume hc (orderly_pure _)
  | .symbol .openRound, hc =>
    refine (orderly_resume (k := 1) hc (orderly_bind (j := 1) (k := 0) (p.statement _ ?_) fun inner c' _ => ?_)).weaken
      (by omega)
    · simp only
      omega
    · exact (orderly_return (fun _ => inner) (orderly_expect _ _)).weaken (by omega)
  | .symbol .openSquare, hc =>
    refine (orderly_resume (k := 0) hc (orderly_bind (j := 0) (k := 0) (p.items _ _ ?_) fun found c' _ => ?_)).weaken
      (by omega)
    · simp only
      omega
    · exact (orderly_return (fun _ => Expr.array found) (orderly_expect _ _)).weaken (by omega)
  | .ident word, hc =>
    refine orderly_resume (k := 0) hc (p.named word _ ?_)
    simp only
    omega
  | .symbol (.op _), _ | .symbol .bang, _ | .symbol .assign, _ | .symbol .closeRound, _ | .symbol .closeSquare, _
  | .symbol .comma, _ | .separator, _ => exact orderly_fail _

theorem items_succ (found : List Expr) (h : 20 * c.rest.length + 17 ≤ n + 1) :
    Orderly 0 (Calculator.items (n + 1) found) c := by
  refine orderly_rest ?_
  split
  · exact orderly_pure _
  · refine (orderly_bind (k := 0) (p.statement c (by omega)) fun item c' hr => ?_).weaken (by omega)
    have hl := hr.length
    refine orderly_accept (fun c'' hr' => ?_) (orderly_pure _)
    have hl' := hr'.length
    exact p.items _ c'' (by omega)

theorem named_succ (word : String) (h : 20 * c.rest.length + 18 ≤ n + 1) :
    Orderly 0 (Calculator.named word (n + 1)) c := by
  have harms (negated : Bool) (f : Expr → Expr) :
      Orderly 0 (Calculator.statement n >>= fun e => Calculator.arms negated n (f e) []) c := by
    refine (orderly_bind (k := 0) (p.statement c (by omega)) fun e c' hr => ?_).weaken (by omega)
    have hl := hr.length
    exact p.arms negated _ _ c' (by omega)
  rw [Calculator.named]
  split
  · exact orderly_pure _
  split
  · exact orderly_pure _
  split
  · exact orderly_pure _
  split
  · exact harms false id
  split
  · exact harms true (.unary .not)
  split
  · exact orderly_bind (j := 0) (k := 0) (p.body _ _ c (by omega)) fun inner c' _ =>
      (orderly_return (fun _ => Expr.block inner) (orderly_expect _ _)).weaken (by omega)
  split
  · exact orderly_fail _
  split
  · exact orderly_fail _
  · exact orderly_pure _

theorem arms_succ (negated : Bool) (test : Expr) (found : List (Expr × List Expr))
    (h : 20 * c.rest.length + 19 ≤ n + 1) : Orderly 0 (Calculator.arms negated (n + 1) test found) c := by
  have hbody (c' : Cursor) (hc : c'.rest.length ≤ c.rest.length) (stop : List String) :
      Orderly 0 (Calculator.body stop n [] >>= fun inner => accept (.ident "elsif") >>= fun more =>
        if more = true then
          Calculator.statement n >>= fun next => Calculator.arms negated n next ((test, inner) :: found)
        else Calculator.alternative n >>= fun otherwise => expect (.ident "end") "end" >>= fun _ =>
          pure (.choice ((test, inner) :: found).reverse otherwise)) c' := by
    refine orderly_bind (j := 0) (k := 0) (p.body _ _ c' (by omega)) fun inner c₁ hr => ?_
    have hl := hr.length
    refine orderly_accept (fun c₂ hr' => ?_) ?_
    · have hl' := hr'.length
      refine (orderly_bind (k := 0) (p.statement c₂ (by omega)) fun next c₃ hr'' => ?_).weaken (by omega)
      have hl'' := hr''.length
      exact p.arms negated _ _ c₃ (by omega)
    · refine orderly_bind (j := 0) (k := 0) (p.alternative c₁ (by omega)) fun otherwise c₂ _ => ?_
      exact (orderly_return (fun _ => Expr.choice ((test, inner) :: found).reverse otherwise)
        (orderly_expect _ _)).weaken (by omega)
  refine orderly_accept (fun c' hr => ?_) (hbody c (Nat.le_refl _) _)
  have hl := hr.length
  exact hbody c' (by omega) _

theorem alternative_succ (h : 20 * c.rest.length + 18 ≤ n + 1) : Orderly 0 (Calculator.alternative (n + 1)) c := by
  refine orderly_accept (fun c' hr => ?_) (orderly_pure _)
  have hl := hr.length
  exact orderly_return some (p.body _ _ c' (by omega))

theorem body_succ (stop : List String) (found : List Expr) (h : 20 * c.rest.length + 17 ≤ n + 1) :
    Orderly 0 (Calculator.body stop (n + 1) found) c := by
  refine orderly_skip fun c' hr => orderly_rest ?_
  have hl := hr.length
  split
  · exact orderly_pure _
  · refine (orderly_bind (k := 0) (p.statement c' (by omega)) fun e c'' hr' => orderly_rest ?_).weaken (by omega)
    have hl' := hr'.length
    split
    · exact p.body _ _ c'' (by omega)
    · split
      · exact p.body _ _ c'' (by omega)
      · exact orderly_fail _

end Progress

/-- **Every rule is in order**, whatever its allowance, where the allowance is enough. -/
theorem progress : ∀ n, Progress n
  | 0 => by constructor <;> intros <;> omega
  | n + 1 =>
    let p := progress n
    { statement := p.statement_succ
      assignment := p.assignment_succ
      chain := fun t c => p.chain_succ c t
      operand := fun t c => p.operand_succ c t
      links := fun t left c => p.links_succ c t left
      unary := p.unary_succ
      primary := p.primary_succ
      items := fun found c => p.items_succ c found
      named := fun word c => p.named_succ c word
      arms := fun negated test found c => p.arms_succ c negated test found
      alternative := p.alternative_succ
      body := fun stop found c => p.body_succ c stop found }

end LineShell.Calculator
