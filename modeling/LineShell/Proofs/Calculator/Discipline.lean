import LineShell.Calculator.Progress
import LineShell.Proofs.Calculator.Extension
import LineShell.Proofs.Calculator.Plan
/-!
# Discipline — how far a rule may go

Whatever the steps of a plan are, its run passes through no level below the one it starts at and none past the limit
(`Plan.Passes.confined`): that is so because of how plans are made, and no rule is looked at.  That the rules of the
grammar end, go forward and come back to their level is `progress`; both together are `Rule.exists_disciplined`.
-/
namespace LineShell.Calculator

open Production

/-- **From one cursor to another**, the level is not below where it was, and not past the limit. -/
structure Confined (c c' : Cursor) : Prop where
  above : c.depth ≤ c'.depth
  limit : c'.depth ≤ maxDepth

section Confined

variable {c c' c'' : Cursor}

theorem Confined.of_eq (hd : c.depth ≤ maxDepth) (h : c'.depth = c.depth) : Confined c c' :=
  ⟨Nat.le_of_eq h.symm, h ▸ hd⟩

theorem Confined.trans (h : Confined c c') (h' : Confined c' c'') : Confined c c'' :=
  ⟨Nat.le_trans h.above h'.above, h'.limit⟩

theorem Confined.ascend (h : Confined { c with depth := c.depth + 1 } c') : Confined c (ascend c') :=
  ⟨Nat.le_sub_one_of_lt h.above, Nat.le_trans (Nat.sub_le _ _) h.limit⟩

end Confined

/-- **A production ends on a level** that is not below the one it starts at, and not past the limit. -/
def Production.Steady {α : Type} (rule : Production α) : Prop :=
  ∀ c : Cursor, c.depth ≤ maxDepth → Meets rule (fun _ => Confined c) (fun _ => Confined c) c

namespace Plan

variable {α β : Type} {n : Nat}

/-- **A plan is steady if the rules that it calls are.** -/
theorem steady_run (hcalls : ∀ {α : Type} (r : Rule α), (r.run n).Steady) (p : Plan α) : (p.run n).Steady := by
  -- A level is taken by `descend` and `nested` alone, which look at the limit first, and given back where it was taken.
  induction p with
  | done a => exact fun c hd => .of_eq hd rfl
  | fail f => exact fun c hd => .of_eq hd rfl
  | rest => exact fun c hd => .of_eq hd rfl
  | resume tokens => exact fun c hd => .of_eq hd rfl
  | accept token => exact fun c hd => (meets_accept token).2 ⟨fun _ _ => .of_eq hd rfl, fun _ => .of_eq hd rfl⟩
  | expect token wanted =>
    exact fun c hd => (meets_expect token wanted).2 ⟨fun _ _ => .of_eq hd rfl, fun _ => .of_eq hd rfl⟩
  | skipSeparators => exact fun c hd => .of_eq hd rfl
  | descend => exact fun c hd => meets_descend.2 ⟨fun _ => .of_eq hd rfl, fun hlt => ⟨Nat.le_succ _, hlt⟩⟩
  | nested p ih =>
    refine fun c hd => (meets_nested _).2 ⟨fun _ => .of_eq hd rfl, fun hlt => ?_⟩
    exact (ih { c with depth := c.depth + 1 } hlt).mono (fun _ _ h => h.ascend) fun _ _ h => h.ascend
  | restored p ih =>
    exact fun c hd => (meets_restored _).2 ((ih c hd).mono (fun _ _ _ => .of_eq hd rfl) fun _ _ h => h)
  | seq p next ih ihnext =>
    refine fun c hd => (meets_bind _ _).2 ((ih c hd).mono (fun a c' h => ?_) fun _ _ h => h)
    exact (ihnext a c' h.limit).mono (fun _ _ h' => h.trans h') fun _ _ h' => h.trans h'
  | call r => exact hcalls r

end Plan

/-- **Every rule is steady**, also with an allowance that is not enough. -/
theorem Rule.steady_run : ∀ (n : Nat) {α : Type} (r : Rule α), (r.run n).Steady
  | 0, _, r => by
    rw [r.run_zero]
    exact fun c hd => .of_eq hd rfl
  | n + 1, _, r => by
    rw [r.run_succ]
    exact r.plan.steady_run (steady_run n)

namespace Plan

section Runs

variable {α : Type} {n : Nat} {p : Plan α} {c c' : Cursor}

theorem confined_of_ok {a : α} (h : p.run n c = .ok a c') (hd : c.depth ≤ maxDepth) : Confined c c' := by
  have hsteady := p.steady_run (Rule.steady_run n) c hd
  rwa [Meets, h] at hsteady

theorem confined_of_error {e : Halt} (h : p.run n c = .error e c') (hd : c.depth ≤ maxDepth) : Confined c c' := by
  have hsteady := p.steady_run (Rule.steady_run n) c hd
  rwa [Meets, h] at hsteady

end Runs

/-- **The run of a plan passes through a cursor**, where the rules called have an allowance of `n`: where it starts and
where it stops, and what its parts and the plans of the rules called pass through. -/
inductive Passes : {α : Type} → Nat → Plan α → Cursor → Cursor → Prop
  | start {α : Type} {n : Nat} {p : Plan α} {c : Cursor} : Passes n p c c
  | ok {α : Type} {n : Nat} {p : Plan α} {c c' : Cursor} {a : α} : p.run n c = .ok a c' → Passes n p c c'
  | error {α : Type} {n : Nat} {p : Plan α} {c c' : Cursor} {h : Halt} : p.run n c = .error h c' → Passes n p c c'
  | first {α β : Type} {n : Nat} {p : Plan α} {next : α → Plan β} {c c' : Cursor} :
    Passes n p c c' → Passes n (p.seq next) c c'
  | second {α β : Type} {n : Nat} {p : Plan α} {next : α → Plan β} {c c' c'' : Cursor} {a : α} :
    p.run n c = .ok a c' → Passes n (next a) c' c'' → Passes n (p.seq next) c c''
  | nested {α : Type} {n : Nat} {p : Plan α} {c c' c'' : Cursor} :
    Production.descend c = .ok () c' → Passes n p c' c'' → Passes n p.nested c c''
  | restored {α : Type} {n : Nat} {p : Plan α} {c c' : Cursor} : Passes n p c c' → Passes n p.restored c c'
  | call {α : Type} {n : Nat} {r : Rule α} {c c' : Cursor} : Passes n r.plan c c' → Passes (n + 1) (.call r) c c'

/-- **No run leaves its levels**: none that it passes through is below the one it starts at or past the limit. -/
theorem Passes.confined {α : Type} {n : Nat} {p : Plan α} {c c' : Cursor} (h : Passes n p c c')
    (hd : c.depth ≤ maxDepth) : Confined c c' := by
  induction h with
  | start => exact .of_eq hd rfl
  | ok h => exact confined_of_ok h hd
  | error h => exact confined_of_error h hd
  | first _ ih => exact ih hd
  | second h _ ih =>
    have hfirst := confined_of_ok h hd
    exact hfirst.trans (ih hfirst.limit)
  | nested h _ ih =>
    have hdown := confined_of_ok (n := 0) (p := descend) h hd
    exact hdown.trans (ih hdown.limit)
  | restored _ ih => exact ih hd
  | call _ ih => exact ih hd

end Plan

namespace Rule

variable {α : Type}

/-- **The rules that may be entered**, at most, from this one on before a token is read. -/
def calls : {α : Type} → Rule α → Nat
  | _, statement => 16
  | _, assignment => 15
  | _, chain t => 2 * t.height + 2
  | _, operand t => 2 * t.height + 1
  | _, links _ _ => 1
  | _, unary => 2
  | _, primary => 1
  | _, items _ => 17
  | _, named _ => 18
  | _, arms _ _ _ => 19
  | _, alternative => 18
  | _, body _ _ => 17

/-- **The tokens that are read**, at least, where the rule succeeds. -/
def reads : {α : Type} → Rule α → Nat
  | _, statement | _, assignment | _, chain _ | _, operand _ | _, unary | _, primary => 1
  | _, links _ _ | _, items _ | _, named _ | _, arms _ _ _ | _, alternative | _, body _ _ => 0

/-- **Whether the level is given back**: a chain gives back what its links have taken. -/
def restores : {α : Type} → Rule α → Bool
  | _, links _ _ => false
  | _, _ => true

/-- **What a rule leaves** of the tokens and of the levels where it succeeds. -/
structure Leaves (r : Rule α) (c c' : Cursor) : Prop where
  suffix : c'.rest <:+ c.rest
  length : c'.rest.length + r.reads ≤ c.rest.length
  depth : r.restores = true → c'.depth = c.depth

theorem meets_run {n : Nat} (r : Rule α) {c : Cursor} (h : 20 * c.rest.length + r.calls ≤ n) (hd : c.depth ≤ maxDepth) :
    Meets (r.run n) (fun _ => r.Leaves c) (Halts c) c := by
  have horderly (h : Orderly r.reads (r.run n) c) : Meets (r.run n) (fun _ => r.Leaves c) (Halts c) c :=
    (h hd).mono (fun _ _ hr => ⟨hr.suffix, hr.length, fun _ => hr.depth⟩) fun _ _ he => he
  have p := progress n
  cases r with
  | statement => exact horderly (p.statement c h)
  | assignment => exact horderly (p.assignment c h)
  | chain t => exact horderly (p.chain t c h)
  | operand t => exact horderly (p.operand t c h)
  | links t left =>
    exact (p.links t left c h hd).mono (fun _ _ hc => ⟨hc.suffix, hc.suffix.length_le, nofun⟩) fun _ _ he => he
  | unary => exact horderly (p.unary c h)
  | primary => exact horderly (p.primary c h)
  | items found => exact horderly (p.items found c h)
  | named word => exact horderly (p.named word c h)
  | arms negated test found => exact horderly (p.arms negated test found c h)
  | alternative => exact horderly (p.alternative c h)
  | body stop found => exact horderly (p.body stop found c h)

theorem run_ne_stalled {n : Nat} (r : Rule α) {c : Cursor} (h : 20 * c.rest.length + r.calls ≤ n)
    (hd : c.depth ≤ maxDepth) (c' : Cursor) : r.run n c ≠ .error .stalled c' := by
  intro hr
  have hmeets := r.meets_run h hd
  rw [Meets, hr] at hmeets
  exact hmeets.cause rfl

/-- **What a rule answers is about the tokens alone**, once its allowance is enough. -/
theorem run_eq {n m : Nat} (r : Rule α) {c : Cursor} (hs : ∀ c', r.run n c ≠ .error .stalled c') (h : n ≤ m) :
    r.run m c = r.run n c := by
  have p := carrying follows_nil h
  cases r with
  | statement => exact eq_of_carries (p.statement c) (fun _ => trivial) hs
  | assignment => exact eq_of_carries (p.assignment c) (fun _ => trivial) hs
  | chain t => exact eq_of_carries (p.chain t c) (fun _ => trivial) hs
  | operand t => exact eq_of_carries (p.operand t c) (fun _ => trivial) hs
  | links t left => exact eq_of_carries (p.links t left c) (fun _ => trivial) hs
  | unary => exact eq_of_carries (p.unary c) (fun _ => trivial) hs
  | primary => exact eq_of_carries (p.primary c) (fun _ => trivial) hs
  | items found => exact eq_of_carries (p.items found c) (fun _ => trivial) hs
  | named word => exact eq_of_carries (p.named word c) (fun _ => trivial) hs
  | arms negated test found => exact eq_of_carries (p.arms negated test found c) (fun _ => trivial) hs
  | alternative => exact eq_of_carries (p.alternative c) (fun _ _ => rfl) hs
  | body stop found => exact eq_of_carries (p.body stop found c) (fun _ _ => rfl) hs

/-- **What is left of the tokens begins at a place among them.** -/
theorem Leaves.exists_drop {r : Rule α} {tokens : List Token} {pos depth : Nat} {c : Cursor} (hpos : pos ≤ tokens.length)
    (h : r.Leaves ⟨tokens.drop pos, depth⟩ c) :
    ∃ pos', c.rest = tokens.drop pos' ∧ pos + r.reads ≤ pos' ∧ pos' ≤ tokens.length := by
  have hlength := h.length
  rw [List.length_drop] at hlength
  refine ⟨tokens.length - c.rest.length, ?_, by omega, Nat.sub_le _ _⟩
  exact List.suffix_iff_eq_drop.1 (h.suffix.trans (List.drop_suffix _ _))

/-- **A rule in good discipline** at a place among the tokens and a level: it gives one answer with every allowance that
is enough, which is not that it stalled; no level that it passes through is below the one it starts at or past the
limit; and where it succeeds it has gone forward as far as it must, not past the end, and is back on its level. -/
structure Disciplined (r : Rule α) (tokens : List Token) (pos depth : Nat) (answer : EStateM.Result Halt Cursor α) :
    Prop where
  settles : ∀ n, 20 * (tokens.length - pos) + r.calls ≤ n → r.run n ⟨tokens.drop pos, depth⟩ = answer
  cause : ∀ c, answer ≠ .error .stalled c
  confined : ∀ n c, Plan.Passes n (.call r) ⟨tokens.drop pos, depth⟩ c → depth ≤ c.depth ∧ c.depth ≤ maxDepth
  advances : ∀ a c, answer = .ok a c →
    ∃ pos', c.rest = tokens.drop pos' ∧ pos + r.reads ≤ pos' ∧ pos' ≤ tokens.length
  level : r.restores = true → ∀ a c, answer = .ok a c → c.depth = depth

/-- **Every rule is in good discipline**, from any place among any tokens and any level up to the limit. -/
theorem exists_disciplined (r : Rule α) (tokens : List Token) (pos depth : Nat) (hpos : pos ≤ tokens.length)
    (hdepth : depth ≤ maxDepth) : ∃ answer, r.Disciplined tokens pos depth answer := by
  have henough : 20 * (tokens.drop pos).length + r.calls ≤ 20 * (tokens.length - pos) + r.calls :=
    Nat.le_of_eq (by rw [List.length_drop])
  have hcause := r.run_ne_stalled (c := ⟨tokens.drop pos, depth⟩) henough hdepth
  have hleaves (a : α) (c : Cursor)
      (h : r.run (20 * (tokens.length - pos) + r.calls) ⟨tokens.drop pos, depth⟩ = .ok a c) :
      r.Leaves ⟨tokens.drop pos, depth⟩ c := by
    have hmeets := r.meets_run (c := ⟨tokens.drop pos, depth⟩) henough hdepth
    rwa [Meets, h] at hmeets
  exact ⟨_, {
    settles := fun n hn => r.run_eq hcause hn
    cause := hcause
    confined := fun n c hc => ⟨(hc.confined hdepth).above, (hc.confined hdepth).limit⟩
    advances := fun a c h => (hleaves a c h).exists_drop hpos
    level := fun hr a c h => (hleaves a c h).depth hr }⟩

/-- **A statement on the last level but one** passes through the last. -/
theorem exists_disciplined_last :
    1 ≤ [Token.symbol .openRound, .int 1, .symbol .closeRound].length ∧ 127 ≤ maxDepth ∧
      Plan.Passes 20 (.call statement) ⟨[.int 1, .symbol .closeRound], 127⟩
        ⟨[.int 1, .symbol .closeRound], maxDepth⟩ ∧
      ∃ answer, statement.Disciplined [.symbol .openRound, .int 1, .symbol .closeRound] 1 127 answer :=
  ⟨by decide, by decide, .call (.nested rfl .start),
    exists_disciplined statement [.symbol .openRound, .int 1, .symbol .closeRound] 1 127 (by decide) (by decide)⟩

end Rule

end LineShell.Calculator
