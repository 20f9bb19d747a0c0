import LineShell.Calculator.Program
/-!
# Extension — rules with more calls and more tokens

An answer that a rule finds with one allowance it finds with every larger one.  A result that it finds it also finds
where further statements follow, for the end of the tokens and a separator are alike to it (`carrying`).
-/
namespace LineShell.Calculator

/-! ## Stateful computations at a state -/

section State

variable {ε σ α β : Type} {x : EStateM ε σ α} {next : α → EStateM ε σ β} {s s' : σ}

theorem bind_of_ok {a : α} (h : x s = .ok a s') : (x >>= next) s = next a s' := by
  show EStateM.bind x next s = _
  rw [EStateM.bind, h]

theorem bind_of_error {e : ε} (h : x s = .error e s') : (x >>= next) s = .error e s' := by
  show EStateM.bind x next s = _
  rw [EStateM.bind, h]

theorem map_apply {f : α → β} : (f <$> x) s =
    match x s with
    | .ok a s' => .ok (f a) s'
    | .error e s' => .error e s' := by
  show EStateM.map f x s = _
  rw [EStateM.map]
  cases x s <;> rfl

end State

/-- **The same cursor** with more tokens behind those left. -/
def Cursor.extend (c : Cursor) (more : List Token) : Cursor := ⟨c.rest ++ more, c.depth⟩

theorem Cursor.extend_nil (c : Cursor) : c.extend [] = c := by rw [extend, List.append_nil]

/-- **Tokens that can follow a statement**: none, or a separator and any others. -/
def Follows (more : List Token) : Prop := ∀ token ∈ more.head?, token = .separator

theorem follows_nil : Follows [] := nofun

theorem follows_separator (tokens : List Token) : Follows (.separator :: tokens) :=
  fun _ ht => (Option.some.inj ht).symm

theorem Follows.append {tokens more : List Token} (h : Follows tokens) (hm : Follows more) :
    Follows (tokens ++ more) := by
  cases tokens with
  | nil => exact hm
  | cons token after => exact h

theorem Follows.eq_nil_or {more : List Token} (h : Follows more) : more = [] ∨ ∃ others, more = .separator :: others := by
  cases more with
  | nil => exact .inl rfl
  | cons token others =>
    have htoken : token = .separator := h token rfl
    exact .inr ⟨others, by rw [htoken]⟩

namespace Production

variable {α β : Type} {more : List Token} {P : Cursor → Prop} {c : Cursor}

/-- **One rule carries another on**: with more tokens behind, the second ends as the first does. A result is carried on
where `P` holds of the cursor it is found at, a fault where no tokens follow. -/
def Carries (more : List Token) (P : Cursor → Prop) (rule rule' : Production α) (c : Cursor) : Prop :=
  Meets rule (fun a c' => P c' → rule' (c.extend more) = .ok a (c'.extend more))
    (fun h c' => h = .stalled ∨ (more = [] → rule' (c.extend more) = .error h (c'.extend more))) c

def Anywhere (_ : Cursor) : Prop := True

/-- **Short of the end**, unless the end stays where it is. -/
def ShortOf (more : List Token) (c : Cursor) : Prop := c.rest = [] → more = []

theorem bind_rest {next : List Token → Production α} : (rest >>= next) c = next c.rest c := rfl

theorem bind_skip {next : Unit → Production α} :
    (skipSeparators >>= next) c = next () ⟨c.rest.dropWhile (· = .separator), c.depth⟩ := rfl

theorem carries_pure {a : α} : Carries more P (pure a) (pure a) c := fun _ => rfl

theorem carries_fail {f : ParseFault} : Carries more P (fail f : Production α) (fail f) c := .inr fun _ => rfl

theorem carries_stall {rule' : Production α} : Carries more P stall rule' c := .inl rfl

/-- **A rule that finds no result** has nothing to carry on where tokens follow. -/
theorem carries_of_none {rule rule' : Production α} (hm : more ≠ [])
    (h : Meets rule (fun _ c' => ¬P c') (fun _ _ => True) c) : Carries more P rule rule' c :=
  h.mono (fun _ _ hp hp' => absurd hp' hp) fun _ _ _ => .inr fun he => absurd he hm

/-- **One rule after another**, where the first carries its result on, or the second finds none. -/
theorem carries_bind {Q : Cursor → Prop} {rule rule' : Production α} {next next' : α → Production β}
    (h : Carries more Q rule rule' c) (hn : ∀ a c', Carries more P (next a) (next' a) c')
    (hend : more ≠ [] → ∀ a c', ¬Q c' → Meets (next a) (fun _ c'' => ¬P c'') (fun _ _ => True) c')
    (hQ : more = [] → ∀ c', Q c') : Carries more P (rule >>= next) (rule' >>= next') c := by
  unfold Carries
  rw [meets_bind]
  refine Meets.mono h (fun a c' hr => ?_) fun e c' he => ?_
  -- A result that is not carried on comes to nothing, by `hend`.
  · by_cases hq : Q c'
    · have hok := hr hq
      have hn' := hn a c'
      refine Meets.mono hn' (fun b c'' hb hp => ?_) fun e c'' he => he.imp id fun he hm => ?_
      · rw [bind_of_ok hok]
        exact hb hp
      · rw [bind_of_ok hok]
        exact he hm
    · have hm : more ≠ [] := fun hm => hq (hQ hm c')
      exact (hend hm a c' hq).mono (fun _ _ hp hp' => absurd hp' hp) fun _ _ _ => .inr fun he => absurd he hm
  · exact he.imp id fun he hm => bind_of_error (he hm)

theorem carries_seq {rule rule' : Production α} {next next' : α → Production β}
    (h : Carries more Anywhere rule rule' c) (hn : ∀ a c', Carries more P (next a) (next' a) c') :
    Carries more P (rule >>= next) (rule' >>= next') c :=
  carries_bind h hn (fun _ _ _ hq => absurd trivial hq) fun _ _ => trivial

theorem carries_short {rule rule' : Production α} {next next' : α → Production β}
    (h : Carries more (ShortOf more) rule rule' c) (hn : ∀ a c', Carries more P (next a) (next' a) c')
    (hend : ∀ a c', c'.rest = [] → Meets (next a) (fun _ _ => False) (fun _ _ => True) c') :
    Carries more P (rule >>= next) (rule' >>= next') c := by
  refine carries_bind h hn (fun _ a c' hq => ?_) fun hm _ _ => hm
  have hr : c'.rest = [] := Decidable.of_not_not fun hne => hq fun he => absurd he hne
  exact (hend a c' hr).mono (fun _ _ hf => hf.elim) fun _ _ _ => trivial

/-- **With no tokens behind**, a rule that settles ends as the rule that it is carried on to. -/
theorem eq_of_carries {rule rule' : Production α} (h : Carries [] P rule rule' c) (hP : ∀ c', P c')
    (hs : ∀ c', rule c ≠ .error .stalled c') : rule' c = rule c := by
  rw [Carries, Meets] at h
  cases hr : rule c with
  | ok a c' =>
    rw [hr] at h
    have hcarried := h (hP c')
    rwa [Cursor.extend_nil, Cursor.extend_nil] at hcarried
  | error e c' =>
    rw [hr] at h
    rcases h with rfl | h
    · exact absurd hr (hs c')
    · have hcarried := h rfl
      rwa [Cursor.extend_nil, Cursor.extend_nil] at hcarried

theorem carries_return {rule rule' : Production α} {f : α → β} (h : Carries more P rule rule' c) :
    Carries more P (rule >>= fun a => pure (f a)) (rule' >>= fun a => pure (f a)) c := by
  unfold Carries
  rw [meets_bind]
  refine Meets.mono h (fun a c' hr hp => ?_) fun e c' he => he.imp id fun he hm => bind_of_error (he hm)
  rw [bind_of_ok (hr hp)]
  rfl

theorem carries_rest {next next' : List Token → Production α}
    (h : Carries more P (next c.rest) (next' (c.rest ++ more)) c) :
    Carries more P (rest >>= next) (rest >>= next') c := by
  unfold Carries
  rw [meets_bind, meets_rest]
  exact h

theorem carries_resume {after : List Token} {next next' : Unit → Production α}
    (h : Carries more P (next ()) (next' ()) { c with rest := after }) :
    Carries more P (resume after >>= next) (resume (after ++ more) >>= next') c := by
  unfold Carries
  rw [meets_bind, meets_resume]
  exact h

theorem carries_descend : Carries more Anywhere descend descend c := by
  unfold Carries
  rw [meets_descend]
  constructor
  · intro hd
    refine .inr fun _ => ?_
    rw [descend, if_pos (show maxDepth ≤ (c.extend more).depth from hd)]
  · intro hd _
    rw [descend, if_neg (show ¬maxDepth ≤ (c.extend more).depth from Nat.not_le.2 hd)]
    rfl

theorem carries_nested {rule rule' : Production α}
    (h : Carries more Anywhere rule rule' { c with depth := c.depth + 1 }) :
    Carries more Anywhere (nested rule) (nested rule') c := by
  unfold Carries
  rw [meets_nested]
  constructor
  · intro hd
    refine .inr fun _ => ?_
    rw [nested, if_pos (show maxDepth ≤ (c.extend more).depth from hd)]
  · intro hd
    have hnot : ¬maxDepth ≤ (c.extend more).depth := Nat.not_le.2 hd
    refine Meets.mono h (fun a c' hr _ => ?_) fun e c' he => he.imp id fun he hm => ?_
    · have hok : rule' ⟨(c.extend more).rest, (c.extend more).depth + 1⟩ = .ok a (c'.extend more) := hr trivial
      rw [nested, if_neg hnot, hok]
      rfl
    · have herr : rule' ⟨(c.extend more).rest, (c.extend more).depth + 1⟩ = .error e (c'.extend more) := he hm
      rw [nested, if_neg hnot, herr]
      rfl

theorem carries_restored {rule rule' : Production α} (h : Carries more Anywhere rule rule' c) :
    Carries more Anywhere (restored rule) (restored rule') c := by
  unfold Carries
  rw [meets_restored]
  refine Meets.mono h (fun a c' hr _ => ?_) fun e c' he => he.imp id fun he hm => ?_
  · rw [restored, hr trivial]
    rfl
  · rw [restored, he hm]

/-- **A separator behind the tokens is never the token accepted.** -/
theorem carries_accept {token : Token} (hm : Follows more) (ht : token ≠ .separator) :
    Carries more Anywhere (accept token) (accept token) c := by
  unfold accept
  refine carries_rest ?_
  rcases hc : c.rest with _ | ⟨found, after⟩
  · rcases hm.eq_nil_or with rfl | ⟨others, rfl⟩
    · exact carries_pure
    · show Carries _ _ _ (if Token.separator = token then _ else _) _
      rw [if_neg ht.symm]
      exact carries_pure
  · show Carries _ _ (if found = token then _ else _) (if found = token then _ else _) _
    split
    · exact carries_resume carries_pure
    · exact carries_pure

theorem carries_expect {token : Token} {wanted : String} :
    Carries more P (expect token wanted) (expect token wanted) c := by
  unfold expect
  refine carries_rest ?_
  rcases hc : c.rest with _ | ⟨found, after⟩
  · cases more with
    | nil => exact carries_fail
    | cons follow others => exact carries_of_none (List.cons_ne_nil _ _) trivial
  · show Carries _ _ (if found = token then _ else _) (if found = token then _ else _) _
    split
    · exact fun _ => rfl
    · exact carries_fail

theorem meets_expect_nil {token : Token} {wanted : String} {next : Unit → Production α} (hc : c.rest = []) :
    Meets (expect token wanted >>= next) (fun _ _ => False) (fun _ _ => True) c := by
  rw [meets_bind, meets_expect, hc]
  exact ⟨nofun, fun _ => trivial⟩

theorem meets_accept_nil {token : Token} {next : Bool → Production α} {Q : α → Cursor → Prop}
    {E : Halt → Cursor → Prop} (hc : c.rest = []) (h : Meets (next false) Q E c) :
    Meets (accept token >>= next) Q E c := by
  rw [meets_bind, meets_accept, hc]
  exact ⟨nofun, fun _ => h⟩

/-- **Separators are skipped alike**, short of the end. -/
theorem carries_skip {next next' : Unit → Production α}
    (h : ∀ c', Carries more (ShortOf more) (next ()) (next' ()) c')
    (hend : ∀ c', c'.rest = [] → Meets (next ()) (fun _ c'' => c''.rest = []) (fun _ _ => True) c') :
    Carries more (ShortOf more) (skipSeparators >>= next) (skipSeparators >>= next') c := by
  have hskip : (c.rest.dropWhile (· = .separator) = [] → more = []) →
      (c.rest ++ more).dropWhile (· = .separator) = c.rest.dropWhile (· = .separator) ++ more := by
    intro hr
    rw [List.dropWhile_append]
    split
    · rename_i he
      rw [hr (List.isEmpty_iff.1 he), List.append_nil, List.dropWhile_nil, List.isEmpty_iff.1 he]
    · rfl
  unfold Carries
  rw [meets_bind, meets_skipSeparators]
  -- Where the separators are all there is, those behind them would be skipped as well.
  by_cases hr : c.rest.dropWhile (· = .separator) = [] → more = []
  · have heq : (skipSeparators >>= next') (c.extend more) =
        next' () (Cursor.extend ⟨c.rest.dropWhile (· = .separator), c.depth⟩ more) := by
      show next' () ⟨(c.rest ++ more).dropWhile (· = .separator), c.depth⟩ = _
      rw [hskip hr]
      rfl
    rw [heq]
    exact h _
  · rw [Classical.not_imp] at hr
    refine Meets.mono (hend _ hr.1) (fun a c' ha hs => absurd (hs ha) hr.2) fun _ _ _ => .inr fun he => absurd he hr.2

end Production

open Production

/-- **Every rule carries on** with an allowance of `m` what it does with one of `n`. Statements in a row can go on past
the end, so theirs are carried on short of it only. -/
structure Carrying (more : List Token) (n m : Nat) : Prop where
  statement : ∀ c, Carries more Anywhere (statement n) (statement m) c
  assignment : ∀ c, Carries more Anywhere (assignment n) (assignment m) c
  chain : ∀ t c, Carries more Anywhere (chain t n) (chain t m) c
  operand : ∀ t c, Carries more Anywhere (operand t n) (operand t m) c
  links : ∀ t left c, Carries more Anywhere (links t n left) (links t m left) c
  unary : ∀ c, Carries more Anywhere (unary n) (unary m) c
  primary : ∀ c, Carries more Anywhere (primary n) (primary m) c
  items : ∀ found c, Carries more Anywhere (items n found) (items m found) c
  named : ∀ word c, Carries more Anywhere (named word n) (named word m) c
  arms : ∀ negated test found c, Carries more Anywhere (arms negated n test found) (arms negated m test found) c
  alternative : ∀ c, Carries more (ShortOf more) (alternative n) (alternative m) c
  body : ∀ stop found c, Carries more (ShortOf more) (body stop n found) (body stop m found) c

/-- **At the end there is no `else`.** -/
theorem alternative_nil {c : Cursor} (hc : c.rest = []) : ∀ n,
    Meets (alternative n) (fun _ c' => c'.rest = []) (fun _ _ => True) c
  | 0 => trivial
  | _ + 1 => meets_accept_nil hc hc

namespace Carrying

variable {more : List Token} {n m : Nat} (hm : Follows more) (p : Carrying more n m) (c : Cursor)

include p

theorem statement_succ : Carries more Anywhere (Calculator.statement (n + 1)) (Calculator.statement (m + 1)) c :=
  carries_nested (p.assignment _)

theorem chain_succ (t : Tier) : Carries more Anywhere (Calculator.chain t (n + 1)) (Calculator.chain t (m + 1)) c := by
  rw [Calculator.chain, Calculator.chain]
  exact carries_restored (carries_seq (p.operand t c) fun left c' => p.links t left c')

theorem operand_succ (t : Tier) :
    Carries more Anywhere (Calculator.operand t (n + 1)) (Calculator.operand t (m + 1)) c := by
  rw [Calculator.operand, Calculator.operand]
  split
  · exact p.chain _ c
  · exact p.unary c

theorem named_succ (word : String) :
    Carries more Anywhere (Calculator.named word (n + 1)) (Calculator.named word (m + 1)) c := by
  have harms (negated : Bool) (f : Expr → Expr) :
      Carries more Anywhere (Calculator.statement n >>= fun e => Calculator.arms negated n (f e) [])
        (Calculator.statement m >>= fun e => Calculator.arms negated m (f e) []) c :=
    carries_seq (p.statement c) fun e c' => p.arms negated (f e) [] c'
  rw [Calculator.named, Calculator.named]
  split
  · exact carries_pure
  split
  · exact carries_pure
  split
  · exact carries_pure
  split
  · exact harms false id
  split
  · exact harms true (.unary .not)
  split
  · exact carries_short (p.body _ _ c) (fun inner c' => carries_return carries_expect) fun inner c' => meets_expect_nil
  split
  · exact carries_fail
  split
  · exact carries_fail
  · exact carries_pure

include hm

theorem assignment_succ : Carries more Anywhere (Calculator.assignment (n + 1)) (Calculator.assignment (m + 1)) c := by
  refine carries_rest ?_
  have hchain := p.chain .or c
  rcases hc : c.rest with _ | ⟨token, _ | ⟨next, after⟩⟩
  · rcases hm.eq_nil_or with rfl | ⟨others, rfl⟩ <;> exact hchain
  · rcases hm.eq_nil_or with rfl | ⟨others, rfl⟩ <;> cases token <;> exact hchain
  · cases token with
    | ident name =>
      cases next with
      | symbol s =>
        cases s with
        | assign =>
          show Carries _ _ (if reservedWords.contains name then _ else _) (if reservedWords.contains name then _ else _) _
          split
          · exact carries_fail
          · exact carries_resume (carries_return (p.statement _))
        | _ => exact hchain
      | _ => exact hchain
    | _ => exact hchain

theorem links_succ (t : Tier) (left : Expr) :
    Carries more Anywhere (Calculator.links t (n + 1) left) (Calculator.links t (m + 1) left) c := by
  rw [Calculator.links, Calculator.links]
  refine carries_rest ?_
  rcases hc : c.rest with _ | ⟨token, after⟩
  · rcases hm.eq_nil_or with rfl | ⟨others, rfl⟩ <;> exact carries_pure
  · simp only [List.cons_append]
    split
    · exact carries_pure
    · refine carries_resume (carries_seq carries_descend fun _ c' => ?_)
      exact carries_seq (p.operand t c') fun right c'' => p.links t _ c''

theorem unary_succ : Carries more Anywhere (Calculator.unary (n + 1)) (Calculator.unary (m + 1)) c := by
  refine carries_rest ?_
  rcases hc : c.rest with _ | ⟨token, after⟩
  · rcases hm.eq_nil_or with rfl | ⟨others, rfl⟩ <;> exact p.primary c
  · simp only [List.cons_append]
    split
    · exact p.primary c
    · exact carries_resume (carries_return (carries_nested (p.unary _)))

theorem primary_succ : Carries more Anywhere (Calculator.primary (n + 1)) (Calculator.primary (m + 1)) c := by
  refine carries_rest ?_
  rcases hc : c.rest with _ | ⟨token, after⟩
  · cases more with
    | nil => exact carries_fail
    | cons follow others => exact carries_of_none (List.cons_ne_nil _ _) trivial
  match token with
  | .int _ => exact carries_resume carries_pure
  | .symbol .openRound =>
    refine carries_resume (carries_seq (p.statement _) fun inner c' => ?_)
    exact carries_return carries_expect
  | .symbol .openSquare =>
    refine carries_resume (carries_seq (p.items _ _) fun found c' => ?_)
    exact carries_return carries_expect
  | .ident word => exact carries_resume (p.named word _)
  | .symbol (.op _) | .symbol .bang | .symbol .assign | .symbol .closeRound | .symbol .closeSquare
  | .symbol .comma | .separator => exact carries_fail

theorem items_succ (found : List Expr) :
    Carries more Anywhere (Calculator.items (n + 1) found) (Calculator.items (m + 1) found) c := by
  refine carries_rest ?_
  have hhead : (c.rest ++ more).head? = some (.symbol .closeSquare) ↔ c.rest.head? = some (.symbol .closeSquare) := by
    cases c.rest with
    | nil =>
      rcases hm.eq_nil_or with rfl | ⟨others, rfl⟩
      · exact Iff.rfl
      · exact ⟨nofun, nofun⟩
    | cons token after => exact Iff.rfl
  simp only [hhead]
  split
  · exact carries_pure
  · refine carries_seq (p.statement c) fun item c' => carries_seq (carries_accept hm nofun) fun another c'' => ?_
    split
    · exact p.items _ c''
    · exact carries_pure

theorem arms_succ (negated : Bool) (test : Expr) (found : List (Expr × List Expr)) :
    Carries more Anywhere (Calculator.arms negated (n + 1) test found) (Calculator.arms negated (m + 1) test found)
      c := by
  refine carries_seq (carries_accept hm nofun) fun _ c₁ => carries_short (p.body _ _ c₁) (fun inner c₂ => ?_)
    fun inner c₂ hc => ?_
  · refine carries_seq (carries_accept hm nofun) fun another c₃ => ?_
    split
    · exact carries_seq (p.statement c₃) fun next c₄ => p.arms negated next _ c₄
    · exact carries_short (p.alternative c₃) (fun otherwise c₄ => carries_return carries_expect)
        fun otherwise c₄ => meets_expect_nil
  · -- At the end there is neither another arm nor the word that ends the choice.
    refine meets_accept_nil hc ?_
    rw [if_neg Bool.false_ne_true, meets_bind]
    exact (alternative_nil hc n).mono (fun _ _ hc' => meets_expect_nil hc') fun _ _ _ => trivial

theorem alternative_succ :
    Carries more (ShortOf more) (Calculator.alternative (n + 1)) (Calculator.alternative (m + 1)) c := by
  refine carries_seq (carries_accept hm nofun) fun found c' => ?_
  split
  · exact carries_return (p.body _ _ c')
  · exact carries_pure

theorem body_succ (stop : List String) (found : List Expr) :
    Carries more (ShortOf more) (Calculator.body stop (n + 1) found) (Calculator.body stop (m + 1) found) c := by
  have hat (token : Token) (after : List Token) :
      atWord stop (token :: (after ++ more)) = atWord stop (token :: after) := by
    cases token <;> rfl
  refine carries_skip (fun c' => carries_rest ?_) fun c' hc => ?_
  · rcases hc : c'.rest with _ | ⟨token, after⟩
    · cases more with
      | nil => exact carries_pure
      | cons follow others =>
        refine carries_of_none (List.cons_ne_nil _ _) fun hs => ?_
        exact absurd (hs hc) (List.cons_ne_nil _ _)
    · rw [List.cons_append, hat, List.isEmpty_cons, List.isEmpty_cons]
      split
      · exact carries_pure
      · refine carries_seq (p.statement c') fun e c'' => carries_rest ?_
        rcases c''.rest with _ | ⟨token', after'⟩
        · rcases hm.eq_nil_or with rfl | ⟨others, rfl⟩ <;> exact p.body _ _ c''
        · simp only [List.cons_append, hat]
          split
          · exact p.body _ _ c''
          · exact carries_fail
  · rw [meets_bind, meets_rest, hc]
    exact hc

end Carrying

/-- **Every rule carries on** what it does with fewer calls and with no tokens behind those left. -/
theorem carrying {more : List Token} (hm : Follows more) : ∀ {n m : Nat}, n ≤ m → Carrying more n m
  | 0, _, _ => by constructor <;> intros <;> exact carries_stall
  | n + 1, m + 1, h =>
    let p := carrying hm (Nat.le_of_succ_le_succ h)
    { statement := p.statement_succ
      assignment := p.assignment_succ hm
      chain := fun t c => p.chain_succ c t
      operand := fun t c => p.operand_succ c t
      links := fun t left c => p.links_succ hm c t left
      unary := p.unary_succ hm
      primary := p.primary_succ hm
      items := fun found c => p.items_succ hm c found
      named := fun word c => p.named_succ c word
      arms := fun negated test found c => p.arms_succ hm c negated test found
      alternative := p.alternative_succ hm
      body := fun stop found c => p.body_succ hm c stop found }

end LineShell.Calculator
