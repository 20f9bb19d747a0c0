import LineShell.Calculator.Run
import LineShell.Proofs.Calculator.Subtree
/-!
# Law — what evaluation keeps because each of its steps does

Evaluation reads and binds names and applies operators, one after another.  A property of computations that these steps
have, and that computations one after another keep, is a property of the evaluation of every program
(`Law.evalBody`).
-/
namespace LineShell.Calculator

/-- **How a computation ends**, and the bindings that it leaves. -/
def outcome {α : Type} (x : Evaluation α) (b : Bindings) : Except EvalFault α × Bindings :=
  match x b with
  | .ok a b' => (.ok a, b')
  | .error f b' => (.error f, b')

section Outcome

variable {α β : Type} {b : Bindings}

@[simp] theorem outcome_pure (a : α) : outcome (pure a) b = (.ok a, b) := rfl

/-- **One computation after another** starts from what the first one leaves, unless that failed. -/
theorem outcome_bind (x : Evaluation α) (next : α → Evaluation β) : outcome (x >>= next) b =
    match outcome x b with
    | (.ok a, b') => outcome (next a) b'
    | (.error f, b') => (.error f, b') := by
  simp only [outcome, bind, EStateM.bind]
  cases x b <;> rfl

/-- **Two ways for one computation after another**: the second decides, or the first one fails and so do both. -/
theorem outcome_bind_cases (x : Evaluation α) (next : α → Evaluation β) (b : Bindings) :
    (∃ a b', outcome x b = (.ok a, b') ∧ outcome (x >>= next) b = outcome (next a) b') ∨
      ∃ f b', outcome x b = (.error f, b') ∧ outcome (x >>= next) b = (.error f, b') := by
  rw [outcome_bind]
  rcases outcome x b with ⟨a | f, b'⟩
  · exact .inr ⟨_, b', rfl, rfl⟩
  · exact .inl ⟨_, b', rfl, rfl⟩

@[simp] theorem outcome_get : outcome (get : Evaluation Bindings) b = (.ok b, b) := rfl

@[simp] theorem outcome_settle (r : Except EvalFault Value) : outcome (settle r) b = (r, b) := by cases r <;> rfl

@[simp] theorem outcome_write (name : String) (v : Value) :
    outcome (modify (·.bind name v) : Evaluation Unit) b = (.ok (), b.bind name v) := rfl

theorem outcome_valueOf (name : String) :
    outcome (valueOf name) b = ((b.lookup name).elim (.error (.undefined name)) .ok, b) := by
  rw [valueOf, outcome_bind, outcome_get]
  simp only
  cases b.lookup name <;> rfl

end Outcome

section Run

variable {text : String} {f : ParseFault} {program : List Expr}

/-- **A text that is no program** ends in its fault and changes nothing. -/
theorem run_of_fault (h : parse text = .error f) (session : Session) :
    run text session = (.error f.toError, session) := by
  rw [run, h]

/-- **A program is run** as its statements are evaluated. -/
theorem run_of_parse (h : parse text = .ok program) (session : Session) : run text session =
    ((outcome (evalBody program .nil) session.vars).1.mapError EvalFault.toError,
      { session with vars := (outcome (evalBody program .nil) session.vars).2 }) := by
  simp only [run, h, outcome]
  cases evalBody program .nil session.vars <;> rfl

/-- **A program of one expression** is run as that expression is evaluated. -/
theorem run_of_expression {e : Expr} (h : parse text = .ok [e]) (session : Session) : run text session =
    ((outcome e.eval session.vars).1.mapError EvalFault.toError,
      { session with vars := (outcome e.eval session.vars).2 }) := by
  rw [run_of_parse h, evalBody, outcome_bind]
  rcases outcome e.eval session.vars with ⟨v | f, vars⟩ <;> rfl

end Run

/-- **Expressions whose own names are in use** all. -/
def NamedBy (uses : String → Prop) (es : List Expr) : Prop := ∀ e ∈ es, ∀ name ∈ e.name?, uses name

/-- **A law of evaluation** with some names in use: what the elementary computations obey that read and bind these names
and apply operators, and what computations one after another obey if each of them does. -/
structure Law (uses : String → Prop) (Obeys : ∀ {α : Type}, Evaluation α → Prop) : Prop where
  pure : ∀ {α : Type} (a : α), Obeys (pure a : Evaluation α)
  bind : ∀ {α β : Type} {x : Evaluation α} {next : α → Evaluation β}, Obeys x → (∀ a, Obeys (next a)) →
    Obeys (x >>= next)
  read : ∀ {name}, uses name → Obeys (valueOf name)
  write : ∀ {name} (v : Value), uses name → Obeys (modify (·.bind name v) : Evaluation Unit)
  unary : ∀ (op : UnOp) (v : Value), Obeys (settle (op.apply v))
  /-- The two operators that may leave out their right operand are never applied to values. -/
  binary : ∀ {op : BinOp} (left right : Value), op ≠ .and → op ≠ .or → Obeys (settle (op.apply left right))

section NamedBy

variable {uses : String → Prop} {e : Expr} {es es' : List Expr}

theorem namedBy_cons : NamedBy uses (e :: es) ↔ (∀ name ∈ e.name?, uses name) ∧ NamedBy uses es :=
  List.forall_mem_cons

theorem namedBy_append : NamedBy uses (es ++ es') ↔ NamedBy uses es ∧ NamedBy uses es' := List.forall_mem_append

end NamedBy

namespace Law

variable {uses : String → Prop} {Obeys : ∀ {α : Type}, Evaluation α → Prop}

mutual

theorem eval (law : Law uses Obeys) : ∀ e : Expr, NamedBy uses e.subtrees → Obeys e.eval
  | .lit v, _ => law.pure v
  | .var name, h => law.read ((namedBy_cons.1 h).1 name rfl)
  | .assign name value, h => by
    obtain ⟨hname, hvalue⟩ := namedBy_cons.1 h
    exact law.bind (law.eval value hvalue) fun v => law.bind (law.write v (hname name rfl)) fun _ => law.pure v
  | .array items, h => law.bind (law.evalItems items [] (namedBy_cons.1 h).2) fun _ => law.pure _
  | .unary op operand, h => law.bind (law.eval operand (namedBy_cons.1 h).2) fun v => law.unary op v
  | .binary op left right, h => by
    obtain ⟨hleft, hright⟩ := namedBy_append.1 (namedBy_cons.1 h).2
    have hl := law.eval left hleft
    have hr := law.eval right hright
    cases op with
    | and =>
      refine law.bind hl fun l => ?_
      split
      · exact hr
      · exact law.pure l
    | or =>
      refine law.bind hl fun l => ?_
      split
      · exact law.pure l
      · exact hr
    | _ => exact law.bind hl fun l => law.bind hr fun r => law.binary l r nofun nofun
  | .choice arms none, h => law.evalArms arms _ (namedBy_cons.1 h).2 (law.pure _)
  | .choice arms (some otherwise), h => by
    obtain ⟨harms, hother⟩ := namedBy_append.1 (namedBy_cons.1 h).2
    exact law.evalArms arms _ harms (law.evalBody otherwise .nil hother)
  | .block body, h => law.evalBody body .nil (namedBy_cons.1 h).2

theorem evalItems (law : Law uses Obeys) : ∀ (items : List Expr) (known : List Value),
    NamedBy uses (subtreesAll items) → Obeys (Calculator.evalItems items known)
  | [], _, _ => law.pure _
  | item :: rest, known, h => by
    obtain ⟨hitem, hrest⟩ := namedBy_append.1 h
    exact law.bind (law.eval item hitem) fun v => law.evalItems rest (v :: known) hrest

theorem evalArms (law : Law uses Obeys) : ∀ (arms : List (Expr × List Expr)) (otherwise : Evaluation Value),
    NamedBy uses (subtreesArms arms) → Obeys otherwise → Obeys (Calculator.evalArms arms otherwise)
  | [], _, _, ho => ho
  | (test, body) :: rest, otherwise, h, ho => by
    obtain ⟨htest, h⟩ := namedBy_append.1 h
    obtain ⟨hbody, hrest⟩ := namedBy_append.1 h
    refine law.bind (law.eval test htest) fun v => ?_
    split
    · exact law.evalBody body .nil hbody
    · exact law.evalArms rest otherwise hrest ho

/-- **What the steps of evaluation obey, programs do.** -/
theorem evalBody (law : Law uses Obeys) : ∀ (body : List Expr) (last : Value),
    NamedBy uses (subtreesAll body) → Obeys (Calculator.evalBody body last)
  | [], last, _ => law.pure last
  | e :: rest, _, h => by
    obtain ⟨he, hrest⟩ := namedBy_append.1 h
    exact law.bind (law.eval e he) fun v => law.evalBody rest v hrest

end

end Law

/-! ## Faults -/

section Faults

variable {f : EvalFault}

theorem fault_of_fitting {n : Option Int64} (h : fitting n = .error f) : f = .overflow := by
  cases n with
  | some n => cases h
  | none =>
    cases h
    rfl

theorem kind_eq_integer {v : Value} (h : v.kind = .integer) : ∃ n, v = .int n := by
  match v, h with
  | .int n, _ => exact ⟨n, rfl⟩
  | .bool .true, h | .bool .false, h => cases h

theorem fault_of_unary {op : UnOp} {v : Value} (h : op.apply v = .error f) :
    f = .overflow ∨ f = .noUnary op v.kind ∧ v.kind ≠ .integer := by
  unfold UnOp.apply at h
  split at h
  · cases h
  · exact .inl (fault_of_fitting h)
  · rename_i hv
    cases h
    refine .inr ⟨rfl, fun hk => ?_⟩
    obtain ⟨n, rfl⟩ := kind_eq_integer hk
    exact hv n rfl

/-- **Integers lack the two comparisons for equality and the two operators that may leave out an operand**, if they lack
any. -/
theorem fault_of_onIntegers {op : BinOp} {a b : Int64} (h : op.onIntegers a b = .error f)
    (hop : op ∉ [BinOp.eq, .ne, .and, .or]) : f = .overflow ∨ f = .dividedByZero := by
  cases op with
  | add | sub | mul => exact .inl (fault_of_fitting h)
  | div | rem =>
    simp only [BinOp.onIntegers] at h
    split at h
    · cases h
      exact .inr rfl
    · exact .inl (fault_of_fitting h)
  | lt | le | gt | ge => cases h
  | eq | ne | and | or => exact absurd (by decide) hop

/-- **The four faults of an operator** between values. -/
theorem fault_of_binary {op : BinOp} {l r : Value} (hand : op ≠ .and) (hor : op ≠ .or) (h : op.apply l r = .error f) :
    f = .overflow ∨ f = .dividedByZero ∨ f = .notInteger r.kind ∨ f = .noBinary op l.kind ∧ l.kind ≠ .integer := by
  unfold BinOp.apply at h
  split at h
  · cases h
  · cases h
  · cases h
  · rename_i a b heq hne
    have hop : op ∉ [BinOp.eq, .ne, .and, .or] := by
      simp [hand, hor, show op ≠ .eq from heq, show op ≠ .ne from hne]
    exact (fault_of_onIntegers h hop).imp id .inl
  · cases h
    exact .inr (.inr (.inl rfl))
  · rename_i hint _ _
    cases h
    refine .inr (.inr (.inr ⟨rfl, fun hk => ?_⟩))
    obtain ⟨n, rfl⟩ := kind_eq_integer hk
    exact hint n rfl

end Faults

/-- **A property of faults**: where a name without a value and the operators find only such faults, so do programs. -/
theorem fault_law {uses : String → Prop} {P : EvalFault → Prop} (hread : ∀ name, uses name → P (.undefined name))
    (hunary : ∀ {op : UnOp} {v : Value} {f}, op.apply v = .error f → P f)
    (hbinary : ∀ {op : BinOp} {l r : Value} {f}, op ≠ .and → op ≠ .or → op.apply l r = .error f → P f) :
    Law uses fun x => ∀ b f, (outcome x b).1 = .error f → P f where
  pure a b f h := by cases h
  bind {_ _ x next} hx hnext b f h := by
    have hfirst := hx b
    obtain ⟨a, b', ho, h'⟩ | ⟨f', b', ho, h'⟩ := outcome_bind_cases x next b <;> rw [h'] at h
    · exact hnext a b' f h
    · cases h
      exact hfirst f (by rw [ho])
  read {name} hname b f h := by
    rw [outcome_valueOf] at h
    cases hl : b.lookup name <;> rw [hl] at h <;> cases h
    exact hread name hname
  write v _ b f h := by cases h
  unary op v b f h := by
    rw [outcome_settle] at h
    exact hunary h
  binary l r hand hor b f h := by
    rw [outcome_settle] at h
    exact hbinary hand hor h

end LineShell.Calculator
