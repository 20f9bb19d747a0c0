import LineShell.Proofs.Calculator.Keywords
import LineShell.Proofs.Calculator.Law
/-!
# Locality — a text is about the names that it mentions

What a text comes to depends on the bindings of the names among its tokens only, and only these can be bound anew, also
where evaluation ends in a fault half way (`run_local`).
-/
namespace LineShell.Calculator

/-- **Bindings that agree** on the names in use. -/
def Agree (uses : String → Prop) (b b' : Bindings) : Prop := ∀ name, uses name → b.lookup name = b'.lookup name

/-- **What is kept of bindings** where only names in use are bound: the other names as they were, and every name that
was bound. -/
structure Kept (uses : String → Prop) (before after : Bindings) : Prop where
  others : ∀ name, ¬uses name → after.lookup name = before.lookup name
  bound : ∀ name, before.lookup name ≠ none → after.lookup name ≠ none

section Steps

variable {uses : String → Prop} {name : String} {b b' b'' : Bindings}

theorem Agree.write (h : Agree uses b b') (name : String) (v : Value) :
    Agree uses (b.bind name v) (b'.bind name v) := by
  intro other ho
  rw [Bindings.lookup_bind, Bindings.lookup_bind, h other ho]

theorem Kept.refl (b : Bindings) : Kept uses b b := ⟨fun _ _ => rfl, fun _ h => h⟩

theorem Kept.trans (h : Kept uses b b') (h' : Kept uses b' b'') : Kept uses b b'' :=
  ⟨fun name hn => (h'.others name hn).trans (h.others name hn), fun name hn => h'.bound name (h.bound name hn)⟩

theorem kept_write (hn : uses name) (b : Bindings) (v : Value) : Kept uses b (b.bind name v) := by
  constructor
  · intro other ho
    rw [Bindings.lookup_bind, if_neg]
    rintro rfl
    exact ho hn
  · intro other ho
    rw [Bindings.lookup_bind]
    split
    · nofun
    · exact ho

/-- **What a computation leaves** has kept what its steps keep. -/
theorem kept_law (uses : String → Prop) : Law uses fun x => ∀ b, Kept uses b (outcome x b).2 where
  pure a b := Kept.refl b
  bind {_ _ x next} hx hnext b := by
    have hfirst := hx b
    obtain ⟨a, b', ho, h⟩ | ⟨f, b', ho, h⟩ := outcome_bind_cases x next b <;> rw [ho] at hfirst <;> rw [h]
    · exact hfirst.trans (hnext a b')
    · exact hfirst
  read _ b := by
    rw [outcome_valueOf]
    exact Kept.refl b
  write v hn b := kept_write hn b v
  unary op v b := by
    rw [outcome_settle]
    exact Kept.refl b
  binary l r _ _ b := by
    rw [outcome_settle]
    exact Kept.refl b

/-- **Computations from bindings that agree** end alike, and what they leave agrees. -/
theorem agree_law (uses : String → Prop) : Law uses fun x => ∀ b b', Agree uses b b' →
    (outcome x b).1 = (outcome x b').1 ∧ Agree uses (outcome x b).2 (outcome x b').2 where
  pure a b b' h := ⟨rfl, h⟩
  bind {_ _ x next} hx hnext b b' h := by
    rw [outcome_bind, outcome_bind]
    obtain ⟨hresult, hleft⟩ := hx b b' h
    cases ho : outcome x b with
    | mk result c =>
      cases ho' : outcome x b' with
      | mk result' c' =>
        rw [ho, ho'] at hresult hleft
        obtain rfl : result = result' := hresult
        cases result with
        | ok a => exact hnext a c c' hleft
        | error f => exact ⟨rfl, hleft⟩
  read {name} hn b b' h := by
    rw [outcome_valueOf, outcome_valueOf, h name hn]
    exact ⟨rfl, h⟩
  write v hn b b' h := ⟨rfl, h.write _ v⟩
  unary op v b b' h := by
    rw [outcome_settle, outcome_settle]
    exact ⟨rfl, h⟩
  binary l r _ _ b b' h := by
    rw [outcome_settle, outcome_settle]
    exact ⟨rfl, h⟩

end Steps

/-- **A text mentions a name** that is among its tokens. -/
def Mentions (text name : String) : Prop := ∃ tokens, scan text = .ok tokens ∧ .ident name ∈ tokens

theorem namedBy_mentions {text : String} {program : List Expr} (h : parse text = .ok program) :
    NamedBy (Mentions text) (subtreesAll program) := by
  obtain ⟨tokens, hscan, hnames⟩ := mem_unreserved_of_parse h
  exact fun e he name hname => ⟨tokens, hscan, (mem_unreserved_iff.1 (hnames e he name hname)).1⟩

/-- **A text is about the names that it mentions.** It leaves the bindings of all other names as they were, unbinds no
name and counts no dispatch; and from two sessions that agree on the names it mentions it comes to one result, with
sessions that agree on them again. -/
theorem run_local (text : String) :
    (∀ session : Session,
      (∀ name, ¬Mentions text name → (run text session).2.vars.lookup name = session.vars.lookup name) ∧
        (∀ name, session.vars.lookup name ≠ none → (run text session).2.vars.lookup name ≠ none) ∧
        (run text session).2.dispatched = session.dispatched) ∧
    ∀ session other : Session,
      (∀ name, Mentions text name → session.vars.lookup name = other.vars.lookup name) →
        (run text session).1 = (run text other).1 ∧
          ∀ name, Mentions text name →
            (run text session).2.vars.lookup name = (run text other).2.vars.lookup name := by
  cases h : parse text with
  | error f =>
    refine ⟨fun session => ?_, fun session other hagree => ?_⟩
    · rw [run_of_fault h]
      exact ⟨fun _ _ => rfl, fun _ hn => hn, rfl⟩
    · rw [run_of_fault h, run_of_fault h]
      exact ⟨rfl, hagree⟩
  | ok program =>
    have hnamed := namedBy_mentions h
    refine ⟨fun session => ?_, fun session other hagree => ?_⟩
    · have hkept := (kept_law (Mentions text)).evalBody program .nil hnamed session.vars
      rw [run_of_parse h]
      exact ⟨hkept.others, hkept.bound, rfl⟩
    · obtain ⟨hresult, hleft⟩ := (agree_law (Mentions text)).evalBody program .nil hnamed _ _ hagree
      rw [run_of_parse h, run_of_parse h, hresult]
      exact ⟨rfl, hleft⟩

/-- **A name bound, a name read and a fault half way**, in two sessions that differ elsewhere. -/
theorem run_local_fault :
    let session : Session := ⟨.ofList [("a", .int 1), ("b", .nil)], 3⟩
    let other : Session := ⟨.ofList [("a", .int 1), ("d", .bool true)], 5⟩
    (¬Mentions "c = a + 1; e" "b" ∧ session.vars.lookup "b" ≠ none ∧
      (run "c = a + 1; e" session).2.vars.lookup "b" = session.vars.lookup "b" ∧
        (run "c = a + 1; e" session).2.vars.lookup "b" ≠ none) ∧
    (∀ name, Mentions "c = a + 1; e" name → session.vars.lookup name = other.vars.lookup name) ∧
      (run "c = a + 1; e" session).1 = (run "c = a + 1; e" other).1 ∧
        ∀ name, Mentions "c = a + 1; e" name →
          (run "c = a + 1; e" session).2.vars.lookup name = (run "c = a + 1; e" other).2.vars.lookup name := by
  intro session other
  have hmentions : ∀ name, Mentions "c = a + 1; e" name → name = "c" ∨ name = "a" ∨ name = "e" := by
    rintro name ⟨tokens, hscan, hname⟩
    have hscan' : scan "c = a + 1; e" =
        .ok [.ident "c", .symbol .assign, .ident "a", .symbol (.op .add), .int 1, .separator, .ident "e"] :=
      scan_of_toOption (by decide +kernel)
    rw [hscan'] at hscan
    cases hscan
    simpa only [List.mem_cons, Token.ident.injEq, reduceCtorEq, false_or, List.not_mem_nil, or_false] using hname
  have hb : ¬Mentions "c = a + 1; e" "b" := fun h => absurd (hmentions _ h) (by decide)
  have hbound : session.vars.lookup "b" ≠ none := by decide +kernel
  have hagree : ∀ name, Mentions "c = a + 1; e" name → session.vars.lookup name = other.vars.lookup name := by
    intro name hname
    rcases hmentions name hname with rfl | rfl | rfl <;> decide +kernel
  obtain ⟨hone, htwo⟩ := run_local "c = a + 1; e"
  obtain ⟨hothers, hkept, -⟩ := hone session
  exact ⟨⟨hb, hbound, hothers "b" hb, hkept "b" hbound⟩, hagree, htwo session other hagree⟩

end LineShell.Calculator
