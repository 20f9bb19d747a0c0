import LineShell.Proofs.Calculator.Law
/-!
# Phase — what an error says about where it arose

A text is read as a whole before any of it is evaluated.  The kind and message of an error say in which of the two it
arose, and one of reading has changed nothing (`run_error_phase`).  The integers lack no operator that a program can
apply to them (`receiver_law`).
-/
namespace LineShell.Calculator

/-- **The receiver of an operator that it lacks.** -/
def EvalFault.receiver? : EvalFault → Option Kind
  | noUnary _ receiver | noBinary _ receiver => some receiver
  | _ => none

section Receiver

variable {f : EvalFault}

theorem receiver_of_unary {op : UnOp} {v : Value} (h : op.apply v = .error f) : f.receiver? ≠ some .integer := by
  rcases fault_of_unary h with rfl | ⟨rfl, hk⟩
  · nofun
  · exact fun he => hk (Option.some.inj he)

theorem receiver_of_binary {op : BinOp} {l r : Value} (hand : op ≠ .and) (hor : op ≠ .or)
    (h : op.apply l r = .error f) : f.receiver? ≠ some .integer := by
  rcases fault_of_binary hand hor h with rfl | rfl | rfl | ⟨rfl, hk⟩
  · nofun
  · nofun
  · nofun
  · exact fun he => hk (Option.some.inj he)

/-- **No computation of a program finds that an integer lacks an operator**: equality is for all values, and the two
operators that may leave out their right operand are applied to none. -/
theorem receiver_law :
    Law (fun _ => True) fun x => ∀ b f, (outcome x b).1 = .error f → f.receiver? ≠ some .integer :=
  fault_law (fun _ _ => nofun) receiver_of_unary receiver_of_binary

end Receiver

/-! ## Kinds and messages -/

/-- **An error that says the text is no program.** -/
def OfReading (e : EvalError) : Prop :=
  e.kind ∈ ["SyntaxError", "NotImplementedError", "SystemStackError"] ∨
    e.kind = "RangeError" ∧ ∃ digits, e.message = "integer literal " ++ digits ++ " is too large"

/-- **An error that says a program has no value.** -/
def OfEvaluation (e : EvalError) : Prop :=
  e.kind ∈ ["NameError", "TypeError", "NoMethodError", "ZeroDivisionError"] ∨
    e.kind = "RangeError" ∧ e.message = "integer overflow"

theorem ofReading_toError (f : ParseFault) : OfReading f.toError := by
  cases f with
  | literal digits => exact .inr ⟨rfl, digits, rfl⟩
  | _ => exact .inl (by simp [ParseFault.toError, ParseFault.kind])

theorem ofEvaluation_toError (f : EvalFault) : OfEvaluation f.toError := by
  cases f with
  | overflow => exact .inr ⟨rfl, rfl⟩
  | _ => exact .inl (by simp [EvalFault.toError, EvalFault.kind])

/-- **The two kinds of error are apart**: where they share a name, the messages differ. -/
theorem not_ofEvaluation_of_ofReading {e : EvalError} (h : OfReading e) : ¬OfEvaluation e := by
  intro h'
  have hkinds : ∀ kind ∈ ["SyntaxError", "NotImplementedError", "SystemStackError"],
      kind ∉ ["NameError", "TypeError", "NoMethodError", "ZeroDivisionError"] ∧ kind ≠ "RangeError" := by decide
  have hrange : "RangeError" ∉ ["NameError", "TypeError", "NoMethodError", "ZeroDivisionError"] := by decide
  rcases h with hkind | ⟨hkind, digits, hliteral⟩ <;> rcases h' with hkind' | ⟨hkind', hoverflow⟩
  · exact (hkinds _ hkind).1 hkind'
  · exact (hkinds _ hkind).2 hkind'
  · exact hrange (hkind ▸ hkind')
  · -- The two messages part at their ninth character.
    have hchar := congrArg (fun s => s.toList[8]?) (hliteral.symm.trans hoverflow)
    simp only [String.append_assoc, String.toList_append] at hchar
    rw [List.getElem?_append_left (by decide +kernel)] at hchar
    exact absurd hchar (by decide +kernel)

/-- **A kind of value is what a message ends in**: no other one has the last letter of the integers'. -/
theorem eq_integer_of_append {start start' : String} {k : Kind} (h : start ++ k.name = start' ++ Kind.integer.name) :
    k = .integer := by
  have hlast := congrArg (fun s => s.toList.getLast?) h
  simp only [String.toList_append, List.getLast?_append] at hlast
  cases k with
  | integer => rfl
  | _ => exact absurd hlast (by simp [Kind.name])

/-- **A message about a missing operator** ends in the kind of its receiver. -/
theorem message_of_receiver {f : EvalFault} {k : Kind} (h : f.receiver? = some k) :
    ∃ start, f.message = start ++ k.name := by
  cases f with
  | noUnary op receiver | noBinary op receiver =>
    cases h
    exact ⟨_, rfl⟩
  | _ => cases h

theorem receiver_of_kind {f : EvalFault} (h : f.kind = "NoMethodError") : ∃ k, f.receiver? = some k := by
  cases f with
  | noUnary op receiver | noBinary op receiver => exact ⟨_, rfl⟩
  | _ => exact absurd h (by simp [EvalFault.kind])

/-- **An error says where it arose.** It is one of reading where the text is no program, and then nothing has changed;
it is one of evaluation where the text is a program; and no message says that an integer lacks an operator. -/
theorem run_error_phase {text : String} {session session' : Session} {e : EvalError}
    (h : run text session = (.error e, session')) :
    (OfReading e ↔ ∃ f, parse text = .error f) ∧ (OfReading e → session' = session) ∧
      (OfEvaluation e ↔ ∃ program, parse text = .ok program) ∧
      (e.kind = "NoMethodError" → ∀ start, e.message ≠ start ++ Kind.integer.name) := by
  cases hp : parse text with
  | error f =>
    rw [run_of_fault hp] at h
    cases h
    have hreading := ofReading_toError f
    have hnot := not_ofEvaluation_of_ofReading hreading
    refine ⟨⟨fun _ => ⟨f, rfl⟩, fun _ => hreading⟩, fun _ => rfl, ⟨fun h => absurd h hnot, nofun⟩, fun hkind => ?_⟩
    exact absurd (.inl (by rw [hkind]; decide)) hnot
  | ok program =>
    have hlaw := receiver_law.evalBody program .nil (fun _ _ _ _ => trivial) session.vars
    rw [run_of_parse hp] at h
    cases ho : (outcome (evalBody program .nil) session.vars).1 with
    | ok v =>
      rw [ho] at h
      cases h
    | error f =>
      rw [ho] at h
      cases h
      have hevaluation := ofEvaluation_toError f
      have hnot : ¬OfReading f.toError := fun hr => not_ofEvaluation_of_ofReading hr hevaluation
      refine ⟨⟨fun h => absurd h hnot, nofun⟩, fun h => absurd h hnot, ⟨fun _ => ⟨program, rfl⟩, fun _ => hevaluation⟩,
        fun hkind start hm => ?_⟩
      obtain ⟨k, hk⟩ := receiver_of_kind hkind
      obtain ⟨start', hstart⟩ := message_of_receiver hk
      exact hlaw f ho (eq_integer_of_append (hstart.symm.trans hm) ▸ hk)

/-- **A name bound before an array is found to lack an operator.** -/
theorem run_error_phase_array : ∃ e session', run "x = 2; [x] - 1" (.start .empty) = (.error e, session') ∧
    session' = .start (.ofList [("x", .int 2)]) ∧
    (OfReading e ↔ ∃ f, parse "x = 2; [x] - 1" = .error f) ∧ (OfReading e → session' = .start .empty) ∧
      (OfEvaluation e ↔ ∃ program, parse "x = 2; [x] - 1" = .ok program) ∧
      (e.kind = "NoMethodError" → ∀ start, e.message ≠ start ++ Kind.integer.name) := by
  have hfails : (run "x = 2; [x] - 1" (.start .empty)).1.isOk = false := by decide +kernel
  have hbound : (run "x = 2; [x] - 1" (.start .empty)).2 = .start (.ofList [("x", .int 2)]) := by decide +kernel
  cases h : run "x = 2; [x] - 1" (.start .empty) with
  | mk result session' =>
    rw [h] at hfails hbound
    cases result with
    | ok v => cases hfails
    | error e => exact ⟨e, session', rfl, hbound, run_error_phase h⟩

end LineShell.Calculator
