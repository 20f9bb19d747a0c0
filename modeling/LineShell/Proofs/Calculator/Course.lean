import LineShell.Proofs.Calculator.Locality
import LineShell.Proofs.Calculator.RoundTrip
/-!
# Course — what lasts over texts run one after another

Whatever texts are run, failing ones included, every name bound is the name of a variable (`isVariable_of_course`), and
the name of a variable is a program that reads it (`run_name`).
-/
namespace LineShell.Calculator

/-- **The session after texts run one after another.** One that fails leaves what it bound before it failed. -/
def course (texts : List String) (session : Session) : Session :=
  texts.foldl (fun session text => (run text session).2) session

section Course

variable {text : String} {texts : List String} {session : Session}

/-- **What every run keeps lasts.** -/
theorem course_keeps {P : Session → Prop} (hrun : ∀ text session, P session → P (run text session).2) :
    ∀ (texts : List String) (session : Session), P session → P (course texts session)
  | [], _, h => h
  | text :: texts, session, h => course_keeps hrun texts _ (hrun text session h)

/-- **A session whose names are names of variables.** -/
def NamesVariables (session : Session) : Prop := ∀ name, session.vars.lookup name ≠ none → IsVariable name

theorem namedBy_isVariable {program : List Expr} (h : parse text = .ok program) :
    NamedBy IsVariable (subtreesAll program) := by
  obtain ⟨tokens, hscan, hnames⟩ := mem_unreserved_of_parse h
  intro e he name hname
  obtain ⟨htoken, hreserved⟩ := mem_unreserved_iff.1 (hnames e he name hname)
  exact ⟨isScanned_of_scan hscan _ htoken, hreserved⟩

theorem namesVariables_run (text : String) (session : Session) (hs : NamesVariables session) :
    NamesVariables (run text session).2 := by
  cases h : parse text with
  | error f =>
    rw [run_of_fault h]
    exact hs
  | ok program =>
    have hkept := (kept_law IsVariable).evalBody program .nil (namedBy_isVariable h) session.vars
    rw [run_of_parse h]
    intro name hbound
    by_cases hn : IsVariable name
    · exact hn
    · exact hs name fun hnone => hbound ((hkept.others name hn).trans hnone)

/-- **All names bound are names of variables**, whatever was run. -/
theorem isVariable_of_course {name : String} (h : (course texts (.start .empty)).vars.lookup name ≠ none) :
    IsVariable name :=
  course_keeps namesVariables_run texts (.start .empty) (fun _ h => absurd rfl h) name h

theorem parse_name {name : String} (h : IsVariable name) : parse name = .ok [.var name] := by
  have hname : render [.var name] = name := by
    simp only [render, write, tokensBetween, Expr.tokens, List.map_cons, List.map_nil, Token.written, Token.text,
      String.intercalate_singleton]
  have hparse := parse_render (List.forall_mem_singleton.2 ⟨.var h, by unfold Expr.Fits maxDepth Expr.height; decide⟩)
  rwa [hname] at hparse

/-- **The name of a variable reads it** and changes nothing. -/
theorem run_name {name : String} {v : Value} (h : IsVariable name) (hv : session.vars.lookup name = some v) :
    run name session = (.ok v, session) := by
  have hbody : outcome (evalBody [.var name] .nil) session.vars = (.ok v, session.vars) := by
    simp only [evalBody, Expr.eval, outcome_bind, outcome_valueOf, hv, Option.elim_some, outcome_pure]
  rw [run_of_parse (parse_name h), hbody]
  rfl

end Course

end LineShell.Calculator
