import LineShell.Proofs.Calculator.Blame
import LineShell.Proofs.Calculator.Course
import LineShell.Shell.Loop
/-!
# Wording — every reply is one line

Messages quote characters, tokens and names of the text, and none of these has a line feed in it; nor has the text of a
value.  So whatever is evaluated, and in whatever session, the reply is one line (`oneLine_reply`).
-/
namespace LineShell

open Text (OneLine)

theorem oneLine_of_isDigit {text : String} (h : ∀ c ∈ text.toList, c.isDigit = true) : OneLine text :=
  fun hfeed => nomatch h _ hfeed

theorem oneLine_int (n : Int) : OneLine (toString n) := by
  have hnat (k : Nat) : OneLine k.repr := oneLine_of_isDigit fun c hc => by
    rw [Nat.toList_repr] at hc
    exact Nat.isDigit_of_mem_toDigits (by decide) (by decide) hc
  cases n with
  | ofNat k => exact hnat k
  | negSucc k => exact .append (by decide) (hnat (k + 1))

namespace Value

mutual

theorem oneLine_write : ∀ (v : Value) {before : String}, OneLine before → OneLine (v.write before)
  | nil, _, h | bool .true, _, h | bool .false, _, h | array [], _, h => h.append (by decide)
  | int n, _, h => h.append (oneLine_int n.toInt)
  | array (item :: items), _, h => oneLine_writeMore items (oneLine_write item (h.append (by decide)))

theorem oneLine_writeMore : ∀ (items : List Value) {before : String}, OneLine before → OneLine (writeMore before items)
  | [], _, h => h.append (by decide)
  | item :: items, _, h => oneLine_writeMore items (oneLine_write item (h.append (by decide)))

end

/-- **The text of a value** is on one line. -/
theorem oneLine_text (v : Value) : OneLine v.text := v.oneLine_write (by decide)

end Value

theorem Kind.oneLine_name (k : Kind) : OneLine k.name := by cases k <;> decide

namespace Calculator

theorem BinOp.oneLine_text (op : BinOp) : OneLine op.text := by cases op <;> decide

theorem UnOp.oneLine_text (op : UnOp) : OneLine op.text := by cases op <;> decide

theorem oneLine_of_isName {name : String} (h : isName name = true) : OneLine name := by
  obtain ⟨c, cs, hname, hc, hcs⟩ := exists_of_isName h
  have hfeed : Text.isWordChar '\n' = false := by decide +kernel
  intro hmem
  rw [hname] at hmem
  rcases List.mem_cons.1 hmem with rfl | hmem
  · exact absurd (isWordChar_of_start hc) (ne_true_of_eq_false hfeed)
  · exact absurd (List.all_eq_true.1 hcs _ hmem) (ne_true_of_eq_false hfeed)

theorem Token.oneLine_text {token : Token} (h : token.IsScanned) : OneLine token.text := by
  cases token with
  | int n => exact oneLine_int n.toInt
  | ident name => exact oneLine_of_isName h
  | symbol s =>
    cases s with
    | op o => exact o.oneLine_text
    | _ => exact of_decide_eq_true rfl
  | separator => exact of_decide_eq_true rfl

theorem ParseFault.oneLine_kind (f : ParseFault) : OneLine f.kind := by
  unfold kind
  split <;> decide

theorem EvalFault.oneLine_kind (f : EvalFault) : OneLine f.kind := by
  unfold kind
  split <;> decide

section Parse

variable {text : String} {tokens : List Token} {f : ParseFault}

/-- **A message that blames tokens** is on one line if their texts are. -/
theorem ParseFault.Blames.oneLine_message (h : f.Blames tokens) (ht : ∀ token ∈ tokens, OneLine token.text) :
    OneLine f.message := by
  have hquote : OneLine "unexpected '" ∧ OneLine "', expecting '" ∧ OneLine "'" := by decide +kernel
  obtain ⟨hopen, hwant, hclose⟩ := hquote
  cases f with
  | stray c | literal digits => exact h.elim
  | unexpected found => exact .append (hopen.append (ht found h)) hclose
  | unexpectedEnd | tooDeep => decide +kernel
  | reserved name => exact .append (by decide +kernel) (ht (.ident name) h)
  | unsupported name => exact .append (hclose.append (ht (.ident name) h)) (by decide +kernel)
  | expected wanted found =>
    obtain ⟨hwanted, hfound⟩ := h
    have hwanted : OneLine wanted := (by decide : ∀ wanted ∈ [")", "]", "end"], OneLine wanted) wanted hwanted
    cases found with
    | none => exact .append (.append (by decide +kernel) hwanted) hclose
    | some token => exact .append (.append (.append (hopen.append (ht token (hfound token rfl))) hwant) hwanted) hclose

/-- **A text that is no program** is said so on one line. -/
theorem oneLine_of_parse (h : parse text = .error f) : OneLine f.message := by
  rcases parse_eq_error_iff.1 h with hscan | ⟨tokens, hscan, hparse⟩
  · rcases stray_or_literal_of_scanFrom hscan with ⟨c, rfl, hc⟩ | ⟨digits, rfl, hdigits⟩
    · have hc : OneLine c.toString := by simpa [OneLine] using hc.symm
      exact .append (.append (by decide +kernel) hc) (by decide +kernel)
    · exact .append (.append (by decide +kernel) (oneLine_of_isDigit hdigits)) (by decide +kernel)
  · have hscanned := isScanned_of_scan hscan
    exact (blames_of_parseTokens hparse).oneLine_message fun token ht => Token.oneLine_text (hscanned token ht)

end Parse

section Evaluation

variable {f : EvalFault}

/-- **A fault whose name is in use**, if it has one. -/
def EvalFault.Names (uses : String → Prop) : EvalFault → Prop
  | undefined name => uses name
  | _ => True

variable {uses : String → Prop}

theorem names_of_unary {op : UnOp} {v : Value} (h : op.apply v = .error f) : f.Names uses := by
  rcases fault_of_unary h with rfl | ⟨rfl, -⟩ <;> trivial

theorem names_of_binary {op : BinOp} {l r : Value} (hand : op ≠ .and) (hor : op ≠ .or)
    (h : op.apply l r = .error f) : f.Names uses := by
  rcases fault_of_binary hand hor h with rfl | rfl | rfl | ⟨rfl, -⟩ <;> trivial

theorem EvalFault.Names.oneLine_message (h : f.Names IsVariable) : OneLine f.message := by
  cases f with
  | undefined name => exact .append (.append (by decide +kernel) (oneLine_of_isName h.1)) (by decide +kernel)
  | overflow | dividedByZero => decide +kernel
  | notInteger k => exact k.oneLine_name.append (by decide +kernel)
  | noUnary op k | noBinary op k =>
    exact .append (.append (.append (by decide +kernel) op.oneLine_text) (by decide +kernel)) k.oneLine_name

/-- **What a program has no value for** is said on one line. -/
theorem oneLine_of_evalBody {text : String} {program : List Expr} {b : Bindings} (h : parse text = .ok program)
    (hf : (outcome (evalBody program .nil) b).1 = .error f) : OneLine f.message := by
  have hlaw : Law IsVariable fun x => ∀ b f, (outcome x b).1 = .error f → f.Names IsVariable :=
    fault_law (fun _ h => h) names_of_unary names_of_binary
  exact (hlaw.evalBody program .nil (namedBy_isVariable h) b f hf).oneLine_message

end Evaluation

/-- **Every reply is one line**, whatever the text and whatever the session. -/
theorem oneLine_reply (text : String) (session : Session) : OneLine (Shell.Setup.reply (run text session).1) := by
  have herror {kind message : String} (hk : OneLine kind) (hm : OneLine message) :
      OneLine (EvalError.text ⟨kind, message⟩) := .append (hk.append (by decide)) hm
  cases hp : parse text with
  | error f =>
    rw [run_of_fault hp]
    exact herror f.oneLine_kind (oneLine_of_parse hp)
  | ok program =>
    rw [run_of_parse hp]
    cases ho : (outcome (evalBody program .nil) session.vars).1 with
    | ok v => exact v.oneLine_text
    | error f => exact herror f.oneLine_kind (oneLine_of_evalBody hp ho)

end Calculator

end LineShell
