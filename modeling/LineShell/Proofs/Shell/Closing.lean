import LineShell.Proofs.Shell.Turn
import LineShell.Proofs.Statement.Adding
/-!
# Closing — one line that completes whatever is being typed

Brackets are counted in whatever order, and spare `end`s are let through.  So the closers that a text owes, openers for
the closers to spare, and an `end` for every block left open complete it, all on one line that starts with a space.  A
last mark keeps that line from being the exit command, and so no conversation is ever stuck (`step_closing`).
-/
namespace LineShell.Statement

open Text (OneLine isWordChar wordRuns)

/-- **The brackets that make a tally even**: closers as many as are owed, or openers for the closers to spare. -/
def Bracket.evenOut (b : Bracket) (t : Tally) : List Char :=
  List.replicate t.owed.toNat b.closer ++ List.replicate (-t.owed).toNat b.opener

def evenBrackets (x : Balance) : List Char := Bracket.all.flatMap fun b => b.evenOut (x.brackets b)

/-- **What completes a text of this balance**, on one line. -/
def Balance.closing (x : Balance) : String :=
  " " ++ (String.ofList (evenBrackets x) ++ String.join (List.replicate x.blocks.owed.toNat "end "))

/-- **The counts of what completes a text**: of each bracket what the text owes, and of the blocks too. -/
def Balance.answer (x : Balance) : Balance :=
  ⟨⟨0, x.blocks.owed.toNat⟩, fun b => ⟨(-(x.brackets b).owed).toNat, (x.brackets b).owed.toNat⟩⟩

theorem isComplete_add_answer (x : Balance) : (x + x.answer).isComplete = true := by
  rw [isComplete_add_iff]
  constructor
  · intro b
    show -(((-(x.brackets b).owed).toNat : Int) - ((x.brackets b).owed.toNat : Int)) = _
    omega
  · show _ ≤ -(((0 : Nat) : Int) - (x.blocks.owed.toNat : Int))
    omega

def Wordless (text : String) : Prop := ∀ c ∈ text.toList, isWordChar c = false

section Counts

variable {before after text : String} {x : Balance}

theorem wordless_of_all (h : text.toList.all (fun c => !isWordChar c) = true) : Wordless text := fun c hc => by
  simpa using List.all_eq_true.1 h c hc

theorem Wordless.seam (h : Wordless before) (after : String) : Seam before after := fun c hc _ _ =>
  .inl (h c (List.mem_of_getLast? hc))

theorem Wordless.seam_before (h : Wordless after) (before : String) : Seam before after := fun _ _ d hd =>
  .inr (h d (List.mem_of_head? hd))

theorem seam_space (before after : String) : Seam before (" " ++ after) := by
  intro c _ d hd
  rw [String.toList_append] at hd
  cases hd
  exact .inr (by decide +kernel)

theorem Wordless.blocks (h : Wordless text) : (Balance.of text).blocks = 0 := by
  have hruns : wordRuns text.toList = [] := by
    rw [← List.append_nil text.toList, Text.wordRuns_append_of_not [] h]
    rfl
  show Balance.ofWords ((wordRuns text.toList).map String.ofList) = 0
  rw [hruns]
  rfl

theorem of_mem_evenBrackets {c : Char} (h : c ∈ evenBrackets x) : isWordChar c = false ∧ c ≠ '\n' := by
  obtain ⟨b, -, hc⟩ := List.mem_flatMap.1 h
  rcases List.mem_append.1 hc with hc | hc
  · rw [List.eq_of_mem_replicate hc]
    cases b <;> decide +kernel
  · rw [List.eq_of_mem_replicate hc]
    cases b <;> decide +kernel

theorem count_evenBrackets (x : Balance) (b : Bracket) :
    (evenBrackets x).count b.opener = (-(x.brackets b).owed).toNat ∧
      (evenBrackets x).count b.closer = (x.brackets b).owed.toNat := by
  cases b <;>
    simp [evenBrackets, Bracket.all, Bracket.evenOut, Bracket.opener, Bracket.closer, List.count_replicate]

theorem of_ends : ∀ n : Nat, Balance.of (String.join (List.replicate n "end ")) = ⟨⟨0, n⟩, fun _ => 0⟩
  | 0 => of_empty
  | n + 1 => by
    have hseam : Seam "end " (String.join (List.replicate n "end ")) := by
      rintro c ⟨⟩ d -
      exact .inl (by decide +kernel)
    have hend : (Balance.of "end ").blocks = ⟨0, 1⟩ := by decide +kernel
    rw [List.replicate_succ, String.join_cons, of_append hseam, of_ends n]
    apply Balance.ext
    · rw [Balance.blocks_add, hend]
      ext
      · rfl
      · exact Nat.add_comm 1 n
    · funext b
      cases b <;> rfl

theorem of_closing (x : Balance) : Balance.of x.closing = x.answer := by
  have hbrackets : Wordless (String.ofList (evenBrackets x)) := fun c hc =>
    (of_mem_evenBrackets (String.toList_ofList ▸ hc)).1
  have hspace : Balance.of " " = 0 := by
    apply Balance.ext
    · decide +kernel
    · funext b
      cases b <;> rfl
  rw [Balance.closing, of_append (Wordless.seam (wordless_of_all (by decide +kernel)) _), hspace, zero_add,
    of_append (hbrackets.seam _), of_ends]
  apply Balance.ext
  · rw [Balance.blocks_add, hbrackets.blocks, zero_add]
    rfl
  · funext b
    obtain ⟨hopen, hclose⟩ := count_evenBrackets x b
    have hcounts : (Balance.of (String.ofList (evenBrackets x))).brackets b = x.answer.brackets b := by
      simp only [Balance.of, Balance.ofBracket, String.toList_ofList, hopen, hclose, Balance.answer]
    rw [Balance.brackets_add, hcounts]
    exact add_zero _

/-- **A text is completed** by its closing, whatever text of no words or brackets comes behind. -/
theorem isComplete_closing (text : String) {tail : String} (ht : Wordless tail) (hb : Balance.of tail = 0) :
    (Balance.of (text ++ ((Balance.of text).closing ++ tail))).isComplete = true := by
  have hseam : Seam text ((Balance.of text).closing ++ tail) := by
    rw [Balance.closing, String.append_assoc]
    exact seam_space text _
  rw [of_append hseam, of_append (ht.seam_before _), of_closing, hb, add_zero]
  exact isComplete_add_answer _

theorem oneLine_closing (x : Balance) : OneLine x.closing := by
  have hends : ∀ n : Nat, OneLine (String.join (List.replicate n "end ")) := by
    intro n
    induction n with
    | zero => decide
    | succ n ih =>
      rw [List.replicate_succ, String.join_cons]
      exact OneLine.append (by decide) ih
  refine OneLine.append (by decide) (OneLine.append ?_ (hends _))
  intro hm
  rw [String.toList_ofList] at hm
  exact (of_mem_evenBrackets hm).2 rfl

end Counts

end LineShell.Statement

namespace LineShell.Shell

open Statement (Balance Pending Wordless)
open Text (OneLine)

/-- **The marks to end a line with.** They are in no word, and no brackets. -/
def marks : List Char := [';', ',']

def completing (pending : Pending) (mark : Char) : String := pending.balance.closing ++ String.singleton mark

section Marks

variable {mark : Char}

/-- **A mark counts for nothing**, and neither does the line feed behind it. -/
theorem uncounted_mark (h : mark ∈ marks) :
    Wordless (String.singleton mark ++ "\n") ∧ Balance.of (String.singleton mark ++ "\n") = 0 := by
  have hwordless : Wordless (String.singleton mark ++ "\n") := by
    rcases List.mem_pair.1 h with rfl | rfl <;> exact Statement.wordless_of_all (by decide +kernel)
  refine ⟨hwordless, Balance.ext hwordless.blocks (funext fun b => ?_)⟩
  rcases List.mem_pair.1 h with rfl | rfl <;> cases b <;> decide +kernel

theorem isComplete_completing (pending : Pending) (h : mark ∈ marks) :
    (pending.append (completing pending mark ++ "\n")).isComplete = true := by
  obtain ⟨hwordless, hcounts⟩ := uncounted_mark h
  rw [completing, String.append_assoc]
  exact Statement.isComplete_closing pending.text hwordless hcounts

theorem oneLine_completing (pending : Pending) (h : mark ∈ marks) : OneLine (completing pending mark) := by
  refine (Statement.oneLine_closing _).append ?_
  rcases List.mem_pair.1 h with rfl | rfl <;> decide

theorem getLast?_trim_completing (pending : Pending) (h : mark ∈ marks) :
    (Text.trim (completing pending mark ++ "\n")).toList.getLast? = some mark := by
  have hblank : Text.isBlank mark = false := by
    rcases List.mem_pair.1 h with rfl | rfl <;> decide
  have hlist : (completing pending mark ++ "\n").toList = pending.balance.closing.toList ++ mark :: ['\n'] := by
    simp [completing]
  rw [Text.trim, String.toList_ofList, hlist]
  exact Text.getLast?_trimChars _ hblank (List.forall_mem_singleton.2 (by decide))

/-- **With one of the marks the line is not the exit command.** -/
theorem exists_mark {μ : Type} (shell : Setup μ) (pending : Pending) :
    ∃ mark ∈ marks, shell.isExit (completing pending mark ++ "\n") = false := by
  by_contra hnone
  -- The exit command would end in every one of the marks.
  have hexit : ∀ mark ∈ marks, shell.config.exitCommand.toList.getLast? = some mark := by
    intro mark hm
    have he : shell.isExit (completing pending mark ++ "\n") = true := by
      by_contra hne
      exact hnone ⟨mark, hm, Bool.eq_false_iff.2 hne⟩
    rw [← eq_of_beq he]
    exact getLast?_trim_completing pending hm
  have hsame := (hexit ';' (by decide)).symm.trans (hexit ',' (by decide))
  cases hsame

end Marks

/-- **No conversation is ever stuck.** Whatever is being typed, and whatever the exit command is, there is one line that
completes it: what was typed is dispatched with that line behind it, once, and nothing is left pending. -/
theorem step_closing {μ : Type} (shell : Setup μ) (c : Conversation (μ × List String)) :
    ∃ text, OneLine text ∧ ∀ written, ∃ c' out',
      shell.recorded.step (text ++ "\n") c ⟨written, none⟩ = (.ok .goOn, c', out') ∧ c'.pending = .empty ∧
        c'.memory.2 = (c.pending.text ++ (text ++ "\n")) :: c.memory.2 := by
  obtain ⟨mark, hmark, hexit⟩ := exists_mark shell.recorded c.pending
  refine ⟨completing c.pending mark, oneLine_completing c.pending hmark, fun written => ?_⟩
  have hroom : (Output.mk written none).room = none := rfl
  obtain ⟨out', -, hstep⟩ := shell.recorded.step_of_unlimited (completing c.pending mark ++ "\n") c hroom
  rw [hexit, shell.recorded.hear_of_complete hexit (isComplete_completing c.pending hmark)] at hstep
  obtain ⟨hmemory, hpending⟩ := shell.dispatch_recorded (c.append (completing c.pending mark ++ "\n"))
  exact ⟨_, out', hstep, hpending, hmemory⟩

end LineShell.Shell
