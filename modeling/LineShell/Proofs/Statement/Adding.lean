import Mathlib.Algebra.BigOperators.Group.List.Basic
import LineShell.Statement.Pending
import LineShell.Text.Lexeme
/-!
# Adding — the counts of texts put together

Balances are added count by count.  The balance of two texts put together is the sum of theirs where no word goes on
from one into the other, so that the order of whole lines makes no difference to it (`balance_additive`).
-/
namespace LineShell.Statement

open Text (isWordChar wordRuns)

attribute [ext] Tally Balance

namespace Tally

instance : Zero Tally := ⟨⟨0, 0⟩⟩

instance : Add Tally := ⟨fun t t' => ⟨t.opened + t'.opened, t.closed + t'.closed⟩⟩

@[simp] theorem opened_zero : (0 : Tally).opened = 0 := rfl

@[simp] theorem closed_zero : (0 : Tally).closed = 0 := rfl

@[simp] theorem opened_add (t t' : Tally) : (t + t').opened = t.opened + t'.opened := rfl

@[simp] theorem closed_add (t t' : Tally) : (t + t').closed = t.closed + t'.closed := rfl

instance : AddCommMonoid Tally where
  add_assoc _ _ _ := by ext <;> simp [Nat.add_assoc]
  zero_add _ := by ext <;> simp
  add_zero _ := by ext <;> simp
  add_comm _ _ := by ext <;> simp [Nat.add_comm]
  nsmul := nsmulRec

/-- **How many closers are owed**; fewer than none where there are closers to spare. -/
def owed (t : Tally) : Int := t.opened - t.closed

theorem owed_add (t t' : Tally) : (t + t').owed = t.owed + t'.owed := by
  simp only [owed, opened_add, closed_add]
  omega

end Tally

namespace Balance

instance : Zero Balance := ⟨⟨0, fun _ => 0⟩⟩

instance : Add Balance := ⟨fun x y => ⟨x.blocks + y.blocks, fun b => x.brackets b + y.brackets b⟩⟩

@[simp] theorem blocks_zero : (0 : Balance).blocks = 0 := rfl

@[simp] theorem brackets_zero (b : Bracket) : (0 : Balance).brackets b = 0 := rfl

@[simp] theorem blocks_add (x y : Balance) : (x + y).blocks = x.blocks + y.blocks := rfl

@[simp] theorem brackets_add (x y : Balance) (b : Bracket) : (x + y).brackets b = x.brackets b + y.brackets b := rfl

instance : AddCommMonoid Balance where
  add_assoc _ _ _ := by ext <;> simp [Nat.add_assoc]
  zero_add _ := by ext <;> simp
  add_zero _ := by ext <;> simp
  add_comm _ _ := by ext <;> simp [Nat.add_comm]
  nsmul := nsmulRec

end Balance

/-! ### Two texts -/

/-- **No word goes on** from one text into the next: one of them is empty, or one of the two characters that meet is no
word character. -/
def Seam (before after : String) : Prop :=
  ∀ c ∈ before.toList.getLast?, ∀ d ∈ after.toList.head?, isWordChar c = false ∨ isWordChar d = false

/-- **A text that ends with a line feed.** -/
def LineEnded (text : String) : Prop := text.toList.getLast? = some '\n'

theorem LineEnded.seam {before : String} (h : LineEnded before) (after : String) : Seam before after := by
  intro c hc d _
  rw [h] at hc
  cases hc
  exact .inl (Text.isWordChar_of_isBlank (by decide))

theorem wordRuns_append {before after : String} (h : Seam before after) :
    wordRuns (before ++ after).toList = wordRuns before.toList ++ wordRuns after.toList := by
  rw [String.toList_append]
  unfold Seam at h
  generalize before.toList = cs at h ⊢
  generalize after.toList = ds at h ⊢
  cases ds with
  | nil => simp [wordRuns, Text.splitWhere]
  | cons d ds =>
    by_cases hd : isWordChar d = false
    · rw [Text.wordRuns_append_cons cs ds hd, Text.wordRuns_cons_of_not ds hd]
    · -- The text before ends in a character that belongs to no word, if it is not empty.
      rcases List.eq_nil_or_concat cs with rfl | ⟨cs, c, rfl⟩
      · rfl
      · have hc : isWordChar c = false := by simpa [hd] using h
        rw [List.concat_eq_append, List.append_assoc, List.singleton_append, Text.wordRuns_append_cons cs _ hc,
          Text.wordRuns_append_cons cs [] hc, List.append_assoc]
        rfl

theorem ofWords_append (words words' : List String) :
    Balance.ofWords (words ++ words') = Balance.ofWords words + Balance.ofWords words' := by
  ext
  · exact List.countP_append
  · exact List.count_append

theorem brackets_append (before after : String) (b : Bracket) :
    (Balance.of (before ++ after)).brackets b = (Balance.of before + Balance.of after).brackets b := by
  simp only [Balance.of, Balance.brackets_add, Balance.ofBracket, String.toList_append, List.count_append]
  rfl

theorem of_append {before after : String} (h : Seam before after) :
    Balance.of (before ++ after) = Balance.of before + Balance.of after := by
  apply Balance.ext
  · show Balance.ofWords (Text.words (before ++ after)) = _
    rw [Text.words, wordRuns_append h, List.map_append, ofWords_append]
    rfl
  · funext b
    exact brackets_append before after b

theorem of_empty : Balance.of "" = 0 := by
  apply Balance.ext
  · rfl
  · funext b
    rfl

/-! ### Lines -/

theorem of_join : ∀ {chunks : List String}, (∀ chunk ∈ chunks, LineEnded chunk) →
    Balance.of (String.join chunks) = (chunks.map Balance.of).sum
  | [], _ => of_empty
  | chunk :: chunks, h => by
    obtain ⟨hchunk, hchunks⟩ := List.forall_mem_cons.1 h
    rw [String.join_cons, of_append (hchunk.seam _), of_join hchunks, List.map_cons, List.sum_cons]

theorem isComplete_iff_owed {x : Balance} :
    x.isComplete = true ↔ (∀ b, (x.brackets b).owed = 0) ∧ x.blocks.owed ≤ 0 := by
  rw [Balance.isComplete_iff, and_comm]
  simp only [Tally.owed]
  refine and_congr (forall_congr' fun b => ?_) ?_ <;> omega

theorem isComplete_add_iff {x y : Balance} : (x + y).isComplete = true ↔
    (∀ b, -(y.brackets b).owed = (x.brackets b).owed) ∧ x.blocks.owed ≤ -y.blocks.owed := by
  rw [isComplete_iff_owed]
  simp only [Balance.blocks_add, Balance.brackets_add, Tally.owed_add]
  refine and_congr (forall_congr' fun b => ?_) ?_ <;> omega

/-- **The counts of texts add up.** Those of the brackets always do, and those of the words where no word goes on from
one text into the other. So lines may change places; and what is added to lines makes them a complete statement just
when it closes of every kind of bracket as many as are still open, less what it opens itself, and of the blocks as many
or more. -/
theorem balance_additive :
    (∀ before after : String,
      (∀ b, (Balance.of (before ++ after)).brackets b =
          (Balance.of before).brackets b + (Balance.of after).brackets b) ∧
        (Seam before after → Balance.of (before ++ after) = Balance.of before + Balance.of after)) ∧
    (∀ chunks chunks' : List String, (∀ chunk ∈ chunks, LineEnded chunk) → chunks.Perm chunks' →
      Balance.of (String.join chunks') = Balance.of (String.join chunks) ∧
        (Balance.of (String.join chunks')).isComplete = (Balance.of (String.join chunks)).isComplete) ∧
    ∀ (pending : Pending) (chunk : String), LineEnded pending.text →
      ((pending.append chunk).isComplete = true ↔
        (∀ b, -((Balance.of chunk).brackets b).owed = (pending.balance.brackets b).owed) ∧
          pending.balance.blocks.owed ≤ -(Balance.of chunk).blocks.owed) := by
  refine ⟨fun before after => ⟨brackets_append before after, of_append⟩, fun chunks chunks' h hperm => ?_,
    fun pending chunk h => ?_⟩
  · have h' : ∀ chunk ∈ chunks', LineEnded chunk := fun chunk hc => h chunk (hperm.mem_iff.2 hc)
    have hsame : Balance.of (String.join chunks') = Balance.of (String.join chunks) := by
      rw [of_join h', of_join h, (hperm.map Balance.of).sum_eq]
    exact ⟨hsame, congrArg Balance.isComplete hsame⟩
  · show (Balance.of (pending.text ++ chunk)).isComplete = true ↔ _
    rw [of_append (h.seam chunk)]
    exact isComplete_add_iff

/-- **A word cut at a bracket, three lines in another order, and lines made complete with an `end` to spare.** -/
theorem balance_additive_lines :
    let chunks := ["begin\n", "(do\n", "end)\n"]
    let chunks' := ["end)\n", "begin\n", "(do\n"]
    Seam "if(" "éend" ∧ Balance.of ("if(" ++ "éend") = Balance.of "if(" + Balance.of "éend" ∧
      (∀ chunk ∈ chunks, LineEnded chunk) ∧ chunks.Perm chunks' ∧
      Balance.of (String.join chunks') = Balance.of (String.join chunks) ∧
      LineEnded "if [(1]\n" ∧ ((⟨"if [(1]\n"⟩ : Pending).append ")end end").isComplete = true := by
  intro chunks chunks'
  have hseam : Seam "if(" "éend" := by
    rintro c ⟨⟩ d -
    exact .inl (by decide +kernel)
  have hlines : ∀ chunk ∈ chunks, LineEnded chunk := by
    unfold LineEnded
    decide +kernel
  have hperm : chunks.Perm chunks' := by decide +kernel
  have hline : LineEnded "if [(1]\n" := by
    unfold LineEnded
    decide +kernel
  obtain ⟨htwo, hmoved, hpending⟩ := balance_additive
  refine ⟨hseam, (htwo _ _).2 hseam, hlines, hperm, (hmoved chunks chunks' hlines hperm).1, hline, ?_⟩
  refine (hpending ⟨"if [(1]\n"⟩ ")end end" hline).2 ⟨fun b => ?_, by decide +kernel⟩
  cases b <;> decide +kernel

end LineShell.Statement
