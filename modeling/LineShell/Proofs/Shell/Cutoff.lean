import LineShell.Proofs.Shell.Reach
import LineShell.Shell.Script
/-!
# Cutoff — an output that fills up

An output with room for `n` bytes gets the first `n` bytes of what an unlimited one gets (`Output.Cut`).  What a line or
a script does to a conversation does not depend on that; a run ends where the output is full, and what it has done until
then is the beginning of the unlimited run (`run_cut`).
-/
namespace LineShell.Shell

namespace Output

/-- **Pieces written one after the other**, up to the first that does not fit. -/
def putAll : List String → Output → Except StreamFault Unit × Output
  | [], out => (.ok (), out)
  | piece :: pieces, out =>
    match out.put piece with
    | (.ok _, out) => putAll pieces out
    | (.error f, out) => (.error f, out)

/-- **A limited output beside an unlimited one** that the same was put out to. -/
structure Cut (n : Nat) (full cut : Output) : Prop where
  unlimited : full.room = none
  written : cut.written = full.written.extract 0 n
  left : cut.room = some (n - full.written.size)

theorem extract_of_size_le {bytes : ByteArray} {n : Nat} (h : bytes.size ≤ n) : bytes.extract 0 n = bytes := by
  have hmax := @ByteArray.extract_zero_max_size bytes n
  rwa [Nat.max_eq_left h] at hmax

theorem extract_append (a b : ByteArray) (n : Nat) :
    (a ++ b).extract 0 n = a.extract 0 n ++ b.extract 0 (n - a.size) := by
  rw [ByteArray.extract_append, Nat.zero_sub]

theorem put_of_le {out : Output} {n : Nat} {text : String} (h : out.room = some n) (hn : text.toUTF8.size ≤ n) :
    out.put text = (.ok (), ⟨out.written ++ text.toUTF8, some (n - text.toUTF8.size)⟩) := by
  unfold put
  simp only [h]
  rw [if_pos hn]

theorem put_of_lt {out : Output} {n : Nat} {text : String} (h : out.room = some n) (hn : n < text.toUTF8.size) :
    out.put text = (.error .full, ⟨out.written ++ text.toUTF8.extract 0 n, some 0⟩) := by
  unfold put
  simp only [h]
  rw [if_neg (Nat.not_le.2 hn)]

theorem put_append (a b : String) (out : Output) :
    out.put (a ++ b) = match out.put a with
      | (.ok _, out) => out.put b
      | (.error f, out) => (.error f, out) := by
  have hbytes : (a ++ b).toUTF8 = a.toUTF8 ++ b.toUTF8 := String.toByteArray_append
  have hsize : (a ++ b).toUTF8.size = a.toUTF8.size + b.toUTF8.size := by rw [hbytes, ByteArray.size_append]
  cases hr : out.room with
  | none =>
    rw [put_of_unlimited hr, put_of_unlimited hr, hbytes, ← ByteArray.append_assoc]
    exact (put_of_unlimited (show Output.room ⟨out.written ++ a.toUTF8, out.room⟩ = none from hr) b).symm
  | some n =>
    by_cases ha : a.toUTF8.size ≤ n
    · rw [put_of_le hr ha]
      simp only
      by_cases hb : b.toUTF8.size ≤ n - a.toUTF8.size
      · rw [put_of_le hr (by omega), put_of_le rfl hb, hsize, hbytes, ByteArray.append_assoc, Nat.sub_sub]
      · rw [put_of_lt hr (by omega), put_of_lt rfl (by omega), hbytes, extract_append, extract_of_size_le ha,
          ByteArray.append_assoc]
    · have hnone : n - a.toUTF8.size = 0 := by omega
      rw [put_of_lt hr (by omega), put_of_lt hr (by omega), hbytes, extract_append, hnone, ByteArray.extract_same,
        ByteArray.append_empty]

/-- **It makes no difference in how many pieces a text is written.** -/
theorem putAll_eq (pieces : List String) (out : Output) : out.putAll pieces = out.put (String.join pieces) := by
  induction pieces generalizing out with
  | nil =>
    cases hr : out.room with
    | none => rw [String.join_nil, put_of_unlimited hr]; simp [putAll]
    | some n => rw [String.join_nil, put_of_le hr (Nat.zero_le _)]; simp [putAll, ← hr]
  | cons piece pieces ih =>
    rw [String.join_cons, put_append, putAll]
    split
    · exact ih _
    · rfl

variable {n : Nat} {full cut : Output}

theorem cut_start (n : Nat) : Cut n .unlimited (.limited n) :=
  ⟨rfl, (extract_of_size_le (Nat.zero_le n)).symm, rfl⟩

/-- **A line put out to both** goes through where it fits, and both stay beside each other. -/
theorem Cut.putLine (h : Cut n full cut) (text : String) :
    (full.putLine text).1 = .ok () ∧ Cut n (full.putLine text).2 (cut.putLine text).2 ∧
      (cut.putLine text).1 = if n < (full.putLine text).2.written.size then .error .full else .ok () := by
  have hfull : full.putLine text = (.ok (), { full with written := full.written ++ (text ++ "\n").toUTF8 }) :=
    put_of_unlimited h.unlimited _
  have hpos : 0 < (text ++ "\n").toUTF8.size := by
    rw [show (text ++ "\n").toUTF8 = text.toUTF8 ++ "\n".toUTF8 from String.toByteArray_append, ByteArray.size_append]
    exact Nat.succ_pos _
  rw [hfull]
  unfold Output.putLine
  generalize text ++ "\n" = line at hpos
  simp only [ByteArray.size_append]
  refine ⟨trivial, ?_⟩
  by_cases hle : line.toUTF8.size ≤ n - full.written.size
  · have hwhole : (full.written ++ line.toUTF8).size ≤ n := by
      rw [ByteArray.size_append]
      omega
    rw [put_of_le h.left hle, if_neg (by omega)]
    refine ⟨⟨h.unlimited, ?_, ?_⟩, rfl⟩
    · rw [h.written, extract_append, extract_of_size_le hle]
    · simp only [ByteArray.size_append, Nat.sub_sub]
  · rw [put_of_lt h.left (by omega), if_pos (by omega)]
    refine ⟨⟨h.unlimited, ?_, ?_⟩, rfl⟩
    · rw [h.written, extract_append]
    · simp only [ByteArray.size_append, Option.some.injEq]
      omega

theorem exists_put (text : String) (out : Output) : ∃ more, (out.put text).2.written = out.written ++ more := by
  cases hr : out.room with
  | none => exact ⟨_, by rw [put_of_unlimited hr]⟩
  | some n =>
    by_cases hn : text.toUTF8.size ≤ n
    · exact ⟨_, by rw [put_of_le hr hn]⟩
    · exact ⟨_, by rw [put_of_lt hr (Nat.lt_of_not_le hn)]⟩

end Output

def Turn.out {μ τ : Type} : Turn μ τ → Output
  | ended result => result.out
  | again _ out _ => out

/-- **A call on a shell** other than a run. -/
inductive Act where
  | line (text : String)
  | script (text : String)
  | interrupt
  deriving DecidableEq, Repr

namespace Setup

variable {μ : Type} (shell : Setup μ)

def act (so : Conversation μ × Output) : Act → Conversation μ × Output
  | .line text => (shell.step text so.1 so.2).2
  | .script text => ((shell.preload text so.1).2, so.2)
  | .interrupt => (so.1.interrupt, so.2)

variable {n : Nat} {full cut : Output}

theorem step_cut (h : Output.Cut n full cut) (line : String) (c : Conversation μ) :
    (shell.step line c cut).2.1 = (shell.step line c full).2.1 ∧
      Output.Cut n (shell.step line c full).2.2 (shell.step line c cut).2.2 := by
  refine ⟨by rw [step_conversation, step_conversation], ?_⟩
  rw [step_eq, step_eq]
  split
  · exact h
  · exact (h.putLine _).2.1

theorem act_cut {c : Conversation μ} (h : Output.Cut n full cut) (act : Act) :
    (shell.act (c, cut) act).1 = (shell.act (c, full) act).1 ∧
      Output.Cut n (shell.act (c, full) act).2 (shell.act (c, cut) act).2 := by
  cases act with
  | line text =>
    simp only [Setup.act]
    exact shell.step_cut h text c
  | script text => exact ⟨rfl, h⟩
  | interrupt => exact ⟨rfl, h⟩

theorem foldl_act_cut (h : Output.Cut n full cut) (acts : List Act) (c : Conversation μ) :
    (acts.foldl shell.act (c, cut)).1 = (acts.foldl shell.act (c, full)).1 ∧
      Output.Cut n (acts.foldl shell.act (c, full)).2 (acts.foldl shell.act (c, cut)).2 := by
  induction acts generalizing c full cut with
  | nil => exact ⟨rfl, h⟩
  | cons act acts ih =>
    obtain ⟨hsame, hcut⟩ := shell.act_cut (c := c) h act
    have hstart : shell.act (c, cut) act = ((shell.act (c, full) act).1, (shell.act (c, cut) act).2) :=
      Prod.ext hsame rfl
    rw [List.foldl_cons, List.foldl_cons, hstart]
    exact ih hcut _

/-- **What is received on both outputs**, the limited one not full yet: the same, or the limited one is full now. -/
theorem receive_cut (h : Output.Cut n full cut) (hfits : full.written.size ≤ n) (reading : Reading)
    (c : Conversation μ) :
    (shell.receive reading c cut).2.1 = (shell.receive reading c full).2.1 ∧
      Output.Cut n (shell.receive reading c full).2.2 (shell.receive reading c cut).2.2 ∧
      ((shell.receive reading c cut).1 = .error .full ∧ n < (shell.receive reading c full).2.2.written.size ∨
        (shell.receive reading c cut).1 = (shell.receive reading c full).1 ∧
          (shell.receive reading c full).2.2.written.size ≤ n) := by
  cases reading with
  | interrupted => exact ⟨rfl, h, .inr ⟨rfl, hfits⟩⟩
  | endOfInput => exact ⟨rfl, h, .inr ⟨rfl, hfits⟩⟩
  | line text =>
    simp only [receive, step_eq]
    cases ha : shell.answer? text c with
    | none => exact ⟨rfl, h, .inr ⟨rfl, hfits⟩⟩
    | some answer =>
      obtain ⟨hfull, hcut, hwrote⟩ := h.putLine answer
      refine ⟨rfl, hcut, ?_⟩
      simp only [hfull, hwrote]
      by_cases hn : n < (full.putLine answer).2.written.size
      · rw [if_pos hn]
        exact .inl ⟨rfl, hn⟩
      · rw [if_neg hn]
        exact .inr ⟨rfl, Nat.le_of_not_lt hn⟩

theorem exists_receive (reading : Reading) (c : Conversation μ) (out : Output) :
    ∃ more, (shell.receive reading c out).2.2.written = out.written ++ more := by
  cases reading with
  | interrupted => exact ⟨.empty, ByteArray.append_empty.symm⟩
  | endOfInput => exact ⟨.empty, ByteArray.append_empty.symm⟩
  | line text =>
    simp only [receive, step_eq]
    split
    · exact ⟨.empty, ByteArray.append_empty.symm⟩
    · exact Output.exists_put _ out

end Setup

/-- **Scripts that are read equally far**, whatever they have noted. -/
def Script.Alike (s s' : Script) : Prop := ∃ reads, s' = { s with reads }

namespace Script.Alike

variable {s s' : Script}

theorem poll (h : s.Alike s') :
    (source.poll s').1 = (source.poll s).1 ∧ (source.poll s).2.Alike (source.poll s').2 := by
  obtain ⟨reads, rfl⟩ := h
  obtain ⟨events, polls, raised, names, notes⟩ := s
  rcases polls with _ | _ | _ <;> exact ⟨rfl, reads, rfl⟩

theorem sync (h : s.Alike s') (session : Session) : (source.sync session s).Alike (source.sync session s') := by
  obtain ⟨reads, rfl⟩ := h
  exact ⟨reads, rfl⟩

theorem read (h : s.Alike s') (prompt : String) (out out' : Output) : ∃ what t t', t.Alike t' ∧
    source.read prompt out s = (what, out, t) ∧ source.read prompt out' s' = (what, out', t') := by
  obtain ⟨reads, rfl⟩ := h
  exact ⟨(next s.events s.raised).1, _, _, ⟨_, rfl⟩, rfl, rfl⟩

end Script.Alike

namespace Setup

variable {μ : Type} (shell : Setup μ) {n : Nat} {full cut : Output} {s s' : Script}

/-- **A turn over a script** depends neither on the output nor on the notes on the reads before it. -/
theorem turn_alike (h : s.Alike s') (c : Conversation μ) (full cut : Output) :
    (∃ f c' t t', shell.turn Script.source c full s = .ended ⟨.error f, c', full, t⟩ ∧
      shell.turn Script.source c cut s' = .ended ⟨.error f, c', cut, t'⟩) ∨
    ∃ reading c' t t', t.Alike t' ∧ shell.turn Script.source c full s = shell.conclude reading c' full t ∧
      shell.turn Script.source c cut s' = shell.conclude reading c' cut t' := by
  obtain ⟨hbefore, hpolled⟩ := h.poll
  obtain ⟨read, t, t', ht, hread, hread'⟩ := (hpolled.sync (c.heed (Script.source.poll s).1).session).read
    (shell.prompt (c.heed (Script.source.poll s).1)) full cut
  rw [← hbefore] at hread'
  cases read with
  | error f =>
    refine .inl ⟨f, _, t, t', shell.turn_of_fault hread, ?_⟩
    rw [shell.turn_of_fault hread', hbefore]
  | ok reading =>
    obtain ⟨hafter, ht⟩ := ht.poll
    refine .inr ⟨reading, _, _, _, ht, shell.turn_of_read hread, ?_⟩
    rw [shell.turn_of_read hread', hbefore, hafter]

theorem conclude_conversation {τ : Type} (reading : Reading) (c : Conversation μ) (out : Output) (s : τ) :
    (shell.conclude reading c out s).conversation = (shell.receive reading c out).2.1 := by
  unfold conclude
  split <;> rename_i h <;> rw [h] <;> rfl

theorem conclude_out {τ : Type} (reading : Reading) (c : Conversation μ) (out : Output) (s : τ) :
    (shell.conclude reading c out s).out = (shell.receive reading c out).2.2 := by
  unfold conclude
  split <;> rename_i h <;> rw [h] <;> rfl

theorem exists_turn (c : Conversation μ) (out : Output) (s : Script) :
    ∃ more, (shell.turn Script.source c out s).out.written = out.written ++ more := by
  rcases shell.turn_alike ⟨s.reads, rfl⟩ c out out with
    ⟨f, c', t, -, hturn, -⟩ | ⟨reading, c', t, -, -, hturn, -⟩
  · exact ⟨.empty, by rw [hturn, ByteArray.append_empty]; rfl⟩
  · rw [hturn, conclude_out]
    exact shell.exists_receive reading c' out

/-- **A run adds to what its first turn has written.** -/
theorem exists_run (c : Conversation μ) (out : Output) (s : Script) :
    ∃ more, (shell.run Script.source c out s).out.written =
      (shell.turn Script.source c out s).out.written ++ more := by
  cases hturn : shell.turn Script.source c out s with
  | ended result =>
    rw [shell.run_of_ended hturn]
    exact ⟨.empty, ByteArray.append_empty.symm⟩
  | again c' out' s' =>
    obtain ⟨next, hnext⟩ := shell.exists_turn c' out' s'
    obtain ⟨later, hlater⟩ := exists_run c' out' s'
    refine ⟨next ++ later, ?_⟩
    rw [shell.run_of_again hturn, hlater, hnext, ByteArray.append_assoc]
    rfl
termination_by s.events.length
decreasing_by exact left_of_turn hturn

theorem invariant_texts (texts : List String) : shell.recorded.Invariant fun c => texts <:+ c.memory.2 where
  interrupt _ h := h
  opened _ _ h _ := h
  dispatched _ _ h _ := h.trans (List.suffix_cons _ _)

theorem texts_of_turn (c : Conversation (μ × List String)) (out : Output) (s : Script) :
    (shell.recorded.turn Script.source c out s).conversation.memory.2 <:+
      (shell.recorded.run Script.source c out s).conversation.memory.2 := by
  cases hturn : shell.recorded.turn Script.source c out s with
  | ended result =>
    rw [shell.recorded.run_of_ended hturn]
    exact List.suffix_rfl
  | again c' out' s' =>
    rw [shell.recorded.run_of_again hturn]
    exact (shell.invariant_texts c'.memory.2).run List.suffix_rfl Script.source out' s'

end Setup

/-- **A run on an output with room for `n` bytes** beside the run that nothing cuts off. -/
structure Ended.Cut {μ : Type} (n : Nat) (full cut : Ended (μ × List String) Script) : Prop where
  written : cut.out.written = full.out.written.extract 0 n
  texts : cut.conversation.memory.2 <:+ full.conversation.memory.2
  exit : cut.exit = if n < full.out.written.size then .error .full else full.exit
  conversation : n < full.out.written.size ∨ cut.conversation = full.conversation

namespace Setup

variable {μ : Type} (shell : Setup μ) {n : Nat} {full cut : Output} {s s' : Script}

/-- **Runs that end alike**, where the output is not full yet. -/
theorem cut_of_fits {c : Conversation (μ × List String)} {exit : Except StreamFault Exit} {t t' : Script}
    (h : Output.Cut n full cut) (hfits : full.written.size ≤ n) :
    Ended.Cut n ⟨exit, c, full, t⟩ ⟨exit, c, cut, t'⟩ :=
  ⟨h.written, List.suffix_rfl, (if_neg (Nat.not_lt.2 hfits)).symm, .inr rfl⟩

/-- **A run that the full output ends** after a turn, beside the one that goes on. -/
theorem cut_of_full {c c' : Conversation (μ × List String)} {t' : Script}
    (h : Output.Cut n (shell.recorded.turn Script.source c full s).out cut)
    (hlt : n < (shell.recorded.turn Script.source c full s).out.written.size)
    (hc : (shell.recorded.turn Script.source c full s).conversation = c') :
    (shell.recorded.run Script.source c full s).Cut n ⟨.error .full, c', cut, t'⟩ := by
  obtain ⟨more, hmore⟩ := shell.recorded.exists_run c full s
  have hsize : n < (shell.recorded.run Script.source c full s).out.written.size := by
    rw [hmore, ByteArray.size_append]
    omega
  refine ⟨?_, hc ▸ shell.texts_of_turn c full s, (if_pos hsize).symm, .inl hsize⟩
  rw [h.written, hmore, Output.extract_append, Nat.sub_eq_zero_of_le (Nat.le_of_lt hlt), ByteArray.extract_same,
    ByteArray.append_empty]

/-- **A run is cut off where the output is full**, and goes the same way until then. -/
theorem run_cut {full cut : Output} {s s' : Script} (h : Output.Cut n full cut) (hfits : full.written.size ≤ n)
    (hs : s.Alike s') (c : Conversation (μ × List String)) :
    (shell.recorded.run Script.source c full s).Cut n (shell.recorded.run Script.source c cut s') := by
  rcases shell.recorded.turn_alike hs c full cut with
    ⟨f, c', t, t', hfull, hcut⟩ | ⟨reading, c', t, t', ht, hfull, hcut⟩
  · rw [shell.recorded.run_of_ended hfull, shell.recorded.run_of_ended hcut]
    exact cut_of_fits h hfits
  · obtain ⟨hsame, hout, hwent⟩ := shell.recorded.receive_cut h hfits reading c'
    rcases hr : shell.recorded.receive reading c' cut with ⟨went, c₁, cut₁⟩
    rw [conclude, hr] at hcut
    rw [hr] at hsame hout hwent
    rcases hwent with ⟨rfl, hlt⟩ | ⟨hwent, hle⟩
    · rw [shell.recorded.run_of_ended hcut]
      rw [← shell.recorded.conclude_out reading c' full t, ← hfull] at hout hlt
      exact shell.cut_of_full hout hlt (by rw [hfull, conclude_conversation, ← hsame])
    · rcases hr' : shell.recorded.receive reading c' full with ⟨went', c₂, full₁⟩
      rw [conclude, hr'] at hfull
      rw [hr'] at hsame hout hwent hle
      obtain rfl : c₁ = c₂ := hsame
      obtain rfl : went = went' := hwent
      match went, hfull, hcut with
      | .error f, hfull, hcut =>
        rw [shell.recorded.run_of_ended hfull, shell.recorded.run_of_ended hcut]
        exact cut_of_fits hout hle
      | .ok (some exit), hfull, hcut =>
        rw [shell.recorded.run_of_ended hfull, shell.recorded.run_of_ended hcut]
        exact cut_of_fits hout hle
      | .ok none, hfull, hcut =>
        rw [shell.recorded.run_of_again hfull, shell.recorded.run_of_again hcut]
        exact run_cut hout hle ht c₁
termination_by s.events.length
decreasing_by exact left_of_turn hfull

/-- **An output that fills up is a clean cut** and changes nothing that is computed. Whatever calls are made on a shell,
they leave the conversation that they leave with an unlimited output, and an output with room for `n` bytes gets the
first `n` of its bytes. A run ends with a fault exactly where they do not all fit, or as the unlimited run does, and the
evaluator has then been given the first of the texts. In how many pieces a text is written makes no difference. -/
theorem cutoff_clean (n : Nat) (c : Conversation (μ × List String)) :
    (∀ acts : List Act,
      let full := acts.foldl shell.recorded.act (c, .unlimited)
      let cut := acts.foldl shell.recorded.act (c, .limited n)
      cut.1 = full.1 ∧ cut.2.written = full.2.written.extract 0 n) ∧
    (∀ script : Script,
      let full := shell.recorded.run Script.source c .unlimited script
      let cut := shell.recorded.run Script.source c (.limited n) script
      cut.out.written = full.out.written.extract 0 n ∧
        cut.conversation.memory.2.reverse <+: full.conversation.memory.2.reverse ∧
        (cut.exit = if n < full.out.written.size then .error .full else full.exit) ∧
        (n < full.out.written.size ∨ cut.conversation = full.conversation)) ∧
    ∀ (pieces : List String) (out : Output), out.putAll pieces = out.put (String.join pieces) := by
  refine ⟨fun acts => ?_, fun script => ?_, Output.putAll_eq⟩
  · obtain ⟨hsame, hcut⟩ := shell.recorded.foldl_act_cut (Output.cut_start n) acts c
    exact ⟨hsame, hcut.written⟩
  · obtain ⟨hwritten, htexts, hexit, hconversation⟩ :=
      shell.run_cut (Output.cut_start n) (Nat.zero_le n) ⟨script.reads, rfl⟩ c
    exact ⟨hwritten, List.reverse_prefix.2 htexts, hexit, hconversation⟩

end Setup

end LineShell.Shell
