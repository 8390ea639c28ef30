import Fish.Proofs.Calls

/-!
Emission of output. What was read, and behind it what is still unread, is what the program has
written, instruction by instruction, and no instruction that writes writes nothing. Nothing else
depends on when the output is read, or on how often.
-/

namespace Fish

namespace Value

theorem repr_ne_empty (n : Nat) : n.repr ≠ "" := by
  rw [Nat.repr_eq_ofList_toDigits, Ne, String.ofList_eq_empty_iff]
  exact Nat.toDigits_ne_nil

theorem positional_ne_empty (n : Nat) (exponent : Int) : Decimal.positional n exponent ≠ "" := by
  intro h
  cases exponent with
  | ofNat e =>
    have hlist := String.ofList_eq_empty_iff.mp h
    exact Nat.toDigits_ne_nil (List.append_eq_nil_iff.mp hlist).1
  | negSucc e =>
    have hlist := String.ofList_eq_empty_iff.mp h
    exact List.cons_ne_nil _ _ (List.append_eq_nil_iff.mp hlist).2

theorem floatText_ne_empty (x : Float) : Decimal.floatText x ≠ "" := by
  unfold Decimal.floatText
  cases Binary64.ofFloat? x with
  | none =>
    dsimp only
    split
    · decide
    · split <;> decide
  | some b =>
    dsimp only
    split
    · exact fun h => absurd (String.append_eq_empty_iff.mp h).2 (by decide)
    · exact fun h => positional_ne_empty _ _ (String.append_eq_empty_iff.mp h).2

/-- Every value has something to show. -/
theorem text_ne_empty (v : Value) : v.text ≠ "" := by
  cases v with
  | float x => exact floatText_ne_empty x
  | int n =>
    rw [text]
    cases n.toInt with
    | ofNat m => exact repr_ne_empty m
    | negSucc m => exact fun h => absurd (String.append_eq_empty_iff.mp h).1 (by decide)

end Value

theorem Channel.output_of_receive {ch rest : Channel} {received : Received}
    (h : ch.receive = .ok received rest) : rest.output = ch.output := by
  unfold receive at h
  split at h
  · cases h
    rfl
  · split at h <;> cases h
    rfl

def Answer.text? : Answer → Option String
  | text output => some output
  | _ => none

/-- All that was read, put together. -/
def readIn (answers : List Answer) : String := String.join (answers.filterMap Answer.text?)

namespace Program

/-- The text of the instruction for output that the next cycle does, if it does one: the value
that lies on top, or the character that it stands for. -/
def emitted (p : Program) : Option String :=
  if p.advance.1 = .progressed then
    match p.instruction? with
    | some .writeNumber => p.state.memory.active.top?.map Value.text
    | some .writeChar => (p.state.memory.active.top?.bind Value.toChar?).map String.singleton
    | _ => none
  else none

/-- The texts that the cycles among the calls have written, in order. -/
def emittedIn (calls : List Call) (p : Program) : List String :=
  (advanced calls p).filterMap emitted

theorem join_emittedIn_advance (calls : List Call) (p : Program) :
    String.join (emittedIn (.advance :: calls) p) =
      p.emitted.getD "" ++ String.join (emittedIn calls p.advance.2) := by
  rw [emittedIn, advanced_advance, List.filterMap_cons]
  cases p.emitted with
  | none => exact String.empty_append.symm
  | some text => exact String.join_cons

theorem emittedIn_of_ne {call : Call} (h : call ≠ .advance) (calls : List Call) (p : Program) :
    emittedIn (call :: calls) p = emittedIn calls (p.respond call).2 := by
  rw [emittedIn, advanced_of_ne h]
  rfl

theorem emitted_ne_empty {p : Program} {text : String} (h : p.emitted = some text) :
    text ≠ "" := by
  unfold emitted at h
  split at h
  · split at h
    · obtain ⟨v, -, rfl⟩ := Option.map_eq_some_iff.mp h
      exact v.text_ne_empty
    · obtain ⟨c, -, rfl⟩ := Option.map_eq_some_iff.mp h
      exact String.singleton_ne_empty
    · cases h
  · cases h

theorem attempt_of_instruction {p : Program} {instruction : Instruction}
    (h : p.instruction? = some instruction) :
    p.termination = none ∧ p.attempt = State.perform p.codebox instruction p.state := by
  unfold instruction? at h
  split at h
  · rename_i hrunning
    exact ⟨hrunning.1, State.execute_of_instruction hrunning.2 h p.codebox⟩
  · cases h

theorem written_of_instruction {p : Program} {instruction : Instruction}
    (h : p.instruction? = some instruction) : p.written = p.state.written instruction := by
  unfold instruction? at h
  split at h
  · rename_i hrunning
    simp only [written, hrunning.1, State.writtenBy, hrunning.2, h]
  · cases h

theorem written_of_no_instruction {p : Program} (h : p.instruction? = none) : p.written = "" := by
  unfold instruction? at h
  unfold written State.writtenBy
  split
  · rfl
  · rename_i hrunning
    split
    · rename_i hquote hinstruction
      rw [if_pos ⟨hrunning, hquote⟩, hinstruction] at h
      cases h
    · rfl

/-- An instruction for output that finds a value fit for it is done. -/
theorem progressed_of_writeNumber {p : Program} {v : Value}
    (h : p.instruction? = some .writeNumber) (htop : p.state.memory.active.top? = some v) :
    p.advance.1 = .progressed := by
  obtain ⟨hrunning, hattempt⟩ := attempt_of_instruction h
  have hpop : State.onStack Stack.pop p.state = _ := State.onStack_eq _ _
  rw [Stack.pop_eq, htop] at hpop
  rw [advance_of_running hrunning, hattempt, State.perform, bind_of_ok hpop]
  rfl

theorem progressed_of_writeChar {p : Program} {c : Char}
    (h : p.instruction? = some .writeChar)
    (htop : p.state.memory.active.top?.bind Value.toChar? = some c) :
    p.advance.1 = .progressed := by
  obtain ⟨hrunning, hattempt⟩ := attempt_of_instruction h
  obtain ⟨v, hv, hc⟩ := Option.bind_eq_some_iff.mp htop
  have htake : State.onStack Stack.takeChar p.state = _ := State.onStack_eq _ _
  rw [Stack.takeChar_eq, hv] at htake
  simp only [hc] at htake
  rw [advance_of_running hrunning, hattempt, State.perform, bind_of_ok htake]
  rfl

/-- What a cycle writes is the text of its instruction, and nothing if there is none or it is
not done. -/
theorem emitted_getD (p : Program) : p.emitted.getD "" = p.written := by
  unfold emitted
  cases hinstruction : p.instruction? with
  | none =>
    rw [written_of_no_instruction hinstruction]
    split <;> rfl
  | some instruction =>
    rw [written_of_instruction hinstruction]
    cases instruction with
    | writeNumber =>
      cases htop : p.state.memory.active.top? with
      | none =>
        simp only [State.written, htop, Option.map_none]
        split <;> rfl
      | some v =>
        rw [if_pos (progressed_of_writeNumber hinstruction htop)]
        simp only [State.written, htop]
    | writeChar =>
      cases htop : p.state.memory.active.top?.bind Value.toChar? with
      | none =>
        simp only [State.written, htop, Option.map_none]
        split <;> rfl
      | some c =>
        rw [if_pos (progressed_of_writeChar hinstruction htop)]
        simp only [State.written, htop]
    | _ =>
      simp only [State.written]
      split <;> rfl

theorem output_advance (p : Program) :
    p.advance.2.output = p.output ++ p.emitted.getD "" := by
  rw [emitted_getD]
  by_cases h : p.AtRead
  · have hadvance : p.advance = _ := advance_reading h p.state.channel
    have hwritten : p.written = "" := written_of_instruction (p.atRead_iff.mp h)
    rw [hadvance, hwritten, String.append_empty]
    cases hreceive : p.state.channel.receive with
    | ok received rest => exact Channel.output_of_receive hreceive
    | error e rest =>
      obtain ⟨-, -, rfl⟩ := (Channel.receive_eq_error_iff _ _ _).mp hreceive
      rfl
  · obtain ⟨step, q, -, hwrite⟩ := advance_writing h
    have hadvance : p.advance = _ := hwrite p.state.channel
    rw [hadvance]
    rfl

/-- Of the calls that neither advance nor read, none has to do with output. -/
theorem output_respond {call : Call} (hadvance : call ≠ .advance) (hread : call ≠ .read)
    (p : Program) : (p.respond call).2.output = p.output ∧ (p.respond call).1.text? = none := by
  have htext : ∀ text, call = .give text ∨ call = .feed text →
      (p.respond call).2.output = p.output ∧ (p.respond call).1.text? = none := by
    intro text hcall
    rcases p.respond_text hcall with hrespond | ⟨refusal, hrespond⟩
    · rw [hrespond]
      exact ⟨rfl, rfl⟩
    · rw [hrespond]
      exact ⟨rfl, rfl⟩
  cases call with
  | advance => exact absurd rfl hadvance
  | read => exact absurd rfl hread
  | close => exact ⟨rfl, rfl⟩
  | give text => exact htext text (.inl rfl)
  | feed text => exact htext text (.inr rfl)

theorem readIn_cons (answer : Answer) (answers : List Answer) :
    readIn (answer :: answers) = answer.text?.getD "" ++ readIn answers := by
  rw [readIn, List.filterMap_cons]
  cases answer.text? with
  | none => exact String.empty_append.symm
  | some text => exact String.join_cons

theorem getD_respond_read (p : Program) : (p.respond .read).1.text?.getD "" = p.output := by
  rw [respond_read]
  by_cases h : p.output.isEmpty = true
  · rw [if_pos h, String.isEmpty_iff.mp h]
    rfl
  · rw [if_neg h]
    rfl

/-- What was read and what is still unread is what was unread at first and what was written. -/
theorem read_emitted (calls : List Call) (p : Program) :
    readIn (p.replay calls).1 ++ (p.replay calls).2.output =
      p.output ++ String.join (emittedIn calls p) := by
  induction calls generalizing p with
  | nil => exact String.empty_append.trans String.append_empty.symm
  | cons call calls ih =>
    rw [replay_cons, readIn_cons, String.append_assoc, ih]
    by_cases hadvance : call = .advance
    · subst hadvance
      have houtput : (p.respond .advance).2.output = p.output ++ p.emitted.getD "" :=
        p.output_advance
      rw [join_emittedIn_advance, houtput, String.append_assoc]
      exact String.empty_append
    · rw [emittedIn_of_ne hadvance]
      by_cases hread : call = .read
      · subst hread
        rw [getD_respond_read, respond_read]
        exact congrArg (p.output ++ ·) String.empty_append
      · obtain ⟨houtput, htext⟩ := output_respond hadvance hread p
        rw [houtput, htext]
        exact String.empty_append

theorem emittedIn_nonempty {calls : List Call} {p : Program} {text : String}
    (h : text ∈ emittedIn calls p) : text ≠ "" := by
  obtain ⟨q, -, hq⟩ := List.mem_filterMap.mp h
  exact emitted_ne_empty hq

theorem join_eq_empty {texts : List String} (h : ∀ text ∈ texts, text ≠ "") :
    String.join texts = "" ↔ texts = [] := by
  cases texts with
  | nil => exact iff_of_true rfl rfl
  | cons text texts =>
    refine iff_of_false ?_ (List.cons_ne_nil text texts)
    rw [String.join_cons, String.append_eq_empty_iff]
    exact fun hempty => h text List.mem_cons_self hempty.1

theorem readIn_of_no_read {calls : List Call} (h : .read ∉ calls) (p : Program) :
    readIn (p.replay calls).1 = "" := by
  induction calls generalizing p with
  | nil => rfl
  | cons call calls ih =>
    rw [List.mem_cons, not_or] at h
    have htext : (p.respond call).1.text? = none := by
      by_cases hadvance : call = .advance
      · rw [hadvance]
        rfl
      · exact (output_respond hadvance (Ne.symm h.1) p).2
    rw [replay_cons, readIn_cons, htext, ih h.2]
    rfl

/-- After a history at whose end nothing is unread, and calls that read nothing, there is
something to read if and only if these have written. -/
theorem noOutput_iff {calls : List Call} {p : Program} (hempty : p.output = "")
    (h : .read ∉ calls) :
    ((p.replay calls).2.respond .read).1 = .noOutput ↔ emittedIn calls p = [] := by
  have hconserved := read_emitted calls p
  rw [readIn_of_no_read h, hempty, String.empty_append, String.empty_append] at hconserved
  rw [respond_read, hconserved, ← join_eq_empty fun text => emittedIn_nonempty]
  by_cases hjoin : String.join (emittedIn calls p) = ""
  · rw [hjoin]
    exact iff_of_true rfl rfl
  · refine iff_of_false ?_ hjoin
    rw [if_neg (by simpa [String.isEmpty_iff] using hjoin)]
    exact fun h => by cases h

theorem output_of_read_last {calls : List Call} (h : calls.getLast? = some .read) (p : Program) :
    (p.replay calls).2.output = "" := by
  obtain ⟨before, rfl⟩ := List.getLast?_eq_some_iff.mp h
  rw [replay_append]
  change ((p.replay before).2.respond .read).2.output = ""
  rw [respond_read]
  rfl

theorem advance_drained (p : Program) :
    p.drained.advance.1 = p.advance.1 ∧ p.drained.advance.2.drained = p.advance.2.drained := by
  have hprepend := p.drained.advance_prepend p.output
  rw [drained_prepend_output] at hprepend
  rw [hprepend]
  exact ⟨rfl, rfl⟩

/-- A call that does not read does the same whether or not the output was read before. -/
theorem respond_drained {call : Call} (h : call ≠ .read) (p : Program) :
    (p.drained.respond call).1 = (p.respond call).1 ∧
      (p.drained.respond call).2.drained = (p.respond call).2.drained := by
  cases call with
  | read => exact absurd rfl h
  | close => exact ⟨rfl, rfl⟩
  | advance =>
    obtain ⟨hstep, hnext⟩ := p.advance_drained
    exact ⟨congrArg Answer.step hstep, hnext⟩
  | give text =>
    have hclosed : p.drained.state.channel.closed = p.state.channel.closed := rfl
    rw [respond, respond, give_eq, give_eq, hclosed]
    split
    · exact ⟨rfl, rfl⟩
    · split
      · exact ⟨rfl, rfl⟩
      · exact ⟨rfl, rfl⟩
  | feed text =>
    have hclosed : p.drained.state.channel.closed = p.state.channel.closed := rfl
    rw [respond, respond, feed_eq, feed_eq, hclosed]
    split
    · exact ⟨rfl, rfl⟩
    · exact ⟨rfl, rfl⟩

/-- Two programs that are the same but for their output answer alike, and stay so. -/
theorem respond_of_drained_eq {p q : Program} (h : p.drained = q.drained) {call : Call}
    (hread : call ≠ .read) :
    (p.respond call).1 = (q.respond call).1 ∧
      (p.respond call).2.drained = (q.respond call).2.drained := by
  obtain ⟨hp, hp'⟩ := p.respond_drained hread
  obtain ⟨hq, hq'⟩ := q.respond_drained hread
  rw [← hp, ← hp', h]
  exact ⟨hq, hq'⟩

/-- Without its reads a history goes the same way. -/
theorem replay_without_reads (calls : List Call) {p q : Program} (h : p.drained = q.drained) :
    (p.transcript calls).filter (·.1 ≠ .read) = q.transcript (calls.filter (· ≠ .read)) ∧
      (p.replay calls).2.drained = (q.replay (calls.filter (· ≠ .read))).2.drained := by
  induction calls generalizing p q with
  | nil => exact ⟨rfl, h⟩
  | cons call calls ih =>
    by_cases hread : call = .read
    · subst hread
      have hsame : (p.respond .read).2.drained = q.drained := by
        rw [respond_read]
        exact h
      rw [transcript_cons, replay_cons, List.filter_cons_of_neg (by simp),
        List.filter_cons_of_neg (by simp)]
      exact ih hsame
    · obtain ⟨hanswer, hnext⟩ := respond_of_drained_eq h hread
      obtain ⟨htranscript, hlast⟩ := ih hnext
      rw [transcript_cons, replay_cons, List.filter_cons_of_pos (by simpa using hread),
        List.filter_cons_of_pos (by simpa using hread), transcript_cons, replay_cons]
      exact ⟨by rw [hanswer, htranscript], hlast⟩

end Program

open Program in
/-- No output is lost or doubled, and a program does not notice when it is read. -/
theorem output_kept (source : String) (values : List Value) (seed : UInt64) :
    let p := load source values seed
    (∀ calls, readIn (p.replay calls).1 ++ (p.replay calls).2.output =
      String.join (emittedIn calls p)) ∧
    (∀ before calls, before = [] ∨ before.getLast? = some .read → .read ∉ calls →
      (((p.replay (before ++ calls)).2.respond .read).1 = .noOutput ↔
        emittedIn calls (p.replay before).2 = [])) ∧
    (∀ calls calls', calls.filter (· ≠ .read) = calls'.filter (· ≠ .read) →
      (p.transcript calls).filter (·.1 ≠ .read) = (p.transcript calls').filter (·.1 ≠ .read) ∧
      (p.replay calls).2.drained = (p.replay calls').2.drained) := by
  intro p
  refine ⟨fun calls => ?_, fun before calls hbefore hcalls => ?_, fun calls calls' hcalls => ?_⟩
  · rw [read_emitted]
    exact String.empty_append
  · have hempty : (p.replay before).2.output = "" := by
      rcases hbefore with rfl | hlast
      · rfl
      · exact output_of_read_last hlast p
    rw [replay_append]
    exact noOutput_iff hempty hcalls
  · obtain ⟨htranscript, hlast⟩ := replay_without_reads calls (rfl : p.drained = p.drained)
    obtain ⟨htranscript', hlast'⟩ := replay_without_reads calls' (rfl : p.drained = p.drained)
    rw [htranscript, htranscript', hlast, hlast', hcalls]
    exact ⟨rfl, rfl⟩

open Program in
/-- A character and a number are written, and then one character too many. Of the reads in
between the last finds nothing. -/
theorem output_kept_reads :
    let before : List Call := [.advance, .read, .advance, .advance, .advance, .read]
    let calls : List Call := [.advance, .advance]
    let p := load "\"a\"o3no" [] 0
    emittedIn (before ++ calls) p = ["a", "3"] ∧
      readIn (p.replay (before ++ calls)).1 ++ (p.replay (before ++ calls)).2.output = "a3" ∧
      ((p.replay (before ++ calls)).2.respond .read).1 ≠ .noOutput ∧
      ((p.replay (before ++ calls ++ [.read] ++ [.advance])).2.respond .read).1 = .noOutput ∧
      (p.replay (before ++ calls)).2.drained =
        (p.replay (List.replicate 6 .advance)).2.drained := by
  intro before calls
  obtain ⟨hkept, hnone, hsame⟩ := output_kept "\"a\"o3no" [] 0
  have hemitted : emittedIn (before ++ calls) (load "\"a\"o3no" [] 0) = ["a", "3"] := by decide
  have hjoin : String.join ["a", "3"] = "a3" := by decide
  have hwritten : emittedIn calls ((load "\"a\"o3no" [] 0).replay before).2 ≠ [] := by decide
  have hfailed : emittedIn [.advance]
      ((load "\"a\"o3no" [] 0).replay (before ++ calls ++ [.read])).2 = [] := by decide
  have hfirst := hnone before calls (Or.inr rfl) (by decide)
  have hsecond := hnone (before ++ calls ++ [.read]) [.advance] (Or.inr rfl) (by decide)
  have hlast := hsame (before ++ calls) (List.replicate 6 .advance) (by decide)
  refine ⟨hemitted, ?_, fun hread => hwritten (hfirst.mp hread), hsecond.mpr hfailed, hlast.2⟩
  exact (hkept (before ++ calls)).trans ((congrArg String.join hemitted).trans hjoin)

end Fish
