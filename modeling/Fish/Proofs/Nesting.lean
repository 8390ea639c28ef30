import Fish.Proofs.Calls
import Fish.Proofs.Keeping

/-!
Nesting of stacks. An instruction works on the active stack, or opens one above it, or closes
it; the stacks beneath are out of its reach. So a run that does not come down to a stack leaves
it as it is, and an opening bracket and the closing one that leads back to its stack enclose
whatever happens in between.
-/

namespace Fish

namespace Stack

/-- All that a stack holds, a parked value included. -/
def contents (s : Stack) : List Value := s.values ++ s.register.toList

theorem eq_of_pop {s t : Stack} {v : Value} (h : pop s = .ok v t) :
    s = { t with values := v :: t.values } := by
  unfold pop at h
  split at h <;> cases h
  rename_i hvalues
  rw [← hvalues]

theorem eq_of_takeCount {s t : Stack} {n : UInt64} (h : takeCount s = .ok n t) :
    ∃ count : Value, count.toCount? = some n ∧ s = { t with values := count :: t.values } := by
  obtain ⟨v, s₁, hpeek, hrest⟩ := ok_of_bind_ok h
  obtain rfl := looking_peek _ _ _ _ hpeek
  cases hcount : v.toCount? with
  | none =>
    rw [hcount] at hrest
    cases hrest
  | some count =>
    rw [hcount] at hrest
    obtain ⟨_, s₂, hbelow, htake⟩ := ok_of_bind_ok hrest
    obtain rfl := looking_peek _ _ _ _ hbelow
    obtain ⟨w, s₃, hpop, hcounted⟩ := ok_of_bind_ok htake
    cases hcounted
    have heq := eq_of_pop hpop
    rw [heq, peek_zero] at hpeek
    cases hpeek
    exact ⟨v, hcount, heq⟩

end Stack

namespace Stacks

/-- All stacks, the bottom one first. -/
def toList (s : Stacks) : List Stack := (s.active :: s.suspended).reverse

/-- All that the stacks hold, parked values included, from the active stack down. -/
def contents (s : Stacks) : List Value := (s.active :: s.suspended).flatMap Stack.contents

/-- What one instruction can do to the stacks. -/
inductive Change (s : Stacks) : Stacks → Prop
  | worked (active : Stack) : Change s { s with active := active }
  /-- The values above the count stay behind; the register does, too. -/
  | opened {count : Value} {n : UInt64} {upper lower : List Value}
      (hvalues : s.active.values = count :: (upper ++ lower))
      (hcount : count.toCount? = some n) (hupper : upper.length = n.toNat) :
      Change s ⟨⟨upper, none⟩, ⟨lower, s.active.register⟩ :: s.suspended⟩
  | closed {below : Stack} {rest : List Stack} (hsuspended : s.suspended = below :: rest) :
      Change s ⟨{ below with values := s.active.values ++ below.values }, rest⟩

theorem change_of_suspended_eq {s t : Stacks} (h : t.suspended = s.suspended) : Change s t := by
  have heq : t = { s with active := t.active } := by rw [← h]
  rw [heq]
  exact .worked t.active

theorem suspended_onActive {α : Type} {op : StackOp α} {s t : Stacks} {a : α}
    (h : onActive op s = .ok a t) : t.suspended = s.suspended := by
  unfold onActive at h
  split at h <;> cases h
  rfl

/-- The count is on top, and as many values as it says move to a stack of their own. -/
theorem openCounted_ok {s t : Stacks} (h : openCounted s = .ok () t) :
    ∃ (count : Value) (n : UInt64) (upper lower : List Value),
      s.active.values = count :: (upper ++ lower) ∧ count.toCount? = some n ∧
      upper.length = n.toNat ∧
      t = ⟨⟨upper, none⟩, ⟨lower, s.active.register⟩ :: s.suspended⟩ := by
  obtain ⟨n, u, htake, hopen⟩ := ok_of_bind_ok h
  have hactive := onActive_ok htake
  have hsuspended := suspended_onActive htake
  obtain ⟨count, hcount, hvalues⟩ := Stack.eq_of_takeCount hactive
  have hle := Stack.le_size_of_takeCount hactive
  simp only [openStack, Stack.split_of_le hle] at hopen
  cases hopen
  refine ⟨count, n, u.active.values.take n.toNat, u.active.values.drop n.toNat, ?_, hcount, ?_, ?_⟩
  · rw [hvalues, List.take_append_drop]
  · exact List.length_take_of_le hle
  · rw [hvalues, hsuspended]

/-- Only what the register of a closed stack holds is lost. -/
theorem contents_perm_of_closed {s : Stacks} {below : Stack} {rest : List Stack}
    (h : s.suspended = below :: rest) :
    s.contents.Perm (s.active.register.toList ++
      contents ⟨{ below with values := s.active.values ++ below.values }, rest⟩) := by
  simp only [contents, h, List.flatMap_cons, Stack.contents, List.append_assoc]
  exact List.perm_append_comm_assoc _ _ _

theorem closeStack_ok {s t : Stacks} (h : closeStack s = .ok () t) :
    ∃ (below : Stack) (rest : List Stack), s.suspended = below :: rest ∧
      t = ⟨{ below with values := s.active.values ++ below.values }, rest⟩ := by
  unfold closeStack at h
  split at h
  · rename_i below rest hsuspended
    cases h
    exact ⟨below, rest, hsuspended, rfl⟩
  · cases h

end Stacks

theorem StackInstruction.change_perform {instruction : StackInstruction} {s t : Stacks}
    (h : instruction.perform s = .ok () t) : s.Change t := by
  cases instruction with
  | openStack =>
    obtain ⟨count, n, upper, lower, hvalues, hcount, hupper, rfl⟩ := Stacks.openCounted_ok h
    exact .opened hvalues hcount hupper
  | closeStack =>
    obtain ⟨below, rest, hsuspended, rfl⟩ := Stacks.closeStack_ok h
    exact .closed hsuspended
  | _ =>
    unfold perform at h
    exact Stacks.change_of_suspended_eq (Stacks.suspended_onActive h)

namespace State

variable {α : Type}

/-- The suspended stacks are these. -/
def Suspends (suspended : List Stack) (s : State) : Prop := s.memory.suspended = suspended

theorem kept_suspends (box : Codebox) (suspended : List Stack) :
    Kept box (Suspends suspended) where
  active _ _ h := h
  turn _ _ h := h
  jump _ _ _ h := h
  random _ _ h := h
  channel _ _ h := h
  quote _ _ h := h

theorem memory_of_onStacks {op : StacksOp α} {s t : State} {a : α}
    (h : onStacks op s = .ok a t) : op s.memory = .ok a t.memory := by
  unfold onStacks at h
  split at h
  · rename_i hop
    cases h
    exact hop
  · cases h

theorem change_of_keeps {e : Effect α} {s t : State} {a : α}
    (h : Keeps (Suspends s.memory.suspended) e) (hok : e s = .ok a t) : s.memory.Change t.memory :=
  Stacks.change_of_suspended_eq (h s a t hok rfl)

theorem change_perform {box : Codebox} {instruction : Instruction} {s t : State} {flow : Flow}
    (h : perform box instruction s = .ok flow t) : s.memory.Change t.memory := by
  cases instruction with
  | stack instruction =>
    obtain ⟨_, u, hstacks, hreturn⟩ := ok_of_bind_ok h
    cases hreturn
    exact instruction.change_perform (memory_of_onStacks hstacks)
  | _ => exact change_of_keeps ((kept_suspends box _).keeps_perform fun i hi => by cases hi) h

/-- Whatever is executed, the stacks change in one of three ways, if they do. -/
theorem change_execute {box : Codebox} {c : Char} {s t : State} {flow : Flow}
    (h : execute box c s = .ok flow t) : s.memory.Change t.memory := by
  unfold execute at h
  split at h
  · exact change_of_keeps ((kept_suspends box _).keeps_readQuoted _ _) h
  · split at h
    · exact change_perform h
    · cases h

/-- What can befall a state: an instruction is tried on it, over any codebox, or something
happens outside of its stacks. -/
inductive Event : State → State → Prop
  | executed {box : Codebox} {c : Char} {flow : Flow} {s t : State}
      (h : execute box c s = .ok flow t) : Event s t
  | interrupted {box : Codebox} {c : Char} {i : Interrupt} {s t : State}
      (h : execute box c s = .error i t) : Event s t
  | elsewhere {s t : State} (h : t.memory = s.memory) : Event s t

/-- A run of events in which the stacks always satisfy the condition. -/
inductive Run (P : Stacks → Prop) : State → State → Prop
  | start {s : State} (h : P s.memory) : Run P s s
  | next {s t u : State} (hrun : Run P s t) (hevent : Event t u) (h : P u.memory) : Run P s u

theorem change_of_event {s t : State} (h : Event s t) : s.memory.Change t.memory := by
  cases h with
  | executed h => exact change_execute h
  | interrupted h =>
    obtain rfl := atomic_execute _ _ _ _ _ h
    exact Stacks.change_of_suspended_eq rfl
  | elsewhere h => exact Stacks.change_of_suspended_eq (congrArg Stacks.suspended h)

theorem Run.last {P : Stacks → Prop} {s t : State} (h : Run P s t) : P t.memory := by
  cases h with
  | start h => exact h
  | next _ _ h => exact h

end State

namespace Stacks

theorem take_toList {d : Nat} {s : Stacks} (h : d + 1 ≤ s.depth) :
    s.toList.take d = s.suspended.reverse.take d := by
  have hle : d ≤ s.suspended.reverse.length := by
    rw [List.length_reverse]
    exact Nat.le_of_succ_le_succ h
  rw [toList, List.reverse_cons, List.take_append_of_le_length hle]

/-- A stack that lies beneath the active one before and after a change is left alone. -/
theorem take_toList_of_change {d : Nat} {s t : Stacks} (h : s.Change t) (hs : d + 1 ≤ s.depth)
    (ht : d + 1 ≤ t.depth) : t.toList.take d = s.toList.take d := by
  rw [take_toList hs, take_toList ht]
  cases h with
  | worked active => rfl
  | opened hvalues hcount hupper =>
    have hle : d ≤ s.suspended.reverse.length := by
      rw [List.length_reverse]
      exact Nat.le_of_succ_le_succ hs
    rw [List.reverse_cons, List.take_append_of_le_length hle]
  | @closed below rest hsuspended =>
    have hle : d ≤ rest.reverse.length := by
      rw [List.length_reverse]
      exact Nat.le_of_succ_le_succ ht
    rw [hsuspended, List.reverse_cons, List.take_append_of_le_length hle]

end Stacks

namespace State

/-- A run that stays above the `d` lowest stacks leaves them alone. -/
theorem take_toList_of_run {d : Nat} {s t : State} (h : Run (d + 1 ≤ ·.depth) s t) :
    t.memory.toList.take d = s.memory.toList.take d := by
  induction h with
  | start => rfl
  | next hrun hevent hdepth ih =>
    exact (Stacks.take_toList_of_change (change_of_event hevent) hrun.last hdepth).trans ih

theorem openCounted_of_execute {box : Codebox} {s t : State} {flow : Flow} (hquote : s.quote = none)
    (h : execute box '[' s = .ok flow t) : Stacks.openCounted s.memory = .ok () t.memory := by
  have hchar : Instruction.ofChar? '[' = some (.stack .openStack) := by decide
  rw [execute_of_instruction hquote hchar] at h
  obtain ⟨_, u, hstacks, hreturn⟩ := ok_of_bind_ok h
  cases hreturn
  exact memory_of_onStacks hstacks

/-- Between quotation marks nothing is closed. -/
theorem closeStack_of_execute {box : Codebox} {s t : State} {flow : Flow}
    (h : execute box ']' s = .ok flow t) (hdepth : t.memory.depth < s.memory.depth) :
    Stacks.closeStack s.memory = .ok () t.memory := by
  cases hquote : s.quote with
  | none =>
    have hchar : Instruction.ofChar? ']' = some (.stack .closeStack) := by decide
    rw [execute_of_instruction hquote hchar] at h
    obtain ⟨_, u, hstacks, hreturn⟩ := ok_of_bind_ok h
    cases hreturn
    exact memory_of_onStacks hstacks
  | some q =>
    rw [execute_of_quote hquote] at h
    have hsame : t.memory.suspended = s.memory.suspended :=
      (kept_suspends box _).keeps_readQuoted q ']' s flow t h rfl
    rw [Stacks.depth, Stacks.depth, hsame] at hdepth
    exact absurd hdepth (Nat.lt_irrefl _)

/-- The stack under an opened one is still there when the run comes back to it. -/
theorem suspended_of_return {box : Codebox} {s t u : State} {flow : Flow} {below : Stack}
    {suspended : List Stack} (hbelow : s.memory.suspended = below :: suspended)
    (hrun : Run (suspended.length + 1 < ·.depth) s t) (hclose : execute box ']' t = .ok flow u)
    (hdepth : u.memory.depth = suspended.length + 1) :
    t.memory.suspended = below :: suspended ∧
      u.memory = ⟨{ below with values := t.memory.active.values ++ below.values }, suspended⟩ := by
  have hdeeper := hrun.last
  obtain ⟨below', rest, ht, hu⟩ := Stacks.closeStack_ok
    (closeStack_of_execute hclose (hdepth ▸ hdeeper))
  have hrest : rest.length = suspended.length := by
    rw [hu] at hdepth
    exact Nat.succ.inj hdepth
  have hkept := take_toList_of_run (d := suspended.length + 1) hrun
  have hs : suspended.length + 1 + 1 ≤ s.memory.depth := by
    rw [Stacks.depth, hbelow]
    exact Nat.le_refl _
  rw [Stacks.take_toList hdeeper, Stacks.take_toList hs, hbelow, ht] at hkept
  rw [List.take_of_length_le (by simp [hrest]), List.take_of_length_le (by simp),
    List.reverse_inj] at hkept
  obtain ⟨rfl, rfl⟩ := List.cons.inj hkept
  exact ⟨ht, hu⟩

end State

namespace Program

open State

theorem memory_respond {call : Call} (h : call ≠ .advance) (p : Program) :
    (p.respond call).2.state.memory = p.state.memory := by
  obtain ⟨answer, ch, -, hrespond⟩ := respond_of_ne h p
  rw [hrespond]
  rfl

/-- A call to a program is an event, or two where the pointer moves on. -/
theorem run_respond {P : Stacks → Prop} {s : State} {p : Program} (call : Call)
    (hrun : Run P s p.state) (h : P (p.respond call).2.state.memory) :
    Run P s (p.respond call).2.state := by
  by_cases hadvance : call = .advance
  · subst hadvance
    change P p.advance.2.state.memory at h
    change Run P s p.advance.2.state
    have hcycle := p.cycle_advance
    generalize p.advance.2 = q at h hcycle
    generalize p.advance.1 = step at hcycle
    cases hcycle with
    | ended hended hstep => exact hrun
    | waiting hrunning hattempt => exact hrun.next (.interrupted hattempt) h
    | failing hrunning hattempt => exact hrun.next (.interrupted hattempt) h
    | halting hrunning hattempt => exact hrun.next (.executed hattempt) h
    | @going flow u hrunning hattempt hflow =>
      have hfollow : (u.follow p.codebox flow).memory = u.memory := by cases flow <;> rfl
      rw [hfollow] at h
      have hdone := hrun.next (.executed hattempt) h
      exact hdone.next (.elsewhere hfollow) (hfollow.symm ▸ h)
  · exact hrun.next (.elsewhere (memory_respond hadvance p)) h

theorem run_replay {P : Stacks → Prop} {calls : List Call} {s : State} {p : Program}
    (hrun : Run P s p.state)
    (h : ∀ before, before <+: calls → P (p.replay before).2.state.memory) :
    Run P s (p.replay calls).2.state := by
  induction calls generalizing p with
  | nil => exact hrun
  | cons call calls ih =>
    have hfirst := run_respond call hrun (h [call] ⟨calls, rfl⟩)
    refine ih hfirst fun before hbefore => ?_
    exact h (call :: before) (List.cons_prefix_cons.mpr ⟨rfl, hbefore⟩)

end Program

open State in
/-- Suspended stacks are isolated, and brackets nest: what a run never comes down to it leaves as it
is, and a closing bracket puts what became of the values moved up on those that stayed behind. -/
theorem suspended_stacks_isolated :
    (∀ (d : Nat) (s t : State), Run (d + 1 ≤ ·.depth) s t →
      t.memory.toList.take d = s.memory.toList.take d) ∧
    (∀ (box : Codebox) (s t : State) (flow : Flow), s.quote = none →
      execute box '[' s = .ok flow t →
      ∃ (lower upper : List Value) (count : Value) (n : UInt64),
        s.memory.active.toList = lower ++ upper ++ [count] ∧ count.toCount? = some n ∧
        upper.length = n.toNat ∧ t.memory.active = .ofList upper ∧
        t.memory.depth = s.memory.depth + 1 ∧
        ∀ (box' : Codebox) (u v : State) (flow' : Flow),
          Run (s.memory.depth < ·.depth) t u → execute box' ']' u = .ok flow' v →
          v.memory.depth = s.memory.depth →
          v.memory.active.toList = lower ++ u.memory.active.toList ∧
          v.memory.active.register = s.memory.active.register ∧
          v.memory.suspended = s.memory.suspended ∧
          u.memory.contents.Perm
            (u.memory.active.register.toList ++ v.memory.contents)) ∧
    (∀ (P : Stacks → Prop) (p : Program) (calls : List Call),
      (∀ before, before <+: calls → P (p.replay before).2.state.memory) →
      Run P p.state (p.replay calls).2.state) := by
  refine ⟨fun d s t hrun => take_toList_of_run hrun, ?_, ?_⟩
  · intro box s t flow hquote hopen
    obtain ⟨count, n, upper, lower, hvalues, hcount, hupper, ht⟩ :=
      Stacks.openCounted_ok (openCounted_of_execute hquote hopen)
    refine ⟨lower.reverse, upper.reverse, count, n, ?_, hcount, ?_, ?_, ?_, ?_⟩
    · rw [Stack.toList, hvalues, List.reverse_cons, List.reverse_append]
    · rw [List.length_reverse, hupper]
    · rw [ht, Stack.ofList, List.reverse_reverse]
    · rw [ht]
      rfl
    · intro box' u v flow' hrun hclose hdepth
      have hbelow : t.memory.suspended =
          ⟨lower, s.memory.active.register⟩ :: s.memory.suspended := by rw [ht]
      obtain ⟨hu, hv⟩ := suspended_of_return hbelow hrun hclose hdepth
      refine ⟨?_, ?_, ?_, ?_⟩
      · rw [hv, Stack.toList, List.reverse_append]
        rfl
      · rw [hv]
      · rw [hv]
      · rw [hv]
        exact Stacks.contents_perm_of_closed hu
  · intro P p calls h
    exact Program.run_replay (.start (h [] (List.nil_prefix))) h

open State in
/-- A stack with a parked value is suspended; another value is parked above it, and lost. -/
theorem suspended_stacks_isolated_parked :
    let before : Stacks := ⟨⟨[.int 2, .int 3, .int 2, .int 1], some (.int 5)⟩, []⟩
    let inner : Stacks := ⟨⟨[.int 2, .int 3], some (.int 4)⟩, [⟨[.int 1], some (.int 5)⟩]⟩
    let after : Stacks := ⟨⟨[.int 2, .int 3, .int 1], some (.int 5)⟩, []⟩
    ∃ (p : Program) (s v : State), s.memory = before ∧
      execute p.codebox '[' s = .ok .next p.state ∧
      (p.replay (.replicate 3 .advance)).2.state.memory = inner ∧
      execute p.codebox ']' (p.replay (.replicate 3 .advance)).2.state = .ok .next v ∧
      v.memory = after ∧ v.memory.active.register = s.memory.active.register ∧
      inner.toList.take 1 = p.state.memory.toList.take 1 ∧
      inner.contents.Perm (inner.active.register.toList ++ v.memory.contents) := by
  intro before inner after
  obtain ⟨hisolated, hbrackets, hhistories⟩ := suspended_stacks_isolated
  let opened : Stacks := ⟨⟨[.int 3, .int 2], none⟩, [⟨[.int 1], some (.int 5)⟩]⟩
  let state (memory : Stacks) : State := { memory := memory, random := .ofSeed 0 }
  let p : Program := { codebox := .ofSource "4&r", state := state opened }
  have hopen : execute p.codebox '[' (state before) = .ok .next p.state := rfl
  have hdeeper : ∀ n < 4,
      1 < (p.replay (.replicate n .advance)).2.state.memory.depth := by decide
  have hrun := hhistories (1 < ·.depth) p (.replicate 3 .advance) fun calls hcalls => by
    obtain ⟨hlength, heq⟩ := List.prefix_replicate_iff.mp hcalls
    rw [heq]
    exact hdeeper _ (Nat.lt_succ_of_le hlength)
  have hinner : (p.replay (.replicate 3 .advance)).2.state.memory = inner := by decide
  have hquote : (p.replay (.replicate 3 .advance)).2.state.quote = none := by decide
  refine ⟨p, state before, ?_⟩
  generalize (p.replay (.replicate 3 .advance)).2.state = u at hrun hinner hquote ⊢
  obtain ⟨pointer, memory, channel, quote, random⟩ := u
  subst hinner hquote
  have hclose : execute p.codebox ']' ⟨pointer, inner, channel, none, random⟩ =
      .ok .next ⟨pointer, after, channel, none, random⟩ := rfl
  have hkept := hisolated 1 _ _ hrun
  obtain ⟨lower, upper, count, n, -, -, -, -, -, hreturn⟩ := hbrackets _ _ _ _ rfl hopen
  obtain ⟨-, hregister, -, hlost⟩ := hreturn _ _ _ _ hrun hclose rfl
  exact ⟨_, rfl, hopen, rfl, hclose, rfl, hregister, hkept, hlost⟩

end Fish
