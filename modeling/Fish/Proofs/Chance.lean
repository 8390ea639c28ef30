import Fish.Proofs.Framing
import Fish.Proofs.Symbols

/-!
Chance. A program draws from its generator where a random turn is dispatched and nowhere else, and
with another generator it does the same between these turns. So the seed plays no part in a run up
to the first of them; and whatever else is done, the turns of a run take the directions that the
generator of its seed gives, one after the other.
-/

namespace Fish

namespace Random

/-- The generator after so many directions were drawn. -/
def after : Nat → Random → Random
  | 0, r => r
  | draws + 1, r => after draws r.quarter.2

/-- The direction drawn after so many others. -/
def drawn (draws : Nat) (r : Random) : Direction := .ofIndex (r.after draws).quarter.1

end Random

namespace Instruction

theorem eq_of_ofChar?_turnRandomly {c : Char} (h : ofChar? c = some .turnRandomly) : c = 'x' := by
  rcases symbol?_of_ofChar? h with hsymbol | ⟨hblank, -⟩
  · exact (Option.some.inj hsymbol).symm
  · cases hblank

end Instruction

namespace State

variable {random : Random}

/-- Whatever is executed does the same with another generator, unless it is a random turn. -/
theorem framedAt_execute_of_ne (box : Codebox) {c : Char} {s : State}
    (h : s.quote = none → c ≠ 'x') :
    FramedAt (reframe id fun _ => random) (Interrupt.IsFault fun _ => False) (execute box c) s := by
  have hblind : ∀ {α : Type} (op : StacksOp α), Framed id (fun _ => False) op := by
    intro α op s
    simp only [FramedAt, id_eq, false_or]
    cases op s <;> rfl
  apply OperandsFramed.framedAt_execute ⟨hblind _, fun v => hblind _, hblind _, hblind _⟩
  · intro i _ _
    exact hblind _ s.memory
  · intro hquote hturn
    exact absurd (Instruction.eq_of_ofChar?_turnRandomly hturn) (h hquote)

theorem turnRandomly_eq (s : State) :
    turnRandomly s = .ok ⟨⟩ { s with
      pointer := s.pointer.turn (s.random.drawn 0)
      random := s.random.after 1 } := by
  rw [turnRandomly, modify_apply, Random.drawn, Random.after, Random.after]
  generalize s.random.quarter = draw
  rfl

end State

namespace Program

/-- The program with another generator. -/
def withRandom (random : Random) (p : Program) : Program :=
  { p with state := { p.state with random := random } }

/-- The next cycle is for a random turn. -/
def AtChance (p : Program) : Prop :=
  p.termination = none ∧ p.state.quote = none ∧ p.state.current p.codebox = 'x'

instance (p : Program) : Decidable p.AtChance := inferInstanceAs (Decidable (_ ∧ _))

/-- The programs that have met a random turn in the course of the calls, in order. -/
def chances (calls : List Call) (p : Program) : List Program :=
  (advanced calls p).filter (·.AtChance)

theorem chances_of_ne {call : Call} (h : call ≠ .advance) (calls : List Call) (p : Program) :
    chances (call :: calls) p = chances calls (p.respond call).2 := by
  rw [chances, advanced_of_ne h]
  rfl

variable {p : Program}

theorem chances_of_atChance (h : p.AtChance) (calls : List Call) :
    chances (.advance :: calls) p = p :: chances calls p.advance.2 := by
  rw [chances, advanced_advance, List.filter_cons_of_pos (by simpa using h)]
  rfl

theorem chances_of_not_atChance (h : ¬ p.AtChance) (calls : List Call) :
    chances (.advance :: calls) p = chances calls p.advance.2 := by
  rw [chances, advanced_advance, List.filter_cons_of_neg (by simpa using h)]
  rfl

/-- A random turn takes the direction that is drawn next, and leaves the generator after it. -/
theorem advance_of_atChance (h : p.AtChance) :
    p.advance.1 = .progressed ∧
      p.advance.2.state.pointer.direction = p.state.random.drawn 0 ∧
      p.advance.2.state.random = p.state.random.after 1 := by
  obtain ⟨hrunning, hquote, hx⟩ := h
  have hturn : Instruction.ofChar? (p.state.current p.codebox) = some .turnRandomly := by
    rw [hx]
    rfl
  have hattempt : p.attempt = State.perform p.codebox .turnRandomly p.state :=
    State.execute_of_instruction hquote hturn p.codebox
  rw [advance_of_running hrunning, hattempt, State.perform, bind_of_ok (State.turnRandomly_eq _)]
  exact ⟨rfl, rfl, rfl⟩

/-- Where there is no random turn, a cycle is the same with another generator. -/
theorem advance_withRandom (h : ¬ p.AtChance) (random : Random) :
    (p.withRandom random).advance = (p.advance.1, p.advance.2.withRandom random) := by
  apply advance_reframe id (fun _ => random) fun _ => False
  · intro hrunning
    apply State.framedAt_execute_of_ne
    intro hquote hx
    exact h ⟨hrunning, hquote, hx⟩
  · intro fault _ hfalse
    exact hfalse

/-- Where there is no random turn, a cycle leaves the generator as it is. -/
theorem random_advance (h : ¬ p.AtChance) : p.advance.2.state.random = p.state.random := by
  have hsame := advance_withRandom h p.state.random
  have hnext : p.advance.2 = p.advance.2.withRandom p.state.random := congrArg Prod.snd hsame
  rw [hnext]
  rfl

theorem offChannel_withRandom (random : Random) : OffChannel (withRandom random) :=
  ⟨fun _ => rfl, fun _ _ => rfl⟩

theorem random_respond {call : Call} (h : call ≠ .advance) (p : Program) :
    (p.respond call).2.state.random = p.state.random := by
  obtain ⟨answer, ch, -, hrespond⟩ := respond_of_ne h p
  rw [hrespond]
  rfl

/-- Calls that meet no random turn meet none with another generator, and are answered alike. -/
theorem replay_withRandom {calls : List Call} (h : chances calls p = []) (random : Random) :
    chances calls (p.withRandom random) = [] ∧
      (p.withRandom random).replay calls =
        ((p.replay calls).1, (p.replay calls).2.withRandom random) := by
  have hnone : ∀ q ∈ advanced calls p, ¬ q.AtChance := by
    simpa [chances, List.filter_eq_nil_iff] using h
  obtain ⟨hreplay, hmet⟩ := (offChannel_withRandom random).replay fun q hq =>
    advance_withRandom (hnone q hq) random
  refine ⟨?_, hreplay⟩
  rw [chances, hmet, List.filter_map]
  exact congrArg (List.map _) h

/-- The generator has drawn once for each random turn. -/
theorem random_replay (calls : List Call) (p : Program) :
    (p.replay calls).2.state.random = p.state.random.after (chances calls p).length := by
  induction calls generalizing p with
  | nil => rfl
  | cons call calls ih =>
    rw [replay_cons, ih]
    by_cases hadvance : call = .advance
    · subst hadvance
      by_cases hchance : p.AtChance
      · obtain ⟨-, -, hrandom⟩ := advance_of_atChance hchance
        rw [chances_of_atChance hchance, List.length_cons, respond, hrandom]
        rfl
      · rw [chances_of_not_atChance hchance, respond, random_advance hchance]
    · rw [chances_of_ne hadvance, random_respond hadvance]

/-- The random turns take the directions of the generator in order. -/
theorem direction_of_chance {calls : List Call} {k : Nat} {q : Program}
    (h : (chances calls p)[k]? = some q) :
    q.advance.1 = .progressed ∧
      q.advance.2.state.pointer.direction = p.state.random.drawn k := by
  induction calls generalizing p k with
  | nil => simp [chances, advanced] at h
  | cons call calls ih =>
    by_cases hadvance : call = .advance
    · subst hadvance
      by_cases hchance : p.AtChance
      · rw [chances_of_atChance hchance] at h
        obtain ⟨hstep, hdirection, hrandom⟩ := advance_of_atChance hchance
        rcases k with _ | k
        · obtain rfl : p = q := by simpa using h
          exact ⟨hstep, hdirection⟩
        · have hrest := ih (p := p.advance.2) (by simpa using h)
          rwa [hrandom] at hrest
      · rw [chances_of_not_atChance hchance] at h
        rw [← random_advance hchance]
        exact ih h
    · rw [chances_of_ne hadvance] at h
      rw [← random_respond hadvance p]
      exact ih h

theorem load_withRandom (source : String) (values : List Value) (seed seed' : UInt64) :
    (load source values seed).withRandom (.ofSeed seed') = load source values seed' := by
  simp only [withRandom, load, State.initial]

end Program

open Program in
/-- The seed shows in random turns only, and these take the directions that its generator gives, in
order, whatever is done in between. -/
theorem seed_shows_in_turns (source : String) (values : List Value) (seed : UInt64)
    (calls : List Call) :
    let p := load source values seed
    (chances calls p = [] → ∀ seed',
      chances calls (load source values seed') = [] ∧
        (load source values seed').replay calls =
          ((p.replay calls).1, (p.replay calls).2.withRandom (.ofSeed seed'))) ∧
    (∀ k q, (chances calls p)[k]? = some q →
      q.advance.1 = .progressed ∧
        q.advance.2.state.pointer.direction = (Random.ofSeed seed).drawn k) ∧
    (p.replay calls).2.state.random = (Random.ofSeed seed).after (chances calls p).length := by
  intro p
  have hseed : p.state.random = Random.ofSeed seed := by simp only [p, load, State.initial]
  rw [← hseed]
  refine ⟨fun hnone seed' => ?_, fun k q hq => direction_of_chance hq, random_replay calls p⟩
  rw [← load_withRandom source values seed seed']
  exact replay_withRandom hnone (.ofSeed seed')

open Program in
/-- The letter is pushed, the program waits and reads, and then it turns up and down where it
stands. -/
theorem seed_shows_in_turns_upDown :
    let calls : List Call := .replicate 4 .advance ++ [.give "a", .advance]
    let more := calls ++ [.advance, .read, .advance]
    let p := load "\"x\"ix" [] 1
    chances calls p = [] ∧
      stepsOf ((load "\"x\"ix" [] 0).replay calls).1 =
        [.progressed, .progressed, .progressed, .blocked, .progressed] ∧
      ∃ q r, (chances more p)[0]? = some q ∧ (chances more p)[1]? = some r ∧
        q.advance.2.state.pointer.direction = .up ∧
        r.advance.2.state.pointer.direction = .down := by
  intro calls more p
  have hnone : chances calls p = [] := by decide
  have hboth : 1 < (chances more p).length := by decide
  have hsteps : stepsOf (p.replay calls).1 =
      [.progressed, .progressed, .progressed, .blocked, .progressed] := by decide
  obtain ⟨hsame, -, -⟩ := seed_shows_in_turns "\"x\"ix" [] 1 calls
  obtain ⟨-, hturns, -⟩ := seed_shows_in_turns "\"x\"ix" [] 1 more
  have hfirst := List.getElem?_eq_getElem (Nat.lt_of_succ_lt hboth)
  have hsecond := List.getElem?_eq_getElem hboth
  refine ⟨hnone, ?_, _, _, hfirst, hsecond, ?_, ?_⟩
  · simp only [(hsame hnone 0).2]
    exact hsteps
  · rw [(hturns 0 _ hfirst).2]
    decide
  · rw [(hturns 1 _ hsecond).2]
    decide

end Fish
