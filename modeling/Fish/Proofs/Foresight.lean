import Fish.Proofs.PlainLoop

/-!
Foresight: a program that already holds the input still to come. Wherever the other need not
wait, it does the same, cycle by cycle and over whole loops.
-/

namespace Fish

namespace Channel

/-- The channel that already holds what is still to come. -/
def foresee (rest : List Char) (closed : Bool) (ch : Channel) : Channel :=
  { ch with pending := ch.pending ++ rest, closed := closed }

theorem foresee_emit (rest : List Char) (closed : Bool) (text : String) (ch : Channel) :
    (ch.emit text).foresee rest closed = (ch.foresee rest closed).emit text := rfl

/-- A reader that gets something gets the same from the channel that holds more, unless it
has come to an end that is none. -/
theorem receive_foresee {rest : List Char} {closed : Bool} {ch ch' : Channel}
    {received : Received} (hend : ch.closed = true → rest = [] ∧ closed = true)
    (h : ch.receive = .ok received ch') :
    (ch.foresee rest closed).receive = .ok received (ch'.foresee rest closed) := by
  obtain ⟨pending, isClosed, output⟩ := ch
  cases pending with
  | cons c cs =>
    cases h
    rfl
  | nil =>
    cases isClosed with
    | false => cases h
    | true =>
      obtain ⟨rfl, rfl⟩ := hend rfl
      cases h
      rfl

end Channel

namespace Program

/-- The program that already holds the input still to come. -/
def foresee (rest : List Char) (closed : Bool) (p : Program) : Program :=
  p.mapChannel (Channel.foresee rest closed)

/-- Wherever a program need not wait, foresight changes nothing. -/
theorem advance_foresee {rest : List Char} {closed : Bool} {p : Program}
    (hend : p.state.channel.closed = true → rest = [] ∧ closed = true)
    (h : p.advance.1 ≠ .blocked) :
    (p.foresee rest closed).advance = (p.advance.1, p.advance.2.foresee rest closed) := by
  refine p.advance_mapChannel (fun text ch => ch.foresee_emit rest closed text) fun hread => ?_
  cases hreceive : p.state.channel.receive with
  | ok received ch => exact Channel.receive_foresee hend hreceive
  | error e ch =>
    obtain ⟨hpending, hclosed, -⟩ := (Channel.receive_eq_error_iff _ _ _).mp hreceive
    exact absurd (p.advance_blocked_iff.mpr ⟨hread, hpending, hclosed⟩) h

theorem foresee_nil (p : Program) : p.foresee [] p.state.channel.closed = p := by
  have hchannel : p.state.channel.foresee [] p.state.channel.closed = p.state.channel := by
    rw [Channel.foresee, List.append_nil]
  exact congrArg (fun ch => p.withChannel ch) hchannel

/-- Queues characters at the end of the input. -/
def enqueue (chars : List Char) (p : Program) : Program :=
  p.mapChannel fun ch => { ch with pending := ch.pending ++ chars }

theorem foresee_enqueue (chars rest : List Char) (closed : Bool) (p : Program) :
    (p.enqueue chars).foresee rest closed = p.foresee (chars ++ rest) closed := by
  have hchannel : ({ p.state.channel with pending := p.state.channel.pending ++ chars } :
      Channel).foresee rest closed = p.state.channel.foresee (chars ++ rest) closed := by
    simp only [Channel.foresee, List.append_assoc]
  exact congrArg (fun ch => p.withChannel ch) hchannel

theorem foresee_close (rest : List Char) (closed : Bool) (p : Program) :
    p.close.foresee rest closed = p.foresee rest closed := rfl

theorem foresee_prepend (rest : List Char) (closed : Bool) (text : String) (p : Program) :
    (p.prepend text).foresee rest closed = (p.foresee rest closed).prepend text := rfl

section Loops

variable {limit : Option Nat} {cycles executed executed' : Nat} {p q : Program} {stop : Stop}
  {rest : List Char} {closed : Bool}

theorem closed_of_plainLoop (h : plainLoop limit cycles executed p = some (stop, executed', q)) :
    q.state.channel.closed = p.state.channel.closed := by
  have hends : Ends limit executed p (stop, executed', q) := ⟨cycles, h⟩
  clear h
  induction hends using Ends.induct with
  | reached executed p _ _ hending =>
    cases hending
    rfl
  | stopped executed p stop' _ _ _ hending =>
    cases hending
    exact p.closed_advance
  | going executed p _ _ _ _ ih => exact ih.trans p.closed_advance

theorem ne_blocked_of_stop {step : Step} (h : step.stop? ≠ some .blocked) : step ≠ .blocked := by
  intro heq
  rw [heq] at h
  exact h rfl

theorem eq_blocked_of_stop {step : Step} (h : step.stop? = some .blocked) : step = .blocked := by
  cases step <;> cases h
  rfl

theorem countAfter_foresee (hend : p.state.channel.closed = true → rest = [] ∧ closed = true)
    (h : p.advance.1 ≠ .blocked) (executed : Nat) :
    (p.foresee rest closed).countAfter executed = p.countAfter executed := by
  rw [countAfter, countAfter, advance_foresee hend h]
  rfl

theorem plainLoop_foresee_of_stop
    (hend : p.state.channel.closed = true → rest = [] ∧ closed = true)
    (hlimit : limit.any (· ≤ executed) = false) (hstep : p.advance.1.stop? = some stop)
    (hstop : stop ≠ .blocked) :
    plainLoop limit (cycles + 1) executed (p.foresee rest closed) =
      some (stop, p.countAfter executed, p.advance.2.foresee rest closed) := by
  have hgoing : p.advance.1 ≠ .blocked := ne_blocked_of_stop (by simpa [hstep] using hstop)
  have hadvance := advance_foresee hend hgoing
  rw [plainLoop_of_stop hlimit (by rw [hadvance]; exact hstep), hadvance,
    countAfter_foresee hend hgoing]

theorem plainLoop_foresee_of_progress
    (hend : p.state.channel.closed = true → rest = [] ∧ closed = true)
    (hlimit : limit.any (· ≤ executed) = false) (hstep : p.advance.1.stop? = none)
    (cycles : Nat) :
    plainLoop limit (cycles + 1) executed (p.foresee rest closed) =
      plainLoop limit cycles (p.countAfter executed) (p.advance.2.foresee rest closed) := by
  have hgoing : p.advance.1 ≠ .blocked := ne_blocked_of_stop (by simp [hstep])
  have hadvance := advance_foresee hend hgoing
  rw [plainLoop_of_progress hlimit (by rw [hadvance]; exact hstep), hadvance,
    countAfter_foresee hend hgoing]

/-- Foresight changes nothing in a loop that ends otherwise than by waiting. -/
theorem ends_foresee (hend : p.state.channel.closed = true → rest = [] ∧ closed = true)
    (hstop : stop ≠ .blocked) (h : Ends limit executed p (stop, executed', q)) :
    Ends limit executed (p.foresee rest closed) (stop, executed', q.foresee rest closed) := by
  induction h using Ends.induct with
  | reached executed p _ hlimit hending =>
    cases hending
    exact ⟨1, plainLoop_of_limit hlimit 0 _⟩
  | stopped executed p stop' _ hlimit hstep hending =>
    cases hending
    exact ⟨0 + 1, plainLoop_foresee_of_stop hend hlimit hstep hstop⟩
  | going executed p _ _ hlimit hstep ih =>
    rw [ends_iff_of_succ (plainLoop_foresee_of_progress hend hlimit hstep)]
    exact ih (by rwa [closed_advance])

/-- Where a loop ends by waiting, the loop of a program with foresight goes on. -/
theorem ends_foresee_of_blocked
    (hend : p.state.channel.closed = true → rest = [] ∧ closed = true)
    (h : plainLoop limit cycles executed p = some (.blocked, executed', q)) :
    q.advance.1 = .blocked ∧ ∀ ending, Ends limit executed (p.foresee rest closed) ending ↔
      Ends limit executed' (q.foresee rest closed) ending := by
  have hends : Ends limit executed p (.blocked, executed', q) := ⟨cycles, h⟩
  clear h
  induction hends using Ends.induct with
  | reached executed p _ _ hending => cases hending
  | stopped executed p stop' _ _ hstep hending =>
    cases hending
    have hblocked := eq_blocked_of_stop hstep
    have hsame : p.advance.2 = p := eq_of_advance_blocked (Prod.ext hblocked rfl)
    have hcount : p.countAfter executed = executed := if_pos (Or.inr hblocked)
    rw [hsame, hcount]
    exact ⟨hblocked, fun ending => Iff.rfl⟩
  | going executed p _ _ hlimit hstep ih =>
    obtain ⟨hblocked, hrest⟩ := ih (by rwa [closed_advance])
    refine ⟨hblocked, fun ending => ?_⟩
    rw [ends_iff_of_succ (plainLoop_foresee_of_progress hend hlimit hstep)]
    exact hrest ending

/-- Without foresight a loop ends as well, perhaps earlier, by waiting. -/
theorem exists_plainLoop_of_foresee {ending : Stop × Nat × Program}
    (hend : p.state.channel.closed = true → rest = [] ∧ closed = true)
    (h : plainLoop limit cycles executed (p.foresee rest closed) = some ending) :
    ∃ ending', plainLoop limit cycles executed p = some ending' := by
  induction cycles generalizing executed p with
  | zero => cases h
  | succ cycles ih =>
    cases hlimit : limit.any (· ≤ executed) with
    | true => exact ⟨_, plainLoop_of_limit hlimit cycles p⟩
    | false =>
      cases hstep : p.advance.1.stop? with
      | some stop' => exact ⟨_, plainLoop_of_stop hlimit hstep cycles⟩
      | none =>
        rw [plainLoop_foresee_of_progress hend hlimit hstep] at h
        rw [plainLoop_of_progress hlimit hstep]
        exact ih (by rwa [closed_advance]) h

end Loops

end Program

end Fish
