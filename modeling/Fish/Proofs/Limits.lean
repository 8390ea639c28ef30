import Fish.Proofs.Lifetime
import Fish.Proofs.Runs

/-!
Step limits add up. A loop that was stopped by its limit goes on under a higher one from where
it stands, and one that was stopped by the program is stopped there again, at no further count.
So two runs, one after the other, are one run under the sum of their limits.
-/

namespace Fish

theorem Step.blocked_or_terminal_of_stop {step : Step} {stop : Stop}
    (h : step.stop? = some stop) :
    step = .blocked ∨ ∃ termination : Termination, step = termination.step := by
  cases step with
  | progressed => cases h
  | blocked => exact Or.inl rfl
  | halted => exact Or.inr ⟨.halted, rfl⟩
  | failed fault => exact Or.inr ⟨.failed fault, rfl⟩

namespace Program

/-- What stops a program stops it again, and nothing is counted then. -/
theorem stopped_advance {p : Program} {stop : Stop} (h : p.advance.1.stop? = some stop) :
    p.advance.2.advance = p.advance ∧
      ∀ executed, p.advance.2.countAfter executed = executed := by
  rcases Step.blocked_or_terminal_of_stop h with hblocked | ⟨termination, hstep⟩
  · have hsame : p.advance.2 = p := eq_of_advance_blocked (Prod.ext hblocked rfl)
    rw [hsame]
    exact ⟨rfl, fun executed => if_pos (Or.inr hblocked)⟩
  · have hended := (p.termination_advance_iff termination).mpr hstep
    refine ⟨(advance_of_ended hended).trans (Prod.ext hstep.symm rfl), fun executed => ?_⟩
    exact if_pos (Or.inl (Option.isSome_iff_exists.mpr ⟨termination, hended⟩))

section Loops

variable {limit : Option Nat} {executed : Nat} {p : Program} {stop : Stop}

/-- Where the program stops at once, the loop can only end so. -/
theorem ends_iff_of_stop (hlimit : limit.any (· ≤ executed) = false)
    (hstop : p.advance.1.stop? = some stop) (ending : Stop × Nat × Program) :
    Ends limit executed p ending ↔ (stop, p.countAfter executed, p.advance.2) = ending := by
  have hends : Ends limit executed p (stop, p.countAfter executed, p.advance.2) :=
    ⟨1, plainLoop_of_stop hlimit hstop 0⟩
  constructor
  · intro h
    exact ends_unique hends h
  · intro h
    exact h ▸ hends

/-- A program that stops at once does so under any limit that is not reached. -/
theorem ends_iff_of_limits {a b : Nat} (ha : executed < a) (hb : executed < b)
    (hstop : p.advance.1.stop? = some stop) (ending : Stop × Nat × Program) :
    Ends (some a) executed p ending ↔ Ends (some b) executed p ending := by
  rw [ends_iff_of_stop (by simpa using ha) hstop, ends_iff_of_stop (by simpa using hb) hstop]

/-- To count from further on is to count towards a limit that lies as much higher. -/
theorem plainLoop_add (limit : Option Nat) (cycles executed earlier : Nat) (p : Program) :
    plainLoop (limit.map (· + earlier)) cycles (executed + earlier) p =
      (plainLoop limit cycles executed p).map fun ending =>
        (ending.1, ending.2.1 + earlier, ending.2.2) := by
  induction cycles generalizing executed p with
  | zero => rfl
  | succ cycles ih =>
    have hshift : (limit.map (· + earlier)).any (· ≤ executed + earlier) =
        limit.any (· ≤ executed) := by
      cases limit with
      | none => rfl
      | some n => simp
    have hcount : p.countAfter (executed + earlier) = p.countAfter executed + earlier := by
      unfold countAfter
      split <;> omega
    cases hlimit : limit.any (· ≤ executed) with
    | true =>
      rw [plainLoop_of_limit hlimit, plainLoop_of_limit (hshift.trans hlimit)]
      rfl
    | false =>
      have hlimit' := hshift.trans hlimit
      cases hstop : p.advance.1.stop? with
      | some stop =>
        rw [plainLoop_of_stop hlimit hstop, plainLoop_of_stop hlimit' hstop, hcount]
        rfl
      | none =>
        rw [plainLoop_of_progress hlimit hstop, plainLoop_of_progress hlimit' hstop, hcount, ih]

theorem ends_add {ending : Stop × Nat × Program} (earlier : Nat)
    (h : Ends limit executed p ending) :
    Ends (limit.map (· + earlier)) (executed + earlier) p
      (ending.1, ending.2.1 + earlier, ending.2.2) := by
  obtain ⟨cycles, hloop⟩ := h
  refine ⟨cycles, ?_⟩
  rw [plainLoop_add, hloop]
  rfl

/-- Under a higher limit the loop goes on from where the lower limit let it end. That is at the
lower limit, or else at a program that stops at once. -/
theorem ends_iff_of_ends {limit higher executed executed' : Nat} {p q : Program} {stop : Stop}
    (hle : executed ≤ limit) (hlt : limit < higher)
    (h : Ends (some limit) executed p (stop, executed', q)) :
    executed' ≤ limit ∧ (executed' = limit ∨ ∃ stop', q.advance.1.stop? = some stop') ∧
      ∀ ending, Ends (some higher) executed p ending ↔ Ends (some higher) executed' q ending := by
  have hbelow : ∀ executed, (some limit).any (· ≤ executed) = false → executed < limit := by
    intro executed hlimit
    simpa using hlimit
  have hhigher : ∀ {executed}, executed ≤ limit → (some higher).any (· ≤ executed) = false := by
    intro executed hle
    simpa using Nat.lt_of_le_of_lt hle hlt
  induction h using Ends.induct with
  | reached executed p _ hlimit hending =>
    cases hending
    have hreached : limit ≤ executed' := by simpa using hlimit
    exact ⟨hle, Or.inl (by omega), fun ending => Iff.rfl⟩
  | stopped executed p stop' _ hlimit hstop hending =>
    cases hending
    have hexecuted := hbelow executed hlimit
    obtain ⟨hagain, hcount⟩ := stopped_advance hstop
    have hcounted : p.countAfter executed ≤ executed + 1 := by
      unfold countAfter
      split <;> omega
    have hstop' : p.advance.2.advance.1.stop? = some stop := by rw [hagain, hstop]
    refine ⟨by omega, Or.inr ⟨stop, hstop'⟩, fun ending => ?_⟩
    rw [ends_iff_of_stop (hhigher hle) hstop, ends_iff_of_stop (hhigher (by omega)) hstop',
      hcount, hagain]
  | going executed p _ _ hlimit hstop ih =>
    have hexecuted := hbelow executed hlimit
    have hcount := countAfter_of_progress hstop executed
    obtain ⟨hle', hstands, hgoes⟩ := ih (by omega)
    refine ⟨hle', hstands, fun ending => ?_⟩
    rw [ends_iff_of_succ (plainLoop_of_progress (hhigher hle) hstop)]
    exact hgoes ending

end Loops

/-- A run to completion is the plain loop to its end, summed up. -/
theorem runToCompletion_of_ends {limit : Nat} {p : Program} {ending : Stop × Nat × Program}
    (h : Ends (some limit) 0 p ending) : p.runToCompletion limit = sumUp ending := by
  obtain ⟨ending', hends, hsum⟩ := (plainRun_iff _ _ _).mp (p.plainRun_runToCompletion limit)
  rw [← hsum, ends_unique h hends]

/-- Step limits add up. A run, and from where it has left the program a second one, are together
one run under the sum of the limits, whatever has stopped the first. -/
theorem runToCompletion_add (p : Program) (a : Nat) {b : Nat} (hb : 0 < b) :
    let first := p.runToCompletion a
    let second := first.2.runToCompletion b
    p.runToCompletion (a + b) =
      (⟨first.1.output ++ second.1.output, second.1.stop, first.1.steps + second.1.steps⟩,
        second.2) := by
  intro first second
  obtain ⟨⟨stop, executed, q⟩, hfirst⟩ := exists_ends a 0 p
  obtain ⟨⟨stop', executed', r⟩, hsecond⟩ := exists_ends b 0 q.drained
  have hfirst' : first = (⟨q.output, stop, executed⟩, q.drained) :=
    (runToCompletion_of_ends hfirst).trans (sumUp_eq stop executed q)
  have hsecond' : second = (⟨r.output, stop', executed'⟩, r.drained) := by
    refine Eq.trans ?_ (sumUp_eq stop' executed' r)
    rw [← runToCompletion_of_ends hsecond]
    exact congrArg (fun result => result.2.runToCompletion b) hfirst'
  -- The second loop starts without the output of the first, which it would leave alone.
  have hresumed : Ends (some b) 0 q (stop', executed', r.prepend q.output) := by
    have hprepended := ends_prepend.mpr ⟨_, hsecond, (rfl : _ = (_, _, r.prepend q.output))⟩
    rwa [drained_prepend_output] at hprepended
  have hshifted : Ends (some (b + executed)) executed q
      (stop', executed' + executed, r.prepend q.output) := by
    have hadd := ends_add executed hresumed
    rwa [Nat.zero_add] at hadd
  obtain ⟨hle, hstands, hgoes⟩ := ends_iff_of_ends (Nat.zero_le a) (by omega : a < a + b) hfirst
  have hwhole : Ends (some (a + b)) 0 p (stop', executed' + executed, r.prepend q.output) := by
    rw [hgoes]
    rcases hstands with hlimit | ⟨again, hagain⟩
    · rwa [hlimit, Nat.add_comm a b, ← hlimit]
    · exact (ends_iff_of_limits (by omega) (by omega) hagain _).mpr hshifted
  rw [runToCompletion_of_ends hwhole, sumUp_eq, hfirst', hsecond', output_prepend,
    drained_prepend, Nat.add_comm executed' executed]

/-- A first run that its limit stops, and a second one that ends by waiting. -/
theorem runToCompletion_add_waiting :
    let p := load "1n2ni" [] 0
    0 < 4 ∧ (p.runToCompletion 3).1 = ⟨"1", .stepLimit, 3⟩ ∧
      ((p.runToCompletion 3).2.runToCompletion 4).1 = ⟨"2", .blocked, 1⟩ ∧
      (p.runToCompletion 7).1 = ⟨"12", .blocked, 4⟩ := by
  intro p
  have hfirst : (p.runToCompletion 3).1 = ⟨"1", .stepLimit, 3⟩ := by decide
  have hsecond : ((p.runToCompletion 3).2.runToCompletion 4).1 = ⟨"2", .blocked, 1⟩ := by decide
  have hwhole := congrArg Prod.fst (runToCompletion_add p 3 (by decide : 0 < 4))
  refine ⟨by decide, hfirst, hsecond, ?_⟩
  rw [hwhole, hfirst, hsecond]
  decide

end Program

end Fish
