import Fish.Batch
import Fish.Proofs.ChannelUse

/-!
The plain loop: one cycle of a program after the other, up to the first that is no progress
or to a limit on the counted cycles. Output is left where it is and read once, at the end.
-/

namespace Fish.Program

/-- Runs cycles one by one after `executed` others: the reason to stop, the cycles counted and
the program. The result is `none` if `cycles` were not enough. -/
def plainLoop (limit : Option Nat) : Nat → Nat → Program → Option (Stop × Nat × Program)
  | 0, _, _ => none
  | cycles + 1, executed, p =>
    if limit.any (· ≤ executed) then some (.stepLimit, executed, p)
    else
      let (step, q) := p.advance
      let counted := if p.hasTerminated ∨ step = .blocked then executed else executed + 1
      match step.stop? with
      | some stop => some (stop, counted, q)
      | none => plainLoop limit cycles counted q

/-- Sums up an ended run by reading the output. -/
def sumUp : Stop × Nat × Program → Summary × Program
  | (stop, executed, p) =>
    match p.read with
    | .ok output q => (⟨output, stop, executed⟩, q)
    | .error _ q => (⟨"", stop, executed⟩, q)

def plainRun (limit : Option Nat) (cycles : Nat) (p : Program) : Option (Summary × Program) :=
  (plainLoop limit cycles 0 p).map sumUp

/-- The cycles counted after one more. -/
def countAfter (p : Program) (executed : Nat) : Nat :=
  if p.hasTerminated ∨ p.advance.1 = .blocked then executed else executed + 1

theorem plainLoop_of_limit {limit : Option Nat} {executed : Nat}
    (h : limit.any (· ≤ executed) = true) (cycles : Nat) (p : Program) :
    plainLoop limit (cycles + 1) executed p = some (.stepLimit, executed, p) := by
  rw [plainLoop, if_pos h]

theorem plainLoop_of_stop {limit : Option Nat} {executed : Nat} {p : Program} {stop : Stop}
    (h : limit.any (· ≤ executed) = false) (hstop : p.advance.1.stop? = some stop)
    (cycles : Nat) :
    plainLoop limit (cycles + 1) executed p =
      some (stop, p.countAfter executed, p.advance.2) := by
  rw [plainLoop, if_neg (by simp [h])]
  simp only [hstop, countAfter]

theorem plainLoop_of_progress {limit : Option Nat} {executed : Nat} {p : Program}
    (h : limit.any (· ≤ executed) = false) (hstop : p.advance.1.stop? = none) (cycles : Nat) :
    plainLoop limit (cycles + 1) executed p =
      plainLoop limit cycles (p.countAfter executed) p.advance.2 := by
  rw [plainLoop, if_neg (by simp [h])]
  simp only [hstop, countAfter]

theorem plainLoop_succ {limit : Option Nat} {cycles executed : Nat} {p : Program}
    {ending : Stop × Nat × Program} (h : plainLoop limit cycles executed p = some ending) :
    plainLoop limit (cycles + 1) executed p = some ending := by
  induction cycles generalizing executed p with
  | zero => cases h
  | succ cycles ih =>
    cases hlimit : limit.any (· ≤ executed) with
    | true =>
      rw [plainLoop_of_limit hlimit] at h ⊢
      exact h
    | false =>
      cases hstop : p.advance.1.stop? with
      | some stop =>
        rw [plainLoop_of_stop hlimit hstop] at h ⊢
        exact h
      | none =>
        rw [plainLoop_of_progress hlimit hstop] at h ⊢
        exact ih h

/-- A loop that has ended stays so with more cycles to spare. -/
theorem plainLoop_mono {limit : Option Nat} {cycles cycles' executed : Nat} {p : Program}
    {ending : Stop × Nat × Program} (hle : cycles ≤ cycles')
    (h : plainLoop limit cycles executed p = some ending) :
    plainLoop limit cycles' executed p = some ending := by
  induction hle with
  | refl => exact h
  | step _ ih => exact plainLoop_succ ih

theorem plainLoop_unique {limit : Option Nat} {cycles cycles' executed : Nat} {p : Program}
    {ending ending' : Stop × Nat × Program}
    (h : plainLoop limit cycles executed p = some ending)
    (h' : plainLoop limit cycles' executed p = some ending') : ending = ending' := by
  have hmax := plainLoop_mono (Nat.le_max_left cycles cycles') h
  have hmax' := plainLoop_mono (Nat.le_max_right cycles cycles') h'
  rw [hmax] at hmax'
  exact Option.some.inj hmax'

/-- The loop ends so, given cycles enough. -/
def Ends (limit : Option Nat) (executed : Nat) (p : Program)
    (ending : Stop × Nat × Program) : Prop :=
  ∃ cycles, plainLoop limit cycles executed p = some ending

theorem ends_unique {limit : Option Nat} {executed : Nat} {p : Program}
    {ending ending' : Stop × Nat × Program} (h : Ends limit executed p ending)
    (h' : Ends limit executed p ending') : ending = ending' := by
  obtain ⟨cycles, hloop⟩ := h
  obtain ⟨cycles', hloop'⟩ := h'
  exact plainLoop_unique hloop hloop'

theorem ends_iff_of_succ {limit : Option Nat} {executed executed' : Nat} {p q : Program}
    (h : ∀ cycles, plainLoop limit (cycles + 1) executed p = plainLoop limit cycles executed' q)
    (ending : Stop × Nat × Program) :
    Ends limit executed p ending ↔ Ends limit executed' q ending := by
  constructor
  · intro hends
    obtain ⟨cycles, hloop⟩ := hends
    cases cycles with
    | zero => cases hloop
    | succ cycles => exact ⟨cycles, (h cycles).symm.trans hloop⟩
  · intro hends
    obtain ⟨cycles, hloop⟩ := hends
    exact ⟨cycles + 1, (h cycles).trans hloop⟩

/-- Induction on an ended loop: it was at its limit, or a cycle stopped it, or it went on from
the program after a cycle. -/
@[elab_as_elim]
theorem Ends.induct {limit : Option Nat} {ending : Stop × Nat × Program}
    {motive : ∀ executed p, Ends limit executed p ending → Prop}
    (reached : ∀ executed p hends, limit.any (· ≤ executed) = true →
      (.stepLimit, executed, p) = ending → motive executed p hends)
    (stopped : ∀ executed p stop hends, limit.any (· ≤ executed) = false →
      p.advance.1.stop? = some stop → (stop, p.countAfter executed, p.advance.2) = ending →
      motive executed p hends)
    (going : ∀ executed p hends hrest, limit.any (· ≤ executed) = false →
      p.advance.1.stop? = none → motive (p.countAfter executed) p.advance.2 hrest →
      motive executed p hends)
    {executed : Nat} {p : Program} (h : Ends limit executed p ending) : motive executed p h := by
  obtain ⟨cycles, hloop⟩ := h
  induction cycles generalizing executed p with
  | zero => cases hloop
  | succ cycles ih =>
    cases hlimit : limit.any (· ≤ executed) with
    | true =>
      have hending := hloop
      rw [plainLoop_of_limit hlimit] at hending
      exact reached executed p _ hlimit (Option.some.inj hending)
    | false =>
      cases hstop : p.advance.1.stop? with
      | some stop =>
        have hending := hloop
        rw [plainLoop_of_stop hlimit hstop] at hending
        exact stopped executed p stop _ hlimit hstop (Option.some.inj hending)
      | none =>
        have hrest := hloop
        rw [plainLoop_of_progress hlimit hstop] at hrest
        exact going executed p _ ⟨cycles, hrest⟩ hlimit hstop (ih hrest)

/-- A program that has ended makes no progress, so progress is always counted. -/
theorem countAfter_of_progress {p : Program} (hstop : p.advance.1.stop? = none)
    (executed : Nat) : p.countAfter executed = executed + 1 := by
  have hcycle := p.cycle_advance
  rw [countAfter, if_neg]
  intro h
  rcases h with hended | hblocked
  · obtain ⟨termination, htermination⟩ := Option.isSome_iff_exists.mp hended
    rw [advance_of_ended htermination] at hstop
    cases termination <;> cases hstop
  · rw [hblocked] at hstop
    cases hstop

/-- Under a limit the loop ends, because every cycle that does not stop it is counted. -/
theorem exists_ends (limit executed : Nat) (p : Program) :
    ∃ ending, Ends (some limit) executed p ending := by
  generalize hleft : limit - executed = left
  induction left generalizing executed p with
  | zero =>
    exact ⟨_, 1, plainLoop_of_limit (by simp; omega) 0 p⟩
  | succ left ih =>
    have hlimit : (some limit).any (· ≤ executed) = false := by simp; omega
    cases hstop : p.advance.1.stop? with
    | some stop => exact ⟨_, 1, plainLoop_of_stop hlimit hstop 0⟩
    | none =>
      obtain ⟨ending, cycles, h⟩ := ih (executed + 1) p.advance.2 (by omega)
      refine ⟨ending, cycles + 1, ?_⟩
      rw [plainLoop_of_progress hlimit hstop, countAfter_of_progress hstop, h]

theorem prepend_prepend (text more : String) (p : Program) :
    (p.prepend more).prepend text = p.prepend (text ++ more) := by
  have hchannel : (p.state.channel.prepend more).prepend text =
      p.state.channel.prepend (text ++ more) := by
    simp only [Channel.prepend, String.append_assoc]
  exact congrArg (fun ch => p.withChannel ch) hchannel

theorem prepend_empty (p : Program) : p.prepend "" = p := by
  have hchannel : p.state.channel.prepend "" = p.state.channel := by
    rw [Channel.prepend, String.empty_append]
  exact congrArg (fun ch => p.withChannel ch) hchannel

theorem countAfter_prepend (text : String) (p : Program) :
    (p.prepend text).countAfter = p.countAfter := by
  funext executed
  simp only [countAfter, advance_prepend]
  rfl

/-- Output written before the loop only stands before that of the loop. -/
theorem plainLoop_prepend (text : String) (limit : Option Nat) (cycles executed : Nat)
    (p : Program) :
    plainLoop limit cycles executed (p.prepend text) =
      (plainLoop limit cycles executed p).map fun ending =>
        (ending.1, ending.2.1, ending.2.2.prepend text) := by
  induction cycles generalizing executed p with
  | zero => rfl
  | succ cycles ih =>
    cases hlimit : limit.any (· ≤ executed) with
    | true =>
      rw [plainLoop_of_limit hlimit, plainLoop_of_limit hlimit]
      rfl
    | false =>
      have hstep : (p.prepend text).advance.1 = p.advance.1 := by rw [advance_prepend]
      have hnext : (p.prepend text).advance.2 = p.advance.2.prepend text := by rw [advance_prepend]
      cases hstop : p.advance.1.stop? with
      | some stop =>
        rw [plainLoop_of_stop hlimit hstop,
          plainLoop_of_stop hlimit (hstep ▸ hstop), countAfter_prepend, hnext]
        rfl
      | none =>
        rw [plainLoop_of_progress hlimit hstop,
          plainLoop_of_progress hlimit (hstep ▸ hstop), countAfter_prepend, hnext, ih]

theorem ends_prepend {text : String} {limit : Option Nat} {executed : Nat} {p : Program}
    {ending : Stop × Nat × Program} :
    Ends limit executed (p.prepend text) ending ↔
      ∃ ending', Ends limit executed p ending' ∧
        (ending'.1, ending'.2.1, ending'.2.2.prepend text) = ending := by
  simp only [Ends, plainLoop_prepend, Option.map_eq_some_iff]
  constructor
  · intro h
    obtain ⟨cycles, ending', hloop, heq⟩ := h
    exact ⟨ending', ⟨cycles, hloop⟩, heq⟩
  · intro h
    obtain ⟨ending', ⟨cycles, hloop⟩, heq⟩ := h
    exact ⟨cycles, ending', hloop, heq⟩

/-- The output that nobody has read yet. -/
def output (p : Program) : String := p.state.channel.output

theorem output_prepend (text : String) (p : Program) :
    (p.prepend text).output = text ++ p.output := rfl

/-- The program once its output was read. -/
def drained (p : Program) : Program := p.mapChannel fun ch => { ch with output := "" }

theorem drained_prepend (text : String) (p : Program) : (p.prepend text).drained = p.drained :=
  rfl

theorem drained_prepend_output (p : Program) : p.drained.prepend p.output = p := by
  have hchannel : ({ p.state.channel with output := p.state.channel.output ++ "" } : Channel) =
      p.state.channel := by
    rw [String.append_empty]
  exact congrArg (fun ch => p.withChannel ch) hchannel

theorem drained_of_output_empty {p : Program} (h : p.output = "") : p.drained = p := by
  have hprepend := p.drained_prepend_output
  rwa [h, prepend_empty] at hprepend

/-- Reading takes all output, be there any or none. -/
theorem read_eq (p : Program) :
    p.read = if p.output.isEmpty then .error .noOutput p.drained else .ok p.output p.drained := by
  by_cases h : p.output.isEmpty = true
  · have hread : p.state.channel.read = .error .noOutput p.state.channel := if_pos h
    rw [if_pos h, drained_of_output_empty (String.isEmpty_iff.mp h)]
    exact onChannel_of_error hread
  · have hread : p.state.channel.read = .ok p.output { p.state.channel with output := "" } :=
      if_neg h
    rw [if_neg h]
    exact onChannel_of_ok hread

theorem sumUp_eq (stop : Stop) (executed : Nat) (p : Program) :
    sumUp (stop, executed, p) = (⟨p.output, stop, executed⟩, p.drained) := by
  rw [sumUp, read_eq]
  by_cases h : p.output.isEmpty = true
  · rw [if_pos h, String.isEmpty_iff.mp h]
  · rw [if_neg h]

end Fish.Program
