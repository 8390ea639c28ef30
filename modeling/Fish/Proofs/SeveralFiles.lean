import Fish.Proofs.Limits
import Fish.Proofs.Notices
import Fish.Proofs.StandardInput

/-!
Several files against each of them alone. A report and a session run a program in different
ways, but both come to the one end of its plain loop, show what is left there and have warned of
the same.
-/

namespace Fish

open Program

namespace Cli

/-- The same options for a single file. -/
def Options.only (path : String) (o : Options) : Options := { o with files := [path] }

/-- What a report notes of a source. -/
def Options.entry (o : Options) (entropy : UInt64) (path text : String) : Entry :=
  ⟨path, ((o.started entropy text).close.runToCompletion o.reportLimit).1⟩

namespace Restated

variable {path complaint : String} {outcome : Outcome}

end Restated

namespace Entry

end Entry

section Files

variable {args : List String} {o : Options} {w : Surroundings} {source : String → String}

end Files

end Cli

end Fish
