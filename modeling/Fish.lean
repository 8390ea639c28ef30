import Fish.Main
import Fish.Proofs.InputTiming
import Fish.Proofs.StandardInput
import Fish.Proofs.Delivery
import Fish.Proofs.Emission
import Fish.Proofs.Nesting
import Fish.Proofs.CheckedMachine
import Fish.Proofs.Bounds
import Fish.Proofs.Accounting
import Fish.Proofs.SeveralFiles
import Fish.Proofs.BoundedRuns
import Fish.Proofs.Interleaving
import Fish.Proofs.LowerValues
import Fish.Proofs.Chance
import Fish.Proofs.StraightPrograms
import Fish.Proofs.Expressions
import Fish.Proofs.Observers
import Fish.Proofs.Cancellation
import Fish.Proofs.Finality
import Fish.Proofs.CellsRead
import Fish.Proofs.BoundedSessions
import Fish.Proofs.IntegerParts
import Fish.Proofs.Objections
import Fish.Proofs.Conservation
import Fish.Proofs.ExactIntegers
import Fish.Proofs.Footprints
import Fish.Proofs.LightPaths
import Fish.Proofs.UpsideDown
import Fish.Proofs.QuotedText
import Fish.Proofs.Torus
import Fish.Proofs.Loading
import Fish.Proofs.Echo
import Fish.Proofs.LineEndings
import Fish.Proofs.StackAccess
