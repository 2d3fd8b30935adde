import TeachPendant.Arm.Scripted
import TeachPendant.CommandLine.Session
import TeachPendant.Main
import TeachPendant.Saved.Error
import TeachPendant.Sequence.Edit
import TeachPendant.Proofs.Cell.Line
import TeachPendant.Proofs.Cell.Operation
import TeachPendant.Proofs.Cell.Sound
import TeachPendant.Proofs.Cell.Bond
import TeachPendant.Proofs.Cell.Exchange
import TeachPendant.Proofs.Cell.CallProtocol
import TeachPendant.Proofs.Cell.CallNumbers
import TeachPendant.Proofs.Cell.FailureReport
import TeachPendant.Proofs.Cell.Quiescence
import TeachPendant.Proofs.Cell.Finished
import TeachPendant.Proofs.Cell.Nesting
import TeachPendant.Proofs.Cell.Pointers
import TeachPendant.Proofs.Cell.Libraries
import TeachPendant.Proofs.Cell.Blanked
import TeachPendant.Proofs.Cell.Apart
import TeachPendant.Proofs.Cell.Resumption
import TeachPendant.Proofs.Stepping.Full
import TeachPendant.Proofs.Stepping.Pace
import TeachPendant.Proofs.Stepping.Solo
import TeachPendant.Proofs.Stepping.Lockstep
import TeachPendant.Proofs.Stepping.Record
import TeachPendant.Proofs.Stepping.SameRun
import TeachPendant.Proofs.Stepping.Backward
import TeachPendant.Proofs.Stepping.Forward
import TeachPendant.Proofs.Stepping.SameDeeds
import TeachPendant.Proofs.Expression.Errors
import TeachPendant.Proofs.Expression.LeftNesting
import TeachPendant.Proofs.Expression.Kinds
import TeachPendant.Proofs.Expression.Readings
import TeachPendant.Proofs.Instruction.Agreement
import TeachPendant.Proofs.Instruction.Footprint
import TeachPendant.Proofs.Instruction.Writes
import TeachPendant.Proofs.Linking.CleanPass
import TeachPendant.Proofs.Linking.CallOutcome
import TeachPendant.Proofs.Linking.Addresses
import TeachPendant.Proofs.Linking.Names
import TeachPendant.Proofs.Linking.ByName
import TeachPendant.Proofs.Linking.Loaded
import TeachPendant.Proofs.Positions.LowestFree
import TeachPendant.Proofs.Positions.Reloaded
import TeachPendant.Proofs.Sequence.FlatEdits
import TeachPendant.Proofs.Sequence.Alternation
import TeachPendant.Proofs.Sequence.Room
import TeachPendant.Proofs.Arm.InFlight
import TeachPendant.Proofs.Saved.Snapshot
import TeachPendant.Proofs.Saved.Export
import TeachPendant.Proofs.Lines.Identity
import TeachPendant.Proofs.Log.Newest
import TeachPendant.Proofs.Log.Changed
import TeachPendant.Proofs.Settings.Settled
