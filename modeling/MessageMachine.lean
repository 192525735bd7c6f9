import MessageMachine.Direct
import MessageMachine.Main
import MessageMachine.Proofs.Fallible
import MessageMachine.Proofs.Footprint
import MessageMachine.Proofs.Ledger
import MessageMachine.Proofs.Nil
import MessageMachine.Proofs.Arithmetic
import MessageMachine.Proofs.Binding
import MessageMachine.Proofs.Code.RoundTrip
import MessageMachine.Proofs.Code.Clean
import MessageMachine.Proofs.Code.Counts
import MessageMachine.Proofs.Statement.Effect
import MessageMachine.Proofs.Statement.Perform
import MessageMachine.Proofs.Statement.InPlace
import MessageMachine.Proofs.Statement.Sending
import MessageMachine.Proofs.Statement.Soundness
import MessageMachine.Proofs.Statement.Writing
import MessageMachine.Proofs.Statement.Invocation
import MessageMachine.Proofs.Statement.CallCounts
import MessageMachine.Proofs.Code.Spans
import MessageMachine.Proofs.Statement.Resolving
import MessageMachine.Proofs.Statement.Traceless
import MessageMachine.Proofs.Statement.Lockstep
import MessageMachine.Proofs.Directory
import MessageMachine.Proofs.Names
import MessageMachine.Proofs.Lineage
import MessageMachine.Proofs.Statement.Continuity
import MessageMachine.Proofs.Caches
import MessageMachine.Proofs.Sharing
import MessageMachine.Proofs.Storage
import MessageMachine.Proofs.Machine.Transition
import MessageMachine.Proofs.Machine.Budget
import MessageMachine.Proofs.Machine.Nesting
import MessageMachine.Proofs.Machine.Returning
import MessageMachine.Proofs.Machine.Dispatch
import MessageMachine.Proofs.Machine.CleanCode
import MessageMachine.Proofs.Machine.Nil
import MessageMachine.Proofs.Machine.Containment
import MessageMachine.Proofs.Machine.RunFootprint
import MessageMachine.Proofs.Machine.Writes
import MessageMachine.Proofs.Machine.Addressing
import MessageMachine.Proofs.Machine.Reporting
import MessageMachine.Proofs.Machine.Cutoff
import MessageMachine.Proofs.Machine.Posting
import MessageMachine.Proofs.Machine.Stack
import MessageMachine.Proofs.Machine.Lockstep
import MessageMachine.Proofs.Machine.Independence
import MessageMachine.Proofs.Machine.Twins
import MessageMachine.Proofs.Machine.Caches
import MessageMachine.Proofs.Machine.Traceless
import MessageMachine.Proofs.Engine.History
import MessageMachine.Proofs.Engine.Delivery
import MessageMachine.Proofs.Engine.Transparency
import MessageMachine.Proofs.Engine.Caches
import MessageMachine.Proofs.Engine.Nil
import MessageMachine.Proofs.Machine.Tally
import MessageMachine.Proofs.Engine.Tally
import MessageMachine.Proofs.Words
import MessageMachine.Proofs.Code.PrefixCode
import MessageMachine.Proofs.Code.Header
import MessageMachine.Proofs.Code.Tiling
import MessageMachine.Proofs.Code.Columns
import MessageMachine.Proofs.Entries
import MessageMachine.Proofs.Census
import MessageMachine.Proofs.Machine.Ageing
import MessageMachine.Proofs.Engine.Identities
import MessageMachine.Proofs.Ranking
import MessageMachine.Proofs.Code.LateParameters
import MessageMachine.Proofs.Machine.Naming
import MessageMachine.Proofs.Machine.Place
import MessageMachine.Proofs.MaskedFrames
import MessageMachine.Proofs.Countdown
