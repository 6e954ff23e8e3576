import CompMatch.Lib.Runs
import CompMatch.Lib.Exchange
import CompMatch.Lib.Cursor
import CompMatch.Rendezvous.Pair
import CompMatch.Rendezvous.Protocol
import CompMatch.Rendezvous.Progress
import CompMatch.Rendezvous.Process
import CompMatch.Rendezvous.World
import CompMatch.Proofs.Rendezvous.Protocol
import CompMatch.Proofs.Rendezvous.Stages
import CompMatch.Proofs.Rendezvous.Sender
import CompMatch.Proofs.Rendezvous.Receiver
import CompMatch.Proofs.Rendezvous.Pair
import CompMatch.Proofs.Rendezvous.Shared
import CompMatch.Proofs.Rendezvous.Process
import CompMatch.Proofs.Rendezvous.Control
import CompMatch.Proofs.Rendezvous.Conn
import CompMatch.Proofs.Rendezvous.World
import CompMatch.Rendezvous.FlagBuffer
import CompMatch.Proofs.Rendezvous.Movers
import CompMatch.Proofs.Rendezvous.FlagPuts
import CompMatch.Proofs.Rendezvous.FlagBuffer
import CompMatch.Rendezvous.Bytes
import CompMatch.Rendezvous.RdmaInfo
import CompMatch.Proofs.Rendezvous.Requests
import CompMatch.Rendezvous.History
import CompMatch.Rendezvous.Alone
import CompMatch.Proofs.Rendezvous.Nesting
import CompMatch.Proofs.Rendezvous.Backup
import CompMatch.Proofs.Rendezvous.History
import CompMatch.Proofs.Rendezvous.Payloads
import CompMatch.Proofs.Rendezvous.Bytes
import CompMatch.Proofs.Rendezvous.AllPaths
import CompMatch.Proofs.Rendezvous.RdmaInfo
import CompMatch.Rendezvous.Handshake
import CompMatch.Proofs.Rendezvous.Handshake
import CompMatch.Rendezvous.Plain
import CompMatch.Proofs.Rendezvous.Plain
import CompMatch.ActiveMessage.Request
import CompMatch.ActiveMessage.Link
import CompMatch.Proofs.ActiveMessage.Messages
import CompMatch.Proofs.ActiveMessage.Link
import CompMatch.Proofs.ActiveMessage.Delivery
import CompMatch.Proofs.ActiveMessage.Fifo
import CompMatch.ActiveMessage.Process
import CompMatch.ActiveMessage.World
import CompMatch.Proofs.ActiveMessage.Process
import CompMatch.Proofs.ActiveMessage.World
import CompMatch.ActiveMessage.Handshake
import CompMatch.Proofs.ActiveMessage.Handshake
import CompMatch.Lib.Matching
import CompMatch.ActiveMessage.Network
import CompMatch.Proofs.ActiveMessage.Network
import CompMatch.Proofs.ActiveMessage.Senders
import CompMatch.Proofs.ActiveMessage.Worlds
import CompMatch.Proofs.ActiveMessage.Links
import CompMatch.Proofs.Rendezvous.Progress
import CompMatch.Rendezvous.Wrapping
import CompMatch.Proofs.Rendezvous.Wrapping
import CompMatch.Lib.Procedures
import CompMatch.Lib.WorkList
import CompMatch.Lib.WorkList.Termination
import CompMatch.Lib.WorkList.Coverage
import CompMatch.Pass.Module
import CompMatch.Pass.MpiFunctions
import CompMatch.Pass.FunctionCoverage
import CompMatch.Proofs.Pass.FunctionCoverage
import CompMatch.Pass.ConflictDetection
import CompMatch.Proofs.Pass.ConflictDetection
import CompMatch.Pass.Search
import CompMatch.Pass.Coverage
import CompMatch.Lib.DepthFirst
import CompMatch.Pass.LoopIteration
import CompMatch.Pass.Guard
import CompMatch.Pass.Iterations
import CompMatch.Proofs.Pass.Iterations
import CompMatch.Pass.Code
import CompMatch.Pass.Replacement
import CompMatch.Proofs.Pass.Replacement
import CompMatch.Pass.AddInit
import CompMatch.Proofs.Pass.AddInit
import CompMatch.Proofs.Pass.Search
import CompMatch.Proofs.Pass.Coverage
import CompMatch.Proofs.Pass.Soundness
import CompMatch.Proofs.Pass.LoopIteration
import CompMatch.Lib.WorkList.Sweep
import CompMatch.Proofs.Pass.Guard
import CompMatch.Lib.Ledger
import CompMatch.Rendezvous.Resources
import CompMatch.Proofs.Rendezvous.SendOps
import CompMatch.Proofs.Rendezvous.Resources
import CompMatch.Proofs.Rendezvous.Alone
import CompMatch.Rendezvous.Generations
import CompMatch.Proofs.Rendezvous.Sends
import CompMatch.Proofs.Rendezvous.Generations
import CompMatch.Lib.Heap
import CompMatch.Lib.LinkedList
import CompMatch.Rendezvous.Memory
import CompMatch.Proofs.Rendezvous.Memory
import CompMatch.Lib.Traces
import CompMatch.Pass.RunOnModule
import CompMatch.Proofs.Pass.Runs
import CompMatch.Proofs.Pass.RunOnModule
import CompMatch.Pass.Handles
import CompMatch.Proofs.Pass.Handles
import CompMatch.Pass.Lifecycle
import CompMatch.Proofs.Pass.Lifecycle
