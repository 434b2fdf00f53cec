import Ces.Accounts
import Ces.Client.Lifecycle
import Ces.Client.RamArray
import Ces.Client.RamStore
import Ces.Client.Ramfile
import Ces.Client.Settlement
import Ces.Client.Signed
import Ces.Compute.Calls
import Ces.Compute.Children
import Ces.Compute.Metering
import Ces.File.Billing
import Ces.File.Collect
import Ces.File.Cores
import Ces.File.Handler
import Ces.File.Name
import Ces.File.Pays
import Ces.File.Rent
import Ces.File.Rules
import Ces.File.Store
import Ces.KeyNames
import Ces.Lang.Decode
import Ces.Lang.Program
import Ces.Ledger.AliasIds
import Ces.Ledger.AliasPatch
import Ces.Ledger.Authority
import Ces.Ledger.BackgroundTrace
import Ces.Ledger.Bulk
import Ces.Ledger.Capacity
import Ces.Ledger.Cells
import Ces.Ledger.Coherence
import Ces.Ledger.Completion
import Ces.Ledger.Custody
import Ces.Ledger.Daily
import Ces.Ledger.DailyTrace
import Ces.Ledger.Escrow
import Ces.Ledger.Exact
import Ces.Ledger.Fanout
import Ces.Ledger.Gossip
import Ces.Ledger.History
import Ces.Ledger.Journal
import Ces.Ledger.Keyed
import Ces.Ledger.Mesh
import Ces.Ledger.Mint
import Ces.Ledger.Moves
import Ces.Ledger.Names
import Ces.Ledger.Nonceless
import Ces.Ledger.Payments
import Ces.Ledger.Peers
import Ces.Ledger.Query
import Ces.Ledger.Ramfile
import Ces.Ledger.Replay
import Ces.Ledger.ReservedKey
import Ces.Ledger.Runs
import Ces.Ledger.Seal
import Ces.Ledger.Spend
import Ces.Ledger.Split
import Ces.Ledger.Steps
import Ces.Ledger.Trace
import Ces.Ledger.Transfer
import Ces.Ledger.TransferTrace
import Ces.Lib.Buffer
import Ces.Lib.Bytes
import Ces.Lib.Codec
import Ces.Lib.FiniteMap
import Ces.Lib.Framing
import Ces.Lib.Index
import Ces.Lib.Interaction
import Ces.Lib.Layout
import Ces.Lib.LazyMeter
import Ces.Lib.Posix
import Ces.Lib.Reassembly
import Ces.Lib.RotatingSet
import Ces.Lib.Simulation
import Ces.Lib.Trace
import Ces.Lib.UndoLog
import Ces.Lib.Word
import Ces.Mail
import Ces.Peer.Links
import Ces.Peer.Messages
import Ces.Plex.Bind
import Ces.Plex.ChannelMeter
import Ces.Plex.Stream
import Ces.Server
import Ces.Touch
import Ces.Types
import Ces.Vm.Abort
import Ces.Vm.Atomic
import Ces.Vm.Failed
import Ces.Vm.Fast
import Ces.Vm.Gas
import Ces.Vm.Host
import Ces.Vm.Interpreter
import Ces.Vm.Lockstep
import Ces.Vm.Machine
import Ces.Vm.Meter
import Ces.Vm.Refill
import Ces.Vm.Run
import Ces.Vm.Scheduled
import Ces.Vm.Syscall
import Ces.Vm.Tally
import Ces.Vm.Trace
import Ces.Vm.Value
import Ces.Vm.Writes
import Ces.Wire
