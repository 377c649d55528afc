import ActorMachine.Engine.Load
import ActorMachine.Proofs.Engine.LinkGraph
import ActorMachine.Proofs.Engine.Receive
import ActorMachine.Proofs.Engine.RunQueue
import ActorMachine.Proofs.Scheduler.Heap
import ActorMachine.Proofs.Engine.Timers
import ActorMachine.Proofs.Scheduler.Ledger
import ActorMachine.Proofs.Engine.Messages
import ActorMachine.Proofs.Engine.Timeouts
import ActorMachine.Proofs.Engine.Rearm
import ActorMachine.Proofs.Number.Numerals
import ActorMachine.Proofs.Datum.Text
import ActorMachine.Proofs.Datum.Reading
import ActorMachine.Proofs.Store.Printing
import ActorMachine.Proofs.Engine.Order
import ActorMachine.Proofs.Store.Encoding
import ActorMachine.Proofs.Wire.Layout
import ActorMachine.Proofs.Wire.Keys
import ActorMachine.Proofs.Wire.Numerals
import ActorMachine.Proofs.Wire.Documents
import ActorMachine.Proofs.Wire.Text
import ActorMachine.Proofs.Wire.Reading
import ActorMachine.Proofs.Store.Exchange
import ActorMachine.Proofs.Engine.Isolation
import ActorMachine.Proofs.Engine.Fairness
import ActorMachine.Proofs.Engine.Bursts
import ActorMachine.Proofs.Code.Linking
import ActorMachine.Proofs.Code.Relinking
import ActorMachine.Proofs.Globals.Tables
import ActorMachine.Proofs.Globals.Bindings
import ActorMachine.Proofs.Datum.Grammar
import ActorMachine.Proofs.Store.Rereading
import ActorMachine.Proofs.Engine.Slices
import ActorMachine.Proofs.Engine.Machines
import ActorMachine.Proofs.Engine.Wrappers
import ActorMachine.Proofs.Engine.Units
import ActorMachine.Proofs.Machine.Returns
import ActorMachine.Proofs.Process.Selection
import ActorMachine.Proofs.Engine.Streaks
import ActorMachine.Proofs.Datum.Unfinished
import ActorMachine.Proofs.Datum.Tokens
import ActorMachine.Proofs.Code.Interning
import ActorMachine.Proofs.Engine.Loading
import ActorMachine.Proofs.Machine.Calls
import ActorMachine.Proofs.Engine.NativeCalls
import ActorMachine.Proofs.Text.Excerpts
import ActorMachine.Proofs.Datum.Places
import ActorMachine.Proofs.Store.Reach
import ActorMachine.Proofs.Code.Expansion
import ActorMachine.Proofs.Store.Cycles
import ActorMachine.Proofs.Native.Endings
import ActorMachine.Proofs.Code.Endings
import ActorMachine.Proofs.Engine.Endless
