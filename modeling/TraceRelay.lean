import TraceRelay.Client.Calls
import TraceRelay.Main
import TraceRelay.Record.Typed
import TraceRelay.Settings.Agent
import TraceRelay.Tagger
import TraceRelay.Text.Dump
import TraceRelay.Transport.Pipe
import TraceRelay.Proofs.Codec.Writer
import TraceRelay.Proofs.Codec.Written
import TraceRelay.Proofs.Codec.Reader
import TraceRelay.Proofs.Codec.Exact
import TraceRelay.Proofs.Stream.Chunks
import TraceRelay.Proofs.Codec.Growing
import TraceRelay.Proofs.Codec.Cut
import TraceRelay.Proofs.Codec.Limits
import TraceRelay.Proofs.Codec.Pushed
import TraceRelay.Proofs.Codec.Built
import TraceRelay.Proofs.Stream.Cut
import TraceRelay.Proofs.Stream.Bounded
import TraceRelay.Proofs.Token
import TraceRelay.Proofs.Tagger
import TraceRelay.Proofs.Tagger.Count
import TraceRelay.Proofs.Names
import TraceRelay.Proofs.Client.Streams
import TraceRelay.Proofs.Client.Ledger
import TraceRelay.Proofs.Client.Tracking
import TraceRelay.Proofs.Client.Gate
import TraceRelay.Proofs.Client.Sound
import TraceRelay.Proofs.Client.Calls
import TraceRelay.Proofs.Client.Account
import TraceRelay.Proofs.Client.Announce
import TraceRelay.Proofs.Client.Script
import TraceRelay.Proofs.Client.Tracked
import TraceRelay.Proofs.Client.Outline
import TraceRelay.Proofs.Client.Exact
import TraceRelay.Proofs.Session.Handle
import TraceRelay.Proofs.Session.Receive
import TraceRelay.Proofs.Client.Counts
import TraceRelay.Proofs.Session.EndToEnd
import TraceRelay.Proofs.Session.Replay
import TraceRelay.Proofs.Session.Outcome
import TraceRelay.Proofs.Heap.Calls
import TraceRelay.Proofs.Heap.Consistent
import TraceRelay.Proofs.Heap.Identity
import TraceRelay.Proofs.Heap.Lookup
import TraceRelay.Proofs.Heap.Mentions
import TraceRelay.Proofs.Heap.Occupancy
import TraceRelay.Proofs.Heap.Handles
import TraceRelay.Proofs.Heap.Removals
import TraceRelay.Proofs.Session.Arguments
import TraceRelay.Proofs.Session.Journal
import TraceRelay.Proofs.Session.Frees
import TraceRelay.Proofs.Client.Order
import TraceRelay.Proofs.Session.Deliveries
import TraceRelay.Proofs.Session.Whole
import TraceRelay.Proofs.Session.Liveness
import TraceRelay.Proofs.Client.Jobs
import TraceRelay.Proofs.Client.Interleaved
import TraceRelay.Proofs.Client.Performed
import TraceRelay.Proofs.Client.Leftover
import TraceRelay.Proofs.Client.Swept
import TraceRelay.Proofs.Client.Overtaking
import TraceRelay.Proofs.Client.Closed
import TraceRelay.Proofs.Client.Late
import TraceRelay.Proofs.Session.Reading
import TraceRelay.Proofs.Session.Faults
import TraceRelay.Proofs.Session.Exit
import TraceRelay.Proofs.Session.Routes
import TraceRelay.Proofs.Session.Registry
import TraceRelay.Proofs.Heap.Remembered
import TraceRelay.Proofs.Heap.Window
import TraceRelay.Proofs.Methods
import TraceRelay.Proofs.Session.References
import TraceRelay.Proofs.Session.FirstSight
import TraceRelay.Proofs.Client.Logged
import TraceRelay.Proofs.Client.Ended
import TraceRelay.Proofs.Client.Chronicle
import TraceRelay.Proofs.Client.Owners
import TraceRelay.Proofs.Client.Fate
import TraceRelay.Proofs.Client.Partings
import TraceRelay.Proofs.Client.Custody
import TraceRelay.Proofs.Client.Kept
import TraceRelay.Proofs.Client.Receipts
import TraceRelay.Proofs.Client.Losses
import TraceRelay.Proofs.Client.Lifespan
import TraceRelay.Proofs.Client.Flow
import TraceRelay.Proofs.Client.Watch
import TraceRelay.Proofs.Client.Delivered
import TraceRelay.Proofs.Client.Limited
import TraceRelay.Proofs.Agent
import TraceRelay.Proofs.Codec.Delimited
import TraceRelay.Proofs.Pipe
import TraceRelay.Proofs.Session.Tally
