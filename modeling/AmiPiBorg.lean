import AmiPiBorg.Lib.Loop
import AmiPiBorg.Lib.Chain
import AmiPiBorg.Lib.Bytes
import AmiPiBorg.Lib.EndAround
import AmiPiBorg.Lib.Frames
import AmiPiBorg.Lib.Runs
import AmiPiBorg.Lib.Keyed
import AmiPiBorg.Protocol.Pieces
import AmiPiBorg.Reader.Defs
import AmiPiBorg.Reader.Effects
import AmiPiBorg.Reader.Append
import AmiPiBorg.Reader.Turn
import AmiPiBorg.Reader.Receive
import AmiPiBorg.Reader.Layout
import AmiPiBorg.Reader.Stream
import AmiPiBorg.Reader.Progress
import AmiPiBorg.Reader.Arrive
import AmiPiBorg.Reader.Exact
import AmiPiBorg.Reader.Resync
import AmiPiBorg.Reader.Counts
import AmiPiBorg.Reader.Ends
import AmiPiBorg.Reader.Spans
import AmiPiBorg.Reader.Deletion
import AmiPiBorg.Reader.Waits
import AmiPiBorg.Reader.Leaks
import AmiPiBorg.Reader.Releases
import AmiPiBorg.Reader.Prompt
import AmiPiBorg.Remote.Defs
import AmiPiBorg.Remote.Bounds
import AmiPiBorg.Writer.Defs
import AmiPiBorg.Writer.Effects
import AmiPiBorg.Writer.Pools
import AmiPiBorg.Writer.Invariant
import AmiPiBorg.Writer.Alloc
import AmiPiBorg.Writer.Send
import AmiPiBorg.Writer.Transmit
import AmiPiBorg.Server.Defs
import AmiPiBorg.Server.Effects
import AmiPiBorg.Server.Accounts
import AmiPiBorg.Server.Books
import AmiPiBorg.Server.Link
import AmiPiBorg.Server.Traces
import AmiPiBorg.Server.Streams
import AmiPiBorg.Server.Resends
import AmiPiBorg.Server.Openings
import AmiPiBorg.Server.Ids
import AmiPiBorg.Server.Readers
import AmiPiBorg.Server.Sessions
import AmiPiBorg.Server.Ticks
import AmiPiBorg.Server.Timeouts
import AmiPiBorg.Server.Writes
import AmiPiBorg.Server.Outgoing
import AmiPiBorg.Server.Custody
import AmiPiBorg.Server.Receipts
import AmiPiBorg.Server.Control
import AmiPiBorg.Writer.Gaps
import AmiPiBorg.Writer.Alike
import AmiPiBorg.Writer.Stale
import AmiPiBorg.Stats.Sums
import AmiPiBorg.Log.Messages
import AmiPiBorg.Log.Numbers
import AmiPiBorg.Pool.Defs
import AmiPiBorg.Pool.Invariant
import AmiPiBorg.Pool.Teardown
import AmiPiBorg.Client.Defs
import AmiPiBorg.Client.Calls
import AmiPiBorg.Client.Abort
import AmiPiBorg.Fs.Names
import AmiPiBorg.Fs.Served
import AmiPiBorg.Fs.Writes
import AmiPiBorg.Fs.Reads
import AmiPiBorg.Fs.Errors
import AmiPiBorg.Fs.InFlight
import AmiPiBorg.Fs.Ownership
import AmiPiBorg.Fs.Replies
import AmiPiBorg.Fs.Locks
import AmiPiBorg.Fs.Pipeline
import AmiPiBorg.Fs.Ports
import AmiPiBorg.Fs.Exhaustion
import AmiPiBorg.System.Line
import AmiPiBorg.System.Host
import AmiPiBorg.Server.Stages
import AmiPiBorg.Remote.Driver
import AmiPiBorg.System.Plant
import AmiPiBorg.Writer.Teardown
import AmiPiBorg.System.Files
import AmiPiBorg.Fs.Mounts
