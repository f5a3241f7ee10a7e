import Xfront.Callbacks.Survive
import Xfront.Colormap.Freeing
import Xfront.Crossing.Keyboards
import Xfront.Crossing.Pointers
import Xfront.EventQueue.Times
import Xfront.Events.Buttons
import Xfront.Events.Limit
import Xfront.Events.Valuators
import Xfront.Glyphs.Composite
import Xfront.Grabs.Indices
import Xfront.Handlers.Exact
import Xfront.HashTable.Table
import Xfront.Input.Isolation
import Xfront.Modmap.Change
import Xfront.Monitors.Runs
import Xfront.Namespace.Answers
import Xfront.Namespace.Tokens
import Xfront.Output.Integrity
import Xfront.Privates.Shared
import Xfront.Property.Changes
import Xfront.Randr.Reads
import Xfront.Randr.Runs
import Xfront.Record.Followed
import Xfront.Record.Framing
import Xfront.Record.Sent
import Xfront.Region.Append
import Xfront.Region.Bitmap
import Xfront.Region.Rects
import Xfront.Resource.Destruction
import Xfront.Resource.UnusedIDs
import Xfront.Rpcbuf.Writes
import Xfront.Selections.Times
import Xfront.Swap.Built
import Xfront.Sync.AlarmRuns
import Xfront.Sync.Brackets
import Xfront.Sync.Rejected
import Xfront.Timers.Runs
import Xfront.Touch.Grabs
import Xfront.Touch.Sequences
import Xfront.XIProperty.Reads
import Xfront.Xkb.CompatMaps
import Xfront.Xkb.Recorded
import Xfront.Xkb.Resolved
import Xfront.Xkb.State
import Xfront.Xkm.ReadFile
