import Gsd.Bytes
import Gsd.Disk
import Gsd.Layout
import Gsd.Handle
import Gsd.Names
import Gsd.NameIteration
import Gsd.Open
import Gsd.Accept
import Gsd.Write
import Gsd.Read
import Gsd.Run
import Gsd.Steps
import Gsd.Invariant
import Gsd.Preserve
import Gsd.Calls
import Gsd.Reach
import Gsd.Modes
import Gsd.Retry
import Gsd.Lookup
import Gsd.Footprint
import Gsd.Reopen
import Gsd.Sessions
import Gsd.Progress
import Gsd.Crash
