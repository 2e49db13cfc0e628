import Eventline.Lib.Machine
import Eventline.Buffer.Refine
import Eventline.Buffer.Vacancy
import Eventline.Journal
import Eventline.Replay.Forest
import Eventline.Replay.Cycles
import Eventline.Replay.Isolation
import Eventline.Replay.RenderTree
import Eventline.Replay.Conflicts
import Eventline.History
import Eventline.Replay.Legacy
import Eventline.Replay.Headers
import Eventline.Replay.Outcomes
import Eventline.Replay.Index
import Eventline.Replay.Merging
import Eventline.Writer.Recovery
import Eventline.Writer.Retry
import Eventline.Writer.Multi
import Eventline.Writer.Reports
import Eventline.Runtime.Flush
import Eventline.Runtime.Reconfigure
import Eventline.Runtime.Deadlock
import Eventline.Runtime.Unwinding
import Eventline.Runtime.AsyncExits
import Eventline.Runtime.Machine
import Eventline.Runtime.Context
import Eventline.Runtime.Enter
import Eventline.Runtime.Retention
import Eventline.Finality
import Eventline.CurrentScope
import Eventline.Runtime.Restore
import Eventline.Runtime.Logging
import Eventline.Runtime.RunHeader
import Eventline.Runtime.Recovery
import Eventline.Replay.CallTree
import Eventline.Runtime.Returns
import Eventline.Runtime.FastPath
import Eventline.Runtime.PostMortem
import Eventline.Replay.Journals
import Eventline.Replay.Reload
import Eventline.Upkeep
import Eventline.Replay.Compatible
import Eventline.Runtime.CallTrees
