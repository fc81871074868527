import CddDriver.Device
import CddDriver.Lib.LockTrace
import CddDriver.Lib.Machine
import CddDriver.FileOps
import CddDriver.OpSpec
import CddDriver.Load
import CddDriver.System
import CddDriver.Loaded
import CddDriver.Invariant
import CddDriver.Representation
import CddDriver.Unload
import CddDriver.Ownership
import CddDriver.AppendMode
import CddDriver.FailedLoad
import CddDriver.Reopen
import CddDriver.Calls
import CddDriver.Lib.Sync
import CddDriver.Concurrent
import CddDriver.WakeUp
import CddDriver.Serial
import CddDriver.Alike
import CddDriver.Contention
import CddDriver.UserCopies
import CddDriver.Files
import CddDriver.FailedOpen
import CddDriver.OpenPost
import CddDriver.BlockedOpen
import CddDriver.ProcTree
import CddDriver.ProcSessions
import CddDriver.Chunks
import CddDriver.Lib.SeqFile
import CddDriver.Myps
import CddDriver.UsageReports
import CddDriver.UsageStrings
import CddDriver.UsageTexts
import CddDriver.WideOffsets
import CddDriver.WriteEffects
import CddDriver.FilePosition
import CddDriver.OpenCount
import CddDriver.ProcWrites
import CddDriver.ContainedWrites
import CddDriver.LongWrites
import CddDriver.ProcReadOut
import CddDriver.ProcReports
import CddDriver.Lib.Kstrtox
import CddDriver.MypsWrites
import CddDriver.Lib.Custody
import CddDriver.MypsRounds
import CddDriver.MypsSafety
import CddDriver.MypsHandover
import CddDriver.Isolation
import CddDriver.Lib.Client
import CddDriver.Lib.Store
import CddDriver.Lib.Trace
import CddDriver.Stores
import CddDriver.StoreRefinement
import CddDriver.Readback
import CddDriver.Durability
import CddDriver.Extent
import CddDriver.Linearised
import CddDriver.Progress
import CddDriver.Completion
import CddDriver.Lib.Decimal
import CddDriver.MypsDecimal
import CddDriver.Refusals
