import HardwareInterfaces.Lib.StdList
import HardwareInterfaces.Lib.StdString
import HardwareInterfaces.Lib.Lru
import HardwareInterfaces.Suspend.WakeupList
import HardwareInterfaces.Suspend.WakeupCounts
import HardwareInterfaces.Suspend.WakeLockEntryList
import HardwareInterfaces.Suspend.WakeLockLru
import HardwareInterfaces.Suspend.HoldTimes
import HardwareInterfaces.Suspend.EntryLives
import HardwareInterfaces.Suspend.StatsReads
import HardwareInterfaces.Lib.Directory
import HardwareInterfaces.Suspend.KernelWakelocks
import HardwareInterfaces.Suspend.SuspendStats
import HardwareInterfaces.Suspend.SamePolicy
import HardwareInterfaces.Suspend.SleepTime
import HardwareInterfaces.Suspend.Backoff
import HardwareInterfaces.Suspend.SuspendSummary
import HardwareInterfaces.Lib.History
import HardwareInterfaces.Lib.Monitor
import HardwareInterfaces.Lib.LockOrder
import HardwareInterfaces.Lib.Timed
import HardwareInterfaces.Lib.Lines
import HardwareInterfaces.Suspend.WakeupReasons
import HardwareInterfaces.Suspend.ControlService
import HardwareInterfaces.Lib.StdMap
import HardwareInterfaces.Suspend.Registrations
import HardwareInterfaces.Suspend.Threads
import HardwareInterfaces.Suspend.Service
import HardwareInterfaces.Lib.Duty
import HardwareInterfaces.Suspend.DumpSections
import HardwareInterfaces.Suspend.Effects
import HardwareInterfaces.Suspend.FurtherEffects
import HardwareInterfaces.Suspend.LockDiscipline
import HardwareInterfaces.Suspend.ReasonsSource
import HardwareInterfaces.Suspend.StatsOrder
import HardwareInterfaces.Suspend.CallbackLists
import HardwareInterfaces.Suspend.FailedRegistrations
import HardwareInterfaces.Suspend.DeadCallbacks
import HardwareInterfaces.Suspend.AutosuspendThread
import HardwareInterfaces.Suspend.WakeLocks
import HardwareInterfaces.Lib.Rounds
import HardwareInterfaces.Suspend.WakeLockRounds
import HardwareInterfaces.Suspend.WakeLockNotifications
import HardwareInterfaces.Suspend.Accounting
import HardwareInterfaces.Suspend.BlockingModes
import HardwareInterfaces.Suspend.SafeSuspend
import HardwareInterfaces.Suspend.Handshake
import HardwareInterfaces.Suspend.Notifications
import HardwareInterfaces.Suspend.Shutdown
import HardwareInterfaces.Suspend.Attempts
import HardwareInterfaces.Suspend.LoopPoints
import HardwareInterfaces.Suspend.Announcements
import HardwareInterfaces.Suspend.LoopCycles
import HardwareInterfaces.Suspend.SleepCycles
import HardwareInterfaces.Suspend.EmptyReads
import HardwareInterfaces.Suspend.ActiveEntries
import HardwareInterfaces.Suspend.WakeupKeys
import HardwareInterfaces.Lib.HexNumber
import HardwareInterfaces.Lib.Chunks
import HardwareInterfaces.Keystore.CertConversion
import HardwareInterfaces.Keystore.KeyDescriptor
import HardwareInterfaces.Lib.Traced
import HardwareInterfaces.Keystore.Requests
import HardwareInterfaces.Keystore.GrantAliases
import HardwareInterfaces.Keystore.StatusCodes
import HardwareInterfaces.Lib.Machine
import HardwareInterfaces.Suspend.PowerManager
import HardwareInterfaces.Suspend.Refinement
import HardwareInterfaces.Suspend.Answers
import HardwareInterfaces.Suspend.WakeupEvents
import HardwareInterfaces.Lib.Progress
import HardwareInterfaces.Suspend.Progress
import HardwareInterfaces.Lib.Protocol
import HardwareInterfaces.Keystore.Sessions
import HardwareInterfaces.Lib.Ostream
import HardwareInterfaces.Suspend.WakeLockTable
import HardwareInterfaces.Suspend.StatsSnapshot
import HardwareInterfaces.Suspend.SuspendReport
import HardwareInterfaces.Suspend.Fallback
import HardwareInterfaces.Lib.Inevitable
import HardwareInterfaces.Suspend.Liveness
