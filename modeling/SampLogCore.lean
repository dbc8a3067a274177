import SampLogCore.Lib.Transition
import SampLogCore.Lib.Loop
import SampLogCore.Watcher.Inotify
import SampLogCore.Watcher.EventLoop
import SampLogCore.Lib.Number
import SampLogCore.Debug.AmxDebugManager
import SampLogCore.Levels
import SampLogCore.Debug.PluginLogger
import SampLogCore.Debug.CallTrace
import SampLogCore.Rotation.LogDirectory
import SampLogCore.Rotation.SizeRotation
import SampLogCore.Rotation.Backups
import SampLogCore.Rotation.Listing
import SampLogCore.Rotation.Invariant
import SampLogCore.Rotation.History
import SampLogCore.LogManager.Process
import SampLogCore.LogManager.Drain
import SampLogCore.LogManager.Wakeup
import SampLogCore.Lib.Emitting
import SampLogCore.Lib.Locking
import SampLogCore.Config.Yaml
import SampLogCore.Config.Settings
import SampLogCore.Config.Document
import SampLogCore.Config.Hazards
import SampLogCore.Config.Rounds
import SampLogCore.Config.Warnings
import SampLogCore.Config.Rebuilding
import SampLogCore.Lifecycle.Library
import SampLogCore.Lifecycle.Effects
import SampLogCore.Lifecycle.WellFormed
import SampLogCore.Lifecycle.Loading
import SampLogCore.Lifecycle.Operations
import SampLogCore.Lifecycle.Runs
import SampLogCore.Lifecycle.Deadlock
import SampLogCore.Lifecycle.Atomicity
import SampLogCore.Lifecycle.Teardown
import SampLogCore.Lifecycle.Refresh
import SampLogCore.Lifecycle.Convergence
import SampLogCore.Lib.Retention
import SampLogCore.Lib.Decimal
import SampLogCore.Rotation.LocalTime
import SampLogCore.Rotation.DateRotation
import SampLogCore.Rotation.NewestBackups
import SampLogCore.Rotation.Calls
import SampLogCore.Rotation.DatedRuns
import SampLogCore.Rotation.QuietPeriods
import SampLogCore.Rotation.ChainRuns
import SampLogCore.Rotation.BackupBound
import SampLogCore.Rotation.SizeTrigger
import SampLogCore.Rotation.Throttle
import SampLogCore.LogManager.Counter
import SampLogCore.Lib.Debounce
import SampLogCore.Watcher.LastChange
import SampLogCore.Lib.Registry
import SampLogCore.Lifecycle.Registration
import SampLogCore.Lifecycle.Callbacks
import SampLogCore.Lifecycle.Shutdown
import SampLogCore.Config.TimeFormat
import SampLogCore.Lib.FormatString
import SampLogCore.Logger.Timestamp
import SampLogCore.Logger.Console
import SampLogCore.Config.FileSize
import SampLogCore.Config.SampConfigReader
import SampLogCore.Lib.Lookup
import SampLogCore.Debug.AddressLookup
import SampLogCore.Amx.Strings
import SampLogCore.Logger.NativeCall
import SampLogCore.Logger.Rendering
import SampLogCore.Lib.Slots
import SampLogCore.Rotation.Numbering
import SampLogCore.Rotation.Overwriting
import SampLogCore.Rotation.Strangers
import SampLogCore.Lib.Walk
import SampLogCore.Debug.FrameWalk
import SampLogCore.Lib.Fields
import SampLogCore.Config.Gamemodes
import SampLogCore.Lib.Folders
import SampLogCore.Logger.LogFolders
import SampLogCore.Lib.Records
import SampLogCore.Lib.Bytes
import SampLogCore.Debug.LoadInfo
import SampLogCore.Debug.Tables
import SampLogCore.Debug.DebugFile
import SampLogCore.Debug.LoadedLookup
import SampLogCore.Lib.Progress
import SampLogCore.LogManager.CrashHandler
import SampLogCore.Rotation.DateHistory
import SampLogCore.Lib.Footprints
import SampLogCore.Rotation.Round
import SampLogCore.Lib.Lines
import SampLogCore.Logger.LogOutput
import SampLogCore.Debug.DebugData
import SampLogCore.Logger.Delivery
import SampLogCore.Lib.Triples
import SampLogCore.Config.Written
import SampLogCore.Lib.Names
import SampLogCore.Lifecycle.ReadBack
import SampLogCore.Lifecycle.NormalForm
import SampLogCore.Lib.LockOrder
import SampLogCore.Lifecycle.Threads
import SampLogCore.Watcher.Notifications
import SampLogCore.Watcher.DirectoryChanges
import SampLogCore.LogManager.Completion
import SampLogCore.LogManager.CrashShutdown
import SampLogCore.LogManager.CrashHang
