import NativePreferences.Lib.Program
import NativePreferences.Lib.Transition
import NativePreferences.Value
import NativePreferences.Os
import NativePreferences.XmlFile
import NativePreferences.XmlFileLoad
import NativePreferences.XmlFileSave
import NativePreferences.CrashConsistency
import NativePreferences.XmlFileFaults
import NativePreferences.XmlFileSaveFaults
import NativePreferences.Lib.Threads
import NativePreferences.Impl.Cache
import NativePreferences.Impl.Machine
import NativePreferences.Impl.FlushToken
import NativePreferences.Impl.Tracking
import NativePreferences.Impl.Coalescing
import NativePreferences.Impl.Durability
import NativePreferences.Impl.FlushSyncHonesty
import NativePreferences.Impl.Sequential
import NativePreferences.Impl.LateLoad
import NativePreferences.Impl.FailedWrite
import NativePreferences.Impl.PlainMap
import NativePreferences.Impl.DirtySet
import NativePreferences.Helper.Instances
import NativePreferences.Helper.Deletion
import NativePreferences.Helper.Backend
import NativePreferences.Impl.CriticalSections
import NativePreferences.Impl.Coupling
import NativePreferences.Impl.Atomicity
import NativePreferences.Enhance.Parcel
import NativePreferences.Enhance.PreferencesDb
import NativePreferences.Enhance.EnhanceImpl
import NativePreferences.Enhance.Truthful
import NativePreferences.Enhance.Refinement
import NativePreferences.Enhance.Processes
import NativePreferences.Enhance.Freshness
import NativePreferences.Enhance.Coherence
import NativePreferences.Xml.Base64
import NativePreferences.Lib.Binary
import NativePreferences.Lib.Numeral
import NativePreferences.Xml.Tree
import NativePreferences.Xml.Element
import NativePreferences.Xml.RoundTrip
import NativePreferences.Xml.Decimals
import NativePreferences.Xml.Denotation
import NativePreferences.Xml.Persistence
import NativePreferences.Xml.Reopen
import NativePreferences.Backends
import NativePreferences.Lib.Memory
import NativePreferences.Enhance.ParcelBuffer
import NativePreferences.Enhance.ParcelReader
import NativePreferences.Lib.Changes
import NativePreferences.Impl.Observers
import NativePreferences.Enhance.Observers
import NativePreferences.Helper.Registry
import NativePreferences.ExecutorPool.PriorityQueue
import NativePreferences.ExecutorPool.Pool
import NativePreferences.ExecutorPool.Machine
import NativePreferences.ExecutorPool.Places
import NativePreferences.ExecutorPool.TimerQueue
import NativePreferences.ExecutorPool.WorkerQueue
import NativePreferences.Lib.RecordLocks
import NativePreferences.FileLock
import NativePreferences.Entries
import NativePreferences.Helper.StoreFiles
import NativePreferences.Helper.Isolation
import NativePreferences.Lib.History
import NativePreferences.Impl.Replay
import NativePreferences.XmlFileErrno
import NativePreferences.Impl.DataSubscriptions
import NativePreferences.Impl.KeyObservers
import NativePreferences.Ndk.Convertor
import NativePreferences.Ndk.DataObservers
import NativePreferences.Ndk.MultiProcess
import NativePreferences.Ndk.SetGet
import NativePreferences.Ndk.GetAll
import NativePreferences.Xml.Base64Texts
import NativePreferences.Xml.Base64Safety
import NativePreferences.Enhance.Grd
import NativePreferences.Enhance.Scan
import NativePreferences.Enhance.MissingCollection
import NativePreferences.Enhance.Handles
import NativePreferences.Js.DataChange
import NativePreferences.ExecutorPool.QueueOperations
import NativePreferences.ExecutorPool.TaskPool
import NativePreferences.ExecutorPool.Tasks
import NativePreferences.ExecutorPool.SingleThread
import NativePreferences.ExecutorPool.Repetition
import NativePreferences.ExecutorPool.TaskIds
import NativePreferences.ExecutorPool.RemovalFinal
import NativePreferences.ExecutorPool.Progress
import NativePreferences.Lib.Search
import NativePreferences.LoggedNames
import NativePreferences.ExecutorPool.QueueInvariant
import NativePreferences.Lib.LinkedLists
import NativePreferences.ExecutorPool.PoolNodes
import NativePreferences.ExecutorPool.PoolLists
import NativePreferences.ExecutorPool.Destruction
import NativePreferences.ExecutorPool.DestructionInvariant
import NativePreferences.ExecutorPool.DestructionEnd
import NativePreferences.ExecutorPool.DestructionHang
import NativePreferences.Lib.Allocation
import NativePreferences.Cj.ValueTypes
import NativePreferences.Cj.Preferences
import NativePreferences.Ndk.Memory
import NativePreferences.Js.KeyChange
import NativePreferences.Js.KeyChangeBoard
import NativePreferences.Js.KeyChangeSound
import NativePreferences.Js.KeyChangeRuns
import NativePreferences.Direct.Subscriptions
