import Libcplus.Transition
import Libcplus.SpinLock
import Libcplus.TaskPool
import Libcplus.Bytes
import Libcplus.Memory
import Libcplus.Transducer
import Libcplus.Ipc.Packet
import Libcplus.Ipc.Parser
import Libcplus.Ipc.Safety
import Libcplus.Ipc.Stream
import Libcplus.Ipc.Decode
import Libcplus.Ipc.Stale
import Libcplus.Ipc.Client
import Libcplus.Ipc.Late
import Libcplus.DoublyLinked
import Libcplus.BubbleSort
import Libcplus.Sequence
import Libcplus.Llist.Model
import Libcplus.Llist.Represents
import Libcplus.Llist.Edits
import Libcplus.Llist.Loops
import Libcplus.Llist.Calls
import Libcplus.Llist.Refines
import Libcplus.Llist.Session
import Libcplus.Llist.Frame
import Libcplus.Llist.Sorting
import Libcplus.Llist.Lookups
import Libcplus.Llist.Removal
import Libcplus.BlockPool
import Libcplus.Mempool
import Libcplus.MempoolIndex
import Libcplus.Llist.Pooled
import Libcplus.Llist.Twins
import Libcplus.TaskBlocks
import Libcplus.Typedef
import Libcplus.History
import Libcplus.Pevent
import Libcplus.Task
import Libcplus.Rwlock
import Libcplus.SinglyLinked
import Libcplus.Memmgr
import Libcplus.Ledger
import Libcplus.Syslog
import Libcplus.Ipc.Server
import Libcplus.Ipc.Accounting
import Libcplus.Ipc.Oversized
import Libcplus.Ipc.Resync
import Libcplus.Ipc.Blocking
import Libcplus.Ipc.Response
import Libcplus.Ipc.Construction
import Libcplus.Ipc.Termination
import Libcplus.Systime
import Libcplus.Ipc.Deadline
import Libcplus.Program
import Libcplus.Integers
import Libcplus.Decimal
import Libcplus.Data.Model
import Libcplus.Data.Accessors
import Libcplus.Data.Discipline
import Libcplus.Data.RoundTrip
import Libcplus.Data.Reached
import Libcplus.Data.Storage
import Libcplus.Data.Clone
import Libcplus.Data.Setters
import Libcplus.Data.Overwrite
import Libcplus.Data.Export
import Libcplus.Data.Getters
import Libcplus.Data.Terminated
import Libcplus.Data.Keys
import Libcplus.KeyTable
import Libcplus.KeyedList
import Libcplus.KeyedValues
import Libcplus.Linearization
import Libcplus.Llist.Shared
import Libcplus.Llist.Readers
import Libcplus.Names
import Libcplus.EventServer
import Libcplus.Descriptors
import Libcplus.Sharedmem
import Libcplus.LocalSocket
import Libcplus.Files
import Libcplus.Exchange
import Libcplus.Ipc.Dialogue
import Libcplus.Ipc.Channel
import Libcplus.Ipc.Agreement
import Libcplus.Ipc.Rounds
import Libcplus.Ipc.Heartbeat
import Libcplus.Ipc.ServerConstruction
import Libcplus.Segments
import Libcplus.Semaphore
import Libcplus.SemaphoreNames
import Libcplus.TaskCycle
import Libcplus.EventConstruction
import Libcplus.EventSync
import Libcplus.RandomAccess
import Libcplus.FileData
import Libcplus.SyncConstruction
import Libcplus.SharedNames
