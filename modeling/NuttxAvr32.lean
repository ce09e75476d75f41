import NuttxAvr32.Lib.ByteMemory
import NuttxAvr32.Lib.Linked
import NuttxAvr32.Lib.Runs
import NuttxAvr32.Mm.Internal
import NuttxAvr32.Mm.Allocator
import NuttxAvr32.Mm.Tiling
import NuttxAvr32.Mm.NodeList
import NuttxAvr32.Mm.Layout
import NuttxAvr32.Mm.Site
import NuttxAvr32.Mm.Malloc
import NuttxAvr32.Mm.Free
import NuttxAvr32.Mm.Shrink
import NuttxAvr32.Mm.Extend
import NuttxAvr32.Mm.Realloc
import NuttxAvr32.Mm.Edit
import NuttxAvr32.Mm.Effect
import NuttxAvr32.Mm.Memalign
import NuttxAvr32.Mm.Regions
import NuttxAvr32.Mm.Walk
import NuttxAvr32.Mm.Calls
import NuttxAvr32.Mm.HeapTiling
import NuttxAvr32.Lib.Keyed
import NuttxAvr32.Mm.BestFit
import NuttxAvr32.Mm.Isolation
import NuttxAvr32.Sched.Kernel
import NuttxAvr32.Sched.Wf
import NuttxAvr32.Sched.Moves
import NuttxAvr32.Lib.Delta
import NuttxAvr32.Wdog.Wdog
import NuttxAvr32.Wdog.Timers
import NuttxAvr32.Wdog.TimerMap
import NuttxAvr32.Lib.Owners
import NuttxAvr32.Lib.Apart
import NuttxAvr32.Mqueue.Lifetime
import NuttxAvr32.Sched.Steps
import NuttxAvr32.Sched.Priority
import NuttxAvr32.Sched.Lifecycle
import NuttxAvr32.Sched.Runs
import NuttxAvr32.Sched.ProcessIds
import NuttxAvr32.Sched.LockOwner
import NuttxAvr32.Sig.Runs
import NuttxAvr32.Sig.Actions
import NuttxAvr32.Sig.Deliver
import NuttxAvr32.Sig.Ledger
import NuttxAvr32.Sig.Unblock
import NuttxAvr32.Sig.Pools
import NuttxAvr32.Mqueue.Messages
import NuttxAvr32.Sched.LockHonoured
import NuttxAvr32.Sched.Waiting
import NuttxAvr32.Mqueue.Waiters
import NuttxAvr32.Mqueue.Delivery
import NuttxAvr32.Mqueue.Notify
import NuttxAvr32.Sem.Semaphore
import NuttxAvr32.Sem.Counting
import NuttxAvr32.Sem.Holders
import NuttxAvr32.Pthread.Mutex
import NuttxAvr32.Pthread.Once
import NuttxAvr32.Pthread.Ownership
import NuttxAvr32.Pthread.Condvar
import NuttxAvr32.Pthread.Barrier
import NuttxAvr32.Sem.Accounting
import NuttxAvr32.Fat.OpenFiles
import NuttxAvr32.Fat.Format
import NuttxAvr32.Fat.Endian
import NuttxAvr32.Inode.Lifetime
import NuttxAvr32.Lib.Overlay
import NuttxAvr32.Lib.LittleEndian
import NuttxAvr32.Mtd.Ftl
import NuttxAvr32.Sem.Named
import NuttxAvr32.Can.RemoteRequest
import NuttxAvr32.Env.Environ
import NuttxAvr32.Inode.Descriptors
import NuttxAvr32.Inode.Streams
import NuttxAvr32.Mm.HeapLock
import NuttxAvr32.Mtd.RwBuffer
import NuttxAvr32.Wdog.PosixTimers
import NuttxAvr32.Can.Fifo
import NuttxAvr32.Can.Messages
import NuttxAvr32.Sched.Deletion
import NuttxAvr32.Sched.Mergepending
import NuttxAvr32.Sched.Links
import NuttxAvr32.Sched.LinkMoves
import NuttxAvr32.Sched.LinkSteps
import NuttxAvr32.Sched.LinkRuns
import NuttxAvr32.Sem.Reprio
import NuttxAvr32.Sig.Timedwait
import NuttxAvr32.Lib.Bracket
import NuttxAvr32.Sched.LockBalance
import NuttxAvr32.Mm.Sizes
import NuttxAvr32.Mm.Aligned
import NuttxAvr32.Bch.CharView
import NuttxAvr32.Bch.Faulty
import NuttxAvr32.Drivers.Pipe
import NuttxAvr32.Drivers.PipePoll
import NuttxAvr32.Drivers.Serial
import NuttxAvr32.Drivers.Loop
import NuttxAvr32.Stdio.Buffered
import NuttxAvr32.Lib.Civil
import NuttxAvr32.Time.Clock
import NuttxAvr32.Time.Calendar
import NuttxAvr32.Time.Gregorian
import NuttxAvr32.Time.Schedule
import NuttxAvr32.Sched.WorkQueue
import NuttxAvr32.Lib.Packed
import NuttxAvr32.Fat.Entries
import NuttxAvr32.Fat.BootRecord
import NuttxAvr32.Fat.Names
import NuttxAvr32.Fat.Chains
import NuttxAvr32.Lib.Holding
import NuttxAvr32.Mtd.RwSemaphores
import NuttxAvr32.Stdio.StreamLock
import NuttxAvr32.Fat.File
import NuttxAvr32.Fat.FileLock
import NuttxAvr32.Drivers.Balance
import NuttxAvr32.Fat.Directory
import NuttxAvr32.Fat.Sync
import NuttxAvr32.Fat.Scan
import NuttxAvr32.Fat.Allocate
import NuttxAvr32.Fat.Readdir
import NuttxAvr32.Fat.FreeCount
import NuttxAvr32.Fat.Frame
import NuttxAvr32.Fat.Lookup
import NuttxAvr32.Fat.PathCalls
import NuttxAvr32.Fat.Creation
import NuttxAvr32.Fat.Paths
import NuttxAvr32.Poll.Poll
import NuttxAvr32.Poll.Select
import NuttxAvr32.Libc.Getopt
import NuttxAvr32.Lib.Numerals
import NuttxAvr32.Libc.Vsprintf
import NuttxAvr32.Libc.Specifications
import NuttxAvr32.Libc.StandardFormats
import NuttxAvr32.Libc.Snprintf
import NuttxAvr32.Libc.Strtol
import NuttxAvr32.Libc.Fixedmath
import NuttxAvr32.Libc.Queue
import NuttxAvr32.Lib.Fields
import NuttxAvr32.Mmcsd.Csd
import NuttxAvr32.Sched.RoundRobin
import NuttxAvr32.Nsh.Test
import NuttxAvr32.Libc.Qsort
import NuttxAvr32.Libc.Memmove
import NuttxAvr32.Libc.Crc32
import NuttxAvr32.Binfmt.Symtab
