import PostgresV7.Lib.Bytes
import PostgresV7.Base
import PostgresV7.Page.Bufpage
import PostgresV7.Page.Fields
import PostgresV7.Page.Add
import PostgresV7.Page.Invariant
import PostgresV7.Page.Delete
import PostgresV7.Lib.Runs
import PostgresV7.Page.Repair
import PostgresV7.Page.Run
import PostgresV7.HeapTuple.Tupmacs
import PostgresV7.HeapTuple.Heaptuple
import PostgresV7.HeapTuple.Walk
import PostgresV7.HeapTuple.AttCache
import PostgresV7.HeapTuple.Fill
import PostgresV7.HeapTuple.Form
import PostgresV7.Dynahash.Dynahash
import PostgresV7.Dynahash.Invariant
import PostgresV7.Dynahash.Elements
import PostgresV7.Dynahash.Expand
import PostgresV7.Dynahash.Create
import PostgresV7.Dynahash.Refine
import PostgresV7.Aset.Aset
import PostgresV7.Aset.Invariant
import PostgresV7.Aset.Alloc
import PostgresV7.Aset.Free
import PostgresV7.Aset.Realloc
import PostgresV7.Aset.Run
import PostgresV7.Fd.Fd
import PostgresV7.Lib.Ring
import PostgresV7.Page.Packed
import PostgresV7.Shmem.Shmem
import PostgresV7.Dynahash.Frame
import PostgresV7.Buffer.BufInternals
import PostgresV7.Shmem.ShmemHash
import PostgresV7.Buffer.BufTable
import PostgresV7.Buffer.Freelist
import PostgresV7.Buffer.FreelistRun
import PostgresV7.Lib.Decimal
import PostgresV7.Smgr.Segment
import PostgresV7.Lib.TermGraph
import PostgresV7.Nodes.Equalfuncs
import PostgresV7.Nodes.Fields
import PostgresV7.Nodes.Routines
import PostgresV7.Nodes.Equality
import PostgresV7.Aset.Frame
import PostgresV7.Lib.Forest
import PostgresV7.Mctx.Mctx
import PostgresV7.Mctx.Tree
import PostgresV7.Mctx.Delete
import PostgresV7.Mctx.Reset
import PostgresV7.Mctx.Create
import PostgresV7.Mctx.Run
import PostgresV7.Shmem.ShmemIndex
import PostgresV7.Shmem.ShmemStruct
import PostgresV7.Shmem.ShmemRun
import PostgresV7.Fd.Lru
import PostgresV7.Fd.Slots
import PostgresV7.Fd.Evict
import PostgresV7.Fd.FdRun
import PostgresV7.Fd.Kernel
import PostgresV7.Page.Space
import PostgresV7.Page.Overwrite
import PostgresV7.HeapTuple.Bounds
import PostgresV7.HeapTuple.Modify
import PostgresV7.Dynahash.Asserts
import PostgresV7.Dynahash.Save
import PostgresV7.Dynahash.Destroy
import PostgresV7.Fd.Durable
import PostgresV7.Fd.Sim
import PostgresV7.Fd.Transfer
import PostgresV7.Fd.Own
import PostgresV7.Smgr.Md
import PostgresV7.Smgr.Commit
import PostgresV7.Smgr.Keeps
import PostgresV7.Fd.Drop
import PostgresV7.Fd.Trace
import PostgresV7.Smgr.Blind
import PostgresV7.Smgr.Fdvec
import PostgresV7.Fd.Narrow
import PostgresV7.Fd.Sync
import PostgresV7.Fd.Position
import PostgresV7.Dynahash.Seq
import PostgresV7.Dynahash.Hashfn
import PostgresV7.Lib.Spending
import PostgresV7.Dynahash.Estimate
import PostgresV7.Shmem.HashSize
import PostgresV7.Fd.Names
import PostgresV7.Fd.Xact
import PostgresV7.Nodes.PgList
import PostgresV7.Nodes.ListContents
import PostgresV7.Nodes.Append
import PostgresV7.Nodes.ListSets
import PostgresV7.Nodes.NodeSets
import PostgresV7.Lib.Descent
import PostgresV7.Nodes.Termination
import PostgresV7.Lib.Ledger
import PostgresV7.Aset.Debug
import PostgresV7.Aset.Erase
import PostgresV7.Aset.Marks
import PostgresV7.Aset.MarkedAlloc
import PostgresV7.Aset.MarkedFree
import PostgresV7.Aset.MarkedRealloc
import PostgresV7.Aset.Silent
import PostgresV7.Aset.MarkedReset
import PostgresV7.Aset.Session
import PostgresV7.Aset.Books
import PostgresV7.Aset.Stored
import PostgresV7.Mctx.Shared
import PostgresV7.Mctx.Apart
import PostgresV7.Mctx.Contains
import PostgresV7.Lib.Stacks
import PostgresV7.Ipc.OnExit
import PostgresV7.Ipc.ProcExit
import PostgresV7.Shmem.Shmqueue
import PostgresV7.Shmem.ShmqueueRun
import PostgresV7.Strings.Stringinfo
import PostgresV7.Strings.StringinfoRun
import PostgresV7.Strings.StringinfoLimit
import PostgresV7.Lib.Pieces
import PostgresV7.Trace.Trace
import PostgresV7.Trace.Options
import PostgresV7.Trace.Items
import PostgresV7.Trace.Comments
import PostgresV7.Trace.PgOptions
import PostgresV7.Tupdesc.Tupdesc
import PostgresV7.Lib.BlockHeap
import PostgresV7.Tupdesc.Blocks
import PostgresV7.Tupdesc.Copy
import PostgresV7.Tupdesc.Free
import PostgresV7.Database.ExpandPath
import PostgresV7.Database.RawInfo
import PostgresV7.Lib.Links
import PostgresV7.Dllist.Dllist
import PostgresV7.Dllist.Writes
import PostgresV7.Dllist.Sequences
import PostgresV7.Dllist.DllistRun
import PostgresV7.Oset.Oset
import PostgresV7.Oset.Sequences
import PostgresV7.Oset.OsetRun
import PostgresV7.Aset.Carve
import PostgresV7.Dynahash.Rehash
import PostgresV7.Dynahash.Consistent
import PostgresV7.Lib.Blocks
import PostgresV7.Smgr.Relation
import PostgresV7.Smgr.Walk
import PostgresV7.Smgr.Count
import PostgresV7.Smgr.Array
import PostgresV7.Smgr.Truncate
import PostgresV7.Smgr.ArrayRun
import PostgresV7.Smgr.Unlink
import PostgresV7.Smgr.History
import PostgresV7.Fd.Honest
import PostgresV7.Fd.Tracks
import PostgresV7.Fd.Alike
import PostgresV7.Fd.GivenUp
import PostgresV7.Smgr.Failing
import PostgresV7.Smgr.Asked
import PostgresV7.Smgr.Alike
import PostgresV7.Smgr.FailedExtend
import PostgresV7.Lib.Owned
import PostgresV7.Lib.Threads
import PostgresV7.Lib.Critical
import PostgresV7.Ipc.SysV
import PostgresV7.Ipc.Create
import PostgresV7.Ipc.Protocol
import PostgresV7.Ipc.Local
import PostgresV7.Ipc.CreateSemaphores
import PostgresV7.Ipc.Recycle
import PostgresV7.Ipc.CreateMemory
import PostgresV7.Ipc.CreateRun
import PostgresV7.Ipc.SemaphoreLock
import PostgresV7.Locks.Slock
import PostgresV7.HeapTuple.Copy
import PostgresV7.Smgr.StoredTuple
import PostgresV7.Page.Temp
import PostgresV7.Buffer.BufLookup
import PostgresV7.Shmem.ShmemPid
import PostgresV7.Cache.Catcache
import PostgresV7.Lib.Chunks
import PostgresV7.Mctx.Store
import PostgresV7.Nodes.ListChanges
import PostgresV7.Nodes.ListRun
import PostgresV7.Fstack.Fstack
import PostgresV7.Fstack.FstackRun
import PostgresV7.Tupdesc.DescRun
