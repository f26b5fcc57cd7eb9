import Zinzhi.Interact
import Zinzhi.HaNode
import Zinzhi.HaRemote
import Zinzhi.HaController
import Zinzhi.HaReconcile
import Zinzhi.HaStartup
import Zinzhi.Coordinate
import Zinzhi.Dates
import Zinzhi.HaFailover
import Zinzhi.DateAssign
import Zinzhi.ConnQueue
import Zinzhi.EventCalendar
import Zinzhi.Lines
import Zinzhi.Rio
import Zinzhi.Relay
import Zinzhi.DateMutators
import Zinzhi.HaVips
import Zinzhi.Cells
import Zinzhi.GrowVector
import Zinzhi.FixedVector
import Zinzhi.LinkRing
import Zinzhi.LinkedList
import Zinzhi.LinkedListShape
import Zinzhi.LinkedListPrograms
import Zinzhi.IntMatrix
import Zinzhi.GcfReaders
import Zinzhi.FillDb
import Zinzhi.ClassLoading
import Zinzhi.JarResources
import Zinzhi.Delegation
import Zinzhi.ClassSync
import Zinzhi.EventUndo
import Zinzhi.WeekDay
import Zinzhi.MonthShift
import Zinzhi.HaRecognition
import Zinzhi.HeaderLoop
import Zinzhi.ParseUri
import Zinzhi.VipLabels
import Zinzhi.VectorSort
import Zinzhi.VectorAlias
import Zinzhi.ListFill
import Zinzhi.MatrixProduct
import Zinzhi.MatrixInput
import Zinzhi.GcfMembers
import Zinzhi.GcfRecords
import Zinzhi.JarCollision
import Zinzhi.ClassFolder
import Zinzhi.StableSort
import Zinzhi.LoaderOrder
import Zinzhi.InterfaceAddrs
import Zinzhi.BoundaryTags
import Zinzhi.Chains
import Zinzhi.Clients
import Zinzhi.Counting
import Zinzhi.Db
import Zinzhi.DbFormat
import Zinzhi.DbRuns
import Zinzhi.FooTable
import Zinzhi.FooTableRuns
import Zinzhi.MmAlloc
import Zinzhi.MmCalls
import Zinzhi.MmCheck
import Zinzhi.MmRuns
import Zinzhi.Monitors
import Zinzhi.MsgQueue
import Zinzhi.MsgQueueRuns
import Zinzhi.RwLock
import Zinzhi.SharedBuffer
