import Lkm.BaseRuns
import Lkm.BasePageTable
import Lkm.BasePageLoop
import Lkm.BasePageTrace
import Lkm.BaseHeapList
import Lkm.BaseBuffer
import Lkm.BaseFormat
import Lkm.BaseScan
import Lkm.BaseQueue
import Lkm.BaseSemaphore
import Lkm.BaseMemory
import Lkm.BaseChrdev
import Lkm.BaseTimer
import Lkm.BaseTreeWalk
import Lkm.BaseTreeCheck
import Lkm.BaseTreeLabel
import Lkm.BaseLedger
import Lkm.BaseDispatch
import Lkm.BaseRelay
import Lkm.BaseAccounts
import Lkm.SchedModel
import Lkm.SchedCounters
import Lkm.WssModel
import Lkm.WssIntegrity
import Lkm.WssRounds
import Lkm.WssCoverage
import Lkm.WssRemark
import Lkm.WssUnload
import Lkm.RssModel
import Lkm.RssCount
import Lkm.RssSamplers
import Lkm.PageWalks
import Lkm.CharModel
import Lkm.CharStream
import Lkm.CharLocks
import Lkm.CharHead
import Lkm.CharCounts
import Lkm.ShmModel
import Lkm.ShmLifetime
import Lkm.ShmLock
import Lkm.ShmCount
import Lkm.ShmStores
import Lkm.ShmUnload
import Lkm.TttModel
import Lkm.TttQueue
import Lkm.TttProc
import Lkm.ProdModel
import Lkm.ProdAgree
import Lkm.ProdBuffer
import Lkm.FdModel
import Lkm.FdSearch
import Lkm.FdOutput
import Lkm.AreaModel
import Lkm.AreaLeak
import Lkm.RemapModel
import Lkm.RemapBounds
import Lkm.RemapOffset
import Lkm.RemapReserve
import Lkm.WalkModel
import Lkm.WalkPrinted
import Lkm.HelloModel
import Lkm.HelloPages
import Lkm.TaskModel
import Lkm.TaskReport
import Lkm.TaskLinks
import Lkm.TimerModel
import Lkm.TimerUnload
import Lkm.CoreModel
import Lkm.CoreGroups
import Lkm.CorePolicy
import Lkm.CoreDomains
import Lkm.CoreMachine
import Lkm.CoreSteps
import Lkm.CorePrio
import Lkm.CoreDl
import Lkm.CoreBalance
import Lkm.CoreCapacity
import Lkm.CoreRt
import Lkm.CoreStarve
import Lkm.CoreCfs
import Lkm.CorePrivilege
import Lkm.RunqModel
import Lkm.RunqInv
import Lkm.RunqSteps
import Lkm.RunqPlaces
import Lkm.RunqWakes
import Lkm.RunqLocks
import Lkm.RunqWatch
import Lkm.RunqRuns
import Lkm.RunqCounts
import Lkm.RunqProgress
