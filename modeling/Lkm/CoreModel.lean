import Lkm.BaseTreeWalk
import Mathlib.Data.BitVec
import Mathlib.Data.Fintype.Defs

/-! The control plane of the scheduler in `assg4/core.c`: tasks with their policies and priorities,
the tree of task groups with its bandwidth, the deadline bandwidth of the root domains and the
sysctl variables. The kernel is configured with `CONFIG_SMP`, `CONFIG_RT_GROUP_SCHED`,
`CONFIG_CFS_BANDWIDTH` and without autogroups. Run queues appear only through the tasks that they
name; what the functions of a scheduling class do with them is not part of `core.c`. -/

namespace Lkm.Core

/-! ### Priorities and policies -/

def maxDlPrio : Int := 0
def maxRtPrio : Int := 100
def maxUserRtPrio : Int := 100
def maxPrio : Int := 140
def minNice : Int := -20
def maxNice : Int := 19

def niceToPrio (nice : Int) : Int := nice + 120
def prioToNice (prio : Int) : Int := prio - 120

def dlPrio (prio : Int) : Bool := prio < maxDlPrio
def rtPrio (prio : Int) : Bool := prio < maxRtPrio

def schedNormal : Int := 0
def schedFifo : Int := 1
def schedRr : Int := 2
def schedBatch : Int := 3
def schedIdle : Int := 5
def schedDeadline : Int := 6

def dlPolicy (policy : Int) : Bool := policy = schedDeadline
def rtPolicy (policy : Int) : Bool := policy = schedFifo || policy = schedRr
def fairPolicy (policy : Int) : Bool := policy = schedNormal || policy = schedBatch

inductive SchedClass where
  | stop
  | dl
  | rt
  | fair
  | idle
  deriving DecidableEq

/-! ### Bandwidth -/

/-- `RUNTIME_INF`, all ones. -/
def runtimeInf : BitVec 64 := BitVec.allOnes 64

def nsecPerUsec : BitVec 64 := 1000

def toRatio (period runtime : BitVec 64) : BitVec 64 :=
  if runtime = runtimeInf then 1#64 <<< 20
  else if period = 0 then 0
  else (runtime <<< 20) / period

structure DlBw where
  bw : BitVec 64
  totalBw : BitVec 64
  deriving DecidableEq

def dlClear (b : DlBw) (taskBw : BitVec 64) : DlBw := { b with totalBw := b.totalBw - taskBw }

def dlAdd (b : DlBw) (taskBw : BitVec 64) : DlBw := { b with totalBw := b.totalBw + taskBw }

def dlOverflows (b : DlBw) (cpus : Nat) (oldBw newBw : BitVec 64) : Bool :=
  b.bw ≠ -1 && decide (b.bw * BitVec.ofNat 64 cpus < b.totalBw - oldBw + newBw)

/-! ### The state -/

abbrev TaskPtr := Nat
abbrev TgPtr := Nat

/-- A root domain stands for the object: its address may serve another one after it is freed. -/
abbrev RdPtr := Nat

abbrev CpuMask (n : Nat) := Fin n → Bool

/-- `struct sched_dl_entity`, without the fields of a running instance. -/
structure DlEntity where
  dlRuntime : BitVec 64
  dlDeadline : BitVec 64
  dlPeriod : BitVec 64
  flags : BitVec 64
  dlBw : BitVec 64
  dlThrottled : Bool
  dlNew : Bool
  dlYielded : Bool
  dlBoosted : Bool
  deriving DecidableEq

structure Task (n : Nat) where
  policy : Int
  prio : Int
  staticPrio : Int
  normalPrio : Int
  rtPriority : Nat
  schedClass : SchedClass
  schedResetOnFork : Bool
  dl : DlEntity
  /-- Whether `mm` is not `NULL`. -/
  mm : Bool
  /-- `PF_KTHREAD`. -/
  kthread : Bool
  cpu : Fin n
  cpusAllowed : CpuMask n
  schedTaskGroup : TgPtr

/-- The threads that `for_each_process_thread` finds, and the tasks that the run queues name. -/
structure Tasks (n : Nat) where
  task : TaskPtr → Task n
  threads : List TaskPtr
  stop : Fin n → Option TaskPtr
  idle : Fin n → Option TaskPtr

/-- `ktime_t` is a 64-bit count of nanoseconds, so `ns_to_ktime` and `ktime_to_ns` change nothing. -/
structure RtBandwidth where
  rtPeriod : BitVec 64
  rtRuntime : BitVec 64

structure CfsBandwidth where
  period : BitVec 64
  quota : BitVec 64
  hierarchicalQuota : BitVec 64

structure TaskGroup (n : Nat) where
  rtBandwidth : RtBandwidth
  /-- `rt_rq[i]->rt_runtime`. -/
  rtRqRuntime : Fin n → BitVec 64
  cfsBandwidth : CfsBandwidth

/-- The task groups, with the links of their tree and the list `task_groups`. -/
structure Groups (n : Nat) where
  tg : TgPtr → TaskGroup n
  links : TreeWalk.Links TgPtr
  taskGroups : List TgPtr

/-- `&root_task_group`. -/
def rootTaskGroup : TgPtr := 0

structure Sysctl where
  schedRtPeriod : BitVec 32
  schedRtRuntime : BitVec 32
  defRtBandwidth : RtBandwidth
  /-- `dl_period` and `dl_runtime` of `def_dl_bandwidth`. -/
  defDlPeriod : BitVec 64
  defDlRuntime : BitVec 64

/-- An entry of `doms_cur` with its entry of `dattr_cur`, the default one where that is `NULL`. -/
structure SchedDom (n : Nat) where
  cpuMap : CpuMask n
  relaxDomainLevel : Int
  deriving DecidableEq

/-- The root domain of each run queue, their bandwidth, the masks `cpu_active_mask` and
`cpu_isolated_map`, and the current scheduling domains. -/
structure Domains (n : Nat) where
  rd : Fin n → RdPtr
  dlBw : RdPtr → DlBw
  active : CpuMask n
  isolated : CpuMask n
  domsCur : List (SchedDom n)
  numCpusFrozen : Int

structure State (n : Nat) where
  tasks : Tasks n
  groups : Groups n
  sysctl : Sysctl
  domains : Domains n

variable {n : Nat}

/-! ### Reading the state -/

def Tasks.set (ts : Tasks n) (p : TaskPtr) (t : Task n) : Tasks n :=
  { ts with task := Function.update ts.task p t }

def Domains.setDlBw (d : Domains n) (rd : RdPtr) (b : DlBw) : Domains n :=
  { d with dlBw := Function.update d.dlBw rd b }

def globalRtPeriod (c : Sysctl) : BitVec 64 := c.schedRtPeriod.setWidth 64 * nsecPerUsec

def globalRtRuntime (c : Sysctl) : BitVec 64 :=
  if c.schedRtRuntime.toInt < 0 then runtimeInf else c.schedRtRuntime.setWidth 64 * nsecPerUsec

def rtBandwidthEnabled (c : Sysctl) : Bool := 0 ≤ c.schedRtRuntime.toInt

def dlBandwidthEnabled (c : Sysctl) : Bool := 0 ≤ c.schedRtRuntime.toInt

def dlBwOf (d : Domains n) (cpu : Fin n) : DlBw := d.dlBw (d.rd cpu)

/-- `rd->span`: `rq_attach_root` keeps a CPU in the span of the domain of its run queue. -/
def Domains.span (d : Domains n) (rd : RdPtr) (cpu : Fin n) : Bool := d.rd cpu = rd

def dlBwCpus (d : Domains n) (cpu : Fin n) : Nat :=
  (List.finRange n).countP fun c => d.span (d.rd cpu) c && d.active c

def Task.taskNice (t : Task n) : Int := prioToNice t.staticPrio

def Task.dlTask (t : Task n) : Bool := dlPrio t.prio
def Task.rtTask (t : Task n) : Bool := rtPrio t.prio

def Task.hasDlPolicy (t : Task n) : Bool := dlPolicy t.policy
def Task.hasRtPolicy (t : Task n) : Bool := rtPolicy t.policy

/-! ### Priorities of a task -/

/-- `__normal_prio`. -/
def innerNormalPrio (t : Task n) : Int := t.staticPrio

def normalPrio (t : Task n) : Int :=
  if t.hasDlPolicy then maxDlPrio - 1
  else if t.hasRtPolicy then maxRtPrio - 1 - t.rtPriority
  else innerNormalPrio t

/-- The new `normal_prio` and the result. -/
def effectivePrio (t : Task n) : Task n × Int :=
  let t := { t with normalPrio := normalPrio t }
  if !rtPrio t.prio then (t, t.normalPrio) else (t, t.prio)

end Lkm.Core
