import Lkm.CoreDomains
import Lkm.BaseRuns

/-! The control plane of `core.c` as one machine: system calls, priority inheritance, fork and exit,
control group files, the sysctl handler, CPU hotplug and new scheduling domains, in any order. -/

namespace Lkm.Core

variable {n : Nat}

/-! ### The sysctl variables -/

def schedDlGlobalConstraints (s : State n) : Int :=
  let newBw := toRatio (globalRtPeriod s.sysctl) (globalRtRuntime s.sysctl)
  if (List.finRange n).any fun cpu => newBw < (dlBwOf s.domains cpu).totalBw then -ebusy else 0

def schedDlDoGlobal (s : State n) : State n :=
  let newBw :=
    if globalRtRuntime s.sysctl ≠ runtimeInf then
      toRatio (globalRtPeriod s.sysctl) (globalRtRuntime s.sysctl)
    else -1
  { s with
    sysctl := { s.sysctl with
      defDlPeriod := globalRtPeriod s.sysctl
      defDlRuntime := globalRtRuntime s.sysctl }
    domains := (List.finRange n).foldl
      (fun d cpu => d.setDlBw (d.rd cpu) { dlBwOf d cpu with bw := newBw }) s.domains }

/-- `sysctl_sched_rt_runtime` is an `int`, which the second comparison turns into an unsigned one. -/
def schedRtGlobalValidate (c : Sysctl) : Int :=
  if c.schedRtPeriod = 0 then -einval
  else if c.schedRtRuntime.signExtend 64 ≠ runtimeInf ∧ c.schedRtPeriod < c.schedRtRuntime then
    -einval
  else 0

def schedRtDoGlobal (c : Sysctl) : Sysctl :=
  { c with defRtBandwidth := ⟨globalRtPeriod c, globalRtRuntime c⟩ }

def Sysctl.store (c : Sysctl) (period runtime : BitVec 32) : Sysctl :=
  { c with schedRtPeriod := period, schedRtRuntime := runtime }

def onTasks (s : State n) (ts : Tasks n) : State n := { s with tasks := ts }

def onGroups (s : State n) (g : Groups n) : State n := { s with groups := g }

def onSysctl (s : State n) (c : Sysctl) : State n := { s with sysctl := c }

def onDomains (s : State n) (d : Domains n) : State n := { s with domains := d }

/-- The part of `sched_rt_handler` after a write by `proc_dointvec`: the answer of the checks and,
without an error, the new global settings. -/
def schedRtApply (s : State n) : Option (Int × State n) :=
  let ret := schedRtGlobalValidate s.sysctl
  if ret ≠ 0 then some (ret, s)
  else
    (schedRtGlobalConstraints s).map fun ret =>
      if ret ≠ 0 then (ret, s)
      else
        let ret := schedDlGlobalConstraints s
        if ret ≠ 0 then (ret, s)
        else (0, schedDlDoGlobal (onSysctl s (schedRtDoGlobal s.sysctl)))

/-- `sched_rt_handler`, when `proc_dointvec` answers `ret` and leaves the two variables as given. -/
def schedRtHandler (s : State n) (write : Bool) (ret : Int) (period runtime : BitVec 32) :
    Option (Int × State n) :=
  let old := s.sysctl
  let s := onSysctl s (s.sysctl.store period runtime)
  if ret = 0 ∧ write then
    (schedRtApply s).map fun r =>
      if r.1 ≠ 0 then
        (r.1, onSysctl r.2 (r.2.sysctl.store old.schedRtPeriod old.schedRtRuntime))
      else r
  else some (ret, s)

/-! ### Control groups -/

def schedRtCanAttach (g : Groups n) (tg : TgPtr) (t : Task n) : Bool :=
  !(t.rtTask && (g.tg tg).rtBandwidth.rtRuntime = 0)

def cpuCgroupCanAttach (s : State n) (ps : List TaskPtr) (tg : TgPtr) : Int :=
  if ps.any fun p => ¬schedRtCanAttach s.groups tg (s.tasks.task p) then -einval else 0

def schedMoveTask (ts : Tasks n) (tg : TgPtr) (p : TaskPtr) : Tasks n :=
  ts.set p { ts.task p with schedTaskGroup := tg }

def cpuCgroupAttach (ts : Tasks n) (ps : List TaskPtr) (tg : TgPtr) : Tasks n :=
  ps.foldl (fun ts p => schedMoveTask ts tg p) ts

/-! ### The end of a task -/

/-- `finish_task_switch` calls `task_dead` of the class, which the deadline class has. -/
def finishDead (h : Hooks) (d : Domains n) (t : Task n) : Domains n :=
  if t.schedClass = .dl then d.setDlBw (d.rd t.cpu) (h.taskDeadDl t.dl (dlBwOf d t.cpu)) else d

/-! ### The machine -/

inductive Event (n : Nat) where
  | setattr (caller : Caller) (p : TaskPtr) (attr : SchedAttr) (user : Bool)
  | setscheduler (caller : Caller) (p : TaskPtr) (policy : BitVec 32) (priority : Nat) (check : Bool)
  | nice (p : TaskPtr) (nice : Int)
  | sysNice (caller : Caller) (p : TaskPtr) (increment : Int)
  | setprio (p : TaskPtr) (prio : Int) (piPreempts : Bool)
  | fork (parent child : TaskPtr) (cpu : Fin n) (mm kthread : Bool)
  | exit (p : TaskPtr)
  | stopTask (caller : Caller) (cpu : Fin n) (stop : Option TaskPtr)
  | normalize
  | migrate (p : TaskPtr) (cpu : Fin n)
  | affinity (p : TaskPtr) (mask : Fin n → Bool)
  | attach (ps : List TaskPtr) (tg : TgPtr)
  | rtRuntime (tg : TgPtr) (us : BitVec 64)
  | rtPeriod (tg : TgPtr) (us : BitVec 64)
  | cfsQuota (tg : TgPtr) (us : BitVec 64)
  | cfsPeriod (tg : TgPtr) (us : BitVec 64)
  | online (tg parent : TgPtr) (v : TaskGroup n)
  | offline (tg : TgPtr)
  | rtHandler (write : Bool) (ret : Int) (period runtime : BitVec 32)
  | cpuDown (cpu : Fin n) (frozen : Bool) (call : Partition n) (now : Bool)
  | cpuUp (cpu : Fin n) (frozen : Bool) (call : Partition n) (now : Bool)
  | partition (call : Partition n)

/-- A run queue names the task as its stop task or its idle task. -/
def Tasks.named (ts : Tasks n) (p : TaskPtr) : Bool :=
  ∃ cpu, ts.stop cpu = some p ∨ ts.idle cpu = some p

def Tasks.ordinary (ts : Tasks n) (p : TaskPtr) : Bool := p ∈ ts.threads && !ts.named p

/-- Priority inheritance keeps a task at the priority of its first waiter or above it. -/
def Caller.boosts (c : Caller) (t : Task n) : Bool := c.topPiWaiter.all fun prio => t.prio ≤ prio

/-- `PID_MAX_LIMIT`. -/
def pidMaxLimit : Nat := 2 ^ 22

/-- An event that the rest of the kernel does not let happen has no step. What it promises: the system
calls clamp nice values and pass no negative policy but `SETPARAM_POLICY`; a boost only raises a
priority; a stop task is a thread of its CPU that holds no lock; `rt.c` and `fair.c` make groups
without a share of the bandwidth; groups go away empty and without children; `proc_dointvec` leaves
the variables alone when it fails or only reads; a new root domain is not one in use. -/
def step (h : Hooks) (s : State n) : Event n → Option (State n)
  | .setattr caller p attr user =>
      if p ∈ s.tasks.threads ∧ caller.boosts (s.tasks.task p) ∧ setparamPolicy ≤ attr.schedPolicy ∧
          minNice ≤ attr.schedNice ∧ attr.schedNice ≤ maxNice then
        some (innerSetscheduler h caller s p attr user).2
      else none
  | .setscheduler caller p policy priority check =>
      if p ∈ s.tasks.threads ∧ caller.boosts (s.tasks.task p) ∧ setparamPolicy ≤ policy.toInt then
        some (schedSetschedulerCheck h caller s p policy priority check).2
      else none
  | .nice p nice =>
      if p ∈ s.tasks.threads then
        some (onTasks s (s.tasks.set p (setUserNice (s.tasks.task p) nice)))
      else none
  | .sysNice caller p increment =>
      if p ∈ s.tasks.threads then
        some (onTasks s (s.tasks.set p (sysNice caller (s.tasks.task p) increment).2))
      else none
  | .setprio p prio piPreempts =>
      if s.tasks.ordinary p ∧ prio ≤ (s.tasks.task p).normalPrio then
        some (onTasks s (rtMutexSetprio h s.tasks p prio piPreempts))
      else none
  | .fork parent child cpu mm kthread =>
      if parent ∈ s.tasks.threads ∧ child ∉ s.tasks.threads ∧ ¬s.tasks.named child ∧
          s.tasks.threads.length < pidMaxLimit then
        let copy := { s.tasks.task parent with mm := mm, kthread := kthread }
        (schedFork (s.tasks.task parent) copy cpu).map fun t =>
          onTasks s { s.tasks.set child t with threads := child :: s.tasks.threads }
      else none
  | .exit p =>
      if s.tasks.ordinary p then
        some { s with
          domains := finishDead h s.domains (s.tasks.task p)
          tasks := { s.tasks with threads := s.tasks.threads.erase p } }
      else none
  | .stopTask caller cpu stop =>
      if stop.all fun p => s.tasks.ordinary p && (s.tasks.task p).cpu = cpu &&
          (s.tasks.task p).kthread && (s.tasks.task p).prio = (s.tasks.task p).normalPrio &&
          caller.topPiWaiter.isNone then
        some (schedSetStopTask h caller s cpu stop)
      else none
  | .normalize => some (onTasks s (normalizeRtTasks h s.tasks))
  | .migrate p cpu =>
      if s.tasks.ordinary p then
        some (onTasks s (s.tasks.set p { s.tasks.task p with cpu := cpu }))
      else none
  | .affinity p mask =>
      if s.tasks.ordinary p then
        some (onTasks s (s.tasks.set p { s.tasks.task p with cpusAllowed := mask }))
      else none
  | .attach ps tg =>
      if tg ∈ s.groups.taskGroups ∧ ∀ p ∈ ps, p ∈ s.tasks.threads then
        if cpuCgroupCanAttach s ps tg ≠ 0 then some s
        else some (onTasks s (cpuCgroupAttach s.tasks ps tg))
      else none
  | .rtRuntime tg us =>
      if tg ∈ s.groups.taskGroups then (schedGroupSetRtRuntime s tg us).map Prod.snd else none
  | .rtPeriod tg us =>
      if tg ∈ s.groups.taskGroups then (schedGroupSetRtPeriod s tg us).map Prod.snd else none
  | .cfsQuota tg us =>
      if tg ∈ s.groups.taskGroups then
        (tgSetCfsQuota s.groups tg us).map fun r => onGroups s r.2
      else none
  | .cfsPeriod tg us =>
      if tg ∈ s.groups.taskGroups then
        (tgSetCfsPeriod s.groups tg us).map fun r => onGroups s r.2
      else none
  | .online tg parent v =>
      if tg ∉ s.groups.taskGroups ∧ parent ∈ s.groups.taskGroups ∧
          s.groups.taskGroups.length < 2 ^ 44 ∧
          (∀ p ∈ s.tasks.threads, (s.tasks.task p).schedTaskGroup ≠ tg) ∧
          v.rtBandwidth.rtRuntime = 0 ∧ v.cfsBandwidth.quota = runtimeInf then
        some (onGroups s (schedOnlineGroup (s.groups.set tg v) tg parent))
      else none
  | .offline tg =>
      if tg ∈ s.groups.taskGroups ∧ tg ≠ rootTaskGroup ∧ s.groups.links.children tg = [] ∧
          ∀ p ∈ s.tasks.threads, (s.tasks.task p).schedTaskGroup ≠ tg then
        some (onGroups s (schedOfflineGroup s.groups tg))
      else none
  | .rtHandler write ret period runtime =>
      if (ret = 0 ∧ write) ∨
          (period = s.sysctl.schedRtPeriod ∧ runtime = s.sysctl.schedRtRuntime) then
        (schedRtHandler s write ret period runtime).map Prod.snd
      else none
  | .cpuDown cpu frozen call now =>
      if call.allocates s.domains then
        some (onDomains s (cpuDownNotifiers h s.sysctl s.domains cpu frozen call now))
      else none
  | .cpuUp cpu frozen call now =>
      if call.allocates s.domains then
        some (onDomains s (cpuUpNotifiers h s.sysctl s.domains cpu frozen call now))
      else none
  | .partition call =>
      if call.allocates s.domains then
        some (onDomains s (partitionSchedDomains h s.sysctl s.domains call))
      else none

/-! ### The start -/

/-- The hooks as `deadline.c` has them. -/
def bootHooks : Hooks where
  switchedFromDl := dlClearParams
  taskDeadDl := fun e b => dlClear b e.dlBw
  initDlBw := fun c =>
    { bw :=
        if globalRtRuntime c ≠ runtimeInf then toRatio (globalRtPeriod c) (globalRtRuntime c) else -1
      totalBw := 0 }

/-- `init_task`. -/
def initTask (cpu : Fin n) : Task n where
  policy := schedNormal
  prio := maxPrio - 20
  staticPrio := maxPrio - 20
  normalPrio := maxPrio - 20
  rtPriority := 0
  schedClass := .fair
  schedResetOnFork := false
  dl :=
    { dlRuntime := 0
      dlDeadline := 0
      dlPeriod := 0
      flags := 0
      dlBw := 0
      dlThrottled := false
      dlNew := false
      dlYielded := false
      dlBoosted := false }
  mm := false
  kthread := false
  cpu := cpu
  cpusAllowed := fun _ => true
  schedTaskGroup := rootTaskGroup

/-- The sysctl variables as they are compiled in, with what `sched_init` makes of them. -/
def initSysctl : Sysctl where
  schedRtPeriod := 1000000
  schedRtRuntime := 950000
  defRtBandwidth := ⟨1000000000, 950000000⟩
  defDlPeriod := 1000000000
  defDlRuntime := 950000000

/-- `root_task_group` with the bandwidth that `sched_init` gives it. -/
def initRootTaskGroup : TaskGroup n where
  rtBandwidth := initSysctl.defRtBandwidth
  rtRqRuntime := fun _ => initSysctl.defRtBandwidth.rtRuntime
  cfsBandwidth := ⟨100000000, runtimeInf, 0⟩

/-- The state after `sched_init`, with all CPUs up and in `def_root_domain`: the root group, one thread,
and an idle task for each CPU. -/
def boot (n : Nat) (cpu : Fin n) : State n where
  tasks :=
    { task := fun _ => initTask cpu
      threads := [0]
      stop := fun _ => none
      idle := fun c => some (c + 1) }
  groups :=
    { tg := fun _ => initRootTaskGroup
      links := ⟨fun _ => [], fun _ => none⟩
      taskGroups := [rootTaskGroup] }
  sysctl := initSysctl
  domains :=
    { rd := fun _ => defRootDomain
      dlBw := fun _ => ⟨toRatio initSysctl.defDlPeriod initSysctl.defDlRuntime, 0⟩
      active := fun _ => true
      isolated := fun _ => false
      domsCur := []
      numCpusFrozen := 0 }

/-- A group as `rt.c` and `fair.c` make it. -/
def newGroup : TaskGroup n where
  rtBandwidth := ⟨initSysctl.defRtBandwidth.rtPeriod, 0⟩
  rtRqRuntime := fun _ => 0
  cfsBandwidth := ⟨100000000, runtimeInf, 0⟩

/-- A caller with `CAP_SYS_NICE`, for a task that nobody waits for. -/
def superuser : Caller where
  capSysNice := true
  rlimitRtprio := 0
  rlimitNice := 0
  sameOwner := true
  security := 0
  topPiWaiter := none

/-- One without, with a limit for real-time priorities. -/
def user (rlimitRtprio : Nat) : Caller :=
  { superuser with capSysNice := false, rlimitRtprio := rlimitRtprio }

/-- The request of a deadline task. -/
def dlRequest (runtime period : BitVec 64) : SchedAttr where
  schedPolicy := schedDeadline
  schedFlags := 0
  schedNice := 0
  schedPriority := 0
  schedRuntime := runtime
  schedDeadline := period
  schedPeriod := period

/-- One scheduling domain for all active CPUs. -/
def onePartition (alloc : List (Option RdPtr)) : Partition n := ⟨1, none, false, alloc⟩

end Lkm.Core
