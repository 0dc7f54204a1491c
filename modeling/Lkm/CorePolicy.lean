import Lkm.CoreGroups

/-! Policies and priorities of tasks in `core.c`: `__sched_setscheduler` with its checks, the
admission of deadline tasks, nice values, priority inheritance, fork, the stop tasks and the SysRq
key that makes all tasks normal. A call is one step: the lock that it takes late does not let the
policy change under it, so its `recheck` loop runs once. -/

namespace Lkm.Core

variable {n : Nat}

/-! ### Scheduling attributes -/

structure SchedAttr where
  schedPolicy : Int
  schedFlags : BitVec 64
  schedNice : Int
  schedPriority : Nat
  schedRuntime : BitVec 64
  schedDeadline : BitVec 64
  schedPeriod : BitVec 64
  deriving DecidableEq

def setparamPolicy : Int := -1

def schedFlagResetOnFork : BitVec 64 := 1

/-- What `deadline.c` does to the fields of the model: `switched_from` and `task_dead` of its class,
and `init_dl_bw`. -/
structure Hooks where
  switchedFromDl : DlEntity → DlEntity
  taskDeadDl : DlEntity → DlBw → DlBw
  initDlBw : Sysctl → DlBw

/-- What a call finds out from the rest of the kernel: the capability `CAP_SYS_NICE`, the limits of
the task, whether the caller owns it, the answer of the security module, the priority of the first
task that waits for a lock of the task. -/
structure Caller where
  capSysNice : Bool
  rlimitRtprio : Nat
  rlimitNice : Nat
  sameOwner : Bool
  security : Int
  topPiWaiter : Option Int

/-- Whether a waiter keeps the task at the new priority or above it. -/
def rtMutexCheckPrio (c : Caller) (newprio : Int) : Bool :=
  match c.topPiWaiter with
  | some prio => prio ≤ newprio
  | none => false

/-- `dl_period`, with 0 replaced by the deadline. -/
def SchedAttr.period (attr : SchedAttr) : BitVec 64 :=
  if attr.schedPeriod = 0 then attr.schedDeadline else attr.schedPeriod

/-- `__setparam_dl`. -/
def setparamDl (e : DlEntity) (attr : SchedAttr) : DlEntity :=
  { e with
    dlRuntime := attr.schedRuntime
    dlDeadline := attr.schedDeadline
    dlPeriod := attr.period
    flags := attr.schedFlags
    dlBw := toRatio attr.period attr.schedRuntime
    dlThrottled := false
    dlNew := true
    dlYielded := false }

/-- `__setscheduler_params`. -/
def setschedulerParams (t : Task n) (attr : SchedAttr) : Task n :=
  let policy := if attr.schedPolicy = setparamPolicy then t.policy else attr.schedPolicy
  let t := { t with policy := policy }
  let t :=
    if dlPolicy policy then { t with dl := setparamDl t.dl attr }
    else if fairPolicy policy then { t with staticPrio := niceToPrio attr.schedNice }
    else t
  let t := { t with rtPriority := attr.schedPriority }
  { t with normalPrio := normalPrio t }

def classOfPrio (prio : Int) : SchedClass :=
  if dlPrio prio then .dl else if rtPrio prio then .rt else .fair

/-- `__setscheduler`. -/
def setscheduler (t : Task n) (attr : SchedAttr) : Task n :=
  let t := setschedulerParams t attr
  let t := { t with prio := normalPrio t }
  { t with schedClass := classOfPrio t.prio }

def checkClassChanged (h : Hooks) (t : Task n) (prevClass : SchedClass) : Task n :=
  if prevClass ≠ t.schedClass ∧ prevClass = .dl then { t with dl := h.switchedFromDl t.dl } else t

/-- `__checkparam_dl`. -/
def checkparamDl (attr : SchedAttr) : Bool :=
  if attr.schedDeadline = 0 then false
  else if attr.schedRuntime < 1#64 <<< 10 then false
  else if attr.schedDeadline &&& (1#64 <<< 63) ≠ 0 ∨ attr.schedPeriod &&& (1#64 <<< 63) ≠ 0 then false
  else if (attr.schedPeriod ≠ 0 ∧ attr.schedPeriod < attr.schedDeadline) ∨
      attr.schedDeadline < attr.schedRuntime then false
  else true

/-- `new_bw` of `dl_overflow`. -/
def newDlBw (policy : Int) (attr : SchedAttr) : BitVec 64 :=
  if dlPolicy policy then toRatio attr.period attr.schedRuntime else 0

/-- `dl_overflow`, on the bandwidth `b` of the root domain with its active CPUs. -/
def dlOverflow (t : Task n) (b : DlBw) (cpus : Nat) (policy : Int) (attr : SchedAttr) : Int × DlBw :=
  let newBw := newDlBw policy attr
  if newBw = t.dl.dlBw then (0, b)
  else if dlPolicy policy ∧ ¬t.hasDlPolicy ∧ ¬dlOverflows b cpus 0 newBw then (0, dlAdd b newBw)
  else if dlPolicy policy ∧ t.hasDlPolicy ∧ ¬dlOverflows b cpus t.dl.dlBw newBw then
    (0, dlAdd (dlClear b t.dl.dlBw) newBw)
  else if ¬dlPolicy policy ∧ t.hasDlPolicy then (0, dlClear b t.dl.dlBw)
  else (-1, b)

/-- `nice_to_rlimit` turns 19 .. -20 into 1 .. 40; the comparison is unsigned. -/
def canNice (c : Caller) (nice : Int) : Bool :=
  (BitVec.ofInt 64 (maxNice - nice + 1)).toNat ≤ c.rlimitNice || c.capSysNice

/-! ### Setting the policy -/

/-- The policy that a call asks for: a negative one leaves it as it is. -/
def SchedAttr.policyFor (attr : SchedAttr) (t : Task n) : Int :=
  if attr.schedPolicy < 0 then t.policy else attr.schedPolicy

def SchedAttr.resetOnForkFor (attr : SchedAttr) (t : Task n) : Bool :=
  if attr.schedPolicy < 0 then t.schedResetOnFork
  else attr.schedFlags &&& schedFlagResetOnFork ≠ 0

def validPolicy (policy : Int) : Bool :=
  policy = schedDeadline || policy = schedFifo || policy = schedRr || policy = schedNormal ||
    policy = schedBatch || policy = schedIdle

/-- The attributes that the call accepts for the task, whoever asks. -/
def validAttr (t : Task n) (attr : SchedAttr) : Bool :=
  let policy := attr.policyFor t
  if 0 ≤ attr.schedPolicy ∧ ¬validPolicy policy then false
  else if attr.schedFlags &&& ~~~schedFlagResetOnFork ≠ 0 then false
  else if (t.mm ∧ (attr.schedPriority : Int) > maxUserRtPrio - 1) ∨
      (¬t.mm ∧ (attr.schedPriority : Int) > maxRtPrio - 1) then false
  else if (dlPolicy policy ∧ ¬checkparamDl attr) ∨
      rtPolicy policy ≠ decide (attr.schedPriority ≠ 0) then false
  else true

/-- What a caller without `CAP_SYS_NICE` may not do. -/
def unprivilegedMay (c : Caller) (t : Task n) (attr : SchedAttr) : Bool :=
  let policy := attr.policyFor t
  if fairPolicy policy ∧ attr.schedNice < t.taskNice ∧ ¬canNice c attr.schedNice then false
  else if rtPolicy policy ∧ policy ≠ t.policy ∧ c.rlimitRtprio = 0 then false
  else if rtPolicy policy ∧ attr.schedPriority > t.rtPriority ∧
      attr.schedPriority > c.rlimitRtprio then false
  else if dlPolicy policy then false
  else if t.policy = schedIdle ∧ policy ≠ schedIdle ∧ ¬canNice c t.taskNice then false
  else if ¬c.sameOwner then false
  else if t.schedResetOnFork ∧ ¬attr.resetOnForkFor t then false
  else true

/-- The call has something to change besides `sched_reset_on_fork`. -/
def changes (t : Task n) (attr : SchedAttr) : Bool :=
  let policy := attr.policyFor t
  if policy = t.policy then
    (fairPolicy policy && attr.schedNice ≠ t.taskNice) ||
      (rtPolicy policy && attr.schedPriority ≠ t.rtPriority) || dlPolicy policy
  else true

/-- The bandwidth checks under `user`: a group for real-time tasks has runtime, a deadline task may
run on all of its root domain. -/
def userMayRun (s : State n) (t : Task n) (policy : Int) : Bool :=
  if rtBandwidthEnabled s.sysctl ∧ rtPolicy policy ∧
      (s.groups.tg t.schedTaskGroup).rtBandwidth.rtRuntime = 0 then false
  else if dlBandwidthEnabled s.sysctl ∧ dlPolicy policy ∧
      ((∃ c, s.domains.span (s.domains.rd t.cpu) c ∧ ¬t.cpusAllowed c) ∨
        (dlBwOf s.domains t.cpu).bw = 0) then false
  else true

def SchedAttr.newprio (attr : SchedAttr) : Int :=
  if dlPolicy attr.schedPolicy then maxDlPrio - 1 else maxRtPrio - 1 - attr.schedPriority

/-- The end of `__sched_setscheduler`: a boosted task keeps its class, its priority and its place
on the run queue. -/
def commitTask (h : Hooks) (c : Caller) (t : Task n) (attr : SchedAttr) : Task n :=
  let t := { t with schedResetOnFork := attr.resetOnForkFor t }
  if rtMutexCheckPrio c attr.newprio then setschedulerParams t attr
  else checkClassChanged h (setscheduler t attr) t.schedClass

/-- The admission test and the change. -/
def commit (h : Hooks) (c : Caller) (s : State n) (p : TaskPtr) (attr : SchedAttr) :
    Int × State n :=
  let t := s.tasks.task p
  let policy := attr.policyFor t
  let rd := s.domains.rd t.cpu
  let r := dlOverflow t (s.domains.dlBw rd) (dlBwCpus s.domains t.cpu) policy attr
  if dlPolicy policy || t.dlTask then
    if r.1 ≠ 0 then (-ebusy, { s with domains := s.domains.setDlBw rd r.2 })
    else
      (0, { s with
        domains := s.domains.setDlBw rd r.2
        tasks := s.tasks.set p (commitTask h c t attr) })
  else (0, { s with tasks := s.tasks.set p (commitTask h c t attr) })

/-- `__sched_setscheduler`. -/
def innerSetscheduler (h : Hooks) (c : Caller) (s : State n) (p : TaskPtr) (attr : SchedAttr)
    (user : Bool) : Int × State n :=
  let t := s.tasks.task p
  if ¬validAttr t attr then (-einval, s)
  else if user ∧ ¬c.capSysNice ∧ ¬unprivilegedMay c t attr then (-eperm, s)
  else if user ∧ c.security ≠ 0 then (c.security, s)
  else if s.tasks.stop t.cpu = some p then (-einval, s)
  else if ¬changes t attr then
    (0, { s with tasks := s.tasks.set p { t with schedResetOnFork := attr.resetOnForkFor t } })
  else if user ∧ ¬userMayRun s t (attr.policyFor t) then (-eperm, s)
  else commit h c s p attr

/-- `SCHED_RESET_ON_FORK`, the flag inside the policy of the old system calls. -/
def schedResetOnFork : BitVec 32 := 0x40000000

/-- The attributes that `_sched_setscheduler` makes of a policy and a priority. -/
def paramAttr (t : Task n) (policy : BitVec 32) (schedPriority : Nat) : SchedAttr :=
  let attr : SchedAttr :=
    { schedPolicy := policy.toInt
      schedFlags := 0
      schedNice := prioToNice t.staticPrio
      schedPriority := schedPriority
      schedRuntime := 0
      schedDeadline := 0
      schedPeriod := 0 }
  if policy.toInt ≠ setparamPolicy ∧ policy &&& schedResetOnFork ≠ 0 then
    { attr with
      schedFlags := attr.schedFlags ||| schedFlagResetOnFork
      schedPolicy := (policy &&& ~~~schedResetOnFork).toInt }
  else attr

/-- `_sched_setscheduler`. -/
def schedSetschedulerCheck (h : Hooks) (c : Caller) (s : State n) (p : TaskPtr) (policy : BitVec 32)
    (schedPriority : Nat) (check : Bool) : Int × State n :=
  innerSetscheduler h c s p (paramAttr (s.tasks.task p) policy schedPriority) check

/-! ### Nice values and priority inheritance -/

def setUserNice (t : Task n) (nice : Int) : Task n :=
  if t.taskNice = nice ∨ nice < minNice ∨ nice > maxNice then t
  else if t.hasDlPolicy ∨ t.hasRtPolicy then { t with staticPrio := niceToPrio nice }
  else
    let t := { t with staticPrio := niceToPrio nice }
    let r := effectivePrio t
    { r.1 with prio := r.2 }

def niceWidth : Int := 40

/-- `sys_nice` of `current`. -/
def sysNice (c : Caller) (t : Task n) (increment : Int) : Int × Task n :=
  let increment := max (-niceWidth) (min niceWidth increment)
  let nice := max minNice (min maxNice (t.taskNice + increment))
  if increment < 0 ∧ ¬canNice c nice then (-eperm, t)
  else if c.security ≠ 0 then (c.security, t)
  else (0, setUserNice t nice)

/-- `piPreempts`: the first waiter is a deadline task that could preempt this one. -/
def rtMutexSetprio (h : Hooks) (ts : Tasks n) (p : TaskPtr) (prio : Int) (piPreempts : Bool) :
    Tasks n :=
  let t := ts.task p
  if ts.idle t.cpu = some p then ts
  else
    let boosted := t.dl.dlBoosted
    let dl :=
      if dlPrio prio then
        if ¬dlPrio t.normalPrio ∨ piPreempts then
          { t.dl with dlBoosted := true, dlThrottled := false }
        else { t.dl with dlBoosted := false }
      else { t.dl with dlBoosted := if dlPrio t.prio then false else boosted }
    let t' := { t with dl := dl, schedClass := classOfPrio prio, prio := prio }
    ts.set p (checkClassChanged h t' t.schedClass)

/-! ### Fork, stop tasks, SysRq -/

/-- `__dl_clear_params`. -/
def dlClearParams (e : DlEntity) : DlEntity :=
  { e with dlRuntime := 0, dlDeadline := 0, dlPeriod := 0, flags := 0, dlBw := 0 }

/-- The part of `sched_fork` for a task with `sched_reset_on_fork`. -/
def resetForFork (t : Task n) : Task n :=
  let t :=
    if t.hasDlPolicy ∨ t.hasRtPolicy then
      { t with policy := schedNormal, staticPrio := niceToPrio 0, rtPriority := 0 }
    else if prioToNice t.staticPrio < 0 then { t with staticPrio := niceToPrio 0 }
    else t
  { t with
    prio := innerNormalPrio t
    normalPrio := innerNormalPrio t
    schedResetOnFork := false }

/-- `sched_fork` on the copy `t` that `copy_process` has made of `current`; `none` is `-EAGAIN`. -/
def schedFork (current t : Task n) (cpu : Fin n) : Option (Task n) :=
  let t := { t with dl := dlClearParams t.dl }
  let t := { t with prio := current.normalPrio }
  let t := if t.schedResetOnFork then resetForFork t else t
  if dlPrio t.prio then none
  else some { t with schedClass := if rtPrio t.prio then .rt else .fair, cpu := cpu }

def Tasks.setClass (ts : Tasks n) (p : Option TaskPtr) (schedClass : SchedClass) : Tasks n :=
  match p with
  | some p => ts.set p { ts.task p with schedClass := schedClass }
  | none => ts

def schedSetStopTask (h : Hooks) (c : Caller) (s : State n) (cpu : Fin n) (stop : Option TaskPtr) :
    State n :=
  let oldStop := s.tasks.stop cpu
  let s :=
    match stop with
    | some p => (schedSetschedulerCheck h c s p (BitVec.ofInt 32 schedFifo) 99 false).2
    | none => s
  let ts := s.tasks.setClass stop .stop
  let ts := { ts with stop := Function.update ts.stop cpu stop }
  { s with tasks := ts.setClass oldStop .rt }

def normalizeTask (h : Hooks) (t : Task n) : Task n :=
  let attr : SchedAttr :=
    { schedPolicy := schedNormal
      schedFlags := 0
      schedNice := 0
      schedPriority := 0
      schedRuntime := 0
      schedDeadline := 0
      schedPeriod := 0 }
  checkClassChanged h (setscheduler t attr) t.schedClass

def normalizeRtTask (h : Hooks) (t : Task n) : Task n :=
  if t.kthread then t
  else if ¬t.dlTask ∧ ¬t.rtTask then if t.taskNice < 0 then setUserNice t 0 else t
  else normalizeTask h t

def normalizeRtTasks (h : Hooks) (ts : Tasks n) : Tasks n :=
  ts.threads.foldl (fun ts p => ts.set p (normalizeRtTask h (ts.task p))) ts

end Lkm.Core
