import Lkm.BaseRuns
import Lkm.BaseDispatch
import Lkm.BaseRelay
import Mathlib.Data.BitVec
import Mathlib.Data.Finset.Insert
import Mathlib.Data.Fintype.Basic
import Mathlib.Tactic.Simps.Basic

/-! Waking, switching and moving tasks in `assg4/core.c`, with every CPU at its own place in the code.
A step is what one CPU does between two points where another CPU can see a difference: taking a lock,
a read or a write of a field that the others read without the lock, or a whole section under a run
queue lock. Memory is sequentially consistent, which is what the barriers of the source are for, and
all CPUs stay online.

The scheduling classes are not part of `core.c`. Of a class queue the model keeps the tasks that
`core.c` has handed to `enqueue_task` and not taken back with `dequeue_task`. `pick_next_task` may
answer any of them or the idle task, `select_task_rq` any CPU of the mask of the task, and a class
moves tasks between queues that are both locked. -/

namespace Lkm.Runq

open Dispatch

/-! ### Tasks and run queues -/

def taskRunning : BitVec 64 := 0
def taskInterruptible : BitVec 64 := 1
def taskUninterruptible : BitVec 64 := 2
def taskNormal : BitVec 64 := taskInterruptible ||| taskUninterruptible
def taskWaking : BitVec 64 := 256

def pfWqWorker : BitVec 32 := 0x20

/-- The idle task of a CPU, or any other task. -/
inductive Tid (n : Nat) (U : Type) where
  | idle (cpu : Fin n)
  | thread (u : U)
  deriving DecidableEq

structure Task (n : Nat) where
  state : BitVec 64
  flags : BitVec 32
  /-- 0, `TASK_ON_RQ_QUEUED` or `TASK_ON_RQ_MIGRATING`. -/
  onRq : Stage
  onCpu : Bool
  cpu : Fin n
  wakeCpu : Fin n
  cpusAllowed : Fin n → Bool
  contributesToLoad : Bool
  nvcsw : BitVec 64
  nivcsw : BitVec 64
  nrMigrations : BitVec 64
  piLock : Option (Fin n)

structure Rq (n : Nat) (U : Type) where
  lock : Option (Fin n)
  curr : Tid n U
  queue : List (Tid n U)
  nrUninterruptible : BitVec 64
  nrSwitches : BitVec 64
  wakeList : List (Tid n U)

/-- Where a CPU is in the scheduler. -/
inductive Pc (n : Nat) (U : Type) where
  /-- In the code of its current task, or in an interrupt. -/
  | run
  /-- In `try_to_wake_up` of `p`: before the test of `p->on_rq`. -/
  | waking (p : Tid n U)
  /-- Before the `__task_rq_lock` of `ttwu_remote`. -/
  | remote (p : Tid n U)
  /-- In `while (p->on_cpu)`. -/
  | spin (p : Tid n U)
  /-- Before `ttwu_queue(p, cpu)`. -/
  | placing (p : Tid n U) (cpu : Fin n)
  /-- In `sched_ttwu_pending`, before the lock. -/
  | pending (llist : List (Tid n U))
  /-- In the loop of `sched_ttwu_pending`. -/
  | draining (llist : List (Tid n U))
  /-- In `__schedule`, when a worker has gone to sleep. -/
  | worker
  /-- In `try_to_wake_up_local` of `p`, with the run queue unlocked for `p->pi_lock`. -/
  | localPi (p : Tid n U)
  | localRq (p : Tid n U)
  /-- Before or in `pick_next_task`. -/
  | picking (voluntary : Bool)
  /-- In `pick_next_task`, while a class has the run queue unlocked. -/
  | balancing (voluntary : Bool)
  /-- In `context_switch`, up to the `finish_lock_switch`. -/
  | switching (prev : Tid n U)
  /-- In `move_queued_task`, between the two locks. -/
  | moving (p : Tid n U) (cpu : Fin n)
  deriving DecidableEq

structure State (n : Nat) (U : Type) where
  task : Tid n U → Task n
  rq : Fin n → Rq n U
  pc : Fin n → Pc n U
  threads : Finset (Tid n U)
  /-- Between `sched_fork` and `wake_up_new_task`. -/
  newborn : Tid n U → Bool

/-- The macro `task_contributes_to_load`, which `core.c` takes from elsewhere. -/
structure Kernel where
  contributes : BitVec 64 → BitVec 32 → Bool
  contributes_running : ∀ flags, contributes taskRunning flags = false
  contributes_waking : ∀ flags, contributes taskWaking flags = false

variable {n : Nat} {U : Type} [DecidableEq U]

def Tid.isIdle : Tid n U → Bool
  | .idle _ => true
  | .thread _ => false

def Kernel.taskContributesToLoad (k : Kernel) (t : Task n) : Bool := k.contributes t.state t.flags

/-- The task may run on `c` and nowhere else. -/
def Task.boundTo (t : Task n) (c : Fin n) : Bool := ∀ d, t.cpusAllowed d = true → d = c

/-- Where a class may move tasks of other run queues. -/
def Pc.mayBalance : Pc n U → Bool
  | .run | .picking _ | .balancing _ => true
  | _ => false

/-- The CPU holds the lock of its own run queue from one step to the next. -/
def Pc.holdsRq : Pc n U → Bool
  | .draining _ | .worker | .picking _ | .switching _ => true
  | _ => false

/-- The task whose `pi_lock` the CPU holds from one step to the next. -/
def Pc.piTask : Pc n U → Option (Tid n U)
  | .waking p | .remote p | .spin p | .placing p _ | .localRq p | .moving p _ => some p
  | _ => none

namespace State

@[simps]
def setTask (s : State n U) (p : Tid n U) (t : Task n) : State n U :=
  { s with task := Function.update s.task p t }

@[simps]
def setRq (s : State n U) (c : Fin n) (rq : Rq n U) : State n U :=
  { s with rq := Function.update s.rq c rq }

@[simps]
def goto (s : State n U) (c : Fin n) (pc : Pc n U) : State n U :=
  { s with pc := Function.update s.pc c pc }

@[simps!]
def lockRq (s : State n U) (c : Fin n) : State n U := s.setRq c { s.rq c with lock := some c }

@[simps!]
def unlockRq (s : State n U) (c : Fin n) : State n U := s.setRq c { s.rq c with lock := none }

@[simps!]
def lockPi (s : State n U) (p : Tid n U) (c : Fin n) : State n U :=
  s.setTask p { s.task p with piLock := some c }

@[simps!]
def unlockPi (s : State n U) (p : Tid n U) : State n U := s.setTask p { s.task p with piLock := none }

end State

/-! ### Run queues -/

def enqueueTask (s : State n U) (c : Fin n) (p : Tid n U) : State n U :=
  s.setRq c { s.rq c with queue := p :: (s.rq c).queue }

def dequeueTask (s : State n U) (c : Fin n) (p : Tid n U) : State n U :=
  s.setRq c { s.rq c with queue := (s.rq c).queue.erase p }

def activateTask (k : Kernel) (s : State n U) (c : Fin n) (p : Tid n U) : State n U :=
  let s :=
    if k.taskContributesToLoad (s.task p) then
      s.setRq c { s.rq c with nrUninterruptible := (s.rq c).nrUninterruptible - 1 }
    else s
  enqueueTask s c p

def deactivateTask (k : Kernel) (s : State n U) (c : Fin n) (p : Tid n U) : State n U :=
  let s :=
    if k.taskContributesToLoad (s.task p) then
      s.setRq c { s.rq c with nrUninterruptible := (s.rq c).nrUninterruptible + 1 }
    else s
  dequeueTask s c p

def setTaskCpu (t : Task n) (newCpu : Fin n) : Task n :=
  { t with
    nrMigrations := if t.cpu ≠ newCpu then t.nrMigrations + 1 else t.nrMigrations
    cpu := newCpu
    wakeCpu := newCpu }

def State.setTaskCpu (s : State n U) (p : Tid n U) (newCpu : Fin n) : State n U :=
  s.setTask p (Runq.setTaskCpu (s.task p) newCpu)

/-! ### Waking -/

def ttwuActivate (k : Kernel) (s : State n U) (c : Fin n) (p : Tid n U) : State n U :=
  let s := activateTask k s c p
  s.setTask p { s.task p with onRq := .queued }

def ttwuDoWakeup (s : State n U) (p : Tid n U) : State n U :=
  s.setTask p { s.task p with state := taskRunning }

def ttwuDoActivate (k : Kernel) (s : State n U) (c : Fin n) (p : Tid n U) : State n U :=
  let s :=
    if (s.task p).contributesToLoad then
      s.setRq c { s.rq c with nrUninterruptible := (s.rq c).nrUninterruptible - 1 }
    else s
  ttwuDoWakeup (ttwuActivate k s c p) p

/-- `try_to_wake_up` up to the test of the state, under `p->pi_lock`. -/
def tryToWakeUp (s : State n U) (c : Fin n) (p : Tid n U) (mask : BitVec 64) : State n U :=
  if (s.task p).state &&& mask = 0 then s else (s.lockPi p c).goto c (.waking p)

/-- The test of `p->on_rq` in `try_to_wake_up`. -/
def ttwuOnRq (s : State n U) (c : Fin n) (p : Tid n U) : State n U :=
  if (s.task p).onRq ≠ .off then s.goto c (.remote p) else s.goto c (.spin p)

/-- `ttwu_remote`, once `__task_rq_lock` has the lock. -/
def ttwuRemote (s : State n U) (c : Fin n) (p : Tid n U) : State n U :=
  if (s.task p).onRq = .queued then ((ttwuDoWakeup s p).unlockPi p).goto c .run
  else s.goto c (.spin p)

/-- `try_to_wake_up` from the end of `while (p->on_cpu)` to `ttwu_queue`, when `select_task_rq`
answers `cpu`. -/
def ttwuPlace (k : Kernel) (s : State n U) (c : Fin n) (p : Tid n U) (cpu : Fin n) : State n U :=
  let t := { s.task p with contributesToLoad := k.taskContributesToLoad (s.task p) }
  let t := { t with state := taskWaking }
  let t := if t.cpu ≠ cpu then setTaskCpu t cpu else t
  (s.setTask p t).goto c (.placing p cpu)

/-- `ttwu_queue` and the end of `try_to_wake_up`. `remote` is `sched_feat(TTWU_QUEUE)` with no
shared cache. -/
def ttwuQueue (k : Kernel) (s : State n U) (c : Fin n) (p : Tid n U) (cpu : Fin n)
    (remote : Bool) : State n U :=
  let s :=
    if remote then s.setRq cpu { s.rq cpu with wakeList := p :: (s.rq cpu).wakeList }
    else ttwuDoActivate k s cpu p
  (s.unlockPi p).goto c .run

/-- `llist_del_all` in `sched_ttwu_pending`. -/
def schedTtwuPending (s : State n U) (c : Fin n) : State n U :=
  match (s.rq c).wakeList with
  | [] => s
  | p :: l => (s.setRq c { s.rq c with wakeList := [] }).goto c (.pending (p :: l))

/-- One round of the loop of `sched_ttwu_pending`, or its end. -/
def ttwuPending (k : Kernel) (s : State n U) (c : Fin n) : List (Tid n U) → State n U
  | [] => (s.unlockRq c).goto c .run
  | p :: l => (ttwuDoActivate k s c p).goto c (.draining l)

/-- `try_to_wake_up_local`, when it holds both locks. -/
def tryToWakeUpLocal (k : Kernel) (s : State n U) (c : Fin n) (p : Tid n U) : State n U :=
  if (s.task p).state &&& taskNormal = 0 then s
  else ttwuDoWakeup (if (s.task p).onRq ≠ .queued then ttwuActivate k s c p else s) p

/-! ### New tasks -/

/-- `sched_fork` on `c`; `copied` and `allowed` are what the parent had when it was copied. -/
def schedFork (s : State n U) (c : Fin n) (child : Tid n U) (flags : BitVec 32) (copied : Fin n)
    (allowed : Fin n → Bool) : State n U :=
  let t : Task n :=
    { state := taskRunning
      flags := flags
      onRq := .off
      onCpu := false
      cpu := copied
      wakeCpu := copied
      cpusAllowed := allowed
      contributesToLoad := (s.task (s.rq c).curr).contributesToLoad
      nvcsw := 0
      nivcsw := 0
      nrMigrations := 0
      piLock := none }
  { s.setTask child (setTaskCpu t c) with
    threads := insert child s.threads
    newborn := Function.update s.newborn child true }

def wakeUpNewTask (k : Kernel) (s : State n U) (p : Tid n U) (cpu : Fin n) : State n U :=
  let s := activateTask k (s.setTaskCpu p cpu) cpu p
  { s.setTask p { s.task p with onRq := .queued } with
    newborn := Function.update s.newborn p false }

/-! ### Switching -/

/-- `__schedule` up to `pick_next_task`: whether the current task goes to sleep. -/
def schedule (k : Kernel) (s : State n U) (c : Fin n) (preempt signal : Bool) : State n U :=
  let s := s.lockRq c
  let prev := (s.rq c).curr
  if (s.task prev).state ≠ taskRunning ∧ ¬preempt then
    if signal then
      (s.setTask prev { s.task prev with state := taskRunning }).goto c (.picking true)
    else
      let s := deactivateTask k s c prev
      let s := s.setTask prev { s.task prev with onRq := .off }
      if (s.task prev).flags &&& pfWqWorker ≠ 0 then s.goto c .worker
      else s.goto c (.picking true)
  else s.goto c (.picking false)

/-- `wq_worker_sleeping` has answered. A busy `p->pi_lock` makes `try_to_wake_up_local` give up the
run queue. -/
def workerSleeping (k : Kernel) (s : State n U) (c : Fin n) : Option (Tid n U) → State n U
  | none => s.goto c (.picking true)
  | some p =>
      if (s.task p).cpu ≠ c ∨ p = (s.rq c).curr then s.goto c (.picking true)
      else if (s.task p).piLock = none then (tryToWakeUpLocal k s c p).goto c (.picking true)
      else (s.unlockRq c).goto c (.localPi p)

/-- `++*switch_count`. -/
def switchCount (t : Task n) (voluntary : Bool) : Task n :=
  if voluntary then { t with nvcsw := t.nvcsw + 1 } else { t with nivcsw := t.nivcsw + 1 }

/-- `__schedule` from the answer of `pick_next_task` to the `switch_to` in `context_switch`. -/
def pick (s : State n U) (c : Fin n) (voluntary : Bool) (next : Tid n U) : State n U :=
  let prev := (s.rq c).curr
  if prev ≠ next then
    let s := s.setRq c { s.rq c with nrSwitches := (s.rq c).nrSwitches + 1, curr := next }
    let s := s.setTask prev (switchCount (s.task prev) voluntary)
    let s := s.setTask next { s.task next with onCpu := true }
    s.goto c (.switching prev)
  else (s.unlockRq c).goto c .run

/-- `finish_lock_switch`. -/
def finishTaskSwitch (s : State n U) (c : Fin n) (prev : Tid n U) : State n U :=
  ((s.setTask prev { s.task prev with onCpu := false }).unlockRq c).goto c .run

/-! ### Moving -/

def doSetCpusAllowed (t : Task n) (newMask : Fin n → Bool) : Task n := { t with cpusAllowed := newMask }

/-- `set_cpus_allowed_ptr` up to the choice of another CPU. The move there is one of those below. -/
def setCpusAllowedPtr (s : State n U) (p : Tid n U) (newMask : Fin n → Bool) : State n U :=
  if (∀ c, (s.task p).cpusAllowed c = newMask c) ∨ ∀ c, newMask c = false then s
  else s.setTask p (doSetCpusAllowed (s.task p) newMask)

/-- `move_queued_task` up to the lock of the new run queue. -/
def moveQueuedTask (s : State n U) (c : Fin n) (p : Tid n U) (newCpu : Fin n) : State n U :=
  let s := dequeueTask s (s.task p).cpu p
  let s := s.setTask p (setTaskCpu { s.task p with onRq := .moving } newCpu)
  (s.lockPi p c).goto c (.moving p newCpu)

/-- The rest of `move_queued_task` and of its caller. -/
def moveQueuedTask' (s : State n U) (c : Fin n) (p : Tid n U) (newCpu : Fin n) : State n U :=
  let s := s.setTask p { s.task p with onRq := .queued }
  ((enqueueTask s newCpu p).unlockPi p).goto c .run

/-- `__migrate_swap_task`, and what a class does with a queued task when it holds both locks. -/
def migrateSwapTask (k : Kernel) (s : State n U) (p : Tid n U) (cpu : Fin n) : State n U :=
  if (s.task p).onRq = .queued then
    activateTask k ((deactivateTask k s (s.task p).cpu p).setTaskCpu p cpu) cpu p
  else s.setTask p { s.task p with wakeCpu := cpu }

/-- The two moves of `migrate_swap_stop`. -/
def migrateSwap (k : Kernel) (s : State n U) (p q : Tid n U) : State n U :=
  let srcCpu := (s.task p).cpu
  let dstCpu := (s.task q).cpu
  migrateSwapTask k (migrateSwapTask k s p dstCpu) q srcCpu

/-! ### The machine -/

/-- `c` is the CPU that takes the step. -/
inductive Event (n : Nat) (U : Type) where
  | setState (c : Fin n) (state : BitVec 64)
  | setFlags (c : Fin n) (flags : BitVec 32)
  | fork (c : Fin n) (u : U) (flags : BitVec 32) (copied : Fin n) (allowed : Fin n → Bool)
  | wakeUpNew (c : Fin n) (u : U) (cpu : Fin n)
  | tryToWakeUp (c : Fin n) (u : U) (mask : BitVec 64)
  | ttwuOnRq (c : Fin n) (p : Tid n U)
  | ttwuRemote (c : Fin n) (p : Tid n U)
  | ttwuPlace (c : Fin n) (p : Tid n U) (cpu : Fin n)
  | ttwuQueue (c : Fin n) (p : Tid n U) (cpu : Fin n) (remote : Bool)
  | ipi (c : Fin n)
  | pendingLock (c : Fin n) (l : List (Tid n U))
  | pending (c : Fin n) (l : List (Tid n U))
  | schedule (c : Fin n) (preempt signal : Bool)
  | workerSleeping (c : Fin n) (wakeup : Option U)
  | localPi (c : Fin n) (p : Tid n U)
  | localRq (c : Fin n) (p : Tid n U)
  | unlock (c : Fin n) (voluntary : Bool)
  | relock (c : Fin n) (voluntary : Bool)
  | pick (c : Fin n) (voluntary : Bool) (next : Tid n U)
  | finish (c : Fin n) (prev : Tid n U)
  | setCpusAllowed (c : Fin n) (u : U) (newMask : Fin n → Bool)
  | migrate (c : Fin n) (u : U) (cpu : Fin n)
  | migrated (c : Fin n) (p : Tid n U) (cpu : Fin n)
  | swap (c : Fin n) (u v : U)
  | balance (c : Fin n) (u : U) (cpu : Fin n)

namespace State

def rqFree (s : State n U) (c : Fin n) : Bool := (s.rq c).lock = none

def piFree (s : State n U) (p : Tid n U) : Bool := (s.task p).piLock = none

/-- Free, or already held by `c` itself. -/
def rqFreeFor (s : State n U) (c d : Fin n) : Bool := s.rqFree d || (s.rq d).lock = some c

/-- When a step can happen: where the CPU is, which locks are free, and what the code that is not
part of `core.c` keeps to. A task writes only its own state and flags, and an idle task neither sleeps
nor is woken. Nothing sets `TASK_WAKING` or waits for it but `try_to_wake_up`, and the task that
`try_to_wake_up_local` wakes is bound to the CPU until it has been woken. -/
def enabled (s : State n U) : Event n U → Bool
  | .setState c state => s.pc c = .run ∧ (s.rq c).curr.isIdle = false ∧ state &&& taskWaking = 0
  | .setFlags c _ => s.pc c = .run
  | .fork c u _ _ allowed => s.pc c = .run ∧ .thread u ∉ s.threads ∧ ∃ d, allowed d = true
  | .wakeUpNew c u cpu =>
      s.pc c = .run ∧ s.newborn (.thread u) ∧ s.piFree (.thread u) ∧ s.rqFree cpu ∧
      (s.task (.thread u)).cpusAllowed cpu
  | .tryToWakeUp c u mask => s.pc c = .run ∧ s.piFree (.thread u) ∧ mask &&& taskWaking = 0
  | .ttwuOnRq c p => s.pc c = .waking p
  | .ttwuRemote c p =>
      s.pc c = .remote p ∧ s.rqFree (s.task p).cpu ∧ (s.task p).onRq ≠ .moving
  | .ttwuPlace c p cpu => s.pc c = .spin p ∧ (s.task p).onCpu = false ∧ (s.task p).cpusAllowed cpu
  | .ttwuQueue c p cpu remote => s.pc c = .placing p cpu ∧ (remote ∨ s.rqFree cpu)
  | .ipi c => s.pc c = .run
  | .pendingLock c l => s.pc c = .pending l ∧ s.rqFree c
  | .pending c l => s.pc c = .draining l
  | .schedule c _ _ => s.pc c = .run ∧ s.rqFree c
  | .workerSleeping c wakeup =>
      s.pc c = .worker ∧ wakeup.all fun u =>
        (s.task (.thread u)).boundTo c && .thread u ∈ s.threads
  | .localPi c p => s.pc c = .localPi p ∧ s.piFree p
  | .localRq c p => s.pc c = .localRq p ∧ s.rqFree c
  | .unlock c voluntary => s.pc c = .picking voluntary
  | .relock c voluntary => s.pc c = .balancing voluntary ∧ s.rqFree c
  | .pick c voluntary next =>
      s.pc c = .picking voluntary ∧ (next ∈ (s.rq c).queue ∨ next = .idle c)
  | .finish c prev => s.pc c = .switching prev
  | .setCpusAllowed c u _ =>
      s.pc c = .run ∧ s.piFree (.thread u) ∧ s.rqFree (s.task (.thread u)).cpu ∧
      ∀ d, s.pc d ≠ .localPi (.thread u)
  | .migrate c u cpu =>
      s.pc c = .run ∧ s.piFree (.thread u) ∧ s.rqFree (s.task (.thread u)).cpu ∧
      (s.task (.thread u)).onRq = .queued ∧ (s.rq (s.task (.thread u)).cpu).curr ≠ .thread u ∧
      (s.task (.thread u)).cpusAllowed cpu
  | .migrated c p cpu => s.pc c = .moving p cpu ∧ s.rqFree cpu
  | .swap c u v =>
      s.pc c = .run ∧ (s.task (.thread u)).cpu ≠ (s.task (.thread v)).cpu ∧
      s.piFree (.thread u) ∧ s.piFree (.thread v) ∧
      s.rqFree (s.task (.thread u)).cpu ∧ s.rqFree (s.task (.thread v)).cpu ∧
      (s.rq (s.task (.thread u)).cpu).curr ≠ .thread u ∧
      (s.rq (s.task (.thread v)).cpu).curr ≠ .thread v ∧
      (s.task (.thread u)).cpusAllowed (s.task (.thread v)).cpu ∧
      (s.task (.thread v)).cpusAllowed (s.task (.thread u)).cpu
  | .balance c u cpu =>
      s.rqFreeFor c (s.task (.thread u)).cpu ∧ s.rqFreeFor c cpu ∧
      (s.pc c).mayBalance ∧ (s.task (.thread u)).onRq = .queued ∧
      (s.rq (s.task (.thread u)).cpu).curr ≠ .thread u ∧
      (s.task (.thread u)).cpusAllowed cpu

/-- What a step does. -/
def perform (k : Kernel) (s : State n U) : Event n U → State n U
  | .setState c state =>
      s.setTask (s.rq c).curr { s.task (s.rq c).curr with state := state }
  | .setFlags c flags => s.setTask (s.rq c).curr { s.task (s.rq c).curr with flags := flags }
  | .fork c u flags copied allowed => schedFork s c (.thread u) flags copied allowed
  | .wakeUpNew _ u cpu => wakeUpNewTask k s (.thread u) cpu
  | .tryToWakeUp c u mask => Runq.tryToWakeUp s c (.thread u) mask
  | .ttwuOnRq c p => Runq.ttwuOnRq s c p
  | .ttwuRemote c p => Runq.ttwuRemote s c p
  | .ttwuPlace c p cpu => Runq.ttwuPlace k s c p cpu
  | .ttwuQueue c p cpu remote => Runq.ttwuQueue k s c p cpu remote
  | .ipi c => schedTtwuPending s c
  | .pendingLock c l => (s.lockRq c).goto c (.draining l)
  | .pending c l => ttwuPending k s c l
  | .schedule c preempt signal => Runq.schedule k s c preempt signal
  | .workerSleeping c wakeup => Runq.workerSleeping k s c (wakeup.map .thread)
  | .localPi c p => (s.lockPi p c).goto c (.localRq p)
  | .localRq c p => ((tryToWakeUpLocal k (s.lockRq c) c p).unlockPi p).goto c (.picking true)
  | .unlock c voluntary => (s.unlockRq c).goto c (.balancing voluntary)
  | .relock c voluntary => (s.lockRq c).goto c (.picking voluntary)
  | .pick c voluntary next => Runq.pick s c voluntary next
  | .finish c prev => finishTaskSwitch s c prev
  | .setCpusAllowed _ u newMask => setCpusAllowedPtr s (.thread u) newMask
  | .migrate c u cpu => moveQueuedTask s c (.thread u) cpu
  | .migrated c p cpu => moveQueuedTask' s c p cpu
  | .swap _ u v => migrateSwap k s (.thread u) (.thread v)
  | .balance _ u cpu => migrateSwapTask k s (.thread u) cpu

end State

def step (k : Kernel) (s : State n U) (e : Event n U) : Option (State n U) :=
  if s.enabled e then some (s.perform k e) else none

/-! ### What the functions do to the state -/

/-- What a task adds to `nr_uninterruptible` when it leaves a run queue. -/
def Kernel.load (k : Kernel) (t : Task n) : BitVec 64 := if k.taskContributesToLoad t then 1 else 0

/-- A run queue when `p` comes or goes and takes `load` with it. -/
@[simps]
def Rq.insert (rq : Rq n U) (p : Tid n U) (load : BitVec 64) : Rq n U :=
  { rq with queue := p :: rq.queue, nrUninterruptible := rq.nrUninterruptible - load }

@[simps]
def Rq.erase (rq : Rq n U) (p : Tid n U) (load : BitVec 64) : Rq n U :=
  { rq with queue := rq.queue.erase p, nrUninterruptible := rq.nrUninterruptible + load }

omit [DecidableEq U] in
theorem activateTask_eq (k : Kernel) (s : State n U) (c : Fin n) (p : Tid n U) :
    activateTask k s c p = s.setRq c ((s.rq c).insert p (k.load (s.task p))) := by
  by_cases h : k.taskContributesToLoad (s.task p)
  · simp [activateTask, enqueueTask, State.setRq, Kernel.load, Rq.insert, h]
  · simp [activateTask, enqueueTask, State.setRq, Kernel.load, Rq.insert, h]

theorem deactivateTask_eq (k : Kernel) (s : State n U) (c : Fin n) (p : Tid n U) :
    deactivateTask k s c p = s.setRq c ((s.rq c).erase p (k.load (s.task p))) := by
  by_cases h : k.taskContributesToLoad (s.task p)
  · simp [deactivateTask, dequeueTask, State.setRq, Kernel.load, Rq.erase, h]
  · simp [deactivateTask, dequeueTask, State.setRq, Kernel.load, Rq.erase, h]

/-- What `ttwu_do_activate` takes off `nr_uninterruptible`. -/
def Task.noted (t : Task n) : BitVec 64 := if t.contributesToLoad then 1 else 0

theorem ttwuDoActivate_eq (k : Kernel) (s : State n U) (c : Fin n) (p : Tid n U) :
    ttwuDoActivate k s c p =
      (s.setRq c ((s.rq c).insert p ((s.task p).noted + k.load (s.task p)))).setTask p
        { s.task p with onRq := .queued, state := taskRunning } := by
  by_cases h : (s.task p).contributesToLoad = true
  · simp [ttwuDoActivate, ttwuActivate, ttwuDoWakeup, activateTask_eq, State.setRq, State.setTask,
      Rq.insert, Task.noted, sub_sub, h]
  · simp [ttwuDoActivate, ttwuActivate, ttwuDoWakeup, activateTask_eq, State.setRq, State.setTask,
      Rq.insert, Task.noted, h]

/-! ### Changes that do not show

`g` is what somebody sees of a task, of a run queue or of the place of a CPU. -/

theorem seen_setTask {α : Type*} (g : Task n → α) (s : State n U) {p : Tid n U} {t : Task n}
    (h : g t = g (s.task p)) (q : Tid n U) : g ((s.setTask p t).task q) = g (s.task q) := by
  by_cases hq : q = p
  · rw [hq, State.setTask_task, Function.update_self, h]
  · rw [State.setTask_task, Function.update_of_ne hq]

omit [DecidableEq U] in
theorem seen_setRq {α : Type*} (g : Rq n U → α) (s : State n U) {c : Fin n} {rq : Rq n U}
    (h : g rq = g (s.rq c)) (d : Fin n) : g ((s.setRq c rq).rq d) = g (s.rq d) := by
  by_cases hd : d = c
  · rw [hd, State.setRq_rq, Function.update_self, h]
  · rw [State.setRq_rq, Function.update_of_ne hd]

omit [DecidableEq U] in
theorem seen_goto {α : Type*} (g : Pc n U → α) (s : State n U) {c : Fin n} {pc : Pc n U}
    (h : g pc = g (s.pc c)) (d : Fin n) : g ((s.goto c pc).pc d) = g (s.pc d) := by
  by_cases hd : d = c
  · rw [hd, State.goto_pc, Function.update_self, h]
  · rw [State.goto_pc, Function.update_of_ne hd]

/-! ### Booting -/

/-- `init_idle`. -/
def initIdle (cpu : Fin n) : Task n where
  state := taskRunning
  flags := 0
  onRq := .queued
  onCpu := true
  cpu := cpu
  wakeCpu := cpu
  cpusAllowed c := c = cpu
  contributesToLoad := false
  nvcsw := 0
  nivcsw := 0
  nrMigrations := 0
  piLock := none

/-- Every CPU runs its idle task and no other task exists. `cpu` only fills the records of the tasks
that do not exist yet. -/
def boot (n : Nat) (U : Type) [DecidableEq U] (cpu : Fin n) : State n U where
  task
    | .idle c => initIdle c
    | .thread _ => { initIdle cpu with onRq := .off, onCpu := false }
  rq c :=
    { lock := none
      curr := .idle c
      queue := []
      nrUninterruptible := 0
      nrSwitches := 0
      wakeList := [] }
  pc _ := .run
  threads := Finset.univ.map ⟨Tid.idle, fun _ _ h => Tid.idle.inj h⟩
  newborn _ := false

end Lkm.Runq
