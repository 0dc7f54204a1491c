import Lkm.BaseRuns
import Mathlib.Data.Fin.Basic
import Mathlib.Data.Fintype.Basic

/-! The context-switch path of the patched scheduler (`assg4/core.c`) and the hooks that
`assg4/assg4.c` installs in it. Tasks are the elements of an arbitrary type `T`, their pids a
function `pidOf`; a run queue is named by its CPU, which is also what `rq->cpu` reads.

`switch_to` is not part of the repository. It leaves the locals of `context_switch` on the stack of
the outgoing task and continues the incoming task where that task last stopped: in its own saved
frame, with `prev` set to the task that just ran, or in `schedule_tail` on its first run. -/

namespace Lkm.Sched

abbrev Cpu := Fin 4

/-- The locals `rq` and `next` of a `context_switch` call, as they wait on the stack of the task
that the call switched out. -/
structure Frame (T : Type) where
  rq : Cpu
  next : T

/-- Where a task continues when it is switched in. -/
inductive Resume (T : Type) where
  | unforked
  | scheduleTail
  | contextSwitch (frame : Frame T)

def Resume.forked {T : Type} : Resume T → Bool
  | .unforked => false
  | _ => true

structure Rq (T : Type) where
  curr : T
  nrRunning : BitVec 32
  nrSwitches : BitVec 64

/-- The fields of `struct task_struct` that `hk_per_pid_stats` copies out. -/
structure Stats where
  prio : Int
  staticPrio : Int
  normalPrio : Int
  rtPriority : BitVec 32
  sumExecRuntime : BitVec 64
  nrMigrations : BitVec 64

/-- The variables of `assg4.c`. -/
structure Globals where
  pid : Int
  currCpu : Int
  schedCounter : Cpu → BitVec 64
  perPidSwitchCounter : Cpu → BitVec 64
  totalTime : BitVec 64
  grqsize : Cpu → BitVec 64
  gcpu : Int
  prio1 : Int
  prio2 : Int
  prio3 : Int
  prio4 : Int
  migration : BitVec 64
  tot : BitVec 64
  switches : Cpu → BitVec 64

/-- Which of the hook pointers of `core.c` are not `NULL`. They can only point to the functions of
`assg4.c`. `current_pc` is left out: `init` does not set it. -/
structure Hooks where
  contextCounter : Bool
  rqSize : Bool
  perPidStats : Bool

structure State (T : Type) where
  rq : Cpu → Rq T
  stats : T → Stats
  taskCpu : T → Cpu
  resume : T → Resume T
  hooks : Hooks
  mod : Globals

variable {T : Type} (pidOf : T → Int)

/-! ### The hooks of `assg4.c` -/

/-- The parameter names are those of the definition in `assg4.c`; `context_switch` passes its own
`prev` first and its own `next` second. -/
def hkContextCounter (g : Globals) (next prev : T) (cpu : Cpu) (_switchh : BitVec 64) : Globals :=
  let g := { g with schedCounter := Function.update g.schedCounter cpu (g.schedCounter cpu + 1) }
  if pidOf next = g.pid then
    { g with
      perPidSwitchCounter :=
        Function.update g.perPidSwitchCounter cpu (g.perPidSwitchCounter cpu + 1)
      currCpu := cpu.val }
  else if pidOf prev = g.pid then g  -- the branch holds only commented-out code
  else g

def hkRqSize (g : Globals) (cpu : Cpu) (rqsize : BitVec 32) (nrSwitches : BitVec 64) : Globals :=
  { g with
    gcpu := cpu.val
    grqsize := Function.update g.grqsize cpu (rqsize.setWidth 64)
    switches := Function.update g.switches cpu nrSwitches }

def hkPerPidStats (g : Globals) (prev : T) (stats : Stats) : Globals :=
  if pidOf prev = g.pid then
    { g with
      tot := stats.sumExecRuntime
      migration := stats.nrMigrations
      prio1 := stats.prio
      prio2 := stats.staticPrio
      prio3 := stats.normalPrio
      prio4 := stats.rtPriority.toNat
      totalTime := stats.sumExecRuntime }
  else g

/-! ### Loading the module -/

/-- The zeroed variables of a freshly loaded module with its `pid` parameter. -/
def Globals.zero (pid : Int) : Globals where
  pid := pid
  currCpu := 0
  schedCounter := fun _ => 0
  perPidSwitchCounter := fun _ => 0
  totalTime := 0
  grqsize := fun _ => 0
  gcpu := 0
  prio1 := 0
  prio2 := 0
  prio3 := 0
  prio4 := 0
  migration := 0
  tot := 0
  switches := fun _ => 0

/-- `init`, given whether the two `proc_create` calls succeed; `none` is the result -1, after which
the module is not loaded. -/
def init (procFile procFile2 : Bool) (s : State T) : Option (State T) :=
  if !procFile then none
  else if !procFile2 then none
  else some { s with hooks := { contextCounter := true, rqSize := true, perPidStats := true } }

def insmod (procFile procFile2 : Bool) (pid : Int) (s : State T) : Option (State T) :=
  init procFile procFile2 { s with mod := Globals.zero pid }

/-- The state right after a successful load, for any state of the kernel at that moment. -/
def loaded (pid : Int) (s : State T) : State T :=
  { s with
    hooks := { contextCounter := true, rqSize := true, perPidStats := true }
    mod := Globals.zero pid }

theorem insmod_eq_some (procFile procFile2 : Bool) (pid : Int) (s t : State T) :
    insmod procFile procFile2 pid s = some t ↔
      (procFile = true ∧ procFile2 = true) ∧ t = loaded pid s := by
  cases procFile <;> cases procFile2 <;> simp [insmod, init, loaded, eq_comm]

/-! ### The scheduler -/

variable [DecidableEq T]

/-- First run of a forked task: `finish_task_switch` and `post_schedule`, with no hook on the way. -/
def scheduleTail (s : State T) (_prev : T) : State T := s

/-- The stack flips in the middle of `context_switch`: the first half runs with the locals of the
outgoing task, the hook call with those that the incoming task saved when it was last switched
out. -/
def contextSwitch (s : State T) (rq : Cpu) (prev next : T) : State T :=
  let incoming := s.resume next
  let s := { s with resume := Function.update s.resume prev (.contextSwitch ⟨rq, next⟩) }
  match incoming with
  | .contextSwitch frame =>
      if s.hooks.contextCounter then
        { s with
          mod := hkContextCounter pidOf s.mod prev frame.next frame.rq
            (s.rq frame.rq).nrSwitches }
      else s
  | _ => scheduleTail s prev

/-- The two hook calls at the top of `__schedule`. -/
def scheduleHooks (s : State T) (cpu : Cpu) : State T :=
  let rq := s.rq cpu
  let g := if s.hooks.rqSize then hkRqSize s.mod cpu rq.nrRunning rq.nrSwitches else s.mod
  { s with mod := if s.hooks.perPidStats then hkPerPidStats pidOf g rq.curr (s.stats rq.curr) else g }

/-- `rq->nr_switches++; rq->curr = next`. -/
def setCurr (s : State T) (cpu : Cpu) (next : T) : State T :=
  let rq := { s.rq cpu with nrSwitches := (s.rq cpu).nrSwitches + 1, curr := next }
  { s with rq := Function.update s.rq cpu rq }

/-- `__schedule` on `cpu`, when `pick_next_task` returns `next`. -/
def schedule (s : State T) (cpu : Cpu) (next : T) : State T :=
  let prev := (s.rq cpu).curr
  let s := scheduleHooks pidOf s cpu
  if prev ≠ next then contextSwitch pidOf (setCurr s cpu next) cpu prev next
  else s

/-- What can happen between two moments at which no run queue lock is held. `account` is the rest
of the kernel, free to change the load and the statistics that the hooks read. -/
inductive Event (T : Type) where
  | schedule (cpu : Cpu) (next : T)
  | migrate (task : T) (cpu : Cpu)
  | fork (child : T) (cpu : Cpu)
  | account (nrRunning : Cpu → BitVec 32) (stats : T → Stats)

def State.waiting (s : State T) (task : T) : Bool :=
  (s.resume task).forked && decide (∀ c, (s.rq c).curr ≠ task)

def step (s : State T) : Event T → Option (State T)
  | .schedule cpu next =>
      if (s.rq cpu).curr = next ∨ (s.waiting next ∧ s.taskCpu next = cpu) then
        some (schedule pidOf s cpu next)
      else none
  | .migrate task cpu =>
      if s.waiting task then
        let stats := { s.stats task with nrMigrations := (s.stats task).nrMigrations + 1 }
        some { s with
          taskCpu := Function.update s.taskCpu task cpu
          stats := Function.update s.stats task stats }
      else none
  | .fork child cpu =>
      if (s.resume child).forked = false ∧ ∀ c, (s.rq c).curr ≠ child then
        some { s with
          resume := Function.update s.resume child .scheduleTail
          taskCpu := Function.update s.taskCpu child cpu }
      else none
  | .account nrRunning stats =>
      some { s with
        rq := fun c => { s.rq c with nrRunning := nrRunning c }
        stats := stats }

/-! ### What a step does to the counters -/

/-- The context switch that a step performs, if it performs one. -/
def switchOf (s : State T) : Event T → Option (Cpu × T)
  | .schedule cpu next => if (s.rq cpu).curr = next then none else some (cpu, next)
  | _ => none

/-- The variables that only `hk_context_counter` writes. -/
structure Counters where
  pid : Int
  currCpu : Int
  schedCounter : Cpu → BitVec 64
  perPidSwitchCounter : Cpu → BitVec 64

def Globals.counters (g : Globals) : Counters :=
  ⟨g.pid, g.currCpu, g.schedCounter, g.perPidSwitchCounter⟩

/-- What one hook call counts: a switch on the CPU it is given, and for the monitored pid when the
first task it is given is that one. -/
def Counters.hook (k : Counters) (next : T) (cpu : Cpu) : Counters where
  pid := k.pid
  currCpu := if pidOf next = k.pid then cpu.val else k.currCpu
  schedCounter := Function.update k.schedCounter cpu (k.schedCounter cpu + 1)
  perPidSwitchCounter :=
    if pidOf next = k.pid then
      Function.update k.perPidSwitchCounter cpu (k.perPidSwitchCounter cpu + 1)
    else k.perPidSwitchCounter

omit [DecidableEq T] in
theorem hkContextCounter_counters (g : Globals) (next prev : T) (cpu : Cpu) (n : BitVec 64) :
    (hkContextCounter pidOf g next prev cpu n).counters = g.counters.hook pidOf next cpu := by
  unfold hkContextCounter Counters.hook Globals.counters
  dsimp only
  split_ifs <;> rfl

omit [DecidableEq T] in
@[simp] theorem scheduleHooks_counters (s : State T) (cpu : Cpu) :
    (scheduleHooks pidOf s cpu).mod.counters = s.mod.counters := by
  unfold scheduleHooks hkPerPidStats hkRqSize Globals.counters
  dsimp only
  split_ifs <;> rfl

variable {pidOf}

@[simp] theorem contextSwitch_rq (s : State T) (rq : Cpu) (prev next : T) :
    (contextSwitch pidOf s rq prev next).rq = s.rq := by
  unfold contextSwitch scheduleTail
  dsimp only
  split
  · split_ifs <;> rfl
  · rfl

@[simp] theorem contextSwitch_hooks (s : State T) (rq : Cpu) (prev next : T) :
    (contextSwitch pidOf s rq prev next).hooks = s.hooks := by
  unfold contextSwitch scheduleTail
  dsimp only
  split
  · split_ifs <;> rfl
  · rfl

/-- The hook runs in the frame that the incoming task saved. -/
theorem contextSwitch_counters_frame {s : State T} (hhook : s.hooks.contextCounter = true)
    (rq : Cpu) (prev : T) {next : T} {frame : Frame T}
    (hresume : s.resume next = .contextSwitch frame) :
    (contextSwitch pidOf s rq prev next).mod.counters = s.mod.counters.hook pidOf prev frame.rq := by
  simp only [contextSwitch, hresume, hhook, if_true]
  exact hkContextCounter_counters pidOf s.mod prev frame.next frame.rq _

/-- A first run goes through `schedule_tail` and calls no hook. -/
theorem contextSwitch_counters_tail {s : State T} (rq : Cpu) (prev : T) {next : T}
    (hresume : s.resume next = .scheduleTail) :
    (contextSwitch pidOf s rq prev next).mod.counters = s.mod.counters := by
  simp only [contextSwitch, hresume, scheduleTail]

theorem schedule_of_ne {s : State T} {cpu : Cpu} {next : T} (hne : (s.rq cpu).curr ≠ next) :
    schedule pidOf s cpu next =
      contextSwitch pidOf (setCurr (scheduleHooks pidOf s cpu) cpu next) cpu (s.rq cpu).curr next := by
  simp only [schedule, if_pos hne]

theorem schedule_of_eq {s : State T} {cpu : Cpu} {next : T} (heq : (s.rq cpu).curr = next) :
    schedule pidOf s cpu next = scheduleHooks pidOf s cpu := by
  simp only [schedule, heq, ne_eq, not_true_eq_false, if_false]

theorem schedule_nrSwitches {s : State T} {cpu : Cpu} {next : T} (hne : (s.rq cpu).curr ≠ next)
    (c : Cpu) :
    ((schedule pidOf s cpu next).rq c).nrSwitches =
      if c = cpu then (s.rq c).nrSwitches + 1 else (s.rq c).nrSwitches := by
  rw [schedule_of_ne hne, contextSwitch_rq]
  by_cases hc : c = cpu
  · subst hc
    simp [setCurr, scheduleHooks]
  · simp [setCurr, scheduleHooks, hc]

theorem schedule_hooks (s : State T) (cpu : Cpu) (next : T) :
    (schedule pidOf s cpu next).hooks = s.hooks := by
  by_cases heq : (s.rq cpu).curr = next
  · rw [schedule_of_eq heq]
    rfl
  · rw [schedule_of_ne heq, contextSwitch_hooks]
    rfl

/-- Everything that a step which performs a context switch does to the counters. -/
theorem step_switch {s t : State T} {e : Event T} (hhook : s.hooks.contextCounter = true)
    (h : step pidOf s e = some t) {cpu : Cpu} {next : T} (hsw : switchOf s e = some (cpu, next)) :
    (s.rq cpu).curr ≠ next ∧ t.hooks = s.hooks ∧
    (∀ c, (t.rq c).nrSwitches = if c = cpu then (s.rq c).nrSwitches + 1 else (s.rq c).nrSwitches) ∧
    ((∃ frame, s.resume next = .contextSwitch frame ∧
        t.mod.counters = s.mod.counters.hook pidOf (s.rq cpu).curr frame.rq) ∨
      s.resume next = .scheduleTail ∧ t.mod.counters = s.mod.counters) := by
  cases e with
  | schedule cpu' next' =>
      simp only [switchOf] at hsw
      split at hsw
      · cases hsw
      rename_i hne
      cases hsw
      simp only [step, hne, false_or, Option.ite_none_right_eq_some, Option.some.injEq] at h
      obtain ⟨⟨hwaiting, -⟩, rfl⟩ := h
      simp only [State.waiting, Bool.and_eq_true] at hwaiting
      refine ⟨hne, schedule_hooks s cpu next, schedule_nrSwitches hne, ?_⟩
      have hcounters : (setCurr (scheduleHooks pidOf s cpu) cpu next).mod.counters =
          s.mod.counters := scheduleHooks_counters pidOf s cpu
      rw [schedule_of_ne hne]
      cases hresume : s.resume next with
      | unforked =>
          rw [hresume] at hwaiting
          cases hwaiting.1
      | scheduleTail =>
          refine Or.inr ⟨rfl, ?_⟩
          rw [contextSwitch_counters_tail cpu _ (by exact hresume), hcounters]
      | contextSwitch frame =>
          refine Or.inl ⟨frame, rfl, ?_⟩
          rw [contextSwitch_counters_frame (by exact hhook) cpu _ (by exact hresume), hcounters]
  | migrate | fork | account => cases hsw

/-- Every other step leaves the counters and `nr_switches` alone. -/
theorem step_quiet {s t : State T} {e : Event T} (h : step pidOf s e = some t)
    (hsw : switchOf s e = none) :
    t.hooks = s.hooks ∧ t.mod.counters = s.mod.counters ∧
      ∀ c, (t.rq c).nrSwitches = (s.rq c).nrSwitches := by
  cases e with
  | schedule cpu next =>
      have heq : (s.rq cpu).curr = next := by
        by_contra hne
        simp [switchOf, hne] at hsw
      simp only [step, heq, true_or, if_true, Option.some.injEq] at h
      subst h
      rw [schedule_of_eq heq]
      exact ⟨rfl, scheduleHooks_counters pidOf s cpu, fun _ => rfl⟩
  | migrate task cpu =>
      simp only [step, Option.ite_none_right_eq_some, Option.some.injEq] at h
      obtain ⟨-, rfl⟩ := h
      exact ⟨rfl, rfl, fun _ => rfl⟩
  | fork child cpu =>
      simp only [step, Option.ite_none_right_eq_some, Option.some.injEq] at h
      obtain ⟨-, rfl⟩ := h
      exact ⟨rfl, rfl, fun _ => rfl⟩
  | account nrRunning stats =>
      simp only [step, Option.some.injEq] at h
      subst h
      exact ⟨rfl, rfl, fun _ => rfl⟩

end Lkm.Sched
