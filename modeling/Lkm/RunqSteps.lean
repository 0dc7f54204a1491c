import Lkm.RunqInv

/-! What a step of the run queue machine can be: one case for each path through one of the functions,
with the tests that it has passed and the records that it has changed, the locks last. -/

namespace Lkm.Runq

open Dispatch

variable {n : Nat} {U : Type} [DecidableEq U]

inductive Step (k : Kernel) (s : State n U) : State n U → Prop
  | idle : Step k s s
  | own {c : Fin n} {t : Task n} (hpc : s.pc c = .run) (hspot : t.spot = (s.task (s.rq c).curr).spot)
      (hpi : t.piLock = (s.task (s.rq c).curr).piLock)
      (hcsw : t.nvcsw = (s.task (s.rq c).curr).nvcsw ∧ t.nivcsw = (s.task (s.rq c).curr).nivcsw)
      (hmask : t.cpusAllowed = (s.task (s.rq c).curr).cpusAllowed)
      (hstate : t.state = (s.task (s.rq c).curr).state ∨
        (s.rq c).curr.isIdle = false ∧ t.state ≠ taskWaking) :
      Step k s (s.setTask (s.rq c).curr t)
  | fork {u : U} {t : Task n} (hu : .thread u ∉ s.threads) (ht : t.onRq = .off ∧ t.onCpu = false)
      (hstate : t.state = taskRunning) (hpi : t.piLock = none) (hcsw : t.nvcsw = 0 ∧ t.nivcsw = 0)
      (hmask : ∃ d, t.cpusAllowed d = true) :
      Step k s
        { s.setTask (.thread u) t with
          threads := insert (.thread u) s.threads
          newborn := Function.update s.newborn (.thread u) true }
  | wakeUpNew {u : U} {cpu : Fin n} (hu : s.newborn (.thread u) = true)
      (hplace : (s.task (.thread u)).cpusAllowed cpu = true) :
      Step k s
        { (s.setRq cpu ((s.rq cpu).insert (.thread u) (k.load (s.task (.thread u))))).setTask (.thread u)
            { setTaskCpu (s.task (.thread u)) cpu with onRq := .queued } with
          newborn := Function.update s.newborn (.thread u) false }
  | matched {c : Fin n} {u : U} (hpc : s.pc c = .run) (hpi : (s.task (.thread u)).piLock = none)
      (hstate : (s.task (.thread u)).state ≠ taskWaking ∧ (s.task (.thread u)).state ≠ taskRunning) :
      Step k s ((s.lockPi (.thread u) c).goto c (.waking (.thread u)))
  | onRq {c : Fin n} {p : Tid n U} (hpc : s.pc c = .waking p) (hp : (s.task p).onRq ≠ .off) :
      Step k s (s.goto c (.remote p))
  | offRq {c : Fin n} {p : Tid n U} (hpc : s.pc c = .waking p ∨ s.pc c = .remote p)
      (hp : (s.task p).onRq = .off) : Step k s (s.goto c (.spin p))
  | remote {c : Fin n} {p : Tid n U} (hpc : s.pc c = .remote p) (hp : (s.task p).onRq = .queued) :
      Step k s
        (((s.setTask p { s.task p with state := taskRunning }).unlockPi p).goto c .run)
  | place {c : Fin n} {p : Tid n U} {cpu : Fin n} {t : Task n} (hpc : s.pc c = .spin p)
      (hp : (s.task p).onCpu = false) (hplace : (s.task p).cpusAllowed cpu = true)
      (ht : t.onRq = (s.task p).onRq ∧ t.onCpu = (s.task p).onCpu ∧ t.cpu = cpu)
      (hpi : t.piLock = (s.task p).piLock) (hmask : t.cpusAllowed = (s.task p).cpusAllowed)
      (hstate : t.state = taskWaking)
      (hload : t.contributesToLoad = k.taskContributesToLoad (s.task p))
      (hcsw : t.nvcsw = (s.task p).nvcsw ∧ t.nivcsw = (s.task p).nivcsw) :
      Step k s ((s.setTask p t).goto c (.placing p cpu))
  | post {c : Fin n} {p : Tid n U} {cpu : Fin n} (hpc : s.pc c = .placing p cpu) :
      Step k s
        (((s.setRq cpu { s.rq cpu with wakeList := p :: (s.rq cpu).wakeList }).unlockPi p).goto c .run)
  | queue {c : Fin n} {p : Tid n U} {cpu : Fin n} (hpc : s.pc c = .placing p cpu) :
      Step k s
        ((((s.setRq cpu ((s.rq cpu).insert p (s.task p).noted)).setTask p
          { s.task p with onRq := .queued, state := taskRunning }).unlockPi p).goto c .run)
  | ipi {c : Fin n} (hpc : s.pc c = .run) :
      Step k s
        ((s.setRq c { s.rq c with wakeList := [] }).goto c (.pending (s.rq c).wakeList))
  | pendingLock {c : Fin n} {l : List (Tid n U)} (hpc : s.pc c = .pending l)
      (hrq : (s.rq c).lock = none) : Step k s ((s.lockRq c).goto c (.draining l))
  | pending {c : Fin n} {p : Tid n U} {l : List (Tid n U)} (hpc : s.pc c = .draining (p :: l)) :
      Step k s
        (((s.setRq c ((s.rq c).insert p (s.task p).noted)).setTask p
          { s.task p with onRq := .queued, state := taskRunning }).goto c (.draining l))
  | pendingEnd {c : Fin n} (hpc : s.pc c = .draining []) : Step k s ((s.unlockRq c).goto c .run)
  | schedule {c : Fin n} (hpc : s.pc c = .run) (hrq : (s.rq c).lock = none) :
      Step k s ((s.lockRq c).goto c (.picking false))
  | signal {c : Fin n} (hpc : s.pc c = .run) (hrq : (s.rq c).lock = none)
      (hstate : (s.task (s.rq c).curr).state ≠ taskRunning) :
      Step k s
        (((s.setTask (s.rq c).curr { s.task (s.rq c).curr with state := taskRunning }).lockRq c).goto c
          (.picking true))
  | sleep {c : Fin n} {pc : Pc n U} (hpc : s.pc c = .run) (hrq : (s.rq c).lock = none)
      (hstate : (s.task (s.rq c).curr).state ≠ taskRunning) (hto : pc = .worker ∨ pc = .picking true) :
      Step k s
        ((((s.setRq c ((s.rq c).erase (s.rq c).curr (k.load (s.task (s.rq c).curr)))).setTask (s.rq c).curr
          { s.task (s.rq c).curr with onRq := .off }).lockRq c).goto c pc)
  | worker {c : Fin n} (hpc : s.pc c = .worker) : Step k s (s.goto c (.picking true))
  | workerLocal {c : Fin n} {p : Tid n U} (hpc : s.pc c = .worker) (hp : (s.task p).cpu = c)
      (hpi : (s.task p).piLock = none) (hqueued : (s.task p).onRq = .queued) :
      Step k s ((s.setTask p { s.task p with state := taskRunning }).goto c (.picking true))
  | workerActivate {c : Fin n} {p : Tid n U} (hpc : s.pc c = .worker) (hp : (s.task p).cpu = c)
      (hpi : (s.task p).piLock = none) (hqueued : (s.task p).onRq ≠ .queued)
      (hstate : (s.task p).state ≠ taskWaking ∧ (s.task p).state ≠ taskRunning) :
      Step k s
        (((s.setRq c ((s.rq c).insert p (k.load (s.task p)))).setTask p
          { s.task p with onRq := .queued, state := taskRunning }).goto c (.picking true))
  | workerBusy {c : Fin n} {p : Tid n U} (hpc : s.pc c = .worker) (hp : (s.task p).cpu = c)
      (hne : p ≠ (s.rq c).curr) (hbound : (s.task p).boundTo c = true) (hthread : p ∈ s.threads) :
      Step k s ((s.unlockRq c).goto c (.localPi p))
  | localPi {c : Fin n} {p : Tid n U} (hpc : s.pc c = .localPi p) (hpi : (s.task p).piLock = none) :
      Step k s ((s.lockPi p c).goto c (.localRq p))
  | localOut {c : Fin n} {p : Tid n U} (hpc : s.pc c = .localRq p) (hrq : (s.rq c).lock = none) :
      Step k s (((s.lockRq c).unlockPi p).goto c (.picking true))
  | localWake {c : Fin n} {p : Tid n U} (hpc : s.pc c = .localRq p) (hrq : (s.rq c).lock = none)
      (hqueued : (s.task p).onRq = .queued) :
      Step k s
        ((((s.setTask p { s.task p with state := taskRunning }).lockRq c).unlockPi p).goto c
          (.picking true))
  | localActivate {c : Fin n} {p : Tid n U} (hpc : s.pc c = .localRq p) (hrq : (s.rq c).lock = none)
      (hqueued : (s.task p).onRq ≠ .queued)
      (hstate : (s.task p).state ≠ taskWaking ∧ (s.task p).state ≠ taskRunning) :
      Step k s
        (((((s.setRq c ((s.rq c).insert p (k.load (s.task p)))).setTask p
          { s.task p with onRq := .queued, state := taskRunning }).lockRq c).unlockPi p).goto c
          (.picking true))
  | unlock {c : Fin n} {voluntary : Bool} (hpc : s.pc c = .picking voluntary) :
      Step k s ((s.unlockRq c).goto c (.balancing voluntary))
  | relock {c : Fin n} {voluntary : Bool} (hpc : s.pc c = .balancing voluntary)
      (hrq : (s.rq c).lock = none) : Step k s ((s.lockRq c).goto c (.picking voluntary))
  | stay {c : Fin n} {voluntary : Bool} (hpc : s.pc c = .picking voluntary)
      (hnext : (s.rq c).curr ∈ (s.rq c).queue ∨ (s.rq c).curr = .idle c) :
      Step k s ((s.unlockRq c).goto c .run)
  | switch {c : Fin n} {voluntary : Bool} {next : Tid n U} (hpc : s.pc c = .picking voluntary)
      (hnext : next ∈ (s.rq c).queue ∨ next = .idle c) (hne : (s.rq c).curr ≠ next) :
      Step k s
        ((((s.setRq c { s.rq c with nrSwitches := (s.rq c).nrSwitches + 1, curr := next }).setTask
          (s.rq c).curr (switchCount (s.task (s.rq c).curr) voluntary)).setTask next
          { s.task next with onCpu := true }).goto c (.switching (s.rq c).curr))
  | finish {c : Fin n} {prev : Tid n U} (hpc : s.pc c = .switching prev) :
      Step k s
        (((s.setTask prev { s.task prev with onCpu := false }).unlockRq c).goto c .run)
  | migrate {c : Fin n} {u : U} {cpu : Fin n} (hpc : s.pc c = .run)
      (hpi : (s.task (.thread u)).piLock = none)
      (hrq : (s.rq (s.task (.thread u)).cpu).lock = none)
      (hqueued : (s.task (.thread u)).onRq = .queued)
      (hcurr : (s.rq (s.task (.thread u)).cpu).curr ≠ .thread u)
      (hplace : (s.task (.thread u)).cpusAllowed cpu = true) :
      Step k s
        ((((s.setRq (s.task (.thread u)).cpu
          { s.rq (s.task (.thread u)).cpu with
            queue := (s.rq (s.task (.thread u)).cpu).queue.erase (.thread u) }).setTask (.thread u)
          (setTaskCpu { s.task (.thread u) with onRq := .moving } cpu)).lockPi (.thread u) c).goto c
          (.moving (.thread u) cpu))
  | migrated {c : Fin n} {p : Tid n U} {cpu : Fin n} (hpc : s.pc c = .moving p cpu) :
      Step k s
        ((((s.setRq cpu { s.rq cpu with queue := p :: (s.rq cpu).queue }).setTask p
          { s.task p with onRq := .queued }).unlockPi p).goto c .run)
  | mask {u : U} {newMask : Fin n → Bool} (hlocal : ∀ d, s.pc d ≠ .localPi (.thread u))
      (hpi : (s.task (.thread u)).piLock = none) (hmask : ∃ d, newMask d = true) :
      Step k s (s.setTask (.thread u) (doSetCpusAllowed (s.task (.thread u)) newMask))
  | wakeCpu {u : U} {cpu : Fin n} :
      Step k s (s.setTask (.thread u) { s.task (.thread u) with wakeCpu := cpu })
  | transfer {u : U} {cpu : Fin n} (hrq : (s.pc (s.task (.thread u)).cpu).phase ≠ .switching (.thread u))
      (hqueued : (s.task (.thread u)).onRq = .queued)
      (hcurr : (s.rq (s.task (.thread u)).cpu).curr ≠ .thread u)
      (hplace : (s.task (.thread u)).cpusAllowed cpu = true) :
      Step k s
        (((s.setRq (s.task (.thread u)).cpu
          ((s.rq (s.task (.thread u)).cpu).erase (.thread u) (k.load (s.task (.thread u))))).setTask
          (.thread u) (setTaskCpu (s.task (.thread u)) cpu)).setRq cpu
          ((Function.update s.rq (s.task (.thread u)).cpu ((s.rq (s.task (.thread u)).cpu).erase
            (.thread u) (k.load (s.task (.thread u)))) cpu).insert (.thread u)
            (k.load (s.task (.thread u)))))

/-! ### Every event is one or two of these -/

theorem ne_of_and_waking {state mask : BitVec 64} (hmask : mask &&& taskWaking = 0)
    (h : ¬state &&& mask = 0) : state ≠ taskWaking ∧ state ≠ taskRunning := by
  constructor
  · rintro rfl
    exact h (by rw [BitVec.and_comm, hmask])
  · rintro rfl
    exact h BitVec.zero_and

theorem ne_waking_of_and {state : BitVec 64} (h : state &&& taskWaking = 0) : state ≠ taskWaking := by
  rintro rfl
  exact absurd h (by decide)

variable {k : Kernel} {s : State n U}

omit [DecidableEq U] in
theorem Kernel.load_of_waking {t : Task n} (h : t.state = taskWaking) : k.load t = 0 := by
  simp [Kernel.load, Kernel.taskContributesToLoad, h, k.contributes_waking]

omit [DecidableEq U] in
theorem Kernel.load_of_running {t : Task n} (h : t.state = taskRunning) : k.load t = 0 := by
  simp [Kernel.load, Kernel.taskContributesToLoad, h, k.contributes_running]

theorem ttwuDoActivate_of_waking {c : Fin n} {p : Tid n U} (h : (s.task p).state = taskWaking) :
    ttwuDoActivate k s c p = (s.setRq c ((s.rq c).insert p (s.task p).noted)).setTask p
      { s.task p with onRq := .queued, state := taskRunning } := by
  rw [ttwuDoActivate_eq, Kernel.load_of_waking h, add_zero]

omit [DecidableEq U] in
/-- No CPU is in the middle of a switch while its run queue can be locked. -/
theorem Locks.phase_ne (h : Locks s) {d : Fin n} (hd : (s.rq d).lock = none) (p : Tid n U) :
    (s.pc d).phase ≠ .switching p := by
  intro hphase
  have hholds : (s.pc d).holdsRq = true := by
    cases hpc : s.pc d <;> simp [hpc, Pc.phase, Pc.holdsRq] at hphase ⊢
  have hlock := (h.rq d d).mpr ⟨rfl, hholds⟩
  rw [hd] at hlock
  cases hlock

omit [DecidableEq U] in
theorem Locks.phase_ne_of_free (h : Locks s) {c d : Fin n} (hc : (s.pc c).mayBalance = true)
    (hd : s.rqFreeFor c d = true) (p : Tid n U) : (s.pc d).phase ≠ .switching p := by
  simp only [State.rqFreeFor, State.rqFree, Bool.or_eq_true, decide_eq_true_eq] at hd
  rcases hd with hd | hd
  · exact h.phase_ne hd p
  · obtain ⟨rfl, -⟩ := (h.rq d c).mp hd
    intro hphase
    cases hpc : s.pc c <;> simp [hpc, Pc.phase, Pc.mayBalance] at hphase hc

theorem migrateSwapTask_step {u : U} {cpu : Fin n}
    (hrq : (s.pc (s.task (.thread u)).cpu).phase ≠ .switching (.thread u))
    (hcurr : (s.rq (s.task (.thread u)).cpu).curr ≠ .thread u)
    (hplace : (s.task (.thread u)).cpusAllowed cpu = true) :
    Step k s (migrateSwapTask k s (.thread u) cpu) := by
  unfold migrateSwapTask
  split_ifs with hqueued
  · have hload : k.load (setTaskCpu (s.task (.thread u)) cpu) = k.load (s.task (.thread u)) := rfl
    have h := Step.transfer (k := k) hrq hqueued hcurr hplace
    rw [activateTask_eq, deactivateTask_eq, State.setTaskCpu, State.setTask_task, State.setTask_rq,
      Function.update_self, State.setRq_task, State.setRq_rq, hload]
    exact h
  · exact .wakeCpu

theorem wakeUpNewTask_eq (p : Tid n U) (cpu : Fin n) :
    wakeUpNewTask k s p cpu =
      { (s.setRq cpu ((s.rq cpu).insert p (k.load (s.task p)))).setTask p
          { setTaskCpu (s.task p) cpu with onRq := .queued } with
        newborn := Function.update s.newborn p false } := by
  have hload : k.load (setTaskCpu (s.task p) cpu) = k.load (s.task p) := rfl
  simp [wakeUpNewTask, activateTask_eq, State.setTaskCpu, State.setTask, State.setRq, hload]

/-- A move of one task changes no other, no place and no current task. -/
theorem migrateSwapTask_frame (p : Tid n U) (cpu : Fin n) :
    (migrateSwapTask k s p cpu).pc = s.pc ∧
      (∀ c, ((migrateSwapTask k s p cpu).rq c).curr = (s.rq c).curr) ∧
      ∀ q, q ≠ p → (migrateSwapTask k s p cpu).task q = s.task q := by
  unfold migrateSwapTask
  split_ifs with hqueued
  · simp only [activateTask_eq, deactivateTask_eq, State.setTaskCpu]
    refine ⟨rfl, fun c => ?_, fun q hq => Function.update_of_ne hq _ _⟩
    simp only [State.setRq_rq, State.setTask_rq, Function.update_apply]
    split_ifs <;> simp_all
  · exact ⟨rfl, fun _ => rfl, fun q hq => Function.update_of_ne hq _ _⟩

theorem migrateSwap_steps (h : Locks s) {u v : U}
    (hcpus : (s.task (.thread u)).cpu ≠ (s.task (.thread v)).cpu)
    (hsrc : (s.rq (s.task (.thread u)).cpu).lock = none)
    (hdst : (s.rq (s.task (.thread v)).cpu).lock = none)
    (hcurr : (s.rq (s.task (.thread u)).cpu).curr ≠ .thread u)
    (hcurr' : (s.rq (s.task (.thread v)).cpu).curr ≠ .thread v)
    (hplace : (s.task (.thread u)).cpusAllowed (s.task (.thread v)).cpu = true)
    (hplace' : (s.task (.thread v)).cpusAllowed (s.task (.thread u)).cpu = true) :
    Relation.ReflTransGen (Step k) s (migrateSwap k s (.thread u) (.thread v)) := by
  have hne : Tid.thread v ≠ .thread u := fun heq => hcpus (by rw [heq])
  obtain ⟨hpc, hcurrs, htask⟩ := migrateSwapTask_frame (k := k) (s := s) (.thread u)
    (s.task (.thread v)).cpu
  have hfirst : Step k s (migrateSwapTask k s (.thread u) (s.task (.thread v)).cpu) :=
    migrateSwapTask_step (h.phase_ne hsrc _) hcurr hplace
  refine .head hfirst (.single (migrateSwapTask_step ?_ ?_ ?_))
  · rw [hpc, htask _ hne]
    exact h.phase_ne hdst _
  · rw [hcurrs, htask _ hne]
    exact hcurr'
  · rw [htask _ hne]
    exact hplace'

theorem ttwuRemote_step {c : Fin n} {p : Tid n U} (hpc : s.pc c = .remote p)
    (hp : (s.task p).onRq ≠ .moving) : Step k s (ttwuRemote s c p) := by
  unfold ttwuRemote ttwuDoWakeup
  split_ifs with hqueued
  · exact .remote hpc hqueued
  · refine .offRq (Or.inr hpc) ?_
    cases honRq : (s.task p).onRq with
    | off => rfl
    | queued => exact absurd honRq hqueued
    | moving => exact absurd honRq hp

theorem ttwuPlace_step {c cpu : Fin n} {p : Tid n U} (hpc : s.pc c = .spin p)
    (hp : (s.task p).onCpu = false) (hplace : (s.task p).cpusAllowed cpu = true) :
    Step k s (ttwuPlace k s c p cpu) := by
  unfold ttwuPlace
  dsimp only
  split_ifs with hcpu
  · exact .place hpc hp hplace ⟨rfl, rfl, rfl⟩ rfl rfl rfl rfl ⟨rfl, rfl⟩
  · exact .place hpc hp hplace ⟨rfl, rfl, not_not.mp hcpu⟩ rfl rfl rfl rfl ⟨rfl, rfl⟩

theorem ttwuQueue_step {c cpu : Fin n} {p : Tid n U} (hpc : s.pc c = .placing p cpu)
    (hstate : (s.task p).state = taskWaking) (remote : Bool) :
    Step k s (ttwuQueue k s c p cpu remote) := by
  unfold ttwuQueue
  split_ifs
  · exact .post hpc
  · rw [ttwuDoActivate_of_waking hstate]
    exact .queue hpc

theorem schedTtwuPending_step {c : Fin n} (hpc : s.pc c = .run) : Step k s (schedTtwuPending s c) := by
  unfold schedTtwuPending
  split
  · exact .idle
  · rename_i hlist
    rw [← hlist]
    exact .ipi hpc

/-- The order of the lock and of a change of the queue does not show. -/
theorem lockRq_erase (c : Fin n) (p : Tid n U) (load : BitVec 64) :
    (s.lockRq c).setRq c (((s.lockRq c).rq c).erase p load) =
      (s.setRq c ((s.rq c).erase p load)).lockRq c := by
  simp [State.lockRq, State.setRq, Rq.erase]

theorem schedule_step {c : Fin n} (hpc : s.pc c = .run) (hrq : (s.rq c).lock = none)
    (preempt signal : Bool) : Step k s (schedule k s c preempt signal) := by
  have hcurr : ((s.lockRq c).rq c).curr = (s.rq c).curr := by simp
  have htask : (s.lockRq c).task = s.task := rfl
  unfold schedule
  simp only [hcurr, htask, deactivateTask_eq, lockRq_erase]
  split_ifs with hstate
  · exact .signal hpc hrq hstate.1
  · exact .sleep hpc hrq hstate.1 (Or.inl rfl)
  · exact .sleep hpc hrq hstate.1 (Or.inr rfl)
  · exact .schedule hpc hrq

/-- `try_to_wake_up_local` finds the task awake or being woken, or still queued, or off the queue. -/
theorem tryToWakeUpLocal_cases (s : State n U) (c : Fin n) (p : Tid n U) :
    tryToWakeUpLocal k s c p = s ∨
    ((s.task p).onRq = .queued ∧
      tryToWakeUpLocal k s c p = s.setTask p { s.task p with state := taskRunning }) ∨
    ((s.task p).onRq ≠ .queued ∧ ((s.task p).state ≠ taskWaking ∧ (s.task p).state ≠ taskRunning) ∧
      tryToWakeUpLocal k s c p = (s.setRq c ((s.rq c).insert p (k.load (s.task p)))).setTask p
        { s.task p with onRq := .queued, state := taskRunning }) := by
  unfold tryToWakeUpLocal
  split_ifs with hstate hqueued
  · exact Or.inl rfl
  · refine Or.inr (Or.inr ⟨hqueued, ne_of_and_waking (by decide) hstate, ?_⟩)
    simp [ttwuActivate, ttwuDoWakeup, activateTask_eq, State.setRq, State.setTask]
  · exact Or.inr (Or.inl ⟨not_not.mp hqueued, rfl⟩)

theorem workerSleeping_step {c : Fin n} (hpc : s.pc c = .worker) {wakeup : Option U}
    (hw : wakeup.all fun u =>
      (s.task (.thread u)).boundTo c && decide (Tid.thread u ∈ s.threads)) :
    Step k s (workerSleeping k s c (wakeup.map .thread)) := by
  cases wakeup with
  | none => exact .worker hpc
  | some u =>
      simp only [Option.all_some, Bool.and_eq_true, decide_eq_true_eq] at hw
      simp only [workerSleeping, Option.map_some]
      split_ifs with hskip hpi
      · exact .worker hpc
      · have hcpu : (s.task (.thread u)).cpu = c := not_not.mp (not_or.mp hskip).1
        rcases tryToWakeUpLocal_cases (k := k) s c (.thread u) with heq | ⟨hq, heq⟩ | ⟨hq, hstate, heq⟩
        · rw [heq]
          exact .worker hpc
        · rw [heq]
          exact .workerLocal hpc hcpu hpi hq
        · rw [heq]
          exact .workerActivate hpc hcpu hpi hq hstate
      · have hcpu : (s.task (.thread u)).cpu = c := not_not.mp (not_or.mp hskip).1
        exact .workerBusy hpc hcpu (not_or.mp hskip).2 hw.1 hw.2

/-- The same for the lock and a change of the queue or of a task. -/
theorem lockRq_insert (c : Fin n) (p : Tid n U) (load : BitVec 64) (t : Task n) :
    ((s.lockRq c).setRq c (((s.lockRq c).rq c).insert p load)).setTask p t =
      ((s.setRq c ((s.rq c).insert p load)).setTask p t).lockRq c := by
  simp [State.lockRq, State.setRq, State.setTask, Rq.insert]

theorem localRq_step {c : Fin n} {p : Tid n U} (hpc : s.pc c = .localRq p)
    (hrq : (s.rq c).lock = none) :
    Step k s (((tryToWakeUpLocal k (s.lockRq c) c p).unlockPi p).goto c (.picking true)) := by
  have htask : (s.lockRq c).task = s.task := rfl
  rcases tryToWakeUpLocal_cases (k := k) (s.lockRq c) c p with heq | ⟨hq, heq⟩ | ⟨hq, hstate, heq⟩
  · rw [heq]
    exact .localOut hpc hrq
  · rw [heq]
    exact .localWake hpc hrq hq
  · rw [heq, lockRq_insert, htask]
    exact .localActivate hpc hrq hq hstate

theorem pick_step {c : Fin n} {voluntary : Bool} {next : Tid n U} (hpc : s.pc c = .picking voluntary)
    (hnext : next ∈ (s.rq c).queue ∨ next = .idle c) : Step k s (pick s c voluntary next) := by
  unfold pick
  dsimp only
  split_ifs with hne
  · have h := Step.switch (k := k) hpc hnext hne
    simp only [State.setRq_task, State.setTask_task, Function.update_of_ne (Ne.symm hne)]
    exact h
  · rw [← not_not.mp hne] at hnext
    exact .stay hpc hnext

theorem step_steps (h : Inv s) {e : Event n U} {t : State n U} (ht : step k s e = some t) :
    Relation.ReflTransGen (Step k) s t := by
  simp only [step, Option.ite_none_right_eq_some, Option.some.injEq] at ht
  obtain ⟨he, rfl⟩ := ht
  cases e with
  | setState c state =>
      simp only [State.enabled, decide_eq_true_eq] at he
      exact .single (.own he.1 rfl rfl ⟨rfl, rfl⟩ rfl (Or.inr ⟨he.2.1, ne_waking_of_and he.2.2⟩))
  | setFlags c flags =>
      simp only [State.enabled, decide_eq_true_eq] at he
      exact .single (.own he rfl rfl ⟨rfl, rfl⟩ rfl (Or.inl rfl))
  | fork c u flags copied allowed =>
      simp only [State.enabled, decide_eq_true_eq] at he
      exact .single (.fork he.2.1 ⟨rfl, rfl⟩ rfl rfl ⟨rfl, rfl⟩ he.2.2)
  | wakeUpNew c u cpu =>
      simp only [State.enabled, decide_eq_true_eq] at he
      simp only [State.perform, wakeUpNewTask_eq]
      exact .single (.wakeUpNew he.2.1 he.2.2.2.2)
  | tryToWakeUp c u mask =>
      simp only [State.enabled, decide_eq_true_eq, State.piFree] at he
      simp only [State.perform, tryToWakeUp]
      split_ifs with hstate
      · exact .refl
      · exact .single (.matched he.1 he.2.1 (ne_of_and_waking he.2.2 hstate))
  | ttwuOnRq c p =>
      simp only [State.enabled, decide_eq_true_eq] at he
      simp only [State.perform, ttwuOnRq]
      split_ifs with hoff
      · exact .single (.onRq he hoff)
      · exact .single (.offRq (Or.inl he) (not_not.mp hoff))
  | ttwuRemote c p =>
      simp only [State.enabled, decide_eq_true_eq] at he
      exact .single (ttwuRemote_step he.1 he.2.2)
  | ttwuPlace c p cpu =>
      simp only [State.enabled, decide_eq_true_eq] at he
      exact .single (ttwuPlace_step he.1 he.2.1 he.2.2)
  | ttwuQueue c p cpu remote =>
      simp only [State.enabled, decide_eq_true_eq] at he
      exact .single (ttwuQueue_step he.1 (h.watch.at_place he.1).1 remote)
  | ipi c =>
      simp only [State.enabled, decide_eq_true_eq] at he
      exact .single (schedTtwuPending_step he)
  | pendingLock c l =>
      simp only [State.enabled, decide_eq_true_eq, State.rqFree] at he
      exact .single (.pendingLock he.1 he.2)
  | pending c l =>
      simp only [State.enabled, decide_eq_true_eq] at he
      cases l with
      | nil => exact .single (.pendingEnd he)
      | cons p l =>
          have hmem : p ∈ s.relay.inbox c := by simp [he, Pc.llist]
          have hcalled := (h.relay.inbox c p hmem).1
          simp only [State.relay_called, decide_eq_true_eq] at hcalled
          simp only [State.perform, ttwuPending, ttwuDoActivate_of_waking hcalled]
          exact .single (.pending he)
  | schedule c preempt signal =>
      simp only [State.enabled, decide_eq_true_eq, State.rqFree] at he
      exact .single (schedule_step he.1 he.2 preempt signal)
  | workerSleeping c wakeup =>
      simp only [State.enabled, decide_eq_true_eq] at he
      exact .single (workerSleeping_step he.1 he.2)
  | localPi c p =>
      simp only [State.enabled, decide_eq_true_eq, State.piFree] at he
      exact .single (.localPi he.1 he.2)
  | localRq c p =>
      simp only [State.enabled, decide_eq_true_eq, State.rqFree] at he
      exact .single (localRq_step he.1 he.2)
  | unlock c voluntary =>
      simp only [State.enabled, decide_eq_true_eq] at he
      exact .single (.unlock he)
  | relock c voluntary =>
      simp only [State.enabled, decide_eq_true_eq, State.rqFree] at he
      exact .single (.relock he.1 he.2)
  | pick c voluntary next =>
      simp only [State.enabled, decide_eq_true_eq] at he
      exact .single (pick_step he.1 he.2)
  | finish c prev =>
      simp only [State.enabled, decide_eq_true_eq] at he
      exact .single (.finish he)
  | setCpusAllowed c u newMask =>
      simp only [State.enabled, decide_eq_true_eq, State.piFree] at he
      simp only [State.perform, setCpusAllowedPtr]
      split_ifs with hsame
      · exact .refl
      · have hmask := (not_or.mp hsame).2
        simp only [not_forall, Bool.not_eq_false] at hmask
        exact .single (.mask he.2.2.2 he.2.1 hmask)
  | migrate c u cpu =>
      simp only [State.enabled, decide_eq_true_eq, State.rqFree, State.piFree] at he
      obtain ⟨hpc, hpi, hrq, hqueued, hcurr, hplace⟩ := he
      have hm := Step.migrate (k := k) hpc hpi hrq hqueued hcurr hplace
      exact .single hm
  | migrated c p cpu =>
      simp only [State.enabled, decide_eq_true_eq, State.rqFree] at he
      have hm := Step.migrated (k := k) he.1
      refine .single ?_
      simp only [State.perform, moveQueuedTask', enqueueTask]
      exact hm
  | swap c u v =>
      simp only [State.enabled, decide_eq_true_eq, State.rqFree, State.piFree] at he
      obtain ⟨-, hcpus, -, -, hsrc, hdst, hcurr, hcurr', hplace, hplace'⟩ := he
      exact migrateSwap_steps h.locks hcpus hsrc hdst hcurr hcurr' hplace hplace'
  | balance c u cpu =>
      simp only [State.enabled, decide_eq_true_eq] at he
      obtain ⟨hsrc, -, hpc, hqueued, hcurr, hplace⟩ := he
      exact .single (migrateSwapTask_step (h.locks.phase_ne_of_free hpc hsrc _) hcurr hplace)

end Lkm.Runq
