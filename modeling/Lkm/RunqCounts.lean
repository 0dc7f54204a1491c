import Lkm.RunqRuns
import Lkm.BaseAccounts

/-! The two counts that CPUs and tasks keep together: switches, and the sleepers of the load average.
On both books every step is an entry or nothing. -/

namespace Lkm.Runq

open Accounts

variable {n : Nat} {U : Type} [DecidableEq U] {k : Kernel} {s t : State n U}

/-- What a task adds to `nr_uninterruptible` while it sleeps: what it contributed when it went to sleep,
or what has been noted of that since it is being woken. -/
def Kernel.debt (k : Kernel) (t : Task n) : BitVec 64 :=
  if t.onRq ≠ .off then 0 else if t.state = taskWaking then t.noted else k.load t

namespace State

@[simps]
def switchBook (s : State n U) : Book (Fin n) (Tid n U) (BitVec 64) where
  proc c := (s.rq c).nrSwitches
  job p := (s.task p).nvcsw + (s.task p).nivcsw
  jobs := s.threads

@[simps]
def loadBook (k : Kernel) (s : State n U) : Book (Fin n) (Tid n U) (BitVec 64) where
  proc c := (s.rq c).nrUninterruptible
  job p := k.debt (s.task p)
  jobs := s.threads

end State

/-! ### Switches -/

@[simp] theorem switchBook_setTask (s : State n U) {p : Tid n U} {t : Task n}
    (h : t.nvcsw + t.nivcsw = (s.task p).nvcsw + (s.task p).nivcsw) :
    (s.setTask p t).switchBook = s.switchBook :=
  Book.ext rfl (funext (seen_setTask (fun t => t.nvcsw + t.nivcsw) s h)) rfl

omit [DecidableEq U] in
@[simp] theorem switchBook_setRq (s : State n U) {c : Fin n} {rq : Rq n U}
    (h : rq.nrSwitches = (s.rq c).nrSwitches) : (s.setRq c rq).switchBook = s.switchBook :=
  Book.ext (funext (seen_setRq Rq.nrSwitches s h)) rfl rfl

omit [DecidableEq U] in
@[simp] theorem switchBook_goto (s : State n U) (c : Fin n) (pc : Pc n U) :
    (s.goto c pc).switchBook = s.switchBook := rfl

omit [DecidableEq U] in
@[simp] theorem switchBook_lockRq (s : State n U) (c : Fin n) : (s.lockRq c).switchBook = s.switchBook :=
  switchBook_setRq s rfl

omit [DecidableEq U] in
@[simp] theorem switchBook_unlockRq (s : State n U) (c : Fin n) :
    (s.unlockRq c).switchBook = s.switchBook := switchBook_setRq s rfl

@[simp] theorem switchBook_lockPi (s : State n U) (p : Tid n U) (c : Fin n) :
    (s.lockPi p c).switchBook = s.switchBook := switchBook_setTask s rfl

@[simp] theorem switchBook_unlockPi (s : State n U) (p : Tid n U) :
    (s.unlockPi p).switchBook = s.switchBook := switchBook_setTask s rfl

theorem switchCount_add (t : Task n) (voluntary : Bool) :
    (switchCount t voluntary).nvcsw + (switchCount t voluntary).nivcsw = t.nvcsw + t.nivcsw + 1 := by
  cases voluntary
  · exact (add_assoc _ _ _).symm
  · exact add_right_comm _ _ _

/-- A task that is current exists. -/
theorem Inv.curr_mem (h : Inv s) (c : Fin n) : (s.rq c).curr ∈ s.threads := by
  by_contra hno
  have hon : (s.task (s.rq c).curr).onCpu = true := h.dispatch.currOnCpu c
  rw [(h.watch.fresh _ (Or.inr hno)).2.2] at hon
  cases hon

theorem switch_entry (h : Inv s) (hs : Step k s t) :
    Relation.ReflTransGen Book.Entry s.switchBook t.switchBook := by
  have same {b : Book (Fin n) (Tid n U) (BitVec 64)} (heq : b = s.switchBook) :
      Relation.ReflTransGen Book.Entry s.switchBook b := by
    rw [heq]
  cases hs with
  | idle => exact .refl
  | own hpc hspot hpi hcsw =>
      refine same (switchBook_setTask s ?_)
      rw [hcsw.1, hcsw.2]
  | @fork u t hu ht hstate hpi hcsw =>
      refine .single ?_
      have heq : (State.switchBook { s.setTask (.thread u) t with
          threads := insert (.thread u) s.threads
          newborn := Function.update s.newborn (.thread u) true }) = s.switchBook.start (.thread u) := by
        refine Book.ext rfl (funext fun q => ?_) rfl
        refine (Function.apply_update (fun _ t => Task.nvcsw t + Task.nivcsw t) s.task _ t q).trans ?_
        rw [hcsw.1, hcsw.2, add_zero]
        rfl
      rw [heq]
      exact .start hu
  | @wakeUpNew u cpu hu hplace =>
      refine same ((switchBook_setTask (s.setRq cpu _) ?_).trans (switchBook_setRq s ?_)) <;> rfl
  | place hpc hp hplace ht hpi hmask hstate hload hcsw =>
      refine same (switchBook_setTask s ?_)
      rw [hcsw.1, hcsw.2]
  | @switch c voluntary next hpc hnext hne =>
      have hentry : Book.Entry s.switchBook (s.switchBook.post c (s.rq c).curr 1) := .post (h.curr_mem c)
      have hfirst : ((s.setRq c { s.rq c with nrSwitches := (s.rq c).nrSwitches + 1, curr := next }).setTask
          (s.rq c).curr (switchCount (s.task (s.rq c).curr) voluntary)).switchBook =
          s.switchBook.post c (s.rq c).curr 1 := by
        refine Book.ext (funext fun d => ?_) (funext fun q => ?_) rfl
        · exact Function.apply_update (fun _ => Rq.nrSwitches) s.rq c _ d
        · refine (Function.apply_update (fun _ t => Task.nvcsw t + Task.nivcsw t) s.task _ _ q).trans ?_
          rw [switchCount_add]
          rfl
      have hnext : ((s.setRq c { s.rq c with nrSwitches := (s.rq c).nrSwitches + 1, curr := next }).setTask
          (s.rq c).curr (switchCount (s.task (s.rq c).curr) voluntary)).task next = s.task next :=
        Function.update_of_ne (Ne.symm hne) _ _
      rw [switchBook_goto, switchBook_setTask, hfirst]
      · exact .single hentry
      · rw [hnext]
  | transfer hrq hqueued hcurr hplace =>
      refine same ((switchBook_setRq _ ?_).trans ((switchBook_setTask _ ?_).trans (switchBook_setRq s ?_)))
      · rfl
      · rfl
      · rfl
  | mask hlocal => exact same (switchBook_setTask s rfl)
  | _ => exact same (by simp [setTaskCpu])

/-! ### The load -/

@[simp] theorem loadBook_setTask (k : Kernel) (s : State n U) {p : Tid n U} {t : Task n}
    (h : k.debt t = k.debt (s.task p)) : (s.setTask p t).loadBook k = s.loadBook k :=
  Book.ext rfl (funext (seen_setTask k.debt s h)) rfl

omit [DecidableEq U] in
@[simp] theorem loadBook_setRq (k : Kernel) (s : State n U) {c : Fin n} {rq : Rq n U}
    (h : rq.nrUninterruptible = (s.rq c).nrUninterruptible) : (s.setRq c rq).loadBook k = s.loadBook k :=
  Book.ext (funext (seen_setRq Rq.nrUninterruptible s h)) rfl rfl

omit [DecidableEq U] in
@[simp] theorem loadBook_goto (k : Kernel) (s : State n U) (c : Fin n) (pc : Pc n U) :
    (s.goto c pc).loadBook k = s.loadBook k := rfl

omit [DecidableEq U] in
@[simp] theorem loadBook_lockRq (k : Kernel) (s : State n U) (c : Fin n) :
    (s.lockRq c).loadBook k = s.loadBook k := loadBook_setRq k s rfl

omit [DecidableEq U] in
@[simp] theorem loadBook_unlockRq (k : Kernel) (s : State n U) (c : Fin n) :
    (s.unlockRq c).loadBook k = s.loadBook k := loadBook_setRq k s rfl

@[simp] theorem loadBook_lockPi (k : Kernel) (s : State n U) (p : Tid n U) (c : Fin n) :
    (s.lockPi p c).loadBook k = s.loadBook k := loadBook_setTask k s rfl

@[simp] theorem loadBook_unlockPi (k : Kernel) (s : State n U) (p : Tid n U) :
    (s.unlockPi p).loadBook k = s.loadBook k := loadBook_setTask k s rfl

omit [DecidableEq U] in
@[simp] theorem Kernel.debt_of_onRq {t : Task n} (h : t.onRq ≠ .off) : k.debt t = 0 := if_pos h

omit [DecidableEq U] in
theorem Kernel.debt_of_waking {t : Task n} (h : t.onRq = .off) (hstate : t.state = taskWaking) :
    k.debt t = t.noted := by
  simp [Kernel.debt, h, hstate]

omit [DecidableEq U] in
theorem Kernel.debt_of_asleep {t : Task n} (h : t.onRq = .off) (hstate : t.state ≠ taskWaking) :
    k.debt t = k.load t := by
  simp [Kernel.debt, h, hstate]

/-- A task that comes to a queue takes what it owes off the count there. -/
theorem loadBook_insert (s : State n U) (c : Fin n) {p : Tid n U} {t : Task n} (ht : t.onRq ≠ .off) :
    ((s.setRq c ((s.rq c).insert p (k.debt (s.task p)))).setTask p t).loadBook k =
      (s.loadBook k).post c p (-k.debt (s.task p)) := by
  refine Book.ext (funext fun d => ?_) (funext fun q => ?_) rfl
  · exact (Function.apply_update (fun _ => Rq.nrUninterruptible) s.rq c _ d).trans
      (by rw [Rq.insert_nrUninterruptible, sub_eq_add_neg]; rfl)
  · refine (Function.apply_update (fun _ => k.debt) s.task p t q).trans ?_
    rw [Kernel.debt_of_onRq ht]
    exact (congrFun (congrArg (Function.update _ p) (add_neg_cancel _)) q).symm

/-- The entry of a task that is queued when it has been woken. -/
theorem Inv.insert_entry (h : Inv s) {c : Fin n} {p : Tid n U} {load : BitVec 64} {t : Task n}
    (hp : (s.task p).state ≠ taskRunning) (hload : load = k.debt (s.task p)) (ht : t.onRq ≠ .off) :
    Book.Entry (s.loadBook k) (((s.setRq c ((s.rq c).insert p load)).setTask p t).loadBook k) := by
  rw [hload, loadBook_insert s c ht]
  exact .post (h.not_fresh hp).2

theorem load_entry (h : Inv s) (hs : Step k s t) :
    Relation.ReflTransGen Book.Entry (s.loadBook k) (t.loadBook k) := by
  have same {b : Book (Fin n) (Tid n U) (BitVec 64)} (heq : b = s.loadBook k) :
      Relation.ReflTransGen Book.Entry (s.loadBook k) b := by
    rw [heq]
  -- a task that is on a queue before and after owes nothing
  have queued {p : Tid n U} {t : Task n} (hold : (s.task p).onRq ≠ .off) (hnew : t.onRq ≠ .off) :
      k.debt t = k.debt (s.task p) :=
    (Kernel.debt_of_onRq hnew).trans (Kernel.debt_of_onRq hold).symm
  cases hs with
  | idle => exact .refl
  | own hpc hspot =>
      have hold := queued_ne_off (h.curr_queued hpc)
      have hstage : _ = (s.task _).onRq := congrArg Dispatch.Spot.stage hspot
      exact same (loadBook_setTask k s (queued hold (hstage.trans_ne hold)))
  | @fork u t hu ht hstate =>
      have hdebt : k.debt t = 0 :=
        (Kernel.debt_of_asleep ht.1 (hstate.trans_ne running_ne_waking)).trans (Kernel.load_of_running hstate)
      have heq : (State.loadBook k { s.setTask (.thread u) t with
          threads := insert (.thread u) s.threads
          newborn := Function.update s.newborn (.thread u) true }) = (s.loadBook k).start (.thread u) := by
        refine Book.ext rfl (funext fun q => ?_) rfl
        refine (Function.apply_update (fun _ => k.debt) s.task _ t q).trans ?_
        rw [hdebt]
        rfl
      rw [heq]
      exact .single (.start hu)
  | @wakeUpNew u cpu hu hplace =>
      obtain ⟨hoff, hrun, -⟩ := h.watch.fresh (.thread u) (Or.inl hu)
      have hload : k.load (s.task (.thread u)) = 0 := Kernel.load_of_running hrun
      have hdebt : k.debt (s.task (.thread u)) = 0 :=
        (Kernel.debt_of_asleep hoff (hrun.trans_ne running_ne_waking)).trans hload
      refine same ((loadBook_setTask k (s.setRq cpu _) ?_).trans (loadBook_setRq k s ?_))
      · exact (Kernel.debt_of_onRq (by rintro ⟨⟩)).trans hdebt.symm
      · rw [Rq.insert_nrUninterruptible, hload, sub_zero]
  | @remote c p hpc hp =>
      refine same ?_
      rw [loadBook_goto, loadBook_unlockPi, loadBook_setTask]
      exact queued (queued_ne_off hp) (queued_ne_off hp)
  | @place c p cpu t hpc hp hplace ht hpi hmask hstate hload =>
      obtain ⟨hoff, hno, -⟩ := h.watch.at_place hpc
      have hnoted : t.noted = k.load (s.task p) := by rw [Task.noted, hload, Kernel.load]
      refine same (loadBook_setTask k s ?_)
      rw [Kernel.debt_of_waking (ht.1.trans hoff) hstate, Kernel.debt_of_asleep hoff hno, hnoted]
  | @queue c p cpu hpc =>
      obtain ⟨hstate, -⟩ := h.watch.at_place hpc
      have hdebt := Kernel.debt_of_waking (k := k) (h.watch.called p hstate).1 hstate
      rw [loadBook_goto, loadBook_unlockPi]
      refine .single (h.insert_entry (hstate.trans_ne (Ne.symm running_ne_waking)) hdebt.symm ?_)
      rintro ⟨⟩
  | @pending c p l hpc =>
      have hmem : p ∈ s.relay.inbox c := by simp [hpc, Pc.llist]
      have hstate : (s.task p).state = taskWaking := of_decide_eq_true (h.relay.inbox c p hmem).1
      have hdebt := Kernel.debt_of_waking (k := k) (h.watch.called p hstate).1 hstate
      rw [loadBook_goto]
      refine .single (h.insert_entry (hstate.trans_ne (Ne.symm running_ne_waking)) hdebt.symm ?_)
      rintro ⟨⟩
  | @signal c hpc =>
      have hold := queued_ne_off (h.curr_queued hpc)
      refine same ?_
      rw [loadBook_goto, loadBook_lockRq, loadBook_setTask]
      exact queued hold hold
  | @sleep c pc hpc hrq hstate hto =>
      have hold : k.debt (s.task (s.rq c).curr) = 0 :=
        Kernel.debt_of_onRq (queued_ne_off (h.curr_queued hpc))
      have hnew : k.debt { s.task (s.rq c).curr with onRq := .off } = k.load (s.task (s.rq c).curr) :=
        Kernel.debt_of_asleep rfl (h.not_waking_of_curr c)
      have heq : ((s.setRq c ((s.rq c).erase (s.rq c).curr (k.load (s.task (s.rq c).curr)))).setTask
          (s.rq c).curr { s.task (s.rq c).curr with onRq := .off }).loadBook k =
          (s.loadBook k).post c (s.rq c).curr (k.load (s.task (s.rq c).curr)) := by
        refine Book.ext (funext fun d => ?_) (funext fun q => ?_) rfl
        · exact Function.apply_update (fun _ => Rq.nrUninterruptible) s.rq c _ d
        · refine (Function.apply_update (fun _ => k.debt) s.task _ _ q).trans ?_
          rw [hnew, Book.post, State.loadBook_job, hold, zero_add]
          rfl
      rw [loadBook_goto, loadBook_lockRq, heq]
      exact .single (.post (h.curr_mem c))
  | @workerLocal c p hpc hp hpi hqueued =>
      refine same ?_
      rw [loadBook_goto, loadBook_setTask]
      exact queued (queued_ne_off hqueued) (queued_ne_off hqueued)
  | @workerActivate c p hpc hp hpi hqueued hstate =>
      have hdebt := Kernel.debt_of_asleep (k := k) (off_of_ne hqueued (h.not_moving_of_free hpi)) hstate.1
      rw [loadBook_goto]
      refine .single (h.insert_entry hstate.2 hdebt.symm ?_)
      rintro ⟨⟩
  | @localWake c p hpc hrq hqueued =>
      refine same ?_
      rw [loadBook_goto, loadBook_unlockPi, loadBook_lockRq, loadBook_setTask]
      exact queued (queued_ne_off hqueued) (queued_ne_off hqueued)
  | @localActivate c p hpc hrq hqueued hstate =>
      have hdebt := Kernel.debt_of_asleep (k := k) (off_of_ne hqueued (h.not_moving_of_local hpc)) hstate.1
      rw [loadBook_goto, loadBook_unlockPi, loadBook_lockRq]
      refine .single (h.insert_entry hstate.2 hdebt.symm ?_)
      rintro ⟨⟩
  | @switch c voluntary next hpc hnext hne =>
      have hcount : k.debt (switchCount (s.task (s.rq c).curr) voluntary) =
          k.debt (s.task (s.rq c).curr) := by
        cases voluntary <;> rfl
      have hnext : ((s.setRq c { s.rq c with nrSwitches := (s.rq c).nrSwitches + 1, curr := next }).setTask
          (s.rq c).curr (switchCount (s.task (s.rq c).curr) voluntary)).task next = s.task next :=
        Function.update_of_ne (Ne.symm hne) _ _
      refine same ?_
      rw [loadBook_goto, loadBook_setTask, loadBook_setTask, loadBook_setRq]
      · rfl
      · exact hcount
      · rw [hnext]
        rfl
  | finish hpc =>
      refine same ?_
      rw [loadBook_goto, loadBook_unlockRq, loadBook_setTask]
      rfl
  | @migrate c u cpu hpc hpi hrq hqueued =>
      refine same ?_
      rw [loadBook_goto, loadBook_lockPi, loadBook_setTask, loadBook_setRq]
      · rfl
      · refine queued (queued_ne_off hqueued) ?_
        rintro ⟨⟩
  | @migrated c p cpu hpc =>
      have hmoving : (s.task p).onRq = .moving := h.dispatch.carrying c p (congrArg Pc.phase hpc)
      refine same ?_
      rw [loadBook_goto, loadBook_unlockPi, loadBook_setTask, loadBook_setRq]
      · rfl
      · refine queued (fun hoff => ?_) ?_
        · rw [hmoving] at hoff
          cases hoff
        · rintro ⟨⟩
  | mask hlocal => exact same (loadBook_setTask k s rfl)
  | wakeCpu => exact same (loadBook_setTask k s rfl)
  | @transfer u cpu hrq hqueued hcurr hplace =>
      have hentry : Book.Entry (s.loadBook k)
          ((s.loadBook k).move (s.task (.thread u)).cpu cpu (k.load (s.task (.thread u)))) := .move
      let rq := Function.update s.rq (s.task (.thread u)).cpu
        ((s.rq (s.task (.thread u)).cpu).erase (.thread u) (k.load (s.task (.thread u))))
      have hrqs : (fun d => (rq d).nrUninterruptible) =
          Function.update (s.loadBook k).proc (s.task (.thread u)).cpu
            ((s.loadBook k).proc (s.task (.thread u)).cpu + k.load (s.task (.thread u))) :=
        funext fun d => Function.apply_update (fun _ => Rq.nrUninterruptible) s.rq _ _ d
      refine .single (Eq.subst (motive := Book.Entry (s.loadBook k)) ?_ hentry)
      refine Book.ext (funext fun d => ?_) (funext fun q => ?_) rfl
      · refine Eq.trans ?_ (Function.apply_update (fun _ => Rq.nrUninterruptible) rq cpu _ d).symm
        rw [Book.move, ← hrqs]
        rfl
      · refine Eq.trans ?_ (Function.apply_update (fun _ => k.debt) s.task _ _ q).symm
        exact (congrFun (Function.update_eq_self _ (s.loadBook k).job) q).symm
  | _ => exact same (by simp)

/-! ### Every run -/

def nrContextSwitches (s : State n U) : BitVec 64 := ∑ c, (s.rq c).nrSwitches

/-- Whether a task sleeps and is counted for the load average. -/
def Kernel.countsAsleep (k : Kernel) (t : Task n) : Bool :=
  t.onRq = .off ∧ if t.state = taskWaking then t.contributesToLoad else k.taskContributesToLoad t

omit [DecidableEq U] in
theorem Kernel.debt_eq (k : Kernel) (t : Task n) : k.debt t = if k.countsAsleep t then 1 else 0 := by
  by_cases hoff : t.onRq = .off <;> by_cases hstate : t.state = taskWaking <;>
    simp [Kernel.debt, Kernel.countsAsleep, Task.noted, Kernel.load, hoff, hstate]

theorem boot_balanced (k : Kernel) (cpu : Fin n) :
    (boot n U cpu).switchBook.Balanced ∧ ((boot n U cpu).loadBook k).Balanced := by
  have hload (p : Tid n U) : k.debt ((boot n U cpu).task p) = 0 := by
    cases p with
    | idle c => exact Kernel.debt_of_onRq (by rintro ⟨⟩)
    | thread u =>
        refine (Kernel.debt_of_asleep rfl running_ne_waking).trans (Kernel.load_of_running rfl)
  have hcsw (p : Tid n U) :
      ((boot n U cpu).task p).nvcsw + ((boot n U cpu).task p).nivcsw = 0 := by
    cases p <;> rfl
  constructor
  · simp [Book.Balanced, hcsw]
  · simp [Book.Balanced, hload]

/-- The state with its two books. -/
structure Counted (k : Kernel) (s : State n U) : Prop where
  inv : Inv s
  switches : s.switchBook.Balanced
  load : (s.loadBook k).Balanced

theorem Counted.step (h : Counted k s) (hs : Step k s t) : Counted k t where
  inv := h.inv.step hs
  switches := h.switches.entries (switch_entry h.inv hs)
  load := h.load.entries (load_entry h.inv hs)

theorem counted_step {e : Event n U} (h : Counted k s) (ht : step k s e = some t) : Counted k t := by
  have hsteps := step_steps h.inv ht
  clear ht
  induction hsteps with
  | refl => exact h
  | tail _ hs ih => exact ih.step hs

theorem counted_run (k : Kernel) (cpu : Fin n) (es : List (Event n U)) :
    Runs.Always (step k) (Counted k) (boot n U cpu) es :=
  Runs.always_of_step (Counted k) (fun _ _ _ => counted_step)
    ⟨boot_inv U cpu, (boot_balanced k cpu).1, (boot_balanced k cpu).2⟩ es

/-- A task that sleeps on CPU 0 and is woken through the wake list of CPU 1 leaves 1 and -1 behind. -/
example :
    let k : Kernel :=
      { contributes := fun state _ => state &&& taskUninterruptible ≠ 0
        contributes_running := fun _ => rfl
        contributes_waking := fun _ => rfl }
    let p : Tid 2 (Fin 1) := .thread 0
    let sleep : List (Event 2 (Fin 1)) :=
      [.fork 0 0 0 0 fun _ => true, .wakeUpNew 0 0 0, .schedule 0 false false, .pick 0 false p,
        .finish 0 (.idle 0), .setState 0 taskUninterruptible, .schedule 0 false false,
        .pick 0 true (.idle 0), .finish 0 p]
    let wake : List (Event 2 (Fin 1)) :=
      [.tryToWakeUp 0 0 taskNormal, .ttwuOnRq 0 p, .ttwuPlace 0 p 1, .ttwuQueue 0 p 1 true, .ipi 1,
        .pendingLock 1 [p], .pending 1 [p], .pending 1 []]
    (Runs.run (step k) (boot 2 (Fin 1) 0) (sleep ++ wake)).map
      (fun s => ((s.rq 0).nrUninterruptible, (s.rq 1).nrUninterruptible, (s.rq 1).queue)) =
        some (1, -1, [p]) := by
  decide

end Lkm.Runq
