import Lkm.RunqWakes

/-! The locks: what every step does to them agrees with the places that it leaves and comes to. -/

namespace Lkm.Runq

open Dispatch

variable {n : Nat} {U : Type} [DecidableEq U] {k : Kernel} {s t : State n U}

/-! ### One change at a time -/

theorem Locks.setTask (h : Locks s) {p : Tid n U} {t : Task n}
    (ht : t.piLock = (s.task p).piLock) : Locks (s.setTask p t) := by
  refine ⟨h.rq, fun q c => ?_⟩
  rw [seen_setTask Task.piLock s ht q]
  exact h.pi q c

omit [DecidableEq U] in
theorem Locks.setRq (h : Locks s) {c : Fin n} {rq : Rq n U} (hrq : rq.lock = (s.rq c).lock) :
    Locks (s.setRq c rq) := by
  refine ⟨fun d e => ?_, h.pi⟩
  rw [seen_setRq Rq.lock s hrq d]
  exact h.rq d e

omit [DecidableEq U] in
theorem Locks.goto (h : Locks s) {c : Fin n} {pc pc' : Pc n U} (hpc : s.pc c = pc')
    (hrq : pc.holdsRq = pc'.holdsRq) (hpi : pc.piTask = pc'.piTask) : Locks (s.goto c pc) := by
  subst hpc
  obtain ⟨hrqs, hpis⟩ := h
  constructor <;> simp only [State.goto_rq, State.goto_task, State.goto_pc, Function.update_apply] <;>
    grind -ring -linarith

omit [DecidableEq U] in
theorem Locks.lockRq_goto (h : Locks s) {c : Fin n} {pc pc' : Pc n U} (hpc : s.pc c = pc')
    (hrq : pc.holdsRq = true) (hpi : pc.piTask = pc'.piTask) : Locks ((s.lockRq c).goto c pc) := by
  subst hpc
  obtain ⟨hrqs, hpis⟩ := h
  constructor <;> simp only [State.goto_rq, State.goto_task, State.goto_pc, State.lockRq_rq,
    State.lockRq_task, State.lockRq_pc, Function.update_apply] <;> grind -ring -linarith

omit [DecidableEq U] in
theorem Locks.unlockRq_goto (h : Locks s) {c : Fin n} {pc pc' : Pc n U} (hpc : s.pc c = pc')
    (hrq : pc.holdsRq = false) (hpi : pc.piTask = pc'.piTask) : Locks ((s.unlockRq c).goto c pc) := by
  subst hpc
  obtain ⟨hrqs, hpis⟩ := h
  constructor <;> simp only [State.goto_rq, State.goto_task, State.goto_pc, State.unlockRq_rq,
    State.unlockRq_task, State.unlockRq_pc, Function.update_apply] <;> grind -ring -linarith

theorem Locks.lockPi_goto (h : Locks s) {c : Fin n} {p : Tid n U} {pc pc' : Pc n U} (hpc : s.pc c = pc')
    (hfree : (s.task p).piLock = none) (hrq : pc.holdsRq = pc'.holdsRq) (hpi : pc'.piTask = none)
    (hp : pc.piTask = some p) : Locks ((s.lockPi p c).goto c pc) := by
  subst hpc
  obtain ⟨hrqs, hpis⟩ := h
  constructor <;> simp only [State.goto_rq, State.goto_task, State.goto_pc, State.lockPi_rq,
    State.lockPi_task, State.lockPi_pc, Function.update_apply] <;> grind -ring -linarith

theorem Locks.unlockPi_goto (h : Locks s) {c : Fin n} {p : Tid n U} {pc pc' : Pc n U} (hpc : s.pc c = pc')
    (hp : pc'.piTask = some p) (hrq : pc.holdsRq = pc'.holdsRq) (hpi : pc.piTask = none) :
    Locks ((s.unlockPi p).goto c pc) := by
  subst hpc
  have hheld := (h.pi p c).mpr hp
  obtain ⟨hrqs, hpis⟩ := h
  constructor <;> simp only [State.goto_rq, State.goto_task, State.goto_pc, State.unlockPi_rq,
    State.unlockPi_task, State.unlockPi_pc, Function.update_apply] <;> grind -ring -linarith

/-- `try_to_wake_up_local` on its way out takes the one lock and gives up the other. -/
theorem Locks.swap_goto (h : Locks s) {c : Fin n} {p : Tid n U} {pc pc' : Pc n U} (hpc : s.pc c = pc')
    (hp : pc'.piTask = some p) (hrq : pc.holdsRq = true) (hpi : pc.piTask = none) :
    Locks (((s.lockRq c).unlockPi p).goto c pc) := by
  subst hpc
  have hheld := (h.pi p c).mpr hp
  obtain ⟨hrqs, hpis⟩ := h
  constructor <;> simp only [State.goto_rq, State.goto_task, State.goto_pc, State.unlockPi_rq,
    State.unlockPi_task, State.unlockPi_pc, State.lockRq_rq, State.lockRq_task, State.lockRq_pc,
    Function.update_apply] <;> grind -ring -linarith

/-! ### Steps -/

@[simp] theorem setTaskCpu_piLock (t : Task n) (cpu : Fin n) : (setTaskCpu t cpu).piLock = t.piLock := rfl

@[simp] theorem switchCount_piLock (t : Task n) (voluntary : Bool) :
    (switchCount t voluntary).piLock = t.piLock := by
  cases voluntary <;> rfl

omit [DecidableEq U] in
theorem Pc.of_piTask {pc : Pc n U} {p : Tid n U} (hp : pc.piTask = some p) :
    pc = .waking p ∨ pc = .remote p ∨ pc = .spin p ∨ (∃ cpu, pc = .placing p cpu) ∨ pc = .localRq p ∨
      ∃ cpu, pc = .moving p cpu := by
  cases pc <;> simp_all [Pc.piTask]

/-- A `pi_lock` is held for the sake of a task that exists. -/
theorem Inv.mem_threads_of_piTask (h : Inv s) {c : Fin n} {p : Tid n U} (hp : (s.pc c).piTask = some p) :
    p ∈ s.threads := by
  by_contra hno
  obtain ⟨hoff, hrun, -⟩ := h.watch.fresh p (Or.inr hno)
  rcases Pc.of_piTask hp with hpc | hpc | hpc | ⟨cpu, hpc⟩ | hpc | ⟨cpu, hpc⟩
  · exact hno (h.watch.matched (Or.inl hpc)).2.2
  · exact hno (h.watch.matched (Or.inr hpc)).2.2
  · exact (h.watch.at_place hpc).2.2 hrun
  · exact running_ne_waking (hrun.symm.trans (h.watch.at_place hpc).1)
  · exact hno (h.watch.localTask (Or.inr hpc)).2.2.2
  · have hmoving : (s.task p).onRq = .moving := h.dispatch.carrying c p (congrArg Pc.phase hpc)
    rw [hoff] at hmoving
    cases hmoving

theorem Inv.piLock_of_not_mem (h : Inv s) {p : Tid n U} (hp : p ∉ s.threads) :
    (s.task p).piLock = none := by
  cases hlock : (s.task p).piLock with
  | none => rfl
  | some c => exact absurd (h.mem_threads_of_piTask ((h.locks.pi p c).mp hlock)) hp

omit [DecidableEq U] in
/-- Neither the tasks that exist nor those that are new take part. -/
theorem Locks.of_eq (h : Locks s) (hrq : t.rq = s.rq) (htask : t.task = s.task) (hpc : t.pc = s.pc) :
    Locks t := by
  constructor
  · rw [hrq, hpc]
    exact h.rq
  · rw [htask, hpc]
    exact h.pi

theorem locks_step (h : Inv s) (hs : Step k s t) : Locks t := by
  have hl := h.locks
  cases hs with
  | idle => exact hl
  | own hpc hspot hpi => exact hl.setTask hpi
  | fork hu ht hstate hpi =>
      exact (hl.setTask (hpi.trans (h.piLock_of_not_mem hu).symm)).of_eq rfl rfl rfl
  | wakeUpNew hu hplace =>
      refine Locks.of_eq (Locks.setTask (Locks.setRq hl ?_) ?_) rfl rfl rfl
      · rfl
      · rfl
  | matched hpc hpi => exact hl.lockPi_goto hpc hpi rfl rfl rfl
  | onRq hpc hp => exact hl.goto hpc rfl rfl
  | offRq hpc hp =>
      rcases hpc with hpc | hpc
      · exact hl.goto hpc rfl rfl
      · exact hl.goto hpc rfl rfl
  | remote hpc hp => refine Locks.unlockPi_goto (hl.setTask ?_) hpc rfl ?_ ?_ <;> rfl
  | place hpc hp hplace ht hpi => exact Locks.goto (hl.setTask hpi) hpc rfl rfl
  | post hpc => refine Locks.unlockPi_goto (hl.setRq ?_) hpc rfl ?_ ?_ <;> rfl
  | queue hpc => refine Locks.unlockPi_goto (Locks.setTask (hl.setRq ?_) ?_) hpc rfl ?_ ?_ <;> rfl
  | ipi hpc => refine Locks.goto (hl.setRq ?_) hpc ?_ ?_ <;> rfl
  | pendingLock hpc hrq => exact hl.lockRq_goto hpc rfl rfl
  | pending hpc => refine Locks.goto (Locks.setTask (hl.setRq ?_) ?_) hpc ?_ ?_ <;> rfl
  | pendingEnd hpc => exact hl.unlockRq_goto hpc rfl rfl
  | schedule hpc hrq => exact hl.lockRq_goto hpc rfl rfl
  | signal hpc hrq hstate => refine Locks.lockRq_goto (hl.setTask ?_) hpc ?_ ?_ <;> rfl
  | sleep hpc hrq hstate hto =>
      rcases hto with rfl | rfl
      · refine Locks.lockRq_goto (Locks.setTask (hl.setRq ?_) ?_) hpc ?_ ?_ <;> rfl
      · refine Locks.lockRq_goto (Locks.setTask (hl.setRq ?_) ?_) hpc ?_ ?_ <;> rfl
  | worker hpc => exact hl.goto hpc rfl rfl
  | workerLocal hpc hp hpi hqueued => refine Locks.goto (hl.setTask ?_) hpc ?_ ?_ <;> rfl
  | workerActivate hpc hp hpi hqueued hstate =>
      refine Locks.goto (Locks.setTask (hl.setRq ?_) ?_) hpc ?_ ?_ <;> rfl
  | workerBusy hpc => exact hl.unlockRq_goto hpc rfl rfl
  | localPi hpc hpi => exact hl.lockPi_goto hpc hpi rfl rfl rfl
  | localOut hpc hrq => exact hl.swap_goto hpc rfl rfl rfl
  | localWake hpc hrq hqueued => refine Locks.swap_goto (hl.setTask ?_) hpc rfl ?_ ?_ <;> rfl
  | localActivate hpc hrq hqueued hstate =>
      refine Locks.swap_goto (Locks.setTask (hl.setRq ?_) ?_) hpc rfl ?_ ?_ <;> rfl
  | unlock hpc => exact hl.unlockRq_goto hpc rfl rfl
  | relock hpc hrq => exact hl.lockRq_goto hpc rfl rfl
  | stay hpc hnext => exact hl.unlockRq_goto hpc rfl rfl
  | switch hpc hnext hne =>
      refine Locks.goto (Locks.setTask (Locks.setTask (hl.setRq ?_) ?_) ?_) hpc ?_ ?_
      · rfl
      · exact switchCount_piLock _ _
      · rw [State.setTask_task, Function.update_of_ne (Ne.symm hne)]
        rfl
      · rfl
      · rfl
  | finish hpc => refine Locks.unlockRq_goto (hl.setTask ?_) hpc ?_ ?_ <;> rfl
  | migrate hpc hpi =>
      refine Locks.lockPi_goto (Locks.setTask (hl.setRq ?_) ?_) hpc ?_ ?_ rfl ?_
      · rfl
      · rfl
      · rw [State.setTask_task, Function.update_self]
        exact hpi
      · rfl
      · rfl
  | migrated hpc => refine Locks.unlockPi_goto (Locks.setTask (hl.setRq ?_) ?_) hpc rfl ?_ ?_ <;> rfl
  | mask hlocal => exact hl.setTask rfl
  | wakeCpu => exact hl.setTask rfl
  | transfer hrq hqueued hcurr hplace =>
      refine Locks.setRq (Locks.setTask (hl.setRq ?_) ?_) ?_ <;> rfl

end Lkm.Runq
