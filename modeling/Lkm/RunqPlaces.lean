import Lkm.RunqSteps

/-! Where the tasks are. On the board of the run queues every step is a sequence of its operations, most
often of none. -/

namespace Lkm.Runq

open Dispatch

variable {n : Nat} {U : Type} [DecidableEq U] {k : Kernel} {s t : State n U}

/-! ### The board after a change -/

@[simp] theorem setTaskCpu_spot (t : Task n) (cpu : Fin n) :
    (setTaskCpu t cpu).spot = { t.spot with cpu := cpu } := rfl

@[simp] theorem switchCount_spot (t : Task n) (voluntary : Bool) :
    (switchCount t voluntary).spot = t.spot := by
  cases voluntary <;> rfl

theorem dispatch_setTask (s : State n U) (p : Tid n U) (t : Task n) :
    (s.setTask p t).dispatch = { s.dispatch with spot := Function.update s.dispatch.spot p t.spot } := by
  refine Board.ext (funext fun q => ?_) rfl rfl rfl
  exact Function.apply_update (fun _ => Task.spot) s.task p t q

omit [DecidableEq U] in
theorem dispatch_setRq (s : State n U) (c : Fin n) (rq : Rq n U) :
    (s.setRq c rq).dispatch = { s.dispatch with
      curr := Function.update s.dispatch.curr c rq.curr
      queue := Function.update s.dispatch.queue c rq.queue } := by
  refine Board.ext rfl (funext fun d => ?_) (funext fun d => ?_) rfl
  · exact Function.apply_update (fun _ => Rq.curr) s.rq c rq d
  · exact Function.apply_update (fun _ => Rq.queue) s.rq c rq d

omit [DecidableEq U] in
theorem dispatch_goto (s : State n U) (c : Fin n) (pc : Pc n U) :
    (s.goto c pc).dispatch = { s.dispatch with phase := Function.update s.dispatch.phase c pc.phase } := by
  refine Board.ext rfl rfl rfl (funext fun d => ?_)
  exact Function.apply_update (fun _ => Pc.phase) s.pc c pc d

/-- A change of the record that does not move the task. -/
theorem dispatch_setTask_same (s : State n U) {p : Tid n U} {t : Task n}
    (h : t.spot = (s.task p).spot) : (s.setTask p t).dispatch = s.dispatch :=
  Board.ext (funext (seen_setTask Task.spot s h)) rfl rfl rfl

omit [DecidableEq U] in
theorem dispatch_setRq_same (s : State n U) {c : Fin n} {rq : Rq n U} (hcurr : rq.curr = (s.rq c).curr)
    (hqueue : rq.queue = (s.rq c).queue) : (s.setRq c rq).dispatch = s.dispatch :=
  Board.ext rfl (funext (seen_setRq Rq.curr s hcurr)) (funext (seen_setRq Rq.queue s hqueue)) rfl

omit [DecidableEq U] in
/-- A CPU that goes on in the same phase. -/
theorem dispatch_goto_same (s : State n U) {c : Fin n} {pc pc' : Pc n U} (hpc : s.pc c = pc')
    (h : pc.phase = pc'.phase) : (s.goto c pc).dispatch = s.dispatch := by
  subst hpc
  exact Board.ext rfl rfl rfl (funext (seen_goto Pc.phase s h))

omit [DecidableEq U] in
theorem dispatch_lockRq (s : State n U) (c : Fin n) : (s.lockRq c).dispatch = s.dispatch :=
  dispatch_setRq_same s rfl rfl

omit [DecidableEq U] in
theorem dispatch_unlockRq (s : State n U) (c : Fin n) : (s.unlockRq c).dispatch = s.dispatch :=
  dispatch_setRq_same s rfl rfl

theorem dispatch_lockPi (s : State n U) (p : Tid n U) (c : Fin n) :
    (s.lockPi p c).dispatch = s.dispatch := dispatch_setTask_same s rfl

theorem dispatch_unlockPi (s : State n U) (p : Tid n U) : (s.unlockPi p).dispatch = s.dispatch :=
  dispatch_setTask_same s rfl

/-! ### What the places rule out -/

/-- A task on its way is in the hands of the CPU that holds its `pi_lock`. -/
theorem Inv.moving_lock (h : Inv s) {p : Tid n U} (hp : (s.task p).onRq = .moving) :
    ∃ c cpu, s.pc c = .moving p cpu ∧ (s.task p).piLock = some c := by
  obtain ⟨⟨c, hc⟩, -⟩ := h.dispatch.moving p hp
  have hpc : ∃ cpu, s.pc c = .moving p cpu := by
    cases hpc : s.pc c <;> simp [hpc, Pc.phase] at hc
    subst hc
    exact ⟨_, rfl⟩
  obtain ⟨cpu, hpc⟩ := hpc
  exact ⟨c, cpu, hpc, (h.locks.pi p c).mpr (by rw [hpc]; rfl)⟩

theorem Inv.not_moving_of_free (h : Inv s) {p : Tid n U} (hpi : (s.task p).piLock = none) :
    (s.task p).onRq ≠ .moving := by
  intro hp
  obtain ⟨c, cpu, -, hlock⟩ := h.moving_lock hp
  rw [hpi] at hlock
  cases hlock

/-- Nor is it while another place has its `pi_lock`. -/
theorem Inv.not_moving_of_piTask (h : Inv s) {c : Fin n} {p : Tid n U} (hpc : (s.pc c).piTask = some p)
    (hne : ∀ cpu, s.pc c ≠ .moving p cpu) : (s.task p).onRq ≠ .moving := by
  intro hp
  obtain ⟨d, cpu, hd, hlock⟩ := h.moving_lock hp
  have hself := (h.locks.pi p c).mpr hpc
  rw [hlock, Option.some.injEq] at hself
  subst hself
  exact hne cpu hd

theorem Inv.not_moving_of_local (h : Inv s) {c : Fin n} {p : Tid n U} (hpc : s.pc c = .localRq p) :
    (s.task p).onRq ≠ .moving := by
  refine h.not_moving_of_piTask (c := c) (by rw [hpc]; rfl) fun cpu hmoving => ?_
  rw [hpc] at hmoving
  cases hmoving

/-- A task that is not current and not being switched out does not run. -/
theorem Inv.onCpu_false (h : Inv s) {p : Tid n U} (hcurr : (s.rq (s.task p).cpu).curr ≠ p)
    (hphase : (s.pc (s.task p).cpu).phase ≠ .switching p) : (s.task p).onCpu = false := by
  by_contra hon
  rw [Bool.not_eq_false] at hon
  exact (h.dispatch.onCpu p hon).elim hcurr hphase

theorem off_of_ne {t : Task n} (hqueued : t.onRq ≠ .queued) (hmoving : t.onRq ≠ .moving) : t.onRq = .off := by
  cases honRq : t.onRq with
  | off => rfl
  | queued => exact absurd honRq hqueued
  | moving => exact absurd honRq hmoving

/-- What `pick_next_task` may answer. -/
theorem Inv.next (h : Inv s) {c : Fin n} {next : Tid n U}
    (hnext : next ∈ (s.rq c).queue ∨ next = .idle c) :
    (s.task next).onRq = .queued ∧ (s.task next).cpu = c := by
  rcases hnext with hmem | rfl
  · obtain ⟨hqueued, hcpu, -⟩ := h.dispatch.of_mem_queue hmem
    exact ⟨hqueued, hcpu⟩
  · exact ⟨h.dispatch.fixedQueued _ rfl, h.watch.idleCpu c⟩

/-- A current task sleeps only if it is not the idle task. -/
theorem Inv.curr_not_idle (h : Inv s) {c : Fin n} (hstate : (s.task (s.rq c).curr).state ≠ taskRunning) :
    (s.rq c).curr.isIdle = false := by
  cases hcurr : (s.rq c).curr with
  | idle d =>
      rw [hcurr] at hstate
      exact absurd (h.watch.idleState d) hstate
  | thread u => rfl

/-- A change of the record that at most places the task. -/
theorem dispatch_setTask_place (s : State n U) {p : Tid n U} {t : Task n}
    (hon : t.onRq = (s.task p).onRq ∧ t.onCpu = (s.task p).onCpu) :
    (s.setTask p t).dispatch = s.dispatch.place p t.cpu := by
  have hspot : t.spot = { (s.task p).spot with cpu := t.cpu } := by
    unfold Task.spot
    rw [hon.1, hon.2]
  rw [dispatch_setTask, hspot]
  rfl

/-- The board after a task has come to a queue. -/
theorem dispatch_insert (s : State n U) (c : Fin n) {p : Tid n U} (load : BitVec 64) {t : Task n}
    (ht : t.spot = { (s.task p).spot with stage := .queued }) :
    ((s.setRq c ((s.rq c).insert p load)).setTask p t).dispatch = s.dispatch.enqueue c p := by
  rw [dispatch_setTask, dispatch_setRq, ht]
  exact Board.ext rfl (Function.update_eq_self _ _) rfl rfl

theorem dispatch_step (h : Inv s) (hs : Step k s t) :
    Relation.ReflTransGen (Board.Move Tid.isIdle) s.dispatch t.dispatch := by
  have same {b : Dispatch.Board (Fin n) (Tid n U)} (heq : b = s.dispatch) :
      Relation.ReflTransGen (Board.Move Tid.isIdle) s.dispatch b := by
    rw [heq]
  have one {b b' : Dispatch.Board (Fin n) (Tid n U)} (heq : b' = b)
      (hm : Board.Move Tid.isIdle s.dispatch b) :
      Relation.ReflTransGen (Board.Move Tid.isIdle) s.dispatch b' := heq ▸ .single hm
  cases hs with
  | idle => exact .refl
  | own hpc hspot => exact same (dispatch_setTask_same s hspot)
  | @fork u t hu ht =>
      obtain ⟨hoff, -, hon⟩ := h.watch.fresh (.thread u) (Or.inr hu)
      have hsame : t.onRq = (s.task (.thread u)).onRq ∧ t.onCpu = (s.task (.thread u)).onCpu :=
        ⟨ht.1.trans hoff.symm, ht.2.trans hon.symm⟩
      exact one (dispatch_setTask_place s hsame) (.place (b := s.dispatch) hoff hon)
  | @wakeUpNew u cpu hu hplace =>
      obtain ⟨hoff, -, hon⟩ := h.watch.fresh (.thread u) (Or.inl hu)
      have hplaced : (s.dispatch.place (.thread u) cpu).spot (.thread u) =
          { s.dispatch.spot (.thread u) with cpu := cpu } := Function.update_self _ _ _
      have heq : ((s.setRq cpu ((s.rq cpu).insert (.thread u) (k.load (s.task (.thread u))))).setTask
          (.thread u) { setTaskCpu (s.task (.thread u)) cpu with onRq := .queued }).dispatch =
          (s.dispatch.place (.thread u) cpu).enqueue cpu (.thread u) := by
        rw [dispatch_setTask, dispatch_setRq, Board.enqueue, hplaced]
        refine Board.ext ?_ (Function.update_eq_self _ _) rfl rfl
        exact (Function.update_idem _ _ _).symm
      refine .head (.place (b := s.dispatch) (j := .thread u) (c := cpu) hoff hon) (.single ?_)
      refine heq ▸ .enqueue ?_ ?_
      · rw [hplaced]
        exact hoff
      · rw [hplaced]
  | matched hpc =>
      refine same (Eq.trans (dispatch_goto_same _ hpc rfl) ?_)
      rw [dispatch_lockPi]
  | onRq hpc => exact same (dispatch_goto_same s hpc rfl)
  | offRq hpc =>
      rcases hpc with hpc | hpc
      · exact same (dispatch_goto_same s hpc rfl)
      · exact same (dispatch_goto_same s hpc rfl)
  | @remote c p hpc hp =>
      refine same (Eq.trans (dispatch_goto_same _ hpc rfl) ?_)
      rw [dispatch_unlockPi,
        dispatch_setTask_same]
      rfl
  | @place c p cpu t hpc hp hplace ht =>
      obtain ⟨hoff, -⟩ := h.watch.at_place hpc
      refine one (Eq.trans (dispatch_goto_same _ hpc rfl) (dispatch_setTask_place s ⟨ht.1, ht.2.1⟩)) ?_
      exact .place hoff hp
  | @post c p cpu hpc =>
      refine same (Eq.trans (dispatch_goto_same _ hpc rfl) ?_)
      rw [dispatch_unlockPi,
        dispatch_setRq_same] <;> rfl
  | @queue c p cpu hpc =>
      obtain ⟨hstate, hcpu⟩ := h.watch.at_place hpc
      obtain ⟨hoff, -⟩ := h.watch.called p hstate
      refine one ?_ (.enqueue hoff hcpu)
      refine Eq.trans (dispatch_goto_same _ hpc rfl) ?_
      rw [dispatch_unlockPi,
        dispatch_insert]
      rfl
  | @ipi c hpc =>
      refine same (Eq.trans (dispatch_goto_same _ hpc rfl) ?_)
      rw [dispatch_setRq_same] <;> rfl
  | @pendingLock c l hpc =>
      refine same (Eq.trans (dispatch_goto_same _ hpc rfl) ?_)
      rw [dispatch_lockRq]
  | @pending c p l hpc =>
      have hmem : p ∈ s.relay.inbox c := by simp [hpc, Pc.llist]
      obtain ⟨hcalled, hcpu, -⟩ := h.relay.inbox c p hmem
      obtain ⟨hoff, -⟩ := h.watch.called p (of_decide_eq_true hcalled)
      refine one ?_ (.enqueue hoff hcpu)
      refine Eq.trans (dispatch_goto_same _ hpc rfl) ?_
      rw [dispatch_insert]
      rfl
  | @pendingEnd c hpc =>
      refine same (Eq.trans (dispatch_goto_same _ hpc rfl) ?_)
      rw [dispatch_unlockRq]
  | @schedule c hpc =>
      refine one ?_ (.enter (c := c) (congrArg Pc.phase hpc))
      rw [dispatch_goto, dispatch_lockRq]
      rfl
  | @signal c hpc =>
      refine one ?_ (.enter (c := c) (congrArg Pc.phase hpc))
      rw [dispatch_goto, dispatch_lockRq, dispatch_setTask_same]
      · rfl
      · rfl
  | @sleep c pc hpc hrq hstate hto =>
      have hphase : pc.phase = .deciding := by rcases hto with rfl | rfl <;> rfl
      refine .head (.enter (c := c) (congrArg Pc.phase hpc)) (.single ?_)
      have heq : ((((s.setRq c ((s.rq c).erase (s.rq c).curr (k.load (s.task (s.rq c).curr)))).setTask
          (s.rq c).curr { s.task (s.rq c).curr with onRq := .off }).lockRq c).goto c pc).dispatch =
          (s.dispatch.enter c).sleep c := by
        rw [dispatch_goto, dispatch_lockRq, dispatch_setTask, dispatch_setRq, hphase]
        exact Board.ext rfl (Function.update_eq_self _ _) rfl rfl
      exact heq ▸ .sleep (Function.update_self _ _ _) (h.curr_not_idle hstate)
  | @worker c hpc => exact same (dispatch_goto_same s hpc rfl)
  | @workerLocal c p hpc =>
      refine same (Eq.trans (dispatch_goto_same _ hpc rfl) ?_)
      rw [dispatch_setTask_same]
      rfl
  | @workerActivate c p hpc hp hpi hqueued hstate =>
      refine one ?_ (.enqueue (off_of_ne hqueued (h.not_moving_of_free hpi)) hp)
      refine Eq.trans (dispatch_goto_same _ hpc rfl) ?_
      rw [dispatch_insert]
      rfl
  | @workerBusy c p hpc =>
      refine same (Eq.trans (dispatch_goto_same _ hpc rfl) ?_)
      rw [dispatch_unlockRq]
  | @localPi c p hpc =>
      refine same (Eq.trans (dispatch_goto_same _ hpc rfl) ?_)
      rw [dispatch_lockPi]
  | @localOut c p hpc =>
      refine same (Eq.trans (dispatch_goto_same _ hpc rfl) ?_)
      rw [dispatch_unlockPi, dispatch_lockRq]
  | @localWake c p hpc =>
      refine same (Eq.trans (dispatch_goto_same _ hpc rfl) ?_)
      rw [dispatch_unlockPi, dispatch_lockRq, dispatch_setTask_same]
      rfl
  | @localActivate c p hpc hrq hqueued hstate =>
      refine one ?_ (.enqueue (off_of_ne hqueued (h.not_moving_of_local hpc))
        (h.watch.localTask (Or.inr hpc)).1)
      refine Eq.trans (dispatch_goto_same _ hpc rfl) ?_
      rw [dispatch_unlockPi, dispatch_lockRq, dispatch_insert]
      rfl
  | @unlock c voluntary hpc =>
      refine same (Eq.trans (dispatch_goto_same _ hpc rfl) ?_)
      rw [dispatch_unlockRq]
  | @relock c voluntary hpc =>
      refine same (Eq.trans (dispatch_goto_same _ hpc rfl) ?_)
      rw [dispatch_lockRq]
  | @stay c voluntary hpc hnext =>
      refine one ?_ (.stay (c := c) (congrArg Pc.phase hpc) (h.next hnext).1)
      rw [dispatch_goto, dispatch_unlockRq]
      rfl
  | @switch c voluntary next hpc hnext hne =>
      obtain ⟨hqueued, hcpu⟩ := h.next hnext
      refine one ?_ (.switch (c := c) (congrArg Pc.phase hpc) hqueued hcpu hne)
      rw [dispatch_goto, dispatch_setTask, dispatch_setTask, dispatch_setRq, switchCount_spot]
      refine Board.ext ?_ rfl (Function.update_eq_self _ _) rfl
      exact congrArg (fun f => Function.update f next _) (Function.update_eq_self _ _)
  | @finish c prev hpc =>
      refine one ?_ (.finish (c := c) (j := prev) (congrArg Pc.phase hpc))
      rw [dispatch_goto, dispatch_unlockRq, dispatch_setTask]
      rfl
  | @migrate c u cpu hpc hpi hrq hqueued hcurr hplace =>
      have hon := h.onCpu_false hcurr (h.locks.phase_ne hrq _)
      refine one ?_ (.detach (c := c) (d := cpu) (congrArg Pc.phase hpc) hqueued rfl hon)
      rw [dispatch_goto, dispatch_lockPi, dispatch_setTask, dispatch_setRq]
      exact Board.ext rfl (Function.update_eq_self _ _) rfl rfl
  | @migrated c p cpu hpc =>
      refine one ?_ (.attach (c := c) (j := p) (congrArg Pc.phase hpc) (h.watch.at_place hpc))
      rw [dispatch_goto, dispatch_unlockPi, dispatch_setTask, dispatch_setRq]
      exact Board.ext rfl (Function.update_eq_self _ _) rfl rfl
  | mask hlocal => exact same (dispatch_setTask_same s rfl)
  | @wakeCpu u cpu => exact same (dispatch_setTask_same s rfl)
  | @transfer u cpu hrq hqueued hcurr hplace =>
      have hon := h.onCpu_false hcurr hrq
      refine one ?_ (.transfer (d := cpu) hqueued rfl hon)
      let rq := Function.update s.rq (s.task (.thread u)).cpu
        ((s.rq (s.task (.thread u)).cpu).erase (.thread u) (k.load (s.task (.thread u))))
      have hcurrs : (fun c => (rq c).curr) = s.dispatch.curr := by
        funext c
        refine (Function.apply_update (fun _ => Rq.curr) s.rq _ _ c).trans ?_
        exact congrFun (Function.update_eq_self _ s.dispatch.curr) c
      let queue : Fin n → List (Tid n U) := Function.update s.dispatch.queue (s.task (.thread u)).cpu
        ((s.rq (s.task (.thread u)).cpu).queue.erase (.thread u))
      have hqueue : (rq cpu).queue = queue cpu :=
        Function.apply_update (fun _ => Rq.queue) s.rq _ _ cpu
      have hinner : Function.update s.dispatch.curr (s.task (.thread u)).cpu
          (s.rq (s.task (.thread u)).cpu).curr = s.dispatch.curr := Function.update_eq_self _ _
      have hlast : (rq cpu).curr = s.dispatch.curr cpu := congrFun hcurrs cpu
      rw [dispatch_setRq, dispatch_setTask, dispatch_setRq]
      refine Board.ext rfl ?_ ?_ rfl
      · show Function.update (Function.update s.dispatch.curr _ (s.rq _).curr) cpu (rq cpu).curr = _
        rw [hinner, hlast]
        exact Function.update_eq_self _ _
      · exact congrArg (fun l => Function.update queue cpu (.thread u :: l)) hqueue

end Lkm.Runq
