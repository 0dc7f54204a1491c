import Lkm.CoreRt
import Mathlib.Tactic.FinCases

/-! Real-time tasks in groups without runtime. A system call does not put a task there, nor does the
move of a task, fork, a new bandwidth or a new global limit. What can is code that does not ask: a call
of the kernel itself, the deadline policy, whose tasks count as real-time tasks, and a boost. Without
these a run keeps every real-time task in a group that may run it. -/

namespace Lkm.Core

open Runs TreeWalk

variable {n : Nat} {h : Hooks} {s t : State n} {e : Event n} {p : TaskPtr} {x : Task n}

/-- The group of the task has runtime. -/
def HasRuntime (g : Groups n) (t : Task n) : Prop := (g.rt t.schedTaskGroup).rtRuntime ≠ 0

/-- While there is a limit, every real-time task has a group with runtime. -/
def NotStarved (s : State n) : Prop :=
  rtBandwidthEnabled s.sysctl = true →
    ∀ p ∈ s.tasks.threads, (s.tasks.task p).rtTask = true → HasRuntime s.groups (s.tasks.task p)

/-- The steps that raise a task without a look at its group. -/
inductive Bypasses (s : State n) (e : Event n) : Prop where
  | call (c : Caller) (p : TaskPtr) (attr : SchedAttr) (user : Bool)
      (hcall : e.call s = some (c, p, attr, user))
      (hwithout : user = false ∨ dlPolicy (attr.policyFor (s.tasks.task p)) = true)
      (hnone : ¬HasRuntime s.groups (s.tasks.task p))
  | boost (p : TaskPtr) (prio : Int) (piPreempts : Bool) (he : e = .setprio p prio piPreempts)
      (hprio : rtPrio prio = true) (hnone : ¬HasRuntime s.groups (s.tasks.task p))

/-- Every thread is in a group that is there. -/
def Grouped (s : State n) : Prop :=
  ∀ p ∈ s.tasks.threads, (s.tasks.task p).schedTaskGroup ∈ s.groups.taskGroups

/-! ### Priorities that a step leaves -/

theorem rtPrio_static {t : Task n} (hnice : minNice ≤ t.taskNice ∧ t.taskNice ≤ maxNice) :
    rtPrio t.staticPrio = false := by
  have hstatic := niceRange hnice
  exact decide_eq_false (by unfold maxRtPrio; omega)

@[simp] theorem setUserNice_schedTaskGroup (t : Task n) (nice : Int) :
    (setUserNice t nice).schedTaskGroup = t.schedTaskGroup := by
  unfold setUserNice effectivePrio
  dsimp only
  split_ifs <;> rfl

@[simp] theorem sysNice_schedTaskGroup (c : Caller) (t : Task n) (increment : Int) :
    (sysNice c t increment).2.schedTaskGroup = t.schedTaskGroup := by
  unfold sysNice
  dsimp only
  split_ifs <;> simp

@[simp] theorem checkClassChanged_schedTaskGroup (t : Task n) (k : SchedClass) :
    (checkClassChanged h t k).schedTaskGroup = t.schedTaskGroup := by
  unfold checkClassChanged
  split_ifs <;> rfl

@[simp] theorem setscheduler_schedTaskGroup (t : Task n) (attr : SchedAttr) :
    (setscheduler t attr).schedTaskGroup = t.schedTaskGroup :=
  (setschedulerParams_frame t attr).2.2

@[simp] theorem commitTask_schedTaskGroup (t : Task n) (c : Caller) (attr : SchedAttr) :
    (commitTask h c t attr).schedTaskGroup = t.schedTaskGroup := by
  unfold commitTask
  dsimp only
  split_ifs
  · exact (setschedulerParams_frame _ attr).2.2
  · simp

@[simp] theorem rtMutexSetprio_schedTaskGroup (ts : Tasks n) (p : TaskPtr) (prio : Int)
    (piPreempts : Bool) :
    ((rtMutexSetprio h ts p prio piPreempts).task p).schedTaskGroup = (ts.task p).schedTaskGroup := by
  unfold rtMutexSetprio
  dsimp only
  split_ifs <;> simp

@[simp] theorem normalizeRtTask_schedTaskGroup (t : Task n) :
    (normalizeRtTask h t).schedTaskGroup = t.schedTaskGroup := by
  unfold normalizeRtTask normalizeTask
  dsimp only
  split_ifs <;> simp

/-- Only a move to another group changes the group. -/
theorem Move.schedTaskGroup (hmove : Move h s e p x) :
    x.schedTaskGroup = (s.tasks.task p).schedTaskGroup ∨
      (∃ tg ∈ s.groups.taskGroups, x.schedTaskGroup = tg ∧
        schedRtCanAttach s.groups tg (s.tasks.task p) = true ∧ x.prio = (s.tasks.task p).prio) := by
  cases hmove with
  | group tg htg hattach => exact Or.inr ⟨tg, htg, rfl, hattach, rfl⟩
  | _ => exact Or.inl (by simp)

/-- A nice value makes no task a real-time task. -/
theorem setUserNice_rtTask {t : Task n} {nice : Int} (hrt : (setUserNice t nice).rtTask = true) :
    t.rtTask = true := by
  unfold setUserNice at hrt
  split_ifs at hrt with hskip hpolicy
  · exact hrt
  · exact hrt
  rw [not_or, not_or, not_lt, not_lt] at hskip
  rw [not_or, Bool.not_eq_true, Bool.not_eq_true] at hpolicy
  unfold effectivePrio at hrt
  dsimp only at hrt
  cases hprio : rtPrio t.prio with
  | true => exact hprio
  | false =>
      rw [hprio] at hrt
      have hnormal : normalPrio { t with staticPrio := niceToPrio nice } = niceToPrio nice :=
        normalPrio_fair (t := { t with staticPrio := niceToPrio nice }) hpolicy.1 hpolicy.2
      have hrt' : rtPrio (niceToPrio nice) = true := (congrArg rtPrio hnormal).symm.trans hrt
      have hlt := of_decide_eq_true hrt'
      unfold niceToPrio maxRtPrio at hlt
      unfold minNice at hskip
      omega

/-- A call makes real-time tasks of those that ask for it. -/
theorem commitTask_rtTask {t : Task n} {c : Caller} {attr : SchedAttr} (ht : t.Fit)
    (hvalid : validAttr t attr = true) (hpromised : Promised c t attr)
    (hrt : (commitTask h c t attr).rtTask = true) :
    t.rtTask = true ∨ dlPolicy (attr.policyFor t) = true ∨ rtPolicy (attr.policyFor t) = true := by
  have hfits := attrFits_of_validAttr hvalid
  have ht' : { t with schedResetOnFork := attr.resetOnForkFor t }.ParamsFit :=
    ⟨ht.policy, ht.nice, ht.rtPriority_le, ht.rtPriority_pos, ht.normal, ht.dl⟩
  have hparams := paramsFit_setschedulerParams ht'
    ⟨hfits.policy, hfits.flags, hfits.priority_le, hfits.dl, hfits.rt⟩ hpromised.policy hpromised.nice
  unfold commitTask Task.rtTask at hrt
  dsimp only at hrt
  split_ifs at hrt
  · rw [setschedulerParams_prio] at hrt
    exact Or.inl hrt
  · rw [checkClassChanged_prio, setscheduler_prio, ← hparams.normal, hparams.rtPrio_normalPrio] at hrt
    have hpolicy : (setschedulerParams { t with schedResetOnFork := attr.resetOnForkFor t }
        attr).policy = attr.policyFor t :=
      (setschedulerParams_policy _ attr).trans (policyFor_eq hpromised.policy)
    unfold Task.hasDlPolicy Task.hasRtPolicy at hrt
    rw [hpolicy] at hrt
    exact Or.inr (by simpa using hrt)

theorem normalizeRtTask_rtTask {t : Task n} (ht : t.Fit)
    (hrt : (normalizeRtTask h t).rtTask = true) : t.rtTask = true := by
  unfold normalizeRtTask at hrt
  split_ifs at hrt with hk hprio hneg
  · exact hrt
  · exact setUserNice_rtTask hrt
  · exact hrt
  · have hparams := paramsFit_setschedulerParams ht.toParamsFit (attrFits_normal t) (by decide)
      (Or.inr (by decide))
    unfold normalizeTask Task.rtTask at hrt
    dsimp only at hrt
    rw [checkClassChanged_prio, setscheduler_prio, ← hparams.normal, hparams.rtPrio_normalPrio] at hrt
    cases hrt

/-- What a step makes of the threads, as long as it looks at their groups. -/
theorem hasRuntime_move (hs : NotStarved s) (hfit : s.tasks.Fit) (hp : p ∈ s.tasks.threads)
    (hno : ¬Bypasses s e) (hon : rtBandwidthEnabled s.sysctl = true) (hmove : Move h s e p x)
    (hrt : x.rtTask = true) : HasRuntime s.groups x := by
  rcases hmove.schedTaskGroup with hgroup | ⟨tg, -, hgroup, hattach, hprio⟩
  swap
  · -- A task that moves has been checked.
    intro hzero
    rw [hgroup] at hzero
    have hwas : (s.tasks.task p).rtTask = true := (congrArg rtPrio hprio).symm.trans hrt
    have hzero' : (s.groups.tg tg).rtBandwidth.rtRuntime = 0 := hzero
    unfold schedRtCanAttach at hattach
    rw [hwas, hzero'] at hattach
    cases hattach
  unfold HasRuntime
  rw [hgroup]
  have hold (hwas : (s.tasks.task p).rtTask = true) : HasRuntime s.groups (s.tasks.task p) :=
    hs hon p hp hwas
  cases hmove with
  | same | resetOnFork | cpu | affinity | group => exact hold hrt
  | policy c attr user hcall hpermits hpromised hrun =>
      have hnew (hwithout : user = false ∨ dlPolicy (attr.policyFor (s.tasks.task p)) = true) :
          HasRuntime s.groups (s.tasks.task p) := by
        by_contra hnone
        exact hno (.call c p attr user hcall hwithout hnone)
      rcases commitTask_rtTask (hfit.fit hp) hpermits.valid hpromised hrt with hwas | hdl | hrtPolicy
      · exact hold hwas
      · exact hnew (Or.inr hdl)
      · cases user with
        | false => exact hnew (Or.inl rfl)
        | true =>
            intro hzero
            have hmay := hrun rfl
            unfold userMayRun at hmay
            rw [if_pos ⟨hon, hrtPolicy, hzero⟩] at hmay
            cases hmay
  | nice v => exact hold (setUserNice_rtTask hrt)
  | sysNice c increment =>
      unfold sysNice at hrt
      dsimp only at hrt
      split_ifs at hrt
      · exact hold hrt
      · exact hold hrt
      · exact hold (setUserNice_rtTask hrt)
  | setprio prio piPreempts he hnamed =>
      unfold rtMutexSetprio at hrt
      dsimp only at hrt
      rw [if_neg ((named_eq_false.mp hnamed _).2), Tasks.set_task_self] at hrt
      unfold Task.rtTask at hrt
      rw [checkClassChanged_prio] at hrt
      exact fun hzero => hno (.boost p prio piPreempts he hrt fun hrun => hrun hzero)
  | normalize => exact hold (normalizeRtTask_rtTask (hfit.fit hp) hrt)

/-- A child is a real-time task only if its parent is one. -/
theorem schedFork_rtTask {current r : Task n} {mm kthread : Bool} {cpu : Fin n} (hc : current.Fit)
    (hfork : schedFork current { current with mm := mm, kthread := kthread } cpu = some r) :
    r.schedTaskGroup = current.schedTaskGroup ∧ (r.rtTask = true → current.rtTask = true) := by
  unfold schedFork at hfork
  dsimp only at hfork
  have hprio (hnormal : rtPrio current.normalPrio = true) : current.rtTask = true := by
    have hlt := of_decide_eq_true hnormal
    exact decide_eq_true (hc.prio_le.trans_lt hlt)
  have hstatic := rtPrio_static hc.nice
  have hzero : rtPrio (niceToPrio 0) = false := by decide
  by_cases hreset : current.schedResetOnFork = true
  · rw [if_pos hreset, Option.ite_none_left_eq_some, Option.some.injEq] at hfork
    obtain ⟨-, rfl⟩ := hfork
    unfold resetForFork innerNormalPrio Task.rtTask
    dsimp only
    split_ifs
    · exact ⟨rfl, fun hrt => absurd (hzero.symm.trans hrt) Bool.false_ne_true⟩
    · exact ⟨rfl, fun hrt => absurd (hzero.symm.trans hrt) Bool.false_ne_true⟩
    · exact ⟨rfl, fun hrt => absurd (hstatic.symm.trans hrt) Bool.false_ne_true⟩
  · rw [if_neg hreset, Option.ite_none_left_eq_some, Option.some.injEq] at hfork
    obtain ⟨-, rfl⟩ := hfork
    exact ⟨rfl, hprio⟩

/-! ### One step -/

/-- Every thread was one before, or has just been forked. -/
theorem step_threads_mem (hstep : step h s e = some t) (hp : p ∈ t.tasks.threads) :
    p ∈ s.tasks.threads ∨ ∃ parent cpu mm kthread, e = .fork parent p cpu mm kthread := by
  by_cases hfork : ∃ parent child cpu mm kthread, e = .fork parent child cpu mm kthread
  · obtain ⟨parent, child, cpu, mm, kthread, rfl⟩ := hfork
    obtain ⟨-, -, -, -, r, -, rfl⟩ := fork_cases hstep
    rcases List.mem_cons.mp hp with rfl | hp
    · exact Or.inr ⟨parent, cpu, mm, kthread, rfl⟩
    · exact Or.inl hp
  by_cases hexit : ∃ q, e = .exit q
  · obtain ⟨q, rfl⟩ := hexit
    obtain ⟨-, -, rfl⟩ := exit_cases hstep
    exact Or.inl (List.mem_of_mem_erase hp)
  push Not at hfork hexit
  by_cases hstop : ∃ c cpu stop, e = .stopTask c cpu stop
  · obtain ⟨c, cpu, stop, rfl⟩ := hstop
    exact Or.inl ((stopTask_cases hstep).1 ▸ hp)
  · push Not at hstop
    exact Or.inl ((step_sameThreads hstep hfork hexit hstop).threads ▸ hp)

theorem reclass_frame (e : Event n) (s : State n) (p : TaskPtr) (x : Task n) :
    (e.reclass s p x).rtTask = x.rtTask ∧ (e.reclass s p x).schedTaskGroup = x.schedTaskGroup := by
  unfold Event.reclass
  split
  · split_ifs <;> exact ⟨rfl, rfl⟩
  · exact ⟨rfl, rfl⟩

/-- The task that a fork makes. -/
theorem fork_child {parent child : TaskPtr} {cpu : Fin n} {mm kthread : Bool} (hfit : s.tasks.Fit)
    (hstep : step h s (.fork parent child cpu mm kthread) = some t) :
    parent ∈ s.tasks.threads ∧
      (t.tasks.task child).schedTaskGroup = (s.tasks.task parent).schedTaskGroup ∧
      ((t.tasks.task child).rtTask = true → (s.tasks.task parent).rtTask = true) := by
  obtain ⟨hparent, -, -, -, r, hr, rfl⟩ := fork_cases hstep
  have hchild : (s.tasks.set child r).task child = r := Tasks.set_task_self _ _ _
  have hr' := schedFork_rtTask (hfit.fit hparent) hr
  rw [← hchild] at hr'
  exact ⟨hparent, hr'⟩

/-- The tasks after a step, in the groups before it. -/
theorem hasRuntime_step (hs : NotStarved s) (hfit : s.tasks.Fit) (hno : ¬Bypasses s e)
    (hon : rtBandwidthEnabled s.sysctl = true) (hstep : step h s e = some t)
    (hp : p ∈ t.tasks.threads) (hrt : (t.tasks.task p).rtTask = true) :
    HasRuntime s.groups (t.tasks.task p) := by
  rcases step_threads_mem hstep hp with hp | ⟨parent, cpu, mm, kthread, rfl⟩
  · obtain ⟨x, hmove, hx⟩ := step_thread hfit.nodup hstep hp
    obtain ⟨hreclass, hgroup⟩ := reclass_frame e s p x
    rw [hx, hreclass] at hrt
    unfold HasRuntime
    rw [hx, hgroup]
    exact hasRuntime_move hs hfit hp hno hon hmove hrt
  · obtain ⟨hparent, hgroup, hwas⟩ := fork_child hfit hstep
    unfold HasRuntime
    rw [hgroup]
    exact hs hon parent hparent (hwas hrt)

theorem grouped_step (hgrouped : Grouped s) (hfit : s.tasks.Fit) (hstep : step h s e = some t) :
    Grouped t := by
  -- The groups of the tasks after the step, among the groups before it.
  have htasks (p : TaskPtr) (hp : p ∈ t.tasks.threads) :
      (t.tasks.task p).schedTaskGroup ∈ s.groups.taskGroups := by
    rcases step_threads_mem hstep hp with hp | ⟨parent, cpu, mm, kthread, rfl⟩
    · obtain ⟨x, hmove, hx⟩ := step_thread hfit.nodup hstep hp
      rw [hx, (reclass_frame e s p x).2]
      rcases hmove.schedTaskGroup with hgroup | ⟨tg, htg, hgroup, -⟩
      · rw [hgroup]
        exact hgrouped p hp
      · rw [hgroup]
        exact htg
    · obtain ⟨hparent, hgroup, -⟩ := fork_child hfit hstep
      rw [hgroup]
      exact hgrouped parent hparent
  intro p hp
  have hin := htasks p hp
  have hmove := step_groups hstep
  generalize t.groups = g at hmove ⊢
  generalize t.sysctl = c at hmove
  generalize t.tasks = ts at hmove hp hin ⊢
  cases hmove with
  | tasks | rt | globals => exact hin
  | cfs tg period quota r htg hrun =>
      rw [(sameRt_tgSetCfsBandwidth hrun).taskGroups]
      exact hin
  | online tg parent v => exact List.mem_cons_of_mem tg hin
  | offline tg hroot hleaf hempty => exact (List.mem_erase_of_ne (hempty p hp)).mpr hin

theorem tgHasRtTasks_of_mem {ts : Tasks n} (hp : p ∈ ts.threads) (hrt : (ts.task p).rtTask = true) :
    tgHasRtTasks ts (ts.task p).schedTaskGroup = true :=
  List.any_eq_true.mpr ⟨p, hp, by simp [hrt]⟩

/-- Real-time tasks of a group that can run have runtime. -/
theorem hasRuntime_of_canRun {g : Groups n} (hon : rtBandwidthEnabled s.sysctl = true)
    (hp : p ∈ s.tasks.threads) (hrt : (s.tasks.task p).rtTask = true)
    (hcan : CanRun s (g.rt (s.tasks.task p).schedTaskGroup) (s.tasks.task p).schedTaskGroup) :
    HasRuntime g (s.tasks.task p) := fun hzero =>
  Bool.false_ne_true ((hcan hon hzero).symm.trans (tgHasRtTasks_of_mem hp hrt))

theorem notStarved_step (hs : NotStarved s) (hfit : s.tasks.Fit) (hshared : RtShared s)
    (hgrouped : Grouped s) (hno : ¬Bypasses s e) (hstep : step h s e = some t) : NotStarved t := by
  intro hon p hp hrt
  have htasks := fun hon => hasRuntime_step hs hfit hno hon hstep hp hrt
  have hmove := step_groups hstep
  generalize t.groups = g at hmove ⊢
  generalize t.sysctl = c at hmove hon
  generalize t.tasks = ts at hmove hp hrt htasks ⊢
  cases hmove with
  | tasks => exact htasks hon
  | rt tg rtPeriod rtRuntime htg hpass =>
      refine hasRuntime_of_canRun hon hp hrt ?_
      rw [rt_setRtBandwidth]
      exact (shares_of_rtSchedulable hshared.sound hshared.global hpass _ (hgrouped p hp)).2
  | cfs tg period quota r htg hrun =>
      unfold HasRuntime Groups.rt
      rw [(sameRt_tgSetCfsBandwidth hrun).rt]
      exact htasks hon
  | online tg parent v he htg hparent hlen hempty =>
      have hne := hempty p hp
      have hsame : (schedOnlineGroup (s.groups.set tg v) tg parent).rt
          (s.tasks.task p).schedTaskGroup = s.groups.rt (s.tasks.task p).schedTaskGroup :=
        congrArg TaskGroup.rtBandwidth (Function.update_of_ne hne _ _)
      unfold HasRuntime
      rw [hsame]
      exact htasks hon
  | offline tg => exact htasks hon
  | globals c hpass =>
      have hratio : globalRatio c ≤ 2 ^ 20 := toRatio_globals_le hpass.valid
      have hall := shares_of_rtSchedulable (s := onSysctl s c) hshared.sound hratio hpass.rt _
        (hgrouped p hp)
      rw [bandwidth_none] at hall
      exact hasRuntime_of_canRun (s := onSysctl s c) hon hp hrt hall.2

/-! ### Whole runs -/

/-- Without such steps every real-time task keeps a group with runtime, and a request is refused for
the sake of these tasks only if it takes the runtime away from their own group. -/
theorem notStarved_run (s : State n) (hfit : s.tasks.Fit) (hshared : RtShared s)
    (hgrouped : Grouped s) (hs : NotStarved s) (es : List (Event n))
    (hes : Each (step h) (fun s e _ => ¬Bypasses s e) s es) :
    Always (step h)
      (fun s => NotStarved s ∧ ∀ tg period runtime,
        rtSchedulable s (some tg) period runtime = some (-ebusy) →
          runtime = 0 ∧ tgHasRtTasks s.tasks tg = true) s es := by
  have hinv : Always (step h)
      (fun s => s.tasks.Fit ∧ RtShared s ∧ Grouped s ∧ NotStarved s) s es := by
    refine always_of_each _ ?_ ⟨hfit, hshared, hgrouped, hs⟩ hes
    rintro s e t ⟨hfit, hshared, hgrouped, hs⟩ hstep hno
    exact ⟨fit_step hfit hstep, rtShared_step hshared hstep, grouped_step hgrouped hfit hstep,
      notStarved_step hs hfit hshared hgrouped hno hstep⟩
  refine hinv.mono ?_
  rintro s ⟨-, hshared, -, hs⟩
  refine ⟨hs, fun tg period runtime hbusy => ?_⟩
  obtain ⟨err, hrun, -, hfailed⟩ := rtSchedulable_spec hshared.sound hshared.global (some tg) period
    runtime
  rw [hbusy, Option.some.injEq] at hrun
  subst hrun
  obtain ⟨a, -, ha⟩ := hfailed neg_ebusy_ne
  rcases tgRtSchedulable_cases s ⟨some tg, period, runtime⟩ a with hzero | hinval | hstarved
  · exact absurd (ha.trans hzero) neg_ebusy_ne
  · exact absurd (ha.trans hinval) (by decide)
  obtain ⟨-, hon, hruntime, hhas⟩ := hstarved
  unfold RtSchedulableData.bandwidth at hruntime
  by_cases hatg : a = tg
  · subst hatg
    rw [if_pos rfl] at hruntime
    exact ⟨hruntime, hhas⟩
  · -- Another group has a real-time task and no runtime.
    rw [if_neg fun heq => hatg (Option.some.inj heq).symm] at hruntime
    obtain ⟨p, hp, hpa⟩ := List.any_eq_true.mp hhas
    rw [Bool.and_eq_true, decide_eq_true_eq] at hpa
    have hrun := hs hon p hp hpa.1
    unfold HasRuntime at hrun
    rw [hpa.2] at hrun
    exact absurd hruntime hrun

theorem boot_grouped (cpu : Fin n) : Grouped (boot n cpu) := fun _ _ => List.mem_singleton.mpr rfl

theorem boot_notStarved (cpu : Fin n) : NotStarved (boot n cpu) := by
  have hruntime : initSysctl.defRtBandwidth.rtRuntime ≠ 0 := by decide
  exact fun _ _ _ _ => hruntime

theorem not_bypasses_of_quiet (hcall : e.call s = none)
    (hboost : ∀ p prio piPreempts, e ≠ .setprio p prio piPreempts) : ¬Bypasses s e := by
  rintro (⟨c, p, attr, user, hcall'⟩ | ⟨p, prio, piPreempts, he⟩)
  · rw [hcall] at hcall'
    cases hcall'
  · exact hboost p prio piPreempts he

theorem notStarved_run_nested :
    let es : List (Event 2) :=
      nestedRun ++ [.rtRuntime 4 0, .attach [7] 3, .rtRuntime 4 0, .rtHandler true 0 1000000 950000]
    (run (step bootHooks) (boot 2 0) es).isSome = true ∧
      Always (step bootHooks)
        (fun s => NotStarved s ∧ ∀ tg period runtime,
          rtSchedulable s (some tg) period runtime = some (-ebusy) →
            runtime = 0 ∧ tgHasRtTasks s.tasks tg = true) (boot 2 0) es := by
  refine ⟨by decide, ?_⟩
  refine notStarved_run _ (boot_fit 0) (boot_rtShared 0) (boot_grouped 0) (boot_notStarved 0) _ ?_
  refine Each.of_forall (fun e he s _ => ?_) _
  have hfifo : ¬Bypasses s (.setscheduler superuser 7 1 50 true) := by
    rintro (⟨c, p, attr, user, hcall, hwithout, -⟩ | ⟨p, prio, piPreempts, he⟩)
    · cases hcall
      exact hwithout.elim Bool.noConfusion Bool.noConfusion
    · cases he
  simp only [nestedRun, List.cons_append, List.nil_append] at he
  fin_cases he <;> first | exact hfifo | exact not_bypasses_of_quiet rfl (by simp)

end Lkm.Core
