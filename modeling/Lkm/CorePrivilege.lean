import Lkm.CoreCfs

/-! Callers without `CAP_SYS_NICE`. Take a set of threads that only its own members fork, and leave what
happens to all other threads open. Whatever such callers ask for, for threads of the set and in
whatever order, and whatever is forked, boosted or moved meanwhile, no thread of the set gets a
deadline policy, a real-time priority above the limit or a nice value below it; and one that has to
reset its children keeps to that. -/

namespace Lkm.Core

open Runs

variable {n : Nat} {h : Hooks} {s t : State n} {e : Event n} {p : TaskPtr} {x : Task n}

/-- A caller without the capability, whose limits are at most these. -/
structure Caller.Within (c : Caller) (rtprio nice : Nat) : Prop where
  capSysNice : c.capSysNice = false
  rlimitRtprio : c.rlimitRtprio ≤ rtprio
  rlimitNice : c.rlimitNice ≤ nice

/-- The system calls on threads of `P` come from such callers, and the kernel itself neither sets the
policy or the nice value of one nor makes one a stop task. A thread outside forks none into `P`. -/
structure Unprivileged (P : TaskPtr → Prop) (rtprio nice : Nat) (s : State n) (e : Event n) :
    Prop where
  call : ∀ c p attr user, e.call s = some (c, p, attr, user) → P p →
    user = true ∧ c.Within rtprio nice
  sysNice : ∀ c p increment, e = .sysNice c p increment → P p → c.Within rtprio nice
  nice : ∀ p v, e = .nice p v → ¬P p
  fork : ∀ parent child cpu mm kthread, e = .fork parent child cpu mm kthread → P child → P parent

/-- What a task may have: no deadline policy, a priority up to `rtprio`, a nice value from `lo`. -/
structure Task.Within (t : Task n) (rtprio : Nat) (lo : Int) : Prop where
  policy : t.hasDlPolicy = false
  rtPriority : t.rtPriority ≤ rtprio
  nice : lo ≤ t.taskNice

variable {P : TaskPtr → Prop} {rtprio nice : Nat} {lo : Int}

/-- `can_nice` for a nice value in the range. -/
theorem le_of_canNice {c : Caller} {v : Int} (hc : c.Within rtprio nice) (hv : minNice ≤ v)
    (hv' : v ≤ maxNice) (hcan : canNice c v = true) : 20 - (nice : Int) ≤ v := by
  unfold canNice at hcan
  rw [hc.capSysNice, Bool.or_false, decide_eq_true_eq] at hcan
  unfold minNice at hv
  unfold maxNice at hv' hcan
  have hint : (BitVec.ofInt 64 (19 - v + 1)).toNat = (20 - v).toNat := by
    rw [BitVec.toNat_ofInt]
    omega
  have hle := hc.rlimitNice
  omega

/-- The parameters after a call. -/
theorem commitTask_params (t : Task n) (c : Caller) (attr : SchedAttr)
    (hpolicy : setparamPolicy ≤ attr.schedPolicy) :
    (commitTask h c t attr).rtPriority = attr.schedPriority ∧
      (commitTask h c t attr).schedResetOnFork = attr.resetOnForkFor t ∧
      ((commitTask h c t attr).taskNice = t.taskNice ∨
        (commitTask h c t attr).taskNice = attr.schedNice ∧
          fairPolicy (attr.policyFor t) = true) := by
  have hparams (u : Task n) (hu : u = { t with schedResetOnFork := attr.resetOnForkFor t }) :
      (setschedulerParams u attr).rtPriority = attr.schedPriority ∧
        (setschedulerParams u attr).schedResetOnFork = attr.resetOnForkFor t ∧
        ((setschedulerParams u attr).taskNice = t.taskNice ∨
          (setschedulerParams u attr).taskNice = attr.schedNice ∧
            fairPolicy (attr.policyFor t) = true) := by
    subst hu
    refine ⟨rfl, ?_, ?_⟩
    · unfold setschedulerParams
      dsimp only
      split_ifs <;> rfl
    · rcases setschedulerParams_staticPrio
        { t with schedResetOnFork := attr.resetOnForkFor t } attr with heq | ⟨heq, hfair⟩
      · exact Or.inl (congrArg prioToNice heq)
      · rw [setschedulerParams_policy, policyFor_eq hpolicy] at hfair
        refine Or.inr ⟨(congrArg prioToNice heq).trans ?_, hfair⟩
        unfold prioToNice niceToPrio
        omega
  unfold commitTask checkClassChanged setscheduler
  dsimp only
  split_ifs <;> exact hparams _ rfl

/-- What a call of such a caller leaves. -/
theorem within_commitTask {t : Task n} {c : Caller} {attr : SchedAttr} (ht : t.Within rtprio lo)
    (hfit : t.Fit) (hc : c.Within rtprio nice) (hlo : lo ≤ 20 - (nice : Int))
    (hvalid : validAttr t attr = true) (hpromised : Promised c t attr)
    (hmay : unprivilegedMay c t attr = true) : (commitTask h c t attr).Within rtprio lo := by
  have hfits := attrFits_of_validAttr hvalid
  obtain ⟨hpolicy, -, -⟩ := commitTask_bw (h := h) (t := t) (c := c) hpromised.policy
  obtain ⟨hrt, -, hnice⟩ := commitTask_params (h := h) t c attr hpromised.policy
  unfold unprivilegedMay at hmay
  dsimp only at hmay
  split_ifs at hmay with hfair hnew hraise hdl hidle howner hreset
  refine ⟨?_, ?_, ?_⟩
  · unfold Task.hasDlPolicy
    rw [hpolicy]
    exact Bool.eq_false_iff.mpr hdl
  · -- No higher priority than before, or one within the limit.
    rw [hrt]
    by_contra hgt
    rw [not_le] at hgt
    refine hraise ⟨?_, ht.rtPriority.trans_lt hgt, hc.rlimitRtprio.trans_lt hgt⟩
    rw [hfits.rt]
    exact decide_eq_true (by omega)
  · rcases hnice with heq | ⟨heq, hisFair⟩ <;> rw [heq]
    · exact ht.nice
    · by_contra hlt
      rw [not_le] at hlt
      refine hfair ⟨hisFair, hlt.trans_le ht.nice, fun hcan => ?_⟩
      have hrange : minNice ≤ attr.schedNice ∧ attr.schedNice ≤ maxNice := by
        rcases hpromised.nice with hsame | hrange
        · exact hsame ▸ hfit.nice
        · exact hrange
      have hle := le_of_canNice hc hrange.1 hrange.2 hcan
      omega

theorem within_setUserNice {t : Task n} (ht : t.Within rtprio lo) {v : Int} (hv : lo ≤ v) :
    (setUserNice t v).Within rtprio lo := by
  obtain ⟨hpolicy, -, -⟩ := setUserNice_frame t v
  have hset : prioToNice (niceToPrio v) = v := by
    unfold prioToNice niceToPrio
    omega
  refine ⟨(congrArg dlPolicy hpolicy).trans ht.policy, ?_, ?_⟩
  · unfold setUserNice effectivePrio
    dsimp only
    split_ifs <;> exact ht.rtPriority
  · unfold setUserNice effectivePrio
    dsimp only
    split_ifs
    · exact ht.nice
    all_goals exact hv.trans hset.symm.le

theorem within_sysNice {t : Task n} {c : Caller} (ht : t.Within rtprio lo) (hfit : t.Fit)
    (hc : c.Within rtprio nice) (hlo : lo ≤ 20 - (nice : Int)) (increment : Int) :
    (sysNice c t increment).2.Within rtprio lo := by
  unfold sysNice
  dsimp only
  split_ifs with hdown hsec
  · exact ht
  · exact ht
  refine within_setUserNice ht ?_
  obtain ⟨hmin, hmax⟩ := hfit.nice
  have hle := ht.nice
  by_cases hneg : max (-niceWidth) (min niceWidth increment) < 0
  · have hcan := not_not.mp fun hcan => hdown ⟨hneg, hcan⟩
    refine hlo.trans (le_of_canNice hc ?_ ?_ hcan)
    · exact le_max_left _ _
    · exact max_le (by decide) (min_le_left _ _)
  · unfold minNice maxNice at *
    omega

theorem within_normalizeRtTask {t : Task n} (ht : t.Within rtprio lo) (hlo : lo ≤ 0) :
    (normalizeRtTask h t).Within rtprio lo := by
  unfold normalizeRtTask
  split_ifs
  · exact ht
  · exact within_setUserNice ht hlo
  · exact ht
  · refine ⟨congrArg dlPolicy (normalizeTask_policy t), ?_, ?_⟩
    · unfold normalizeTask checkClassChanged setscheduler
      dsimp only
      split_ifs <;> exact Nat.zero_le _
    · unfold normalizeTask checkClassChanged setscheduler
      dsimp only
      split_ifs <;> exact hlo

theorem within_setprio {ts : Tasks n} {prio : Int} (ht : (ts.task p).Within rtprio lo)
    (piPreempts : Bool) : ((rtMutexSetprio h ts p prio piPreempts).task p).Within rtprio lo := by
  unfold rtMutexSetprio
  dsimp only
  by_cases hidle : ts.idle (ts.task p).cpu = some p
  · rw [if_pos hidle]
    exact ht
  rw [if_neg hidle, Tasks.set_task_self]
  unfold checkClassChanged
  split_ifs <;> exact ⟨ht.policy, ht.rtPriority, ht.nice⟩

theorem within_resetForFork {t : Task n} (ht : t.Within rtprio lo) (hlo : lo ≤ 0) :
    (resetForFork t).Within rtprio lo := by
  have hnice : lo ≤ prioToNice (niceToPrio 0) := hlo
  unfold resetForFork
  dsimp only
  split_ifs
  · exact ⟨rfl, Nat.zero_le _, hnice⟩
  · exact ⟨ht.policy, ht.rtPriority, hnice⟩
  · exact ⟨ht.policy, ht.rtPriority, ht.nice⟩

theorem within_fork {current r : Task n} {mm kthread : Bool} {cpu : Fin n}
    (ht : current.Within rtprio lo) (hlo : lo ≤ 0)
    (hfork : schedFork current { current with mm := mm, kthread := kthread } cpu = some r) :
    r.Within rtprio lo := by
  unfold schedFork at hfork
  dsimp only at hfork
  rw [Option.ite_none_left_eq_some, Option.some.injEq] at hfork
  obtain ⟨-, rfl⟩ := hfork
  have hcopy : { current with
      mm := mm
      kthread := kthread
      dl := dlClearParams current.dl
      prio := current.normalPrio }.Within rtprio lo := ⟨ht.policy, ht.rtPriority, ht.nice⟩
  by_cases hreset : current.schedResetOnFork = true
  · have hr := within_resetForFork hcopy hlo
    rw [if_pos hreset]
    exact ⟨hr.policy, hr.rtPriority, hr.nice⟩
  · rw [if_neg hreset]
    exact ⟨ht.policy, ht.rtPriority, ht.nice⟩

/-! ### Runs -/

/-- What a step of such callers leaves of a thread. -/
theorem within_move (hp : p ∈ s.tasks.threads) (hP : P p) (hfit : s.tasks.Fit)
    (ht : (s.tasks.task p).Within rtprio lo) (hlo : lo ≤ 0) (hlo' : lo ≤ 20 - (nice : Int))
    (hun : Unprivileged P rtprio nice s e) (hmove : Move h s e p x) : x.Within rtprio lo := by
  cases hmove with
  | same | resetOnFork | cpu | affinity | group => exact ⟨ht.policy, ht.rtPriority, ht.nice⟩
  | policy c attr user hcall hpermits hpromised =>
      obtain ⟨huser, hc⟩ := hun.call c p attr user hcall hP
      exact within_commitTask ht (hfit.fit hp) hc hlo' hpermits.valid hpromised
        (hpermits.may huser hc.capSysNice)
  | nice v he => exact absurd hP (hun.nice p v he)
  | sysNice c increment he =>
      exact within_sysNice ht (hfit.fit hp) (hun.sysNice c p increment he hP) hlo' increment
  | setprio prio piPreempts => exact within_setprio ht piPreempts
  | normalize => exact within_normalizeRtTask ht hlo

/-- A thread that has to reset its children has to go on doing so. -/
theorem resetOnFork_move (hP : P p) (hun : Unprivileged P rtprio nice s e) (hmove : Move h s e p x)
    (hset : (s.tasks.task p).schedResetOnFork = true) : x.schedResetOnFork = true := by
  have hcallKeeps {c : Caller} {attr : SchedAttr} {user : Bool}
      (hcall : e.call s = some (c, p, attr, user)) (hpermits : Permits c s p attr user) :
      attr.resetOnForkFor (s.tasks.task p) = true := by
    obtain ⟨huser, hc⟩ := hun.call c p attr user hcall hP
    have hmay := hpermits.may huser hc.capSysNice
    unfold unprivilegedMay at hmay
    dsimp only at hmay
    split_ifs at hmay with _ _ _ _ _ _ hreset
    by_contra hclear
    exact hreset ⟨hset, hclear⟩
  have hnice (v : Int) (t : Task n) : (setUserNice t v).schedResetOnFork = t.schedResetOnFork := by
    unfold setUserNice effectivePrio
    dsimp only
    split_ifs <;> rfl
  cases hmove with
  | same | cpu | affinity | group => exact hset
  | resetOnFork c attr user hcall hpermits => exact hcallKeeps hcall hpermits
  | policy c attr user hcall hpermits hpromised =>
      rw [(commitTask_params (h := h) (s.tasks.task p) c attr hpromised.policy).2.1]
      exact hcallKeeps hcall hpermits
  | nice v he => exact absurd hP (hun.nice p v he)
  | sysNice c increment =>
      unfold sysNice
      dsimp only
      split_ifs
      · exact hset
      · exact hset
      · exact (hnice _ _).trans hset
  | setprio prio piPreempts he hnamed =>
      unfold rtMutexSetprio
      dsimp only
      rw [if_neg ((named_eq_false.mp hnamed _).2), Tasks.set_task_self]
      unfold checkClassChanged
      split_ifs <;> exact hset
  | normalize =>
      unfold normalizeRtTask
      split_ifs
      · exact hset
      · exact (hnice _ _).trans hset
      · exact hset
      · unfold normalizeTask checkClassChanged setscheduler setschedulerParams
        dsimp only
        split_ifs <;> exact hset

/-- Every thread of `P` is within the limits. -/
def AllWithin (P : TaskPtr → Prop) (rtprio : Nat) (lo : Int) (s : State n) : Prop :=
  ∀ p ∈ s.tasks.threads, P p → (s.tasks.task p).Within rtprio lo

theorem allWithin_step (hfit : s.tasks.Fit) (hall : AllWithin P rtprio lo s) (hlo : lo ≤ 0)
    (hlo' : lo ≤ 20 - (nice : Int)) (hun : Unprivileged P rtprio nice s e)
    (hstep : step h s e = some t) : AllWithin P rtprio lo t := by
  intro p hp hP
  rcases step_threads_mem hstep hp with hp | ⟨parent, cpu, mm, kthread, rfl⟩
  · obtain ⟨x, hmove, hx⟩ := step_thread hfit.nodup hstep hp
    have hx' := within_move hp hP hfit (hall p hp hP) hlo hlo' hun hmove
    rw [hx]
    unfold Event.reclass
    split
    · split_ifs <;> exact ⟨hx'.policy, hx'.rtPriority, hx'.nice⟩
    · exact hx'
  · have hparentP := hun.fork parent p cpu mm kthread rfl hP
    obtain ⟨hparent, -, -, -, r, hr, rfl⟩ := fork_cases hstep
    have hchild : (s.tasks.set p r).task p = r := Tasks.set_task_self _ _ _
    show ((s.tasks.set p r).task p).Within rtprio lo
    rw [hchild]
    exact within_fork (hall parent hparent hparentP) hlo hr

/-- The steps of a run that takes the reset on fork from no thread of `P`. -/
def KeepsReset (P : TaskPtr → Prop) (s : State n) (_ : Event n) (t : State n) : Prop :=
  ∀ p ∈ s.tasks.threads, P p → (s.tasks.task p).schedResetOnFork = true →
    (t.tasks.task p).schedResetOnFork = true

theorem keepsReset_step (hfit : s.tasks.Fit) (hun : Unprivileged P rtprio nice s e)
    (hstep : step h s e = some t) : KeepsReset P s e t := by
  intro p hp hP hset
  obtain ⟨x, hmove, hx⟩ := step_thread hfit.nodup hstep hp
  have hx' := resetOnFork_move hP hun hmove hset
  rw [hx]
  unfold Event.reclass
  split
  · split_ifs <;> exact hx'
  · exact hx'

/-- A call of `__sched_setscheduler` is no other event. -/
theorem unprivileged_of_call {c : Caller} {attr : SchedAttr} {user : Bool}
    (hcall : e.call s = some (c, p, attr, user)) (hc : P p → user = true ∧ c.Within rtprio nice) :
    Unprivileged P rtprio nice s e := by
  refine ⟨fun c' p' attr' user' hcall' => ?_, ?_, ?_, ?_⟩
  · rw [hcall] at hcall'
    cases hcall'
    exact hc
  all_goals
    intros
    subst e
    cases hcall

end Lkm.Core
