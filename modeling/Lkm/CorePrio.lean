import Lkm.CoreSteps
import Mathlib.Tactic.Linarith

/-! Priorities. In every state that the control plane reaches, the parameters of a thread fit its
policy, its normal priority is the one that they give, priority inheritance has only raised its
priority, and its class is the one of its priority. -/

namespace Lkm.Core

open Runs

variable {n : Nat} {h : Hooks}

/-! ### Parameters -/

/-- The parameters of a deadline task that `__checkparam_dl` accepts, with their bandwidth. -/
structure DlEntity.Valid (e : DlEntity) : Prop where
  runtime_ge : 1024 ≤ e.dlRuntime.toNat
  runtime_le : e.dlRuntime.toNat ≤ e.dlDeadline.toNat
  deadline_le : e.dlDeadline.toNat ≤ e.dlPeriod.toNat
  period_lt : e.dlPeriod.toNat < 2 ^ 63
  bw : e.dlBw = toRatio e.dlPeriod e.dlRuntime

/-- The parameters fit the policy, and the normal priority is theirs. -/
structure Task.ParamsFit (t : Task n) : Prop where
  policy : validPolicy t.policy = true
  nice : minNice ≤ t.taskNice ∧ t.taskNice ≤ maxNice
  rtPriority_le : (t.rtPriority : Int) ≤ maxRtPrio - 1
  rtPriority_pos : rtPolicy t.policy = decide (t.rtPriority ≠ 0)
  normal : t.normalPrio = Core.normalPrio t
  dl : t.hasDlPolicy = true → t.dl.Valid

/-- And nothing has lowered the priority. -/
structure Task.Fit (t : Task n) : Prop extends t.ParamsFit where
  prio_le : t.prio ≤ t.normalPrio

theorem normalPrio_dl {t : Task n} (hdl : t.hasDlPolicy = true) : normalPrio t = -1 := if_pos hdl

theorem normalPrio_rt {t : Task n} (hdl : t.hasDlPolicy = false) (hrt : t.hasRtPolicy = true) :
    normalPrio t = 99 - t.rtPriority := by
  unfold normalPrio
  rw [hdl, hrt]
  rfl

theorem normalPrio_fair {t : Task n} (hdl : t.hasDlPolicy = false) (hrt : t.hasRtPolicy = false) :
    normalPrio t = t.staticPrio := by
  unfold normalPrio
  rw [hdl, hrt]
  rfl

theorem rtPolicy_of_dlPolicy {policy : Int} (hdl : dlPolicy policy = true) :
    rtPolicy policy = false := by
  unfold dlPolicy schedDeadline at hdl
  unfold rtPolicy schedFifo schedRr
  simp at hdl ⊢
  omega

theorem niceRange {t : Task n} (hnice : minNice ≤ t.taskNice ∧ t.taskNice ≤ maxNice) :
    100 ≤ t.staticPrio ∧ t.staticPrio ≤ 139 := by
  unfold Task.taskNice prioToNice minNice maxNice at hnice
  omega

/-- The normal priority tells the policy: negative for deadline tasks, below 100 for these and for
real-time tasks. -/
theorem Task.ParamsFit.dlPrio_normalPrio {t : Task n} (ht : t.ParamsFit) :
    dlPrio t.normalPrio = t.hasDlPolicy := by
  rw [ht.normal]
  have hprio := ht.rtPriority_le
  have hstatic := niceRange ht.nice
  unfold maxRtPrio at hprio
  cases hdl : t.hasDlPolicy with
  | true =>
      rw [normalPrio_dl hdl]
      rfl
  | false =>
      cases hrt : t.hasRtPolicy with
      | true =>
          rw [normalPrio_rt hdl hrt]
          exact decide_eq_false (by unfold maxDlPrio; omega)
      | false =>
          rw [normalPrio_fair hdl hrt]
          exact decide_eq_false (by unfold maxDlPrio; omega)

theorem Task.ParamsFit.rtPrio_normalPrio {t : Task n} (ht : t.ParamsFit) :
    rtPrio t.normalPrio = (t.hasDlPolicy || t.hasRtPolicy) := by
  rw [ht.normal]
  have hstatic := niceRange ht.nice
  cases hdl : t.hasDlPolicy with
  | true =>
      rw [normalPrio_dl hdl]
      rfl
  | false =>
      cases hrt : t.hasRtPolicy with
      | true =>
          rw [normalPrio_rt hdl hrt]
          exact decide_eq_true (by unfold maxRtPrio; omega)
      | false =>
          rw [normalPrio_fair hdl hrt]
          exact decide_eq_false (by unfold maxRtPrio; omega)

/-- A deadline task has a deadline priority, boosted or not. -/
theorem Task.Fit.dlTask {t : Task n} (ht : t.Fit) (hdl : t.hasDlPolicy = true) :
    t.dlTask = true := by
  have hle := ht.prio_le
  rw [ht.normal, normalPrio_dl hdl] at hle
  exact decide_eq_true (by unfold maxDlPrio; omega)

theorem and_msb_eq_zero {x : BitVec 64} : x &&& (1#64 <<< 63) = 0 ↔ x.toNat < 2 ^ 63 := by
  rw [← BitVec.twoPow_eq, BitVec.and_twoPow, ← BitVec.msb_eq_getLsbD_last, BitVec.msb_eq_decide]
  by_cases hx : 2 ^ 63 ≤ x.toNat
  · rw [decide_eq_true hx, if_pos rfl]
    exact iff_of_false (by decide) (not_lt.mpr hx)
  · rw [decide_eq_false hx, if_neg Bool.false_ne_true]
    exact iff_of_true rfl (not_le.mp hx)

theorem checkparamDl_valid {e : DlEntity} {attr : SchedAttr} (hcheck : checkparamDl attr = true) :
    (setparamDl e attr).Valid := by
  unfold checkparamDl at hcheck
  split_ifs at hcheck with hzero hsmall hmsb horder
  rw [not_or, not_not, not_not, and_msb_eq_zero, and_msb_eq_zero] at hmsb
  rw [not_or] at horder
  have hruntime : 1024 ≤ attr.schedRuntime.toNat := by
    simpa [BitVec.lt_def] using hsmall
  have hdeadline : attr.schedRuntime.toNat ≤ attr.schedDeadline.toNat := by
    simpa [BitVec.lt_def] using horder.2
  refine ⟨hruntime, hdeadline, ?_, ?_, rfl⟩
  · show attr.schedDeadline.toNat ≤ attr.period.toNat
    unfold SchedAttr.period
    split_ifs with hperiod
    · exact le_refl _
    · have hle := horder.1
      rw [not_and, BitVec.lt_def, not_lt] at hle
      exact hle hperiod
  · show attr.period.toNat < 2 ^ 63
    unfold SchedAttr.period
    split_ifs
    · exact hmsb.1
    · exact hmsb.2

/-! ### What the functions do to the parameters -/

@[simp] theorem setschedulerParams_prio (t : Task n) (attr : SchedAttr) :
    (setschedulerParams t attr).prio = t.prio := by
  unfold setschedulerParams
  dsimp only
  split_ifs <;> rfl

@[simp] theorem setschedulerParams_schedClass (t : Task n) (attr : SchedAttr) :
    (setschedulerParams t attr).schedClass = t.schedClass := by
  unfold setschedulerParams
  dsimp only
  split_ifs <;> rfl

theorem setschedulerParams_policy (t : Task n) (attr : SchedAttr) :
    (setschedulerParams t attr).policy =
      if attr.schedPolicy = setparamPolicy then t.policy else attr.schedPolicy := by
  unfold setschedulerParams
  dsimp only
  split_ifs <;> rfl

@[simp] theorem setschedulerParams_rtPriority (t : Task n) (attr : SchedAttr) :
    (setschedulerParams t attr).rtPriority = attr.schedPriority := rfl

theorem setschedulerParams_normalPrio (t : Task n) (attr : SchedAttr) :
    (setschedulerParams t attr).normalPrio = normalPrio (setschedulerParams t attr) := by
  unfold setschedulerParams
  dsimp only
  split_ifs <;> rfl

theorem setschedulerParams_dl (t : Task n) (attr : SchedAttr) :
    (setschedulerParams t attr).dl =
      if dlPolicy (setschedulerParams t attr).policy then setparamDl t.dl attr else t.dl := by
  unfold setschedulerParams
  dsimp only
  split_ifs <;> simp_all

theorem setschedulerParams_staticPrio (t : Task n) (attr : SchedAttr) :
    (setschedulerParams t attr).staticPrio = t.staticPrio ∨
      (setschedulerParams t attr).staticPrio = niceToPrio attr.schedNice ∧
        fairPolicy (setschedulerParams t attr).policy = true := by
  unfold setschedulerParams
  dsimp only
  split_ifs <;> simp_all

/-- A task with only its own nice value or one in the range keeps a nice value in the range. -/
theorem nice_setschedulerParams {t : Task n} {attr : SchedAttr}
    (hnice : minNice ≤ t.taskNice ∧ t.taskNice ≤ maxNice)
    (hattr : attr.schedNice = t.taskNice ∨ minNice ≤ attr.schedNice ∧ attr.schedNice ≤ maxNice) :
    minNice ≤ (setschedulerParams t attr).taskNice ∧
      (setschedulerParams t attr).taskNice ≤ maxNice := by
  unfold Task.taskNice prioToNice at *
  rcases setschedulerParams_staticPrio t attr with hstatic | ⟨hstatic, -⟩ <;> rw [hstatic]
  · exact hnice
  · unfold niceToPrio minNice maxNice at *
    omega

theorem policyFor_eq {t : Task n} {attr : SchedAttr} (hpolicy : setparamPolicy ≤ attr.schedPolicy) :
    (if attr.schedPolicy = setparamPolicy then t.policy else attr.schedPolicy) =
      attr.policyFor t := by
  unfold SchedAttr.policyFor
  unfold setparamPolicy at *
  split_ifs <;> first | rfl | omega

/-- What `validAttr` has checked. -/
structure AttrFits (t : Task n) (attr : SchedAttr) : Prop where
  policy : 0 ≤ attr.schedPolicy → validPolicy (attr.policyFor t) = true
  flags : attr.schedFlags &&& ~~~schedFlagResetOnFork = 0
  priority_le : (attr.schedPriority : Int) ≤ maxRtPrio - 1
  dl : dlPolicy (attr.policyFor t) = true → checkparamDl attr = true
  rt : rtPolicy (attr.policyFor t) = decide (attr.schedPriority ≠ 0)

theorem attrFits_of_validAttr {t : Task n} {attr : SchedAttr} (hvalid : validAttr t attr = true) :
    AttrFits t attr := by
  unfold validAttr at hvalid
  dsimp only at hvalid
  split_ifs at hvalid with hpolicy hflags hpriority hparams
  rw [not_or] at hparams
  refine ⟨fun hnonneg => ?_, not_not.mp hflags, ?_, fun hdl => ?_, not_not.mp hparams.2⟩
  · by_contra hinvalid
    exact hpolicy ⟨hnonneg, hinvalid⟩
  · rw [not_or] at hpriority
    unfold maxUserRtPrio at hpriority
    unfold maxRtPrio at *
    cases hmm : t.mm with
    | true => exact not_lt.mp fun hgt => hpriority.1 ⟨hmm, hgt⟩
    | false => exact not_lt.mp fun hgt => hpriority.2 ⟨by simp [hmm], hgt⟩
  · by_contra hinvalid
    exact hparams.1 ⟨hdl, hinvalid⟩

theorem paramsFit_setschedulerParams {t : Task n} {attr : SchedAttr} (ht : t.ParamsFit)
    (hfits : AttrFits t attr) (hpolicy : setparamPolicy ≤ attr.schedPolicy)
    (hnice : attr.schedNice = t.taskNice ∨ minNice ≤ attr.schedNice ∧ attr.schedNice ≤ maxNice) :
    (setschedulerParams t attr).ParamsFit := by
  have hpol : (setschedulerParams t attr).policy = attr.policyFor t :=
    (setschedulerParams_policy t attr).trans (policyFor_eq hpolicy)
  refine ⟨?_, nice_setschedulerParams ht.nice hnice, ?_, ?_, setschedulerParams_normalPrio t attr,
    fun hdl => ?_⟩
  · rw [hpol]
    by_cases hnonneg : 0 ≤ attr.schedPolicy
    · exact hfits.policy hnonneg
    · unfold SchedAttr.policyFor
      rw [if_pos (not_le.mp hnonneg)]
      exact ht.policy
  · rw [setschedulerParams_rtPriority]
    exact hfits.priority_le
  · rw [hpol, setschedulerParams_rtPriority]
    exact hfits.rt
  · unfold Task.hasDlPolicy at hdl
    rw [setschedulerParams_dl, if_pos hdl]
    rw [hpol] at hdl
    exact checkparamDl_valid (hfits.dl hdl)

/-- The parameters do not depend on the priority and the class. -/
theorem Task.ParamsFit.withPrio {t : Task n} (ht : t.ParamsFit) (prio : Int) (k : SchedClass) :
    { t with prio := prio, schedClass := k }.ParamsFit :=
  ⟨ht.policy, ht.nice, ht.rtPriority_le, ht.rtPriority_pos, ht.normal, ht.dl⟩

theorem paramsFit_setscheduler {t : Task n} {attr : SchedAttr}
    (ht : (setschedulerParams t attr).ParamsFit) : (setscheduler t attr).Fit :=
  ⟨ht.withPrio _ _, ht.normal.symm.le⟩

@[simp] theorem setscheduler_prio (t : Task n) (attr : SchedAttr) :
    (setscheduler t attr).prio = normalPrio (setschedulerParams t attr) := rfl

theorem setscheduler_schedClass (t : Task n) (attr : SchedAttr) :
    (setscheduler t attr).schedClass = classOfPrio (setscheduler t attr).prio := rfl

/-- The hook of the deadline class is called for a task that has left the class. It does not touch a
task with deadline policy. -/
theorem fit_checkClassChanged {t : Task n} {k : SchedClass} (ht : t.Fit)
    (hclass : t.schedClass = classOfPrio t.prio) : (checkClassChanged h t k).Fit := by
  unfold checkClassChanged
  split_ifs with hleft
  · have hpolicy : t.hasDlPolicy = false := by
      by_contra hdl
      have htask := ht.dlTask (Bool.not_eq_false _ ▸ hdl)
      refine hleft.1 (hleft.2.trans ?_)
      rw [hclass]
      exact (if_pos htask).symm
    exact ⟨⟨ht.policy, ht.nice, ht.rtPriority_le, ht.rtPriority_pos, ht.normal,
      fun hdl => absurd (hpolicy.symm.trans hdl) Bool.false_ne_true⟩, ht.prio_le⟩
  · exact ht

@[simp] theorem checkClassChanged_prio (t : Task n) (k : SchedClass) :
    (checkClassChanged h t k).prio = t.prio := by
  unfold checkClassChanged
  split_ifs <;> rfl

@[simp] theorem checkClassChanged_schedClass (t : Task n) (k : SchedClass) :
    (checkClassChanged h t k).schedClass = t.schedClass := by
  unfold checkClassChanged
  split_ifs <;> rfl

theorem classOfPrio_fair {prio : Int} (hprio : rtPrio prio = false) : classOfPrio prio = .fair := by
  have hdl : dlPrio prio = false := by
    unfold rtPrio maxRtPrio at hprio
    unfold dlPrio maxDlPrio
    simp at hprio ⊢
    omega
  unfold classOfPrio
  rw [hdl, hprio]
  rfl

/-- A fit thread that is not a stop task: its class is the one of its priority. -/
structure Task.Ready (t : Task n) : Prop extends t.Fit where
  classOf : t.schedClass = classOfPrio t.prio

theorem ready_setscheduler {t : Task n} {attr : SchedAttr} {k : SchedClass}
    (ht : (setschedulerParams t attr).ParamsFit) :
    (checkClassChanged h (setscheduler t attr) k).Ready := by
  refine ⟨fit_checkClassChanged (paramsFit_setscheduler ht) rfl, ?_⟩
  rw [checkClassChanged_schedClass, checkClassChanged_prio]
  rfl

/-- A waiter that keeps a task above the priority of a call keeps it above its new normal one. -/
theorem prio_le_of_boost {t : Task n} {c : Caller} {attr : SchedAttr} (ht : t.Fit)
    (hfits : AttrFits t attr) (hpromised : Promised c t attr)
    (hparams : (setschedulerParams t attr).ParamsFit)
    (hboost : rtMutexCheckPrio c attr.newprio = true) :
    t.prio ≤ (setschedulerParams t attr).normalPrio := by
  have hle : t.prio ≤ attr.newprio := by
    unfold rtMutexCheckPrio at hboost
    split at hboost
    · exact le_trans (hpromised.boosts _ ‹_›) (of_decide_eq_true hboost)
    · cases hboost
  have hpolicy : (setschedulerParams t attr).policy = attr.policyFor t :=
    (setschedulerParams_policy t attr).trans (policyFor_eq hpromised.policy)
  have hstatic := niceRange hparams.nice
  rw [hparams.normal]
  unfold SchedAttr.newprio maxDlPrio maxRtPrio at hle
  cases hdl : (setschedulerParams t attr).hasDlPolicy with
  | true =>
      rw [normalPrio_dl hdl]
      by_cases hnew : dlPolicy attr.schedPolicy = true
      · rw [if_pos hnew] at hle
        exact hle
      · -- The policy is the one that the task already had.
        have hold : t.hasDlPolicy = true := by
          unfold Task.hasDlPolicy at hdl ⊢
          rw [setschedulerParams_policy] at hdl
          split_ifs at hdl
          · exact hdl
          · exact absurd hdl hnew
        have hprio := of_decide_eq_true (ht.dlTask hold)
        unfold maxDlPrio at hprio
        omega
  | false =>
      have hpriority := hfits.priority_le
      unfold maxRtPrio at hpriority
      have hnew : t.prio ≤ 99 - attr.schedPriority := by
        split_ifs at hle <;> omega
      cases hrt : (setschedulerParams t attr).hasRtPolicy with
      | true =>
          rw [normalPrio_rt hdl hrt]
          exact hnew
      | false =>
          rw [normalPrio_fair hdl hrt]
          omega

theorem ready_commitTask {t : Task n} {c : Caller} {attr : SchedAttr} (ht : t.Ready)
    (hfits : AttrFits t attr) (hpromised : Promised c t attr) : (commitTask h c t attr).Ready := by
  have ht' : { t with schedResetOnFork := attr.resetOnForkFor t }.Ready :=
    ⟨⟨⟨ht.policy, ht.nice, ht.rtPriority_le, ht.rtPriority_pos, ht.normal, ht.dl⟩, ht.prio_le⟩,
      ht.classOf⟩
  have hfits' : AttrFits { t with schedResetOnFork := attr.resetOnForkFor t } attr :=
    ⟨hfits.policy, hfits.flags, hfits.priority_le, hfits.dl, hfits.rt⟩
  have hpromised' : Promised c { t with schedResetOnFork := attr.resetOnForkFor t } attr :=
    ⟨hpromised.boosts, hpromised.policy, hpromised.nice⟩
  have hparams := paramsFit_setschedulerParams ht'.toParamsFit hfits' hpromised'.policy
    hpromised'.nice
  unfold commitTask
  dsimp only
  split_ifs with hboost
  · refine ⟨⟨hparams, ?_⟩, ?_⟩
    · rw [setschedulerParams_prio]
      exact prio_le_of_boost ht'.toFit hfits' hpromised' hparams hboost
    · rw [setschedulerParams_schedClass, setschedulerParams_prio]
      exact ht.classOf
  · exact ready_setscheduler hparams

theorem ready_setUserNice {t : Task n} (ht : t.Ready) (nice : Int) : (setUserNice t nice).Ready := by
  unfold setUserNice
  split_ifs with hskip hpolicy
  · exact ht
  all_goals
    rw [not_or, not_or, not_lt, not_lt] at hskip
    obtain ⟨-, hge, hle⟩ := hskip
    have hrange : minNice ≤ niceToPrio nice - 120 ∧ niceToPrio nice - 120 ≤ maxNice := by
      unfold niceToPrio
      omega
  · have hnormal : normalPrio { t with staticPrio := niceToPrio nice } = normalPrio t := by
      rcases hpolicy with hdl | hrt
      · exact (normalPrio_dl (t := { t with staticPrio := niceToPrio nice }) hdl).trans
          (normalPrio_dl hdl).symm
      · have hdl : t.hasDlPolicy = false := by
          by_contra hdl
          have := rtPolicy_of_dlPolicy (Bool.not_eq_false _ ▸ hdl : dlPolicy t.policy = true)
          exact Bool.false_ne_true (this.symm.trans hrt)
        exact (normalPrio_rt (t := { t with staticPrio := niceToPrio nice }) hdl hrt).trans
          (normalPrio_rt hdl hrt).symm
    exact ⟨⟨⟨ht.policy, hrange, ht.rtPriority_le, ht.rtPriority_pos, ht.normal.trans hnormal.symm,
      ht.dl⟩, ht.prio_le⟩, ht.classOf⟩
  · rw [not_or, Bool.not_eq_true, Bool.not_eq_true] at hpolicy
    have hnormal : normalPrio { t with staticPrio := niceToPrio nice } = niceToPrio nice :=
      normalPrio_fair (t := { t with staticPrio := niceToPrio nice }) hpolicy.1 hpolicy.2
    have hparams : { t with
        staticPrio := niceToPrio nice
        normalPrio := normalPrio { t with staticPrio := niceToPrio nice } }.ParamsFit :=
      ⟨ht.policy, hrange, ht.rtPriority_le, ht.rtPriority_pos, rfl, ht.dl⟩
    have hstatic : rtPrio (niceToPrio nice) = false := by
      unfold rtPrio maxRtPrio
      unfold minNice at hrange
      exact decide_eq_false (by omega)
    unfold effectivePrio
    dsimp only
    cases hprio : rtPrio t.prio with
    | true =>
        refine ⟨⟨hparams.withPrio _ _, ?_⟩, ht.classOf⟩
        have hlt := of_decide_eq_true hprio
        have hge := of_decide_eq_false hstatic
        exact (hlt.trans_le (not_lt.mp hge)).le.trans hnormal.symm.le
    | false =>
        refine ⟨⟨hparams.withPrio _ _, le_refl _⟩, ?_⟩
        refine ht.classOf.trans ((classOfPrio_fair hprio).trans (classOfPrio_fair ?_).symm)
        exact (congrArg rtPrio hnormal).trans hstatic

theorem DlEntity.Valid.withFlags {e : DlEntity} (he : e.Valid) (throttled boosted : Bool) :
    { e with dlThrottled := throttled, dlBoosted := boosted }.Valid :=
  ⟨he.runtime_ge, he.runtime_le, he.deadline_le, he.period_lt, he.bw⟩

theorem ready_rtMutexSetprio {ts : Tasks n} {p : TaskPtr} {prio : Int} (piPreempts : Bool)
    (ht : (ts.task p).Ready) (hprio : prio ≤ (ts.task p).normalPrio) :
    ((rtMutexSetprio h ts p prio piPreempts).task p).Ready := by
  unfold rtMutexSetprio
  dsimp only
  split_ifs
  · exact ht
  all_goals
    rw [Tasks.set_task_self]
    refine ⟨fit_checkClassChanged ⟨⟨ht.policy, ht.nice, ht.rtPriority_le, ht.rtPriority_pos, ht.normal,
      fun hdl => (ht.dl hdl).withFlags _ _⟩, hprio⟩ rfl, ?_⟩
    rw [checkClassChanged_schedClass, checkClassChanged_prio]

theorem attrFits_normal (t : Task n) :
    AttrFits t
      { schedPolicy := schedNormal
        schedFlags := 0
        schedNice := 0
        schedPriority := 0
        schedRuntime := 0
        schedDeadline := 0
        schedPeriod := 0 } := by
  refine ⟨fun _ => rfl, rfl, (by decide : ((0 : Nat) : Int) ≤ maxRtPrio - 1), fun hdl => ?_, rfl⟩
  exact absurd hdl Bool.false_ne_true

theorem ready_normalizeRtTask {t : Task n} (ht : t.Ready) : (normalizeRtTask h t).Ready := by
  unfold normalizeRtTask
  split_ifs
  · exact ht
  · exact ready_setUserNice ht 0
  · exact ht
  · exact ready_setscheduler (paramsFit_setschedulerParams ht.toParamsFit (attrFits_normal t)
      (by decide) (Or.inr (by decide)))

theorem nice_zero : minNice ≤ prioToNice (niceToPrio 0) ∧ prioToNice (niceToPrio 0) ≤ maxNice := by
  decide

theorem rtPriority_zero_le : ((0 : Nat) : Int) ≤ maxRtPrio - 1 := by decide

/-- Nothing above the nice value 0 is left of the policy, whatever the deadline parameters. -/
theorem fit_resetForFork {t : Task n} {e : DlEntity} (ht : { t with dl := e }.ParamsFit) :
    (resetForFork t).Fit ∧ (resetForFork t).hasDlPolicy = false ∧
      (resetForFork t).hasRtPolicy = false := by
  unfold resetForFork
  dsimp only
  split_ifs with hpolicy hnice
  · exact ⟨⟨⟨rfl, nice_zero, rtPriority_zero_le, rfl, rfl, fun hdl => absurd hdl Bool.false_ne_true⟩,
      le_refl _⟩, rfl, rfl⟩
  all_goals rw [not_or, Bool.not_eq_true, Bool.not_eq_true] at hpolicy
  · refine ⟨⟨⟨ht.policy, nice_zero, ht.rtPriority_le, ht.rtPriority_pos, ?_, ?_⟩, le_refl _⟩, hpolicy⟩
    · exact (normalPrio_fair (t := { t with staticPrio := niceToPrio 0 }) hpolicy.1 hpolicy.2).symm
    · exact fun hdl => absurd (hpolicy.1.symm.trans hdl) Bool.false_ne_true
  · refine ⟨⟨⟨ht.policy, ht.nice, ht.rtPriority_le, ht.rtPriority_pos, ?_, ?_⟩, le_refl _⟩, hpolicy⟩
    · exact (normalPrio_fair (t := t) hpolicy.1 hpolicy.2).symm
    · exact fun hdl => absurd (hpolicy.1.symm.trans hdl) Bool.false_ne_true

theorem classOfPrio_of_not_dl {prio : Int} (hprio : dlPrio prio = false) :
    (if rtPrio prio then SchedClass.rt else .fair) = classOfPrio prio := by
  unfold classOfPrio
  rw [hprio]
  rfl

/-- A child never runs with a deadline policy, and never with the boost of its parent. -/
theorem ready_schedFork {current r : Task n} {mm kthread : Bool} {cpu : Fin n} (hc : current.Fit)
    (hfork : schedFork current { current with mm := mm, kthread := kthread } cpu = some r) :
    r.Ready ∧ r.hasDlPolicy = false := by
  unfold schedFork at hfork
  dsimp only at hfork
  by_cases hreset : current.schedResetOnFork = true
  · rw [if_pos hreset] at hfork
    have hcopy : { current with mm := mm, kthread := kthread, prio := current.normalPrio }.ParamsFit :=
      ⟨hc.policy, hc.nice, hc.rtPriority_le, hc.rtPriority_pos, hc.normal, hc.dl⟩
    obtain ⟨hfit, hdl, -⟩ := fit_resetForFork (e := current.dl)
      (t := { current with
        mm := mm
        kthread := kthread
        dl := dlClearParams current.dl
        prio := current.normalPrio }) hcopy
    rw [Option.ite_none_left_eq_some, Bool.not_eq_true] at hfork
    obtain ⟨hprio, hr⟩ := hfork
    cases hr
    exact ⟨⟨⟨⟨hfit.policy, hfit.nice, hfit.rtPriority_le, hfit.rtPriority_pos, hfit.normal, hfit.dl⟩,
      hfit.prio_le⟩, classOfPrio_of_not_dl hprio⟩, hdl⟩
  · rw [if_neg hreset] at hfork
    dsimp only at hfork
    rw [Option.ite_none_left_eq_some, Bool.not_eq_true] at hfork
    obtain ⟨hdl, hr⟩ := hfork
    cases hr
    have hpolicy : current.hasDlPolicy = false := hc.dlPrio_normalPrio.symm.trans hdl
    refine ⟨⟨⟨⟨hc.policy, hc.nice, hc.rtPriority_le, hc.rtPriority_pos, hc.normal, ?_⟩, le_refl _⟩,
      classOfPrio_of_not_dl hdl⟩, hpolicy⟩
    exact fun htrue => absurd (hpolicy.symm.trans htrue) Bool.false_ne_true

/-! ### The invariant -/

/-- A stop task looks like the highest real-time task, but has its own class. -/
structure Task.IsStop (t : Task n) (cpu : Fin n) : Prop extends t.Fit where
  onCpu : t.cpu = cpu
  kthread : t.kthread = true
  fifo : t.policy = schedFifo
  highest : t.rtPriority = 99
  prio : t.prio = 0
  classOf : t.schedClass = .stop

structure Tasks.Fit (ts : Tasks n) : Prop where
  nodup : ts.threads.Nodup
  length_le : ts.threads.length ≤ pidMaxLimit
  ready : ∀ p ∈ ts.threads, (∀ cpu, ts.stop cpu ≠ some p) → (ts.task p).Ready
  stop : ∀ cpu p, ts.stop cpu = some p → p ∈ ts.threads ∧ (ts.task p).IsStop cpu
  idle : ∀ cpu p, ts.idle cpu = some p → p ∉ ts.threads

theorem Tasks.Fit.fit {ts : Tasks n} (hts : ts.Fit) {p : TaskPtr} (hp : p ∈ ts.threads) :
    (ts.task p).Fit := by
  by_cases hstop : ∃ cpu, ts.stop cpu = some p
  · obtain ⟨cpu, hcpu⟩ := hstop
    exact (hts.stop cpu p hcpu).2.toFit
  · exact (hts.ready p hp fun cpu hcpu => hstop ⟨cpu, hcpu⟩).toFit

theorem Tasks.Fit.cpu_eq {ts : Tasks n} (hts : ts.Fit) {cpu cpu' : Fin n} {p : TaskPtr}
    (h₁ : ts.stop cpu = some p) (h₂ : ts.stop cpu' = some p) : cpu = cpu' :=
  (hts.stop cpu p h₁).2.onCpu.symm.trans (hts.stop cpu' p h₂).2.onCpu

variable {s t : State n} {e : Event n} {p : TaskPtr} {x : Task n}

theorem ready_move (hfit : s.tasks.Fit) (hp : p ∈ s.tasks.threads)
    (hstop : ∀ cpu, s.tasks.stop cpu ≠ some p) (hmove : Move h s e p x) : x.Ready := by
  have ht := hfit.ready p hp hstop
  cases hmove with
  | same => exact ht
  | resetOnFork | cpu | affinity | group =>
      exact ⟨⟨⟨ht.policy, ht.nice, ht.rtPriority_le, ht.rtPriority_pos, ht.normal, ht.dl⟩, ht.prio_le⟩,
        ht.classOf⟩
  | policy c attr user hcall hpermits hpromised =>
      exact ready_commitTask ht (attrFits_of_validAttr hpermits.valid) hpromised
  | nice v => exact ready_setUserNice ht v
  | sysNice c increment =>
      unfold sysNice
      dsimp only
      split_ifs
      · exact ht
      · exact ht
      · exact ready_setUserNice ht _
  | setprio prio piPreempts he hnamed hprio => exact ready_rtMutexSetprio piPreempts ht hprio
  | normalize => exact ready_normalizeRtTask ht

theorem setUserNice_isStop {y : Task n} {cpu : Fin n} (hy : y.IsStop cpu) (nice : Int) :
    (setUserNice y nice).IsStop cpu := by
  have hrt : y.hasRtPolicy = true := by
    unfold Task.hasRtPolicy
    rw [hy.fifo]
    rfl
  have hdl : y.hasDlPolicy = false := by
    unfold Task.hasDlPolicy
    rw [hy.fifo]
    rfl
  unfold setUserNice
  split_ifs with hskip hpolicy
  · exact hy
  · rw [not_or, not_or, not_lt, not_lt] at hskip
    have hrange : minNice ≤ niceToPrio nice - 120 ∧ niceToPrio nice - 120 ≤ maxNice := by
      unfold niceToPrio
      omega
    refine ⟨⟨⟨hy.policy, hrange, hy.rtPriority_le, hy.rtPriority_pos, ?_, hy.dl⟩, hy.prio_le⟩,
      hy.onCpu, hy.kthread, hy.fifo, hy.highest, hy.prio, hy.classOf⟩
    exact (hy.normal.trans (normalPrio_rt hdl hrt)).trans
      (normalPrio_rt (t := { y with staticPrio := niceToPrio nice }) hdl hrt).symm
  · exact absurd (Or.inr hrt) hpolicy

/-- A stop task keeps its policy, its priority and its class. -/
theorem isStop_move {cpu : Fin n} (hfit : s.tasks.Fit) (hstop : s.tasks.stop cpu = some p)
    (hmove : Move h s e p x) : x.IsStop cpu := by
  have ht := (hfit.stop cpu p hstop).2
  have hpermits {c : Caller} {attr : SchedAttr} {user : Bool} (hp : Permits c s p attr user) :
      False := hp.notStop (ht.onCpu ▸ hstop)
  have hnamed (hnot : s.tasks.named p = false) : False := (named_eq_false.mp hnot cpu).1 hstop
  cases hmove with
  | same => exact ht
  | resetOnFork c attr user hcall hp => exact (hpermits hp).elim
  | policy c attr user hcall hp => exact (hpermits hp).elim
  | nice v => exact setUserNice_isStop ht v
  | sysNice c increment =>
      unfold sysNice
      dsimp only
      split_ifs
      · exact ht
      · exact ht
      · exact setUserNice_isStop ht _
  | setprio prio piPreempts he hnot => exact (hnamed hnot).elim
  | normalize =>
      unfold normalizeRtTask
      rw [if_pos ht.kthread]
      exact ht
  | cpu cpu he hnot => exact (hnamed hnot).elim
  | affinity | group =>
      exact ⟨⟨⟨ht.policy, ht.nice, ht.rtPriority_le, ht.rtPriority_pos, ht.normal, ht.dl⟩, ht.prio_le⟩,
        ht.onCpu, ht.kthread, ht.fifo, ht.highest, ht.prio, ht.classOf⟩

/-- A step that keeps the threads and the run queues. -/
theorem fit_of_sameThreads (hfit : s.tasks.Fit) (hsame : SameThreads s.tasks t.tasks)
    (hthread : ∀ p ∈ s.tasks.threads, ∃ x, Move h s e p x ∧ t.tasks.task p = x) : t.tasks.Fit := by
  refine ⟨hsame.threads ▸ hfit.nodup, hsame.threads ▸ hfit.length_le, fun p hp hstop => ?_,
    fun cpu p hstop => ?_, fun cpu p hidle => ?_⟩
  · rw [hsame.threads] at hp
    rw [hsame.stop] at hstop
    obtain ⟨x, hmove, hx⟩ := hthread p hp
    exact hx ▸ ready_move hfit hp hstop hmove
  · rw [hsame.stop] at hstop
    have hp := (hfit.stop cpu p hstop).1
    obtain ⟨x, hmove, hx⟩ := hthread p hp
    exact ⟨hsame.threads ▸ hp, hx ▸ isStop_move hfit hstop hmove⟩
  · rw [hsame.idle] at hidle
    exact hsame.threads ▸ hfit.idle cpu p hidle

theorem checkClassChanged_frame (y : Task n) (k : SchedClass) :
    (checkClassChanged h y k).cpu = y.cpu ∧ (checkClassChanged h y k).kthread = y.kthread ∧
      (checkClassChanged h y k).policy = y.policy ∧
      (checkClassChanged h y k).rtPriority = y.rtPriority := by
  unfold checkClassChanged
  split_ifs <;> exact ⟨rfl, rfl, rfl, rfl⟩

theorem setschedulerParams_frame (y : Task n) (attr : SchedAttr) :
    (setschedulerParams y attr).cpu = y.cpu ∧ (setschedulerParams y attr).kthread = y.kthread ∧
      (setschedulerParams y attr).schedTaskGroup = y.schedTaskGroup := by
  unfold setschedulerParams
  dsimp only
  split_ifs <;> exact ⟨rfl, rfl, rfl⟩

/-- A kernel caller that asks for no deadline policy is not refused for want of bandwidth. -/
theorem dlOverflow_leave {y : Task n} {b : DlBw} {cpus : Nat} {policy : Int} {attr : SchedAttr}
    (hpolicy : dlPolicy policy = false) (hdl : y.hasDlPolicy = true) :
    (dlOverflow y b cpus policy attr).1 = 0 := by
  unfold dlOverflow
  simp [hpolicy, hdl]
  split_ifs <;> rfl

theorem innerSetscheduler_ok {c : Caller} {attr : SchedAttr}
    (hvalid : validAttr (s.tasks.task p) attr = true)
    (hstop : s.tasks.stop (s.tasks.task p).cpu ≠ some p)
    (hpolicy : dlPolicy (attr.policyFor (s.tasks.task p)) = false)
    (htask : (s.tasks.task p).dlTask = true → (s.tasks.task p).hasDlPolicy = true) :
    (innerSetscheduler h c s p attr false).1 = 0 := by
  unfold innerSetscheduler commit
  dsimp only
  rw [if_neg (not_not_intro hvalid), if_neg (by simp), if_neg (by simp), if_neg hstop]
  by_cases hchanges : changes (s.tasks.task p) attr = true
  · rw [if_neg (not_not_intro hchanges), if_neg (by simp), hpolicy, Bool.false_or]
    by_cases hdl : (s.tasks.task p).dlTask = true
    · rw [if_pos hdl, if_neg (not_not_intro (dlOverflow_leave hpolicy (htask hdl)))]
    · rw [if_neg hdl]
  · rw [if_pos hchanges]

/-- The attributes of the highest real-time task. -/
def fifoAttr (nice : Int) : SchedAttr where
  schedPolicy := schedFifo
  schedFlags := 0
  schedNice := nice
  schedPriority := 99
  schedRuntime := 0
  schedDeadline := 0
  schedPeriod := 0

theorem paramAttr_fifo (y : Task n) :
    paramAttr y (BitVec.ofInt 32 schedFifo) 99 = fifoAttr y.taskNice := by
  have hflag : BitVec.ofInt 32 schedFifo &&& schedResetOnFork = 0 := by decide
  unfold paramAttr
  dsimp only
  rw [if_neg fun hand => hand.2 hflag]
  rfl

theorem validAttr_fifo (y : Task n) (nice : Int) : validAttr y (fifoAttr nice) = true := by
  cases hmm : y.mm <;>
    simp [validAttr, fifoAttr, SchedAttr.policyFor, schedFifo, validPolicy, schedDeadline, dlPolicy,
      rtPolicy, maxUserRtPrio, maxRtPrio, hmm, schedRr]

theorem normalPrio_fifo {y : Task n} (hpolicy : y.policy = schedFifo) (hrt : y.rtPriority = 99) :
    normalPrio y = 0 := by
  have hy : y.hasDlPolicy = false ∧ y.hasRtPolicy = true := by
    unfold Task.hasDlPolicy Task.hasRtPolicy
    rw [hpolicy]
    exact ⟨rfl, rfl⟩
  rw [normalPrio_rt hy.1 hy.2, hrt]
  rfl

/-- Nothing to change means that the task has the policy and the priority already. -/
theorem changes_fifo {y : Task n} {nice : Int} (hchanges : changes y (fifoAttr nice) = false) :
    y.policy = schedFifo ∧ y.rtPriority = 99 := by
  have hpolicyFor : (fifoAttr nice).policyFor y = schedFifo := rfl
  unfold changes at hchanges
  dsimp only at hchanges
  rw [hpolicyFor] at hchanges
  split_ifs at hchanges with hpolicy
  rw [Bool.or_eq_false_iff, Bool.or_eq_false_iff] at hchanges
  obtain ⟨⟨-, hrt⟩, -⟩ := hchanges
  have hrt : decide (99 ≠ y.rtPriority) = false := hrt
  exact ⟨hpolicy.symm, (not_not.mp (of_decide_eq_false hrt)).symm⟩

/-- What `sched_setscheduler_nocheck` leaves of a task that it makes the highest real-time task. -/
theorem setFifo_result {c : Caller} (ht : (s.tasks.task p).Ready)
    (hnamed : s.tasks.named p = false) (hprio : (s.tasks.task p).prio = (s.tasks.task p).normalPrio)
    (hwaiter : c.topPiWaiter = none) :
    let y := (schedSetschedulerCheck h c s p (BitVec.ofInt 32 schedFifo) 99 false).2.tasks.task p
    y.cpu = (s.tasks.task p).cpu ∧ y.kthread = (s.tasks.task p).kthread ∧ y.policy = schedFifo ∧
      y.rtPriority = 99 ∧ y.prio = 0 := by
  unfold schedSetschedulerCheck
  dsimp only
  rw [paramAttr_fifo]
  have hstop := (named_eq_false.mp hnamed (s.tasks.task p).cpu).1
  have hdl : (s.tasks.task p).dlTask = true → (s.tasks.task p).hasDlPolicy = true := by
    intro htask
    rw [← ht.dlPrio_normalPrio, ← hprio]
    exact htask
  have hok := innerSetscheduler_ok (h := h) (c := c)
    (validAttr_fifo (s.tasks.task p) (s.tasks.task p).taskNice) hstop rfl hdl
  rcases innerSetscheduler_cases (h := h) c s p (fifoAttr (s.tasks.task p).taskNice) false with
    ⟨hne, -⟩ | ⟨-, hchanges, heq⟩ | ⟨-, -, b, -, heq⟩
  · exact absurd hok hne
  · obtain ⟨hpolicy, hrt⟩ := changes_fifo hchanges
    rw [heq]
    dsimp only [onTasks]
    rw [Tasks.set_task_self]
    refine ⟨rfl, rfl, hpolicy, hrt, ?_⟩
    exact hprio.trans (ht.normal.trans (normalPrio_fifo hpolicy hrt))
  · rw [heq]
    dsimp only
    rw [Tasks.set_task_self]
    have hcheck : rtMutexCheckPrio c (fifoAttr (s.tasks.task p).taskNice).newprio = false := by
      unfold rtMutexCheckPrio
      rw [hwaiter]
    unfold commitTask
    dsimp only
    rw [hcheck, if_neg Bool.false_ne_true]
    obtain ⟨hcpu, hkthread, hpolicy, hrt⟩ := checkClassChanged_frame (h := h)
      (setscheduler { s.tasks.task p with
        schedResetOnFork := (fifoAttr (s.tasks.task p).taskNice).resetOnForkFor (s.tasks.task p) }
        (fifoAttr (s.tasks.task p).taskNice)) (s.tasks.task p).schedClass
    rw [hcpu, hkthread, hpolicy, hrt, checkClassChanged_prio]
    refine ⟨rfl, rfl, rfl, rfl, ?_⟩
    rw [setscheduler_prio]
    exact normalPrio_fifo rfl rfl

theorem fit_fork {parent child : TaskPtr} {cpu : Fin n} {mm kthread : Bool} (hfit : s.tasks.Fit)
    (hstep : step h s (.fork parent child cpu mm kthread) = some t) : t.tasks.Fit := by
  obtain ⟨hparent, hchild, hnamed, hlen, r, hr, rfl⟩ := fork_cases hstep
  obtain ⟨hready, -⟩ := ready_schedFork (hfit.fit hparent) hr
  have hnot := named_eq_false.mp hnamed
  refine ⟨List.nodup_cons.mpr ⟨hchild, hfit.nodup⟩, hlen, fun p hp hstop => ?_, fun cpu p hstop => ?_,
    fun cpu p hidle => ?_⟩
  · show ((s.tasks.set child r).task p).Ready
    rw [Tasks.set_task]
    split_ifs with heq
    · exact hready
    · exact hfit.ready p ((List.mem_cons.mp hp).resolve_left heq) hstop
  · obtain ⟨hp, hp'⟩ := hfit.stop cpu p hstop
    have hne : p ≠ child := fun heq => (hnot cpu).1 (heq ▸ hstop)
    refine ⟨List.mem_cons_of_mem _ hp, ?_⟩
    show ((s.tasks.set child r).task p).IsStop cpu
    rw [Tasks.set_task, if_neg hne]
    exact hp'
  · have hne : p ≠ child := fun heq => (hnot cpu).2 (heq ▸ hidle)
    exact List.not_mem_cons_of_ne_of_not_mem hne (hfit.idle cpu p hidle)

theorem fit_exit {q : TaskPtr} (hfit : s.tasks.Fit) (hstep : step h s (.exit q) = some t) :
    t.tasks.Fit := by
  obtain ⟨hq, hnamed, rfl⟩ := exit_cases hstep
  have hnot := named_eq_false.mp hnamed
  refine ⟨hfit.nodup.erase q, ?_, fun p hp hstop => ?_, fun cpu p hstop => ?_, fun cpu p hidle => ?_⟩
  · exact (List.erase_sublist.length_le).trans hfit.length_le
  · exact hfit.ready p (List.mem_of_mem_erase hp) hstop
  · obtain ⟨hp, hp'⟩ := hfit.stop cpu p hstop
    have hne : p ≠ q := fun heq => (hnot cpu).1 (heq ▸ hstop)
    exact ⟨(List.mem_erase_of_ne hne).mpr hp, hp'⟩
  · exact fun hp => hfit.idle cpu p hidle (List.mem_of_mem_erase hp)

theorem fit_stopTask {c : Caller} {cpu : Fin n} {stop : Option TaskPtr} (hfit : s.tasks.Fit)
    (hstep : step h s (.stopTask c cpu stop) = some t) : t.tasks.Fit := by
  obtain ⟨hthreads, hidle, hstop'⟩ := stopTask_cases hstep
  -- The record of every thread, before and after its class is set.
  have hthread (p : TaskPtr) (hp : p ∈ s.tasks.threads) :=
    step_thread hfit.nodup hstep hp
  have hnew (p : TaskPtr) (hp : stop = some p) :
      s.tasks.named p = false ∧ p ∈ s.tasks.threads ∧ (t.tasks.task p).IsStop cpu := by
    subst hp
    obtain ⟨⟨hmem, hnamed⟩, hcpu, hkthread, hprio, hwaiter⟩ := stopTask_guard hstep
    have hnot := named_eq_false.mp hnamed
    have hready := hfit.ready p hmem fun cpu => (hnot cpu).1
    have ht : t = schedSetStopTask h c s cpu (some p) := by
      simp only [step, Option.ite_none_right_eq_some, Option.some.injEq] at hstep
      exact hstep.2.symm
    obtain ⟨ycpu, ykthread, ypolicy, yrt, yprio⟩ := setFifo_result (h := h) hready hnamed hprio hwaiter
    obtain ⟨x, hmove, hx⟩ := innerSetscheduler_move (h := h) (e := .stopTask c cpu (some p)) rfl
      (promised_paramAttr 99 (by simp [hwaiter]) (by decide))
    have hy : (schedSetschedulerCheck h c s p (BitVec.ofInt 32 schedFifo) 99 false).2.tasks.task p =
        x := (congrArg (fun ts => ts.task p) hx).trans (Tasks.set_task_self _ _ _)
    have hxr := ready_move hfit hmem (fun cpu => (hnot cpu).1) hmove
    rw [hy] at ycpu ykthread ypolicy yrt yprio
    refine ⟨hnamed, hmem, ?_⟩
    rw [ht, schedSetStopTask_task]
    dsimp only
    rw [hy, Event.reclass_stopTask, if_neg (hnot cpu).1, if_pos rfl]
    exact ⟨⟨⟨hxr.policy, hxr.nice, hxr.rtPriority_le, hxr.rtPriority_pos, hxr.normal, hxr.dl⟩,
      hxr.prio_le⟩, ycpu.trans hcpu, ykthread.trans hkthread, ypolicy, yrt, yprio, rfl⟩
  refine ⟨hthreads ▸ hfit.nodup, hthreads ▸ hfit.length_le, fun p hp hnot => ?_, fun cpu' p hp => ?_,
    fun cpu' p hp => ?_⟩
  · rw [hthreads] at hp
    obtain ⟨x, hmove, hx⟩ := hthread p hp
    rw [hx, Event.reclass_stopTask]
    by_cases hold : s.tasks.stop cpu = some p
    · -- The old stop task goes back to the class of its priority.
      have hstopx := isStop_move hfit hold hmove
      rw [if_pos hold]
      exact ⟨⟨⟨hstopx.policy, hstopx.nice, hstopx.rtPriority_le, hstopx.rtPriority_pos, hstopx.normal,
        hstopx.dl⟩, hstopx.prio_le⟩, by rw [hstopx.prio]; rfl⟩
    · have hnotNew : stop ≠ some p := by
        have hcpu := hnot cpu
        rw [hstop', Function.update_self] at hcpu
        exact hcpu
      rw [if_neg hold, if_neg hnotNew]
      refine ready_move hfit hp (fun cpu' hcpu' => ?_) hmove
      have hne : cpu' ≠ cpu := fun heq => hold (heq ▸ hcpu')
      refine hnot cpu' ?_
      rw [hstop', Function.update_of_ne hne]
      exact hcpu'
  · rw [hstop'] at hp
    by_cases hcpu : cpu' = cpu
    · subst hcpu
      rw [Function.update_self] at hp
      obtain ⟨-, hmem, hisStop⟩ := hnew p hp
      exact ⟨hthreads ▸ hmem, hisStop⟩
    · rw [Function.update_of_ne hcpu] at hp
      have hmem := (hfit.stop cpu' p hp).1
      obtain ⟨x, hmove, hx⟩ := hthread p hmem
      refine ⟨hthreads ▸ hmem, ?_⟩
      rw [hx, Event.reclass_stopTask, if_neg fun hold => hcpu (hfit.cpu_eq hp hold), if_neg fun hstop =>
        (named_eq_false.mp (hnew p hstop).1 cpu').1 hp]
      exact isStop_move hfit hp hmove
  · rw [hidle] at hp
    exact hthreads ▸ hfit.idle cpu' p hp

/-- One step keeps the invariant. -/
theorem fit_step (hfit : s.tasks.Fit) (hstep : step h s e = some t) : t.tasks.Fit := by
  by_cases hfork : ∃ parent child cpu mm kthread, e = .fork parent child cpu mm kthread
  · obtain ⟨parent, child, cpu, mm, kthread, rfl⟩ := hfork
    exact fit_fork hfit hstep
  by_cases hexit : ∃ p, e = .exit p
  · obtain ⟨p, rfl⟩ := hexit
    exact fit_exit hfit hstep
  by_cases hstop : ∃ c cpu stop, e = .stopTask c cpu stop
  · obtain ⟨c, cpu, stop, rfl⟩ := hstop
    exact fit_stopTask hfit hstep
  push Not at hfork hexit hstop
  refine fit_of_sameThreads (h := h) (e := e) hfit (step_sameThreads hstep hfork hexit hstop)
    fun p hp => ?_
  obtain ⟨x, hmove, hx⟩ := step_thread hfit.nodup hstep hp
  refine ⟨x, hmove, hx.trans ?_⟩
  cases e with
  | stopTask c cpu stop => exact absurd rfl (hstop c cpu stop)
  | _ => rfl

/-- In every run of the control plane, every thread keeps parameters that fit its policy, the normal
priority that they give, no priority below it, and the class of its priority; the stop tasks stay
the highest real-time tasks. -/
theorem tasks_fit_run (s : State n) (hfit : s.tasks.Fit) (es : List (Event n)) :
    Always (step h) (fun s => s.tasks.Fit) s es :=
  always_of_step _ (fun _ _ _ hfit hstep => fit_step hfit hstep) hfit es

theorem boot_fit (cpu : Fin n) : (boot n cpu).tasks.Fit := by
  have hnice : minNice ≤ prioToNice (maxPrio - 20) ∧ prioToNice (maxPrio - 20) ≤ maxNice := by decide
  have hready : (initTask cpu).Ready :=
    ⟨⟨⟨rfl, hnice, rtPriority_zero_le, rfl, rfl, fun hdl => Bool.noConfusion hdl⟩, le_refl _⟩, rfl⟩
  have hlen : 1 ≤ pidMaxLimit := by decide
  refine ⟨List.nodup_singleton 0, hlen, fun p _ _ => hready, fun c p hp => ?_, fun c p hp => ?_⟩
  · cases hp
  · cases hp
    exact fun hmem => Nat.succ_ne_zero c (List.mem_singleton.mp hmem)

theorem tasks_fit_run_boot :
    let es : List (Event 2) :=
      [.fork 0 7 1 true false, .setattr superuser 7 (dlRequest 10000000 30000000) true,
        .setprio 0 (-1) true, .setprio 0 120 false, .setscheduler superuser 0 1 50 true,
        .fork 0 8 1 false true, .stopTask superuser 1 (some 8), .nice 7 (-5), .normalize, .exit 7]
    (run (step bootHooks) (boot 2 0) es).isSome = true ∧
      Always (step bootHooks) (fun s => s.tasks.Fit) (boot 2 0) es :=
  ⟨by decide, tasks_fit_run _ (boot_fit 0) _⟩

end Lkm.Core
