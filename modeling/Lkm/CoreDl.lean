import Lkm.BaseLedger
import Lkm.CorePrio

/-! Deadline bandwidth. `total_bw` of a root domain is meant to be the bandwidth of the deadline tasks
in it. It is, in every state of a run, exactly when no step lets a task back into the policy with
the bandwidth that it still carries, SysRq takes no deadline task out of it, no charged task comes
into another root domain, be it that the task moves or that its CPU does, and no task dies boosted
with a bandwidth that it is not charged for. -/

namespace Lkm.Core

open Runs Ledger

variable {n : Nat} {h : Hooks}

/-! ### Ratios -/

/-- A runtime within its period has at most the ratio 1, even where the shift wraps around. -/
theorem toRatio_le {period runtime : BitVec 64}
    (hle : runtime = runtimeInf ∨ runtime.toNat ≤ period.toNat) :
    (toRatio period runtime).toNat ≤ 2 ^ 20 := by
  unfold toRatio
  split_ifs with hinf hzero
  · decide
  · decide
  · have hle := hle.resolve_left hinf
    have hpos : 0 < period.toNat := by
      rcases Nat.eq_zero_or_pos period.toNat with heq | hpos
      · exact absurd (BitVec.eq_of_toNat_eq heq) hzero
      · exact hpos
    rw [BitVec.toNat_udiv, BitVec.toNat_shiftLeft, Nat.shiftLeft_eq]
    calc runtime.toNat * 2 ^ 20 % 2 ^ 64 / period.toNat
        ≤ runtime.toNat * 2 ^ 20 / period.toNat := Nat.div_le_div_right (Nat.mod_le _ _)
      _ ≤ period.toNat * 2 ^ 20 / period.toNat :=
          Nat.div_le_div_right (Nat.mul_le_mul_right _ hle)
      _ = 2 ^ 20 := Nat.mul_div_cancel_left _ hpos

/-- New global limits are ratios. -/
theorem toRatio_globals_le {c : Sysctl} (hvalid : schedRtGlobalValidate c = 0) :
    (toRatio (globalRtPeriod c) (globalRtRuntime c)).toNat ≤ 2 ^ 20 := by
  refine toRatio_le ?_
  unfold globalRtRuntime
  split_ifs with hneg
  · exact Or.inl rfl
  right
  unfold schedRtGlobalValidate at hvalid
  by_cases hzero : c.schedRtPeriod = 0
  · rw [if_pos hzero] at hvalid
    exact absurd hvalid neg_einval_ne
  rw [if_neg hzero] at hvalid
  have hle : c.schedRtRuntime.toNat ≤ c.schedRtPeriod.toNat := by
    by_contra hgt
    have hinf : c.schedRtRuntime.signExtend 64 ≠ runtimeInf := by
      intro heq
      have hint := congrArg BitVec.toInt heq
      rw [BitVec.toInt_signExtend_of_le (by decide)] at hint
      have hall : runtimeInf.toInt = -1 := by decide
      omega
    rw [if_pos ⟨hinf, BitVec.lt_def.mpr (not_le.mp hgt)⟩] at hvalid
    exact neg_einval_ne hvalid
  have hwide (x : BitVec 32) : (x.setWidth 64 * nsecPerUsec).toNat = x.toNat * 1000 := by
    have hx := x.isLt
    rw [BitVec.toNat_mul, BitVec.toNat_setWidth, Nat.mod_eq_of_lt (hx.trans (by decide))]
    exact Nat.mod_eq_of_lt (by show x.toNat * 1000 < 2 ^ 64; omega)
  unfold globalRtPeriod
  rw [hwide, hwide]
  exact Nat.mul_le_mul_right _ hle

theorem DlEntity.Valid.bw_le {e : DlEntity} (he : e.Valid) : e.dlBw.toNat ≤ 2 ^ 20 := by
  rw [he.bw]
  exact toRatio_le (Or.inr (he.runtime_le.trans he.deadline_le))

/-! ### Charges -/

/-- What a task counts in a root domain. -/
def charge (d : Domains n) (rd : RdPtr) (t : Task n) : Nat :=
  if t.hasDlPolicy ∧ d.rd t.cpu = rd then t.dl.dlBw.toNat else 0

/-- The bandwidth of the deadline tasks of a root domain. -/
def dlSum (ts : Tasks n) (d : Domains n) (rd : RdPtr) : Nat :=
  total (charge d rd) ts.task ts.threads

/-- The account of every root domain is right. -/
def Balanced (s : State n) : Prop :=
  ∀ rd, (s.domains.dlBw rd).totalBw.toNat = dlSum s.tasks s.domains rd

theorem charge_le {d : Domains n} {rd : RdPtr} {t : Task n} (ht : t.Fit) :
    charge d rd t ≤ 2 ^ 20 := by
  unfold charge
  split_ifs with hdl
  · exact (ht.dl hdl.1).bw_le
  · exact Nat.zero_le _

theorem dlSum_le {ts : Tasks n} (hts : ts.Fit) (d : Domains n) (rd : RdPtr) :
    dlSum ts d rd ≤ 2 ^ 42 := by
  calc dlSum ts d rd ≤ ts.threads.length * 2 ^ 20 :=
        total_le fun p hp => charge_le (hts.fit hp)
    _ ≤ pidMaxLimit * 2 ^ 20 := Nat.mul_le_mul_right _ hts.length_le
    _ = 2 ^ 42 := by decide

/-- Changing one thread. -/
theorem dlSum_set {ts : Tasks n} (hnodup : ts.threads.Nodup) {p : TaskPtr} (hp : p ∈ ts.threads)
    (d : Domains n) (rd : RdPtr) (t : Task n) :
    dlSum (ts.set p t) d rd + charge d rd (ts.task p) = dlSum ts d rd + charge d rd t :=
  total_update _ _ hnodup hp t

theorem charge_of_eq {d : Domains n} {rd : RdPtr} {t t' : Task n}
    (hpolicy : t'.policy = t.policy) (hcpu : t'.cpu = t.cpu)
    (hbw : t.hasDlPolicy = true → t'.dl.dlBw = t.dl.dlBw) : charge d rd t' = charge d rd t := by
  unfold charge
  have hdl : t'.hasDlPolicy = t.hasDlPolicy := congrArg dlPolicy hpolicy
  rw [hdl, hcpu]
  split_ifs with hin
  · rw [hbw hin.1]
  · rfl

/-! ### A call of `__sched_setscheduler` -/

/-- The bandwidth that a call asks for. -/
def SchedAttr.bwFor (attr : SchedAttr) (t : Task n) : BitVec 64 := newDlBw (attr.policyFor t) attr

theorem setschedulerParams_bw {t : Task n} {attr : SchedAttr}
    (hpolicy : setparamPolicy ≤ attr.schedPolicy) :
    (setschedulerParams t attr).policy = attr.policyFor t ∧
      (dlPolicy (attr.policyFor t) = true →
        (setschedulerParams t attr).dl.dlBw = attr.bwFor t) := by
  have hpol : (setschedulerParams t attr).policy = attr.policyFor t :=
    (setschedulerParams_policy t attr).trans (policyFor_eq hpolicy)
  refine ⟨hpol, fun hdl => ?_⟩
  rw [setschedulerParams_dl, hpol, if_pos hdl]
  unfold SchedAttr.bwFor newDlBw
  rw [if_pos hdl]
  rfl

/-- The hook of the deadline class does not run for a task that has been given a deadline policy. -/
theorem checkClassChanged_setscheduler_dl {t : Task n} {attr : SchedAttr} {k : SchedClass}
    (hdl : dlPolicy (setschedulerParams t attr).policy = true) :
    (checkClassChanged h (setscheduler t attr) k).dl = (setschedulerParams t attr).dl := by
  have hclass : (setscheduler t attr).schedClass = .dl := by
    rw [setscheduler_schedClass, setscheduler_prio, normalPrio_dl hdl]
    rfl
  unfold checkClassChanged
  rw [if_neg fun hleft => hleft.1 (hleft.2.trans hclass.symm)]
  rfl

/-- The policy and the bandwidth after the call. -/
theorem commitTask_bw {t : Task n} {c : Caller} {attr : SchedAttr}
    (hpolicy : setparamPolicy ≤ attr.schedPolicy) :
    (commitTask h c t attr).policy = attr.policyFor t ∧ (commitTask h c t attr).cpu = t.cpu ∧
      (dlPolicy (attr.policyFor t) = true →
        (commitTask h c t attr).dl.dlBw = attr.bwFor t) := by
  let u : Task n := { t with schedResetOnFork := attr.resetOnForkFor t }
  obtain ⟨hpol, hbw⟩ := setschedulerParams_bw (t := u) hpolicy
  have hcpu := (setschedulerParams_frame u attr).1
  unfold commitTask
  dsimp only
  split_ifs with hboost
  · exact ⟨hpol, hcpu, hbw⟩
  · obtain ⟨hcpu', -, hpol', -⟩ := checkClassChanged_frame (h := h) (setscheduler u attr) t.schedClass
    refine ⟨hpol'.trans hpol, hcpu'.trans hcpu, fun hdl => ?_⟩
    rw [checkClassChanged_setscheduler_dl (t := u) (hpol.symm ▸ hdl)]
    exact hbw hdl

/-- What the task counts after the call. -/
theorem charge_commitTask {d : Domains n} {rd : RdPtr} {t : Task n} {c : Caller} {attr : SchedAttr}
    (hpolicy : setparamPolicy ≤ attr.schedPolicy) :
    charge d rd (commitTask h c t attr) =
      if d.rd t.cpu = rd then (attr.bwFor t).toNat else 0 := by
  obtain ⟨hpol, hcpu, hbw⟩ := commitTask_bw (h := h) (t := t) (c := c) hpolicy
  unfold charge Task.hasDlPolicy
  rw [hpol, hcpu]
  cases hdl : dlPolicy (attr.policyFor t) with
  | true => simp [hbw hdl]
  | false => simp [SchedAttr.bwFor, newDlBw, hdl]

/-- The bandwidth that an accepted call asks for is a ratio. -/
theorem bwFor_le {t : Task n} {attr : SchedAttr} (hvalid : validAttr t attr = true) :
    (attr.bwFor t).toNat ≤ 2 ^ 20 := by
  unfold SchedAttr.bwFor newDlBw
  split_ifs with hdl
  · have he := checkparamDl_valid (e := t.dl) ((attrFits_of_validAttr hvalid).dl hdl)
    exact he.bw_le
  · exact Nat.zero_le _

/-- A task that is not charged comes back with the bandwidth that it still carries. -/
def ReturnsUncharged (t : Task n) (attr : SchedAttr) : Prop :=
  t.hasDlPolicy = false ∧ attr.bwFor t = t.dl.dlBw ∧ attr.bwFor t ≠ 0

/-- The four ways in which `dl_overflow` lets a call pass. -/
theorem dlOverflow_cases {t : Task n} {b b' : DlBw} {cpus : Nat} {attr : SchedAttr}
    (hrun : dlOverflow t b cpus (attr.policyFor t) attr = (0, b')) :
    (attr.bwFor t = t.dl.dlBw ∧ b' = b) ∨
    (attr.bwFor t ≠ t.dl.dlBw ∧ t.hasDlPolicy = false ∧
      dlOverflows b cpus 0 (attr.bwFor t) = false ∧ b' = dlAdd b (attr.bwFor t)) ∨
    (t.hasDlPolicy = true ∧ dlOverflows b cpus t.dl.dlBw (attr.bwFor t) = false ∧
      b' = dlAdd (dlClear b t.dl.dlBw) (attr.bwFor t)) ∨
    (attr.bwFor t = 0 ∧ t.hasDlPolicy = true ∧ b' = dlClear b t.dl.dlBw) := by
  unfold dlOverflow at hrun
  change (if attr.bwFor t = t.dl.dlBw then _ else _) = _ at hrun
  split_ifs at hrun with hsame henter hchange hleave
  · exact Or.inl ⟨hsame, (congrArg Prod.snd hrun).symm⟩
  · exact Or.inr (Or.inl ⟨hsame, Bool.eq_false_iff.mpr henter.2.1,
      Bool.eq_false_iff.mpr henter.2.2, (congrArg Prod.snd hrun).symm⟩)
  · exact Or.inr (Or.inr (Or.inl ⟨hchange.2.1, Bool.eq_false_iff.mpr hchange.2.2,
      (congrArg Prod.snd hrun).symm⟩))
  · refine Or.inr (Or.inr (Or.inr ⟨?_, hleave.2, (congrArg Prod.snd hrun).symm⟩))
    exact if_neg hleave.1
  · cases hrun

theorem charge_self (d : Domains n) (t : Task n) :
    charge d (d.rd t.cpu) t = if t.hasDlPolicy then t.dl.dlBw.toNat else 0 := by
  unfold charge
  simp only [and_true]

theorem toNat_dlAdd {b : DlBw} {bw : BitVec 64} (hsum : b.totalBw.toNat + bw.toNat < 2 ^ 64) :
    (dlAdd b bw).totalBw.toNat = b.totalBw.toNat + bw.toNat := by
  unfold dlAdd
  rw [BitVec.toNat_add, Nat.mod_eq_of_lt hsum]

theorem toNat_dlClear {b : DlBw} {bw : BitVec 64} (hle : bw.toNat ≤ b.totalBw.toNat) :
    (dlClear b bw).totalBw.toNat = b.totalBw.toNat - bw.toNat :=
  BitVec.toNat_sub_of_le hle

/-- Any other call charges the difference. -/
theorem charges_total {s : State n} {p : TaskPtr} {t : Task n} {attr : SchedAttr} {b : DlBw}
    (hts : s.tasks.Fit) (hp : p ∈ s.tasks.threads) (hpt : s.tasks.task p = t)
    (hvalid : validAttr t attr = true) (hbalanced : Balanced s) (hcharges : Charges s p attr b) :
    (b.totalBw.toNat + charge s.domains (s.domains.rd t.cpu) t =
        dlSum s.tasks s.domains (s.domains.rd t.cpu) + (attr.bwFor t).toNat) ↔
      ¬ReturnsUncharged t attr := by
  have ht : t.Fit := hpt ▸ hts.fit hp
  have hold : charge s.domains (s.domains.rd t.cpu) t ≤
      dlSum s.tasks s.domains (s.domains.rd t.cpu) := by
    have hle := le_total (charge s.domains (s.domains.rd t.cpu)) s.tasks.task hp
    rw [hpt] at hle
    exact hle
  have hsum := dlSum_le hts s.domains (s.domains.rd t.cpu)
  have hnew : (attr.bwFor t).toNat ≤ 2 ^ 20 := bwFor_le hvalid
  have htotal : (dlBwOf s.domains t.cpu).totalBw.toNat =
      dlSum s.tasks s.domains (s.domains.rd t.cpu) := hbalanced _
  have hzero : attr.bwFor t ≠ 0 ↔ (attr.bwFor t).toNat ≠ 0 := by
    rw [not_iff_not, ← BitVec.toNat_inj]
    rfl
  unfold ReturnsUncharged
  unfold Charges at hcharges
  dsimp only at hcharges
  rw [hpt] at hcharges
  rw [charge_self] at hold ⊢
  by_cases hdl : (dlPolicy (attr.policyFor t) || t.dlTask) = true
  · rw [if_pos hdl] at hcharges
    rcases dlOverflow_cases hcharges with
      ⟨hsame, rfl⟩ | ⟨hne, hno, -, rfl⟩ | ⟨hyes, -, rfl⟩ | ⟨hleave, hyes, rfl⟩
    · -- The early return: nothing is charged.
      rw [htotal, hzero, hsame]
      cases hpolicy : t.hasDlPolicy with
      | true => simp
      | false => simp
    · rw [hno, if_neg Bool.false_ne_true, toNat_dlAdd (by omega), htotal]
      exact iff_of_true rfl fun hret => hne hret.2.1
    · rw [hyes, if_pos rfl] at hold ⊢
      have hclear := toNat_dlClear (b := dlBwOf s.domains t.cpu) (hold.trans htotal.symm.le)
      rw [toNat_dlAdd (by omega), hclear, htotal]
      exact iff_of_true (by omega) fun hret => Bool.noConfusion hret.1
    · rw [hyes, if_pos rfl] at hold ⊢
      rw [toNat_dlClear (hold.trans htotal.symm.le), htotal, hleave]
      refine iff_of_true ?_ fun hret => Bool.noConfusion hret.1
      rw [Nat.sub_add_cancel hold]
      rfl
  · rw [if_neg hdl] at hcharges
    rw [Bool.or_eq_true, not_or] at hdl
    have hno : t.hasDlPolicy = false := by
      by_contra hyes
      exact hdl.2 (ht.dlTask (by simpa using hyes))
    have hbw : attr.bwFor t = 0 := if_neg hdl.1
    rw [hcharges, hno, if_neg Bool.false_ne_true, htotal, hbw]
    exact iff_of_true rfl fun hret => hret.2.2 rfl

/-- A step that changes one task and the account of its root domain. -/
theorem balanced_set_iff {s : State n} {p : TaskPtr} {t x : Task n} {b : DlBw}
    (hnodup : s.tasks.threads.Nodup) (hp : p ∈ s.tasks.threads) (hpt : s.tasks.task p = t)
    (hcpu : x.cpu = t.cpu) (hbalanced : Balanced s) :
    Balanced { s with
        domains := s.domains.setDlBw (s.domains.rd t.cpu) b
        tasks := s.tasks.set p x } ↔
      b.totalBw.toNat + charge s.domains (s.domains.rd t.cpu) t =
        dlSum s.tasks s.domains (s.domains.rd t.cpu) + charge s.domains (s.domains.rd t.cpu) x := by
  have hsum (rd : RdPtr) := dlSum_set hnodup hp s.domains rd x
  rw [hpt] at hsum
  constructor
  · intro hafter
    have hrd : b.totalBw.toNat = dlSum (s.tasks.set p x) s.domains (s.domains.rd t.cpu) := by
      have hrd := hafter (s.domains.rd t.cpu)
      unfold Domains.setDlBw at hrd
      dsimp only at hrd
      rw [Function.update_self] at hrd
      exact hrd
    rw [hrd]
    exact hsum _
  · intro heq rd
    show (Function.update s.domains.dlBw (s.domains.rd t.cpu) b rd).totalBw.toNat =
      dlSum (s.tasks.set p x) s.domains rd
    have hsum := hsum rd
    by_cases hrd : rd = s.domains.rd t.cpu
    · subst hrd
      rw [Function.update_self]
      omega
    · have hzero (y : Task n) (hy : y.cpu = t.cpu) : charge s.domains rd y = 0 :=
        if_neg fun hin => hrd (hy ▸ hin.2).symm
      rw [hzero t rfl, hzero x hcpu] at hsum
      rw [Function.update_of_ne hrd, hbalanced rd]
      exact hsum.symm

/-- The task takes the policy with the bandwidth that it carries. -/
def TakesUncharged (t t' : Task n) : Prop :=
  t.hasDlPolicy = false ∧ t'.hasDlPolicy = true ∧ t'.dl.dlBw = t.dl.dlBw ∧ t'.dl.dlBw ≠ 0

theorem not_takesUncharged_of_policy {t t' : Task n} (hpolicy : t'.policy = t.policy) :
    ¬TakesUncharged t t' := by
  rintro ⟨hno, hyes, -⟩
  unfold Task.hasDlPolicy at hno hyes
  rw [hpolicy, hno] at hyes
  exact Bool.noConfusion hyes

/-- The account after a call. -/
theorem balanced_innerSetscheduler {s : State n} {p : TaskPtr} {c : Caller} {attr : SchedAttr}
    {user : Bool} (hts : s.tasks.Fit) (hp : p ∈ s.tasks.threads)
    (hpolicy : setparamPolicy ≤ attr.schedPolicy) (hbalanced : Balanced s) :
    Balanced (innerSetscheduler h c s p attr user).2 ↔
      ¬TakesUncharged (s.tasks.task p)
        ((innerSetscheduler h c s p attr user).2.tasks.task p) := by
  rcases innerSetscheduler_cases (h := h) c s p attr user with
    ⟨-, hs⟩ | ⟨-, -, hs⟩ | ⟨hpermits, -, b, hcharges, hs⟩ <;> rw [hs]
  · exact iff_of_true hbalanced (not_takesUncharged_of_policy rfl)
  · have hset := balanced_set_iff (x := { s.tasks.task p with
        schedResetOnFork := attr.resetOnForkFor (s.tasks.task p) })
      (b := s.domains.dlBw (s.domains.rd (s.tasks.task p).cpu)) hts.nodup hp rfl rfl hbalanced
    rw [Domains.setDlBw_self] at hset
    refine iff_of_true (hset.mpr ?_) (not_takesUncharged_of_policy (by simp [onTasks]))
    rw [hbalanced]
    rfl
  · obtain ⟨hpol, hcpu, hbw⟩ := commitTask_bw (h := h) (t := s.tasks.task p) (c := c) hpolicy
    rw [balanced_set_iff hts.nodup hp rfl hcpu hbalanced, charge_commitTask hpolicy, if_pos rfl,
      charges_total hts hp rfl hpermits.valid hbalanced hcharges, Tasks.set_task_self]
    unfold ReturnsUncharged TakesUncharged Task.hasDlPolicy
    rw [hpol]
    refine not_congr (and_congr_right fun _ => ?_)
    cases hdl : dlPolicy (attr.policyFor (s.tasks.task p)) with
    | true => simp [hbw hdl]
    | false => simp [SchedAttr.bwFor, newDlBw, hdl]

end Lkm.Core
