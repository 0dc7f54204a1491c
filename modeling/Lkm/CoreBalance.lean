import Lkm.CoreDl

/-! The accounts of the root domains over whole runs. A step breaks them in one of five ways: a task
takes the deadline policy with the bandwidth that it still carries, SysRq takes a charged task out of
the policy, a charged task moves to another root domain, its CPU does, or a task dies boosted into
the deadline class with a bandwidth that it is not charged for. -/

namespace Lkm.Core

open Runs Ledger

variable {n : Nat} {h : Hooks}

/-! ### The other steps -/

theorem setUserNice_frame (t : Task n) (nice : Int) :
    (setUserNice t nice).policy = t.policy ∧ (setUserNice t nice).cpu = t.cpu ∧
      (setUserNice t nice).dl = t.dl := by
  unfold setUserNice effectivePrio
  dsimp only
  split_ifs <;> exact ⟨rfl, rfl, rfl⟩

/-- A boost leaves the bandwidth of a deadline task alone: the class of the task does not change. -/
theorem rtMutexSetprio_frame {ts : Tasks n} {p : TaskPtr} {prio : Int} (piPreempts : Bool)
    (ht : (ts.task p).Fit) (hprio : prio ≤ (ts.task p).normalPrio) :
    ((rtMutexSetprio h ts p prio piPreempts).task p).policy = (ts.task p).policy ∧
      ((rtMutexSetprio h ts p prio piPreempts).task p).cpu = (ts.task p).cpu ∧
      ((ts.task p).hasDlPolicy = true →
        ((rtMutexSetprio h ts p prio piPreempts).task p).dl.dlBw = (ts.task p).dl.dlBw) := by
  unfold rtMutexSetprio
  dsimp only
  by_cases hidle : ts.idle (ts.task p).cpu = some p
  · rw [if_pos hidle]
    exact ⟨rfl, rfl, fun _ => rfl⟩
  rw [if_neg hidle, Tasks.set_task_self]
  obtain ⟨hcpu, -, hpolicy, -⟩ := checkClassChanged_frame (h := h)
    { ts.task p with
      dl :=
        if dlPrio prio then
          if ¬dlPrio (ts.task p).normalPrio ∨ piPreempts then
            { (ts.task p).dl with dlBoosted := true, dlThrottled := false }
          else { (ts.task p).dl with dlBoosted := false }
        else { (ts.task p).dl with
          dlBoosted := if dlPrio (ts.task p).prio then false else (ts.task p).dl.dlBoosted }
      schedClass := classOfPrio prio
      prio := prio }
    (ts.task p).schedClass
  refine ⟨hpolicy, hcpu, fun hdl => ?_⟩
  have hclass : classOfPrio prio = .dl := by
    rw [ht.normal, normalPrio_dl hdl] at hprio
    have hlt : dlPrio prio = true := decide_eq_true (by unfold maxDlPrio; omega)
    exact if_pos hlt
  unfold checkClassChanged
  rw [if_neg fun hleft => hleft.1 (hleft.2.trans hclass.symm)]
  dsimp only
  split_ifs <;> rfl

/-- The steps that do not go through `__sched_setscheduler`, are not SysRq and move no task leave the
policy and the charge of a thread alone. -/
theorem charge_move {s : State n} {e : Event n} {p : TaskPtr} {x : Task n} (ht : (s.tasks.task p).Fit)
    (hcall : e.call s = none) (hne : e ≠ .normalize) (hmigrate : ∀ q cpu, e ≠ .migrate q cpu)
    (hmove : Move h s e p x) (rd : RdPtr) :
    x.policy = (s.tasks.task p).policy ∧
      charge s.domains rd x = charge s.domains rd (s.tasks.task p) := by
  have hkeep {y : Task n} (hpolicy : y.policy = (s.tasks.task p).policy)
      (hcpu : y.cpu = (s.tasks.task p).cpu)
      (hbw : (s.tasks.task p).hasDlPolicy = true → y.dl.dlBw = (s.tasks.task p).dl.dlBw) :
      y.policy = (s.tasks.task p).policy ∧
        charge s.domains rd y = charge s.domains rd (s.tasks.task p) :=
    ⟨hpolicy, charge_of_eq hpolicy hcpu hbw⟩
  have hnice (v : Int) : (setUserNice (s.tasks.task p) v).policy = (s.tasks.task p).policy ∧
      charge s.domains rd (setUserNice (s.tasks.task p) v) =
        charge s.domains rd (s.tasks.task p) := by
    obtain ⟨hpolicy, hcpu, hdl⟩ := setUserNice_frame (s.tasks.task p) v
    exact hkeep hpolicy hcpu fun _ => by rw [hdl]
  cases hmove with
  | same | affinity | group => exact hkeep rfl rfl fun _ => rfl
  | resetOnFork c attr user hcall' | policy c attr user hcall' =>
      rw [hcall] at hcall'
      cases hcall'
  | nice v => exact hnice v
  | sysNice c increment =>
      unfold sysNice
      dsimp only
      split_ifs
      · exact ⟨rfl, rfl⟩
      · exact ⟨rfl, rfl⟩
      · exact hnice _
  | setprio prio piPreempts he hnamed hprio =>
      obtain ⟨hpolicy, hcpu, hbw⟩ := rtMutexSetprio_frame (h := h) piPreempts ht hprio
      exact hkeep hpolicy hcpu hbw
  | normalize he => exact absurd he hne
  | cpu cpu he => exact absurd he (hmigrate p cpu)

theorem charge_reclass (d : Domains n) (rd : RdPtr) (e : Event n) (s : State n) (p : TaskPtr)
    (x : Task n) : (e.reclass s p x).policy = x.policy ∧ charge d rd (e.reclass s p x) = charge d rd x ∧
      (e.reclass s p x).dl = x.dl ∧ (e.reclass s p x).cpu = x.cpu := by
  unfold Event.reclass
  split
  · split_ifs <;> exact ⟨rfl, rfl, rfl, rfl⟩
  · exact ⟨rfl, rfl, rfl, rfl⟩

theorem normalizeTask_policy (t : Task n) : (normalizeTask h t).policy = schedNormal := by
  unfold normalizeTask
  exact (checkClassChanged_frame _ _).2.2.1

/-- What SysRq leaves of the charge of a thread. -/
theorem charge_normalizeRtTask {t : Task n} (ht : t.Fit) (d : Domains n) (rd : RdPtr) :
    charge d rd (normalizeRtTask h t) = if t.kthread then charge d rd t else 0 := by
  have hno {y : Task n} (hpolicy : y.hasDlPolicy = false) : charge d rd y = 0 :=
    if_neg fun hin => Bool.false_ne_true (hpolicy.symm.trans hin.1)
  unfold normalizeRtTask
  by_cases hk : t.kthread = true
  · rw [if_pos hk, if_pos hk]
  rw [if_neg hk, if_neg hk]
  by_cases hprio : ¬t.dlTask = true ∧ ¬t.rtTask = true
  · have hdl : t.hasDlPolicy = false := by
      by_contra hyes
      exact hprio.1 (ht.dlTask (by simpa using hyes))
    rw [if_pos hprio]
    split_ifs
    · exact hno ((congrArg dlPolicy (setUserNice_frame t 0).1).trans hdl)
    · exact hno hdl
  · rw [if_neg hprio]
    exact hno (congrArg dlPolicy (normalizeTask_policy t))

theorem normalizeRtTask_cpu (t : Task n) : (normalizeRtTask h t).cpu = t.cpu := by
  unfold normalizeRtTask normalizeTask
  split_ifs
  · rfl
  · exact (setUserNice_frame t 0).2.1
  · rfl
  · exact (checkClassChanged_frame _ _).1.trans (setschedulerParams_frame _ _).1

theorem hasDlPolicy_normalizeRtTask {t : Task n} (hno : t.hasDlPolicy = false) :
    (normalizeRtTask h t).hasDlPolicy = false := by
  unfold normalizeRtTask
  split_ifs
  · exact hno
  · exact (congrArg dlPolicy (setUserNice_frame t 0).1).trans hno
  · exact hno
  · exact congrArg dlPolicy (normalizeTask_policy t)

/-- The accounts that a step does not touch. -/
structure SameAccounts (d d' : Domains n) : Prop where
  rd : d'.rd = d.rd
  totalBw : ∀ rd, (d'.dlBw rd).totalBw = (d.dlBw rd).totalBw

theorem sameAccounts_schedDlDoGlobal (s : State n) :
    SameAccounts s.domains (schedDlDoGlobal s).domains := by
  have hfold (newBw : BitVec 64) (cpus : List (Fin n)) (d : Domains n) :
      SameAccounts d (cpus.foldl
        (fun d cpu => d.setDlBw (d.rd cpu) { dlBwOf d cpu with bw := newBw }) d) := by
    induction cpus generalizing d with
    | nil => exact ⟨rfl, fun _ => rfl⟩
    | cons cpu cpus ih =>
        obtain ⟨hrd, htotal⟩ := ih (d.setDlBw (d.rd cpu) { dlBwOf d cpu with bw := newBw })
        refine ⟨hrd, fun rd => (htotal rd).trans ?_⟩
        unfold Domains.setDlBw dlBwOf
        dsimp only
        rw [Function.update_apply]
        split_ifs with heq
        · rw [heq]
        · rfl
  exact hfold _ _ _

/-- The events that may rebuild the root domains. -/
def Event.rebuilds : Event n → Bool
  | .cpuDown .. | .cpuUp .. | .partition _ => true
  | _ => false

theorem step_rebuilds {s t : State n} {e : Event n} (he : e.rebuilds = true)
    (hstep : step h s e = some t) : t = onDomains s t.domains := by
  cases e with
  | cpuDown | cpuUp | partition =>
      simp only [step, Option.ite_none_right_eq_some, Option.some.injEq] at hstep
      obtain ⟨-, rfl⟩ := hstep
      rfl
  | _ => cases he

/-- What a step that does not call `__sched_setscheduler` does to the root domains. -/
inductive DomainsMove (h : Hooks) (s : State n) (e : Event n) : Domains n → Prop where
  | same (hexit : ∀ p, e ≠ .exit p) (hsame : e.rebuilds = false) : DomainsMove h s e s.domains
  | globals (c : Sysctl) (hexit : ∀ p, e ≠ .exit p) (hsame : e.rebuilds = false)
      (hpass : GlobalsPass (onSysctl s c)) :
      DomainsMove h s e (schedDlDoGlobal (onSysctl s (schedRtDoGlobal c))).domains
  | dead (p : TaskPtr) (he : e = .exit p) :
      DomainsMove h s e (finishDead h s.domains (s.tasks.task p))
  | down (cpu : Fin n) (frozen : Bool) (call : Partition n) (now : Bool) (d : Domains n)
      (he : e = .cpuDown cpu frozen call now)
      (hadmits : frozen = false → dlOverflows (dlBwOf (setCpuActive s.domains cpu false) cpu)
        (dlBwCpus (setCpuActive s.domains cpu false) cpu) 0 0 = false)
      (hrebuilt : Rebuilt h s.sysctl (setCpuActive s.domains cpu false) d) : DomainsMove h s e d
  | up (cpu : Fin n) (d : Domains n) (he : e.rebuilds = true)
      (hrebuilt : Rebuilt h s.sysctl (setCpuActive s.domains cpu true) d) : DomainsMove h s e d
  | partition (d : Domains n) (he : e.rebuilds = true)
      (hrebuilt : Rebuilt h s.sysctl s.domains d) : DomainsMove h s e d

theorem step_domains {s t : State n} {e : Event n} (hcall : e.call s = none)
    (hstep : step h s e = some t) : DomainsMove h s e t.domains := by
  cases e with
  | setattr | setscheduler => cases hcall
  | stopTask c cpu stop =>
      cases stop with
      | some p => cases hcall
      | none =>
          simp only [step, Option.ite_none_right_eq_some, Option.some.injEq] at hstep
          obtain ⟨-, rfl⟩ := hstep
          exact .same (by simp) rfl
  | fork parent child cpu mm kthread =>
      obtain ⟨-, -, -, -, r, -, rfl⟩ := fork_cases hstep
      exact .same (by simp) rfl
  | exit p =>
      obtain ⟨-, -, rfl⟩ := exit_cases hstep
      exact .dead p rfl
  | attach ps tg =>
      simp only [step, Option.ite_none_right_eq_some] at hstep
      obtain ⟨-, hstep⟩ := hstep
      split_ifs at hstep <;> cases hstep <;> exact .same (by simp) rfl
  | rtRuntime tg us =>
      rcases rtEvent_cases (Or.inl rfl) hstep with rfl | ⟨-, -, -, -, rfl⟩ <;>
        exact .same (by simp) rfl
  | rtPeriod tg us =>
      rcases rtEvent_cases (Or.inr rfl) hstep with rfl | ⟨-, -, -, -, rfl⟩ <;>
        exact .same (by simp) rfl
  | cfsQuota tg us | cfsPeriod tg us =>
      simp only [step, Option.ite_none_right_eq_some, Option.map_eq_some_iff] at hstep
      obtain ⟨-, r, -, rfl⟩ := hstep
      exact .same (by simp) rfl
  | rtHandler write ret period runtime =>
      simp only [step, Option.ite_none_right_eq_some, Option.map_eq_some_iff] at hstep
      obtain ⟨hfits, r, hr, rfl⟩ := hstep
      rcases schedRtHandler_cases hr hfits with heq | ⟨-, hpass, heq⟩ <;> rw [heq]
      · exact .same (by simp) rfl
      · exact .globals (s.sysctl.store period runtime) (by simp) rfl hpass
  | cpuDown cpu frozen call now =>
      simp only [step, Option.ite_none_right_eq_some, Option.some.injEq] at hstep
      obtain ⟨halloc, rfl⟩ := hstep
      rcases rebuilt_cpuDown (h := h) (c := s.sysctl) halloc cpu frozen now with
        ⟨hadmits, hrebuilt⟩ | hrebuilt
      · exact .down cpu frozen call now _ rfl hadmits hrebuilt
      · exact .up cpu _ rfl hrebuilt
  | cpuUp cpu frozen call now =>
      simp only [step, Option.ite_none_right_eq_some, Option.some.injEq] at hstep
      obtain ⟨halloc, rfl⟩ := hstep
      exact .up cpu _ rfl (rebuilt_cpuUp halloc cpu frozen now)
  | partition call =>
      simp only [step, Option.ite_none_right_eq_some, Option.some.injEq] at hstep
      obtain ⟨halloc, rfl⟩ := hstep
      exact .partition _ rfl (rebuilt_partition halloc)
  | normalize =>
      simp only [step, Option.some.injEq] at hstep
      subst hstep
      exact .same (by simp) rfl
  | nice | sysNice | setprio | migrate | affinity | online | offline =>
      simp only [step, Option.ite_none_right_eq_some, Option.some.injEq] at hstep
      obtain ⟨-, rfl⟩ := hstep
      exact .same (by simp) rfl

/-- Only calls of `__sched_setscheduler`, exits and rebuilds write an account. -/
theorem step_sameAccounts {s t : State n} {e : Event n} (hcall : e.call s = none)
    (hexit : ∀ p, e ≠ .exit p) (hsame : e.rebuilds = false) (hstep : step h s e = some t) :
    SameAccounts s.domains t.domains := by
  have hmove := step_domains hcall hstep
  generalize t.domains = d at hmove ⊢
  cases hmove with
  | same => exact ⟨rfl, fun _ => rfl⟩
  | globals c => exact sameAccounts_schedDlDoGlobal (onSysctl s (schedRtDoGlobal c))
  | dead p he => exact absurd he (hexit p)
  | down cpu frozen call now d he =>
      subst he
      cases hsame
  | up cpu d he | partition d he =>
      rw [hsame] at he
      cases he

theorem charge_sameAccounts {d d' : Domains n} (hsame : SameAccounts d d') (rd : RdPtr) :
    charge d' rd = charge (n := n) d rd := by
  funext t
  unfold charge
  rw [hsame.rd]

/-! ### What breaks an account -/

/-- What `deadline.c` promises: a dead task of its class gives its bandwidth back, and a new root
domain has admitted nothing and has a ratio for a limit, or none. -/
structure Hooks.KeepAccounts (h : Hooks) : Prop where
  taskDead : ∀ e b, h.taskDeadDl e b = dlClear b e.dlBw
  newTotal : ∀ c, (h.initDlBw c).totalBw = 0
  newBw : ∀ c, schedRtGlobalValidate c = 0 →
    (h.initDlBw c).bw = -1 ∨ (h.initDlBw c).bw.toNat ≤ 2 ^ 20

/-- SysRq meets no charged task, and no task dies in the deadline class with a bandwidth that it is not
charged for. -/
def Spares (s : State n) : Event n → Prop
  | .normalize => ∀ p ∈ s.tasks.threads, (s.tasks.task p).kthread = false →
      (s.tasks.task p).hasDlPolicy = true → (s.tasks.task p).dl.dlBw = 0
  | .exit p => (s.tasks.task p).schedClass = .dl → (s.tasks.task p).hasDlPolicy = false →
      (s.tasks.task p).dl.dlBw = 0
  | _ => True

/-- A step keeps the accounts. -/
structure KeepsCharges (s : State n) (e : Event n) (t : State n) : Prop where
  taken : ∀ p ∈ s.tasks.threads, ¬TakesUncharged (s.tasks.task p) (t.tasks.task p)
  moved : ∀ p ∈ s.tasks.threads, (s.tasks.task p).hasDlPolicy = true →
    (s.tasks.task p).dl.dlBw ≠ 0 →
      t.domains.rd (t.tasks.task p).cpu = s.domains.rd (s.tasks.task p).cpu
  spares : Spares s e

instance (t t' : Task n) : Decidable (TakesUncharged t t') := inferInstanceAs (Decidable (_ ∧ _))

instance (s : State n) : ∀ e, Decidable (Spares s e)
  | .normalize => inferInstanceAs (Decidable (∀ p ∈ s.tasks.threads, _))
  | .exit p => inferInstanceAs (Decidable ((s.tasks.task p).schedClass = .dl → _))
  | .setattr .. | .setscheduler .. | .nice .. | .sysNice .. | .setprio .. | .fork .. | .stopTask ..
  | .migrate .. | .affinity .. | .attach .. | .rtRuntime .. | .rtPeriod .. | .cfsQuota ..
  | .cfsPeriod .. | .online .. | .offline .. | .rtHandler .. | .cpuDown .. | .cpuUp ..
  | .partition .. => inferInstanceAs (Decidable True)

instance (s : State n) (e : Event n) (t : State n) : Decidable (KeepsCharges s e t) :=
  decidable_of_iff (_ ∧ _ ∧ _)
    ⟨fun ⟨htaken, hmoved, hspares⟩ => ⟨htaken, hmoved, hspares⟩,
      fun h => ⟨h.taken, h.moved, h.spares⟩⟩

theorem spares_of_ne {s : State n} {e : Event n} (hne : e ≠ .normalize) (hexit : ∀ p, e ≠ .exit p) :
    Spares s e := by
  cases e with
  | normalize => exact absurd rfl hne
  | exit p => exact absurd rfl (hexit p)
  | _ => trivial

theorem keepsCharges_of_policy {s t : State n} {e : Event n} (hne : e ≠ .normalize)
    (hexit : ∀ p, e ≠ .exit p)
    (hpolicy : ∀ p ∈ s.tasks.threads, (t.tasks.task p).policy = (s.tasks.task p).policy)
    (hmoved : ∀ p ∈ s.tasks.threads, (s.tasks.task p).hasDlPolicy = true →
      (s.tasks.task p).dl.dlBw ≠ 0 →
        t.domains.rd (t.tasks.task p).cpu = s.domains.rd (s.tasks.task p).cpu) :
    KeepsCharges s e t :=
  ⟨fun p hp => not_takesUncharged_of_policy (hpolicy p hp), hmoved, spares_of_ne hne hexit⟩

/-- A charged task that stays in its root domain is charged there. -/
theorem charge_of_place {d d' : Domains n} {t u : Task n} (hpolicy : u.policy = t.policy)
    (hdl : u.dl = t.dl)
    (hrd : t.hasDlPolicy = true → t.dl.dlBw ≠ 0 → d'.rd u.cpu = d.rd t.cpu) (rd : RdPtr) :
    charge d' rd u = charge d rd t := by
  unfold charge Task.hasDlPolicy
  rw [hpolicy, hdl]
  by_cases hcharged : t.hasDlPolicy = true ∧ t.dl.dlBw ≠ 0
  · rw [hrd hcharged.1 hcharged.2]
  · have hzero (hyes : t.hasDlPolicy = true) : t.dl.dlBw.toNat = 0 := by
      by_contra hne
      exact hcharged ⟨hyes, fun heq => hne (congrArg BitVec.toNat heq)⟩
    split_ifs with hx hold hold
    · rfl
    · exact hzero hx.1
    · exact (hzero hold.1).symm
    · rfl

/-- The accounts after a step that touches none of them. -/
theorem balanced_iff_dlSum {s t : State n} (hsame : SameAccounts s.domains t.domains)
    (hbalanced : Balanced s) :
    Balanced t ↔ ∀ rd, dlSum t.tasks s.domains rd = dlSum s.tasks s.domains rd := by
  refine forall_congr' fun rd => ?_
  rw [hsame.totalBw, hbalanced rd]
  unfold dlSum
  rw [charge_sameAccounts hsame]
  exact eq_comm

theorem balanced_normalize {s t : State n} (hts : s.tasks.Fit) (hbalanced : Balanced s)
    (hstep : step h s .normalize = some t) : Balanced t ↔ KeepsCharges s .normalize t := by
  have htask (p : TaskPtr) (hp : p ∈ s.tasks.threads) :
      t.tasks.task p = normalizeRtTask h (s.tasks.task p) := by
    simp only [step, Option.some.injEq] at hstep
    subst hstep
    exact (foldl_set_task (normalizeRtTask h) hts.nodup s.tasks p).trans (if_pos hp)
  have hthreads : t.tasks.threads = s.tasks.threads :=
    (step_sameThreads hstep (by simp) (by simp) (by simp)).threads
  have htaken : ∀ p ∈ s.tasks.threads, ¬TakesUncharged (s.tasks.task p) (t.tasks.task p) := by
    rintro p hp ⟨hno, hyes, -⟩
    rw [htask p hp, hasDlPolicy_normalizeRtTask hno] at hyes
    cases hyes
  have hcharge (rd : RdPtr) (p : TaskPtr) (hp : p ∈ s.tasks.threads) :
      charge s.domains rd (t.tasks.task p) =
        if (s.tasks.task p).kthread then charge s.domains rd (s.tasks.task p) else 0 := by
    rw [htask p hp, charge_normalizeRtTask (hts.fit hp)]
  have hdomains : t.domains = s.domains := by
    simp only [step, Option.some.injEq] at hstep
    exact hstep ▸ rfl
  rw [balanced_iff_dlSum (step_sameAccounts rfl (by simp) rfl hstep) hbalanced]
  have hsum (rd : RdPtr) : dlSum t.tasks s.domains rd = dlSum s.tasks s.domains rd ↔
      ∀ p ∈ s.tasks.threads, charge s.domains rd (t.tasks.task p) =
        charge s.domains rd (s.tasks.task p) := by
    unfold dlSum
    rw [hthreads]
    refine total_eq_iff_of_le fun p hp => ?_
    rw [hcharge rd p hp]
    split_ifs
    · exact le_refl _
    · exact Nat.zero_le _
  constructor
  · refine fun hall => ⟨htaken, fun p hp _ _ => ?_, fun p hp hk hdl => ?_⟩
    · rw [hdomains, htask p hp, normalizeRtTask_cpu]
    have heq := (hsum _).mp (hall (s.domains.rd (s.tasks.task p).cpu)) p hp
    rw [hcharge _ p hp, hk, if_neg Bool.false_ne_true, charge_self, hdl, if_pos rfl] at heq
    exact BitVec.eq_of_toNat_eq heq.symm
  · refine fun hkeeps rd => (hsum rd).mpr fun p hp => ?_
    rw [hcharge rd p hp]
    by_cases hk : (s.tasks.task p).kthread = true
    · rw [if_pos hk]
    · rw [if_neg hk]
      unfold charge
      split_ifs with hin
      · rw [hkeeps.spares p hp (Bool.eq_false_iff.mpr hk) hin.1]
        rfl
      · rfl

/-- A step that calls `__sched_setscheduler`: what the call leaves, up to the classes of stop tasks. -/
structure Calls (h : Hooks) (s : State n) (e : Event n) (t : State n) (p : TaskPtr) (u : State n) :
    Prop where
  mem : p ∈ s.tasks.threads
  domains : t.domains = u.domains
  threads : t.tasks.threads = u.tasks.threads
  task : ∀ q, t.tasks.task q = e.reclass s q (u.tasks.task q)

theorem step_call {s t : State n} {e : Event n} {c : Caller} {p : TaskPtr} {attr : SchedAttr}
    {user : Bool} (hcall : e.call s = some (c, p, attr, user)) (hstep : step h s e = some t) :
    setparamPolicy ≤ attr.schedPolicy ∧ Calls h s e t p (innerSetscheduler h c s p attr user).2 := by
  cases e with
  | setattr c' q attr' user' =>
      cases hcall
      simp only [step, Option.ite_none_right_eq_some, Option.some.injEq] at hstep
      obtain ⟨⟨hp, -, hpolicy, -⟩, rfl⟩ := hstep
      exact ⟨hpolicy, hp, rfl, rfl, fun _ => rfl⟩
  | setscheduler c' q policy priority check =>
      cases hcall
      simp only [step, Option.ite_none_right_eq_some, Option.some.injEq, Caller.boosts_iff] at hstep
      obtain ⟨⟨hp, hboosts, hpolicy⟩, rfl⟩ := hstep
      exact ⟨(promised_paramAttr priority hboosts hpolicy).policy, hp, rfl, rfl, fun _ => rfl⟩
  | stopTask c' cpu stop =>
      cases stop with
      | none => cases hcall
      | some q =>
          cases hcall
          obtain ⟨⟨hp, -⟩, -, -, -, hwaiter⟩ := stopTask_guard hstep
          have ht : t = schedSetStopTask h c s cpu (some p) := by
            simp only [step, Option.ite_none_right_eq_some, Option.some.injEq] at hstep
            exact hstep.2.symm
          refine ⟨(promised_paramAttr (c := c) (t := s.tasks.task p) 99 (by simp [hwaiter])
            (by decide)).policy, hp, ht ▸ rfl, ?_, fun r => ?_⟩
          · rw [ht]
            exact (Tasks.setClass_sameThreads _ _ _).threads
          · rw [ht]
            exact schedSetStopTask_task c s cpu (some p) r
  | _ => cases hcall

/-- The account after a step that calls `__sched_setscheduler`. -/
theorem balanced_call {s t : State n} {e : Event n} {c : Caller} {p : TaskPtr} {attr : SchedAttr}
    {user : Bool} (hts : s.tasks.Fit) (hbalanced : Balanced s)
    (hcall : e.call s = some (c, p, attr, user)) (hstep : step h s e = some t) :
    Balanced t ↔ KeepsCharges s e t := by
  obtain ⟨hpolicy, hp, hdomains, hthreads, htask⟩ := step_call hcall hstep
  have hne : e ≠ .normalize := by
    rintro rfl
    cases hcall
  have hother (q : TaskPtr) (hq : q ≠ p) :
      (innerSetscheduler h c s p attr user).2.tasks.task q = s.tasks.task q := by
    rcases innerSetscheduler_cases (h := h) c s p attr user with
      ⟨-, hs⟩ | ⟨-, -, hs⟩ | ⟨-, -, b, -, hs⟩ <;> rw [hs]
    · exact (Tasks.set_task _ _ _ _).trans (if_neg hq)
    · exact (Tasks.set_task _ _ _ _).trans (if_neg hq)
  have hbalanced' : Balanced t ↔ Balanced (innerSetscheduler h c s p attr user).2 := by
    refine forall_congr' fun rd => ?_
    rw [hdomains]
    unfold dlSum
    rw [hthreads, total_congr fun q _ => ?_]
    rw [htask]
    exact (charge_reclass _ rd e s q _).2.1
  have htaken (q : TaskPtr) : TakesUncharged (s.tasks.task q) (t.tasks.task q) ↔
      TakesUncharged (s.tasks.task q) ((innerSetscheduler h c s p attr user).2.tasks.task q) := by
    obtain ⟨hpol, -, hdl, -⟩ := charge_reclass s.domains 0 e s q
      ((innerSetscheduler h c s p attr user).2.tasks.task q)
    unfold TakesUncharged Task.hasDlPolicy
    rw [htask, hpol, hdl]
  have hcpu (q : TaskPtr) : (t.tasks.task q).cpu = (s.tasks.task q).cpu := by
    rw [htask, (charge_reclass s.domains 0 e s q _).2.2.2]
    rcases innerSetscheduler_cases (h := h) c s p attr user with
      ⟨-, hs⟩ | ⟨-, -, hs⟩ | ⟨-, -, b, -, hs⟩ <;> rw [hs]
    · by_cases hqp : q = p <;> simp [onTasks, Tasks.set_task, hqp]
    · by_cases hqp : q = p
      · subst hqp
        dsimp only
        rw [Tasks.set_task_self]
        exact (commitTask_bw hpolicy).2.1
      · exact congrArg Task.cpu ((Tasks.set_task _ _ _ _).trans (if_neg hqp))
  have hrd : t.domains.rd = s.domains.rd := by
    rw [hdomains]
    rcases innerSetscheduler_cases (h := h) c s p attr user with
      ⟨-, hs⟩ | ⟨-, -, hs⟩ | ⟨-, -, b, -, hs⟩ <;> rw [hs] <;> rfl
  rw [hbalanced', balanced_innerSetscheduler hts hp hpolicy hbalanced]
  refine ⟨fun hnot => ⟨fun q _ => ?_, fun q _ _ _ => ?_, spares_of_ne hne fun q he => ?_⟩,
    fun hkeeps => ?_⟩
  · rw [htaken]
    by_cases hqp : q = p
    · subst hqp
      exact hnot
    · exact not_takesUncharged_of_policy (congrArg Task.policy (hother q hqp))
  · rw [hrd, hcpu]
  · rw [he] at hcall
    cases hcall
  · rw [← htaken]
    exact hkeeps.taken p hp

/-- A task that moves takes its charge along. -/
theorem balanced_migrate {s t : State n} {p : TaskPtr} {cpu : Fin n} (hts : s.tasks.Fit)
    (hbalanced : Balanced s) (hstep : step h s (.migrate p cpu) = some t) :
    Balanced t ↔ KeepsCharges s (.migrate p cpu) t := by
  have hsame := step_sameAccounts (e := .migrate p cpu) rfl (by simp) rfl hstep
  simp only [step, Option.ite_none_right_eq_some, Option.some.injEq, ordinary_iff] at hstep
  obtain ⟨⟨hp, -⟩, rfl⟩ := hstep
  let x : Task n := { s.tasks.task p with cpu := cpu }
  have hself : (s.tasks.set p x).task p = x := Tasks.set_task_self s.tasks p x
  have hother {q : TaskPtr} (hq : q ≠ p) : (s.tasks.set p x).task q = s.tasks.task q :=
    (Tasks.set_task s.tasks p q x).trans (if_neg hq)
  rw [balanced_iff_dlSum hsame hbalanced]
  constructor
  · refine fun hall => keepsCharges_of_policy (by simp) (by simp) (fun q _ => ?_) fun q hq hdl hbw => ?_
    · show ((s.tasks.set p x).task q).policy = _
      by_cases hqp : q = p
      · subst hqp
        rw [hself]
      · rw [hother hqp]
    · show s.domains.rd ((s.tasks.set p x).task q).cpu = _
      by_cases hqp : q = p
      swap
      · rw [hother hqp]
      subst hqp
      rw [hself]
      -- The domain that the task comes from has one charge less.
      have hsum := dlSum_set hts.nodup hp s.domains (s.domains.rd (s.tasks.task q).cpu) x
      have heq := hall (s.domains.rd (s.tasks.task q).cpu)
      change dlSum (s.tasks.set q x) _ _ = _ at heq
      rw [heq, charge_self, hdl, if_pos rfl, Nat.add_left_cancel_iff] at hsum
      by_contra hne
      have hzero : charge s.domains (s.domains.rd (s.tasks.task q).cpu) x = 0 :=
        if_neg fun hin => hne hin.2
      exact hbw (BitVec.eq_of_toNat_eq (hsum.trans hzero))
  · intro hkeeps rd
    have hsum := dlSum_set hts.nodup hp s.domains rd x
    have hmoved := hkeeps.moved p hp
    change _ → _ → s.domains.rd ((s.tasks.set p x).task p).cpu = _ at hmoved
    rw [hself] at hmoved
    have hcharge : charge s.domains rd x = charge s.domains rd (s.tasks.task p) :=
      charge_of_place (t := s.tasks.task p) (u := x) rfl rfl hmoved rd
    rw [hcharge] at hsum
    exact Nat.add_right_cancel hsum

theorem finishDead_rd (d : Domains n) (t : Task n) : (finishDead h d t).rd = d.rd := by
  unfold finishDead
  split_ifs <;> rfl

/-- A task of the deadline class gives its bandwidth back to its root domain. -/
theorem finishDead_dlBw (hacc : h.KeepAccounts) (d : Domains n) {t : Task n} (hdead : t.schedClass = .dl)
    (rd : RdPtr) : (finishDead h d t).dlBw rd =
      if rd = d.rd t.cpu then dlClear (d.dlBw (d.rd t.cpu)) t.dl.dlBw else d.dlBw rd := by
  unfold finishDead
  rw [if_pos hdead, hacc.taskDead]
  exact Function.update_apply _ _ _ _

/-- Without a thread, the accounts are right when they are less by its charge. -/
theorem balanced_without {s : State n} {p : TaskPtr} (hp : p ∈ s.tasks.threads)
    (hbalanced : Balanced s) {d : Domains n} (hrd : d.rd = s.domains.rd) :
    Balanced { s with
      domains := d
      tasks := { s.tasks with threads := s.tasks.threads.erase p } } ↔
      ∀ rd, (d.dlBw rd).totalBw.toNat + charge s.domains rd (s.tasks.task p) =
        (s.domains.dlBw rd).totalBw.toNat := by
  refine forall_congr' fun rd => ?_
  have hrest : dlSum { s.tasks with threads := s.tasks.threads.erase p } d rd =
      total (charge s.domains rd) s.tasks.task (s.tasks.threads.erase p) := by
    refine total_congr fun q _ => ?_
    unfold charge
    rw [hrd]
  have hsum := total_erase (charge s.domains rd) s.tasks.task hp
  have hbefore := hbalanced rd
  unfold dlSum at hbefore
  show (d.dlBw rd).totalBw.toNat = dlSum _ d rd ↔ _
  rw [hrest]
  omega

/-- A task that dies outside the deadline class is not charged, and one of the class gives back what it is
charged for, or a bandwidth that it is not charged for. -/
theorem balanced_dead {s : State n} {p : TaskPtr} (hacc : h.KeepAccounts) (hp : p ∈ s.tasks.threads)
    (hbalanced : Balanced s)
    (hclass : (s.tasks.task p).hasDlPolicy = true → (s.tasks.task p).schedClass = .dl) :
    (∀ rd, ((finishDead h s.domains (s.tasks.task p)).dlBw rd).totalBw.toNat +
        charge s.domains rd (s.tasks.task p) = (s.domains.dlBw rd).totalBw.toNat) ↔
      ((s.tasks.task p).schedClass = .dl → (s.tasks.task p).hasDlPolicy = false →
        (s.tasks.task p).dl.dlBw = 0) := by
  by_cases hdead : (s.tasks.task p).schedClass = .dl
  swap
  · have hno : (s.tasks.task p).hasDlPolicy = false := Bool.eq_false_iff.mpr fun hdl => hdead (hclass hdl)
    refine iff_of_true (fun rd => ?_) fun hdl => absurd hdl hdead
    have hzero : charge s.domains rd (s.tasks.task p) = 0 :=
      if_neg fun hin => Bool.false_ne_true (hno.symm.trans hin.1)
    unfold finishDead
    rw [hzero, if_neg hdead, Nat.add_zero]
  let rd₀ := s.domains.rd (s.tasks.task p).cpu
  have hcharge : charge s.domains rd₀ (s.tasks.task p) =
      if (s.tasks.task p).hasDlPolicy then (s.tasks.task p).dl.dlBw.toNat else 0 := charge_self _ _
  have hiff : (∀ rd, ((finishDead h s.domains (s.tasks.task p)).dlBw rd).totalBw.toNat +
      charge s.domains rd (s.tasks.task p) = (s.domains.dlBw rd).totalBw.toNat) ↔
      (dlClear (s.domains.dlBw rd₀) (s.tasks.task p).dl.dlBw).totalBw.toNat +
        charge s.domains rd₀ (s.tasks.task p) = (s.domains.dlBw rd₀).totalBw.toNat := by
    constructor
    · intro hall
      have hrd₀ := hall rd₀
      rwa [finishDead_dlBw hacc _ hdead, if_pos rfl] at hrd₀
    · intro heq rd
      rw [finishDead_dlBw hacc _ hdead]
      by_cases hrd : rd = rd₀
      · subst hrd
        rw [if_pos rfl]
        exact heq
      · have hother : charge s.domains rd (s.tasks.task p) = 0 := if_neg fun hin => hrd hin.2.symm
        rw [if_neg hrd, hother, Nat.add_zero]
  rw [hiff, hcharge]
  cases hpolicy : (s.tasks.task p).hasDlPolicy with
  | true =>
      have hle := le_total (charge s.domains rd₀) s.tasks.task hp
      rw [hcharge, hpolicy, if_pos rfl] at hle
      have hle : (s.tasks.task p).dl.dlBw.toNat ≤ (s.domains.dlBw rd₀).totalBw.toNat :=
        hle.trans (hbalanced rd₀).symm.le
      refine iff_of_true ?_ fun _ hno => Bool.noConfusion hno
      rw [if_pos rfl, toNat_dlClear hle]
      exact Nat.sub_add_cancel hle
  | false =>
      rw [if_neg Bool.false_ne_true, Nat.add_zero, BitVec.toNat_inj]
      unfold dlClear
      simp only [hdead, forall_const]
      constructor
      · intro heq
        bv_omega
      · intro hzero
        rw [hzero]
        exact BitVec.sub_zero _

/-- The end of a task. -/
theorem balanced_exit {s t : State n} {p : TaskPtr} (hacc : h.KeepAccounts) (hts : s.tasks.Fit)
    (hbalanced : Balanced s) (hstep : step h s (.exit p) = some t) :
    Balanced t ↔ KeepsCharges s (.exit p) t := by
  obtain ⟨hp, hnamed, rfl⟩ := exit_cases hstep
  have hready := hts.ready p hp fun cpu => (named_eq_false.mp hnamed cpu).1
  have hclass : (s.tasks.task p).hasDlPolicy = true → (s.tasks.task p).schedClass = .dl := by
    intro hdl
    rw [hready.classOf]
    exact if_pos (hready.dlTask hdl)
  have hrd := finishDead_rd (h := h) s.domains (s.tasks.task p)
  rw [balanced_without hp hbalanced hrd, balanced_dead hacc hp hbalanced hclass]
  refine ⟨fun hdead => ⟨fun q _ => ?_, fun q _ _ _ => ?_, hdead⟩, fun hkeeps => hkeeps.spares⟩
  · exact not_takesUncharged_of_policy rfl
  · show (finishDead h s.domains (s.tasks.task p)).rd _ = _
    rw [hrd]

/-- If a rebuild leaves the accounts right, no charged task is in a new domain, whose account is 0. -/
theorem stays_or_default {s : State n} {c : Sysctl} {d₀ d : Domains n} {p : TaskPtr}
    (hacc : h.KeepAccounts) (hrebuilt : Rebuilt h c d₀ d) (hrd : d₀.rd = s.domains.rd)
    (hafter : Balanced (onDomains s d)) (hp : p ∈ s.tasks.threads)
    (hdl : (s.tasks.task p).hasDlPolicy = true) (hne : (s.tasks.task p).dl.dlBw.toNat ≠ 0) :
    d.rd (s.tasks.task p).cpu = s.domains.rd (s.tasks.task p).cpu ∨
      d.rd (s.tasks.task p).cpu = defRootDomain := by
  have hcpu := hrebuilt.rd (s.tasks.task p).cpu
  rw [hrd] at hcpu
  rcases hcpu with hsame | hdef | ⟨-, hnew⟩
  · exact Or.inl hsame
  · exact Or.inr hdef
  · have hzero : (d.dlBw (d.rd (s.tasks.task p).cpu)).totalBw.toNat = 0 := by
      rw [hnew, hacc.newTotal]
      rfl
    have hsum : 0 = dlSum s.tasks d (d.rd (s.tasks.task p).cpu) :=
      hzero.symm.trans (hafter (d.rd (s.tasks.task p).cpu))
    have hle := le_total (charge d (d.rd (s.tasks.task p).cpu)) s.tasks.task hp
    rw [charge_self, hdl, if_pos rfl] at hle
    exact absurd (Nat.le_zero.mp (hle.trans hsum.symm.le)) hne

/-- None has come to `def_root_domain` either, whose account is as before. -/
theorem stays_of_balanced_rebuilt {s : State n} {c : Sysctl} {d₀ d : Domains n} {p : TaskPtr}
    (hacc : h.KeepAccounts) (hbalanced : Balanced s) (hrebuilt : Rebuilt h c d₀ d)
    (hrd : d₀.rd = s.domains.rd) (hdlBw : d₀.dlBw = s.domains.dlBw)
    (hafter : Balanced (onDomains s d)) (hp : p ∈ s.tasks.threads)
    (hdl : (s.tasks.task p).hasDlPolicy = true) (hne : (s.tasks.task p).dl.dlBw.toNat ≠ 0) :
    d.rd (s.tasks.task p).cpu = s.domains.rd (s.tasks.task p).cpu := by
  refine (stays_or_default hacc hrebuilt hrd hafter hp hdl hne).elim id fun hdef => ?_
  by_contra hmoved
  rw [hdef] at hmoved
  have hsame : d.dlBw defRootDomain = s.domains.dlBw defRootDomain := by
    rw [← hdlBw]
    exact (hrebuilt.dlBw defRootDomain).resolve_right fun hnew => hnew.1.1 rfl
  have hle (q : TaskPtr) (hq : q ∈ s.tasks.threads) :
      charge s.domains defRootDomain (s.tasks.task q) ≤ charge d defRootDomain (s.tasks.task q) := by
    unfold charge
    split_ifs with hin hin' hin'
    · exact le_refl _
    · by_cases hqne : (s.tasks.task q).dl.dlBw.toNat = 0
      · exact hqne.le
      · have hq' := stays_or_default hacc hrebuilt hrd hafter hq hin.1 hqne
        exact absurd ⟨hin.1, hq'.elim (fun hsame => hsame.trans hin.2) id⟩ hin'
    · exact Nat.zero_le _
    · exact le_refl _
  have hsums : dlSum s.tasks s.domains defRootDomain = dlSum s.tasks d defRootDomain := by
    rw [← hbalanced, ← hsame]
    exact hafter defRootDomain
  have hcharge := (total_eq_iff_of_le hle).mp hsums p hp
  have hnot : charge s.domains defRootDomain (s.tasks.task p) = 0 :=
    if_neg fun hin => hmoved hin.2.symm
  have hyes : charge d defRootDomain (s.tasks.task p) = (s.tasks.task p).dl.dlBw.toNat :=
    if_pos ⟨hdl, hdef⟩
  exact hne (hyes.symm.trans (hcharge.symm.trans hnot))

/-- A rebuild moves CPUs: it keeps the accounts exactly when it moves none with a charged task. -/
theorem balanced_rebuilt {s : State n} {c : Sysctl} {d₀ d : Domains n} (hacc : h.KeepAccounts)
    (hbalanced : Balanced s) (hrebuilt : Rebuilt h c d₀ d) (hrd : d₀.rd = s.domains.rd)
    (hdlBw : d₀.dlBw = s.domains.dlBw) :
    Balanced (onDomains s d) ↔ ∀ p ∈ s.tasks.threads, (s.tasks.task p).hasDlPolicy = true →
      (s.tasks.task p).dl.dlBw ≠ 0 →
        d.rd (s.tasks.task p).cpu = s.domains.rd (s.tasks.task p).cpu := by
  constructor
  · intro hafter p hp hdl hne
    have hpos : (s.tasks.task p).dl.dlBw.toNat ≠ 0 := fun hzero => hne (BitVec.eq_of_toNat_eq hzero)
    exact stays_of_balanced_rebuilt hacc hbalanced hrebuilt hrd hdlBw hafter hp hdl hpos
  · intro hmoved rd
    have hcharge (p : TaskPtr) (hp : p ∈ s.tasks.threads) :
        charge d rd (s.tasks.task p) = charge s.domains rd (s.tasks.task p) :=
      charge_of_place rfl rfl (hmoved p hp) rd
    have hsums : dlSum s.tasks d rd = dlSum s.tasks s.domains rd := total_congr hcharge
    show (d.dlBw rd).totalBw.toNat = dlSum s.tasks d rd
    rw [hsums]
    have hbw := hrebuilt.dlBw rd
    unfold Unused at hbw
    rw [hdlBw, hrd] at hbw
    rcases hbw with hsame | ⟨⟨-, hempty⟩, hnew⟩
    · rw [hsame]
      exact hbalanced rd
    · have hzero (p : TaskPtr) (_ : p ∈ s.tasks.threads) :
          charge s.domains rd (s.tasks.task p) ≤ 0 :=
        (if_neg fun hin => hempty _ hin.2 : charge s.domains rd (s.tasks.task p) = 0).le
      have hsum : dlSum s.tasks s.domains rd ≤ s.tasks.threads.length * 0 := total_le hzero
      rw [hnew, hacc.newTotal]
      show 0 = dlSum s.tasks s.domains rd
      omega

theorem balanced_rebuilds {s t : State n} {e : Event n} (hacc : h.KeepAccounts)
    (hbalanced : Balanced s) (hcall : e.call s = none) (he : e.rebuilds = true)
    (hstep : step h s e = some t) : Balanced t ↔ KeepsCharges s e t := by
  have hne : e ≠ .normalize ∧ ∀ p, e ≠ .exit p := by
    refine ⟨?_, fun p => ?_⟩ <;> rintro rfl <;> cases he
  have ht := step_rebuilds he hstep
  have hmove := step_domains hcall hstep
  generalize t.domains = d at hmove ht
  subst ht
  have hiff : Balanced (onDomains s d) ↔ ∀ p ∈ s.tasks.threads,
      (s.tasks.task p).hasDlPolicy = true → (s.tasks.task p).dl.dlBw ≠ 0 →
        d.rd (s.tasks.task p).cpu = s.domains.rd (s.tasks.task p).cpu := by
    cases hmove with
    | same hexit hsame | globals c hexit hsame =>
        rw [he] at hsame
        cases hsame
    | dead p hdead => exact absurd hdead (hne.2 p)
    | down cpu frozen call now d hdown hadmits hrebuilt =>
        exact balanced_rebuilt hacc hbalanced hrebuilt rfl rfl
    | up cpu d hup hrebuilt => exact balanced_rebuilt hacc hbalanced hrebuilt rfl rfl
    | partition d hpart hrebuilt => exact balanced_rebuilt hacc hbalanced hrebuilt rfl rfl
  rw [hiff]
  exact ⟨fun hmoved => keepsCharges_of_policy hne.1 hne.2 (fun _ _ => rfl) hmoved,
    fun hkeeps => hkeeps.moved⟩

/-- The other steps touch no account and move no charge. -/
theorem balanced_quiet {s t : State n} {e : Event n} (hts : s.tasks.Fit) (hbalanced : Balanced s)
    (hcall : e.call s = none) (hne : e ≠ .normalize) (hexit : ∀ p, e ≠ .exit p)
    (hmigrate : ∀ p cpu, e ≠ .migrate p cpu) (hsame : e.rebuilds = false)
    (hstep : step h s e = some t) : Balanced t ∧ KeepsCharges s e t := by
  have hsame := step_sameAccounts hcall hexit hsame hstep
  have hmove (p : TaskPtr) (hp : p ∈ s.tasks.threads) :
      (t.tasks.task p).policy = (s.tasks.task p).policy ∧
        ∀ rd, charge s.domains rd (t.tasks.task p) = charge s.domains rd (s.tasks.task p) := by
    obtain ⟨x, hx, htask⟩ := step_thread hts.nodup hstep hp
    have hkeep := charge_move (hts.fit hp) hcall hne hmigrate hx
    have hre := fun rd => charge_reclass s.domains rd e s p x
    rw [htask]
    exact ⟨(hre 0).1.trans (hkeep 0).1, fun rd => (hre rd).2.1.trans (hkeep rd).2⟩
  -- A charge that stays in its domain belongs to a task that does.
  have hmoved (p : TaskPtr) (hp : p ∈ s.tasks.threads)
      (hdl : (s.tasks.task p).hasDlPolicy = true) (hbw : (s.tasks.task p).dl.dlBw ≠ 0) :
      t.domains.rd (t.tasks.task p).cpu = s.domains.rd (s.tasks.task p).cpu := by
    have hcharge := (hmove p hp).2 (s.domains.rd (s.tasks.task p).cpu)
    rw [charge_self, hdl, if_pos rfl] at hcharge
    rw [hsame.rd]
    by_contra hmoved
    have hzero : charge s.domains (s.domains.rd (s.tasks.task p).cpu) (t.tasks.task p) = 0 :=
      if_neg fun hin => hmoved hin.2
    exact hbw (BitVec.eq_of_toNat_eq (hcharge.symm.trans hzero))
  refine ⟨?_, keepsCharges_of_policy hne hexit (fun p hp => (hmove p hp).1) hmoved⟩
  rw [balanced_iff_dlSum hsame hbalanced]
  intro rd
  have hsum : total (charge s.domains rd) t.tasks.task s.tasks.threads =
      dlSum s.tasks s.domains rd := total_congr fun p hp => (hmove p hp).2 rd
  by_cases hfork : ∃ parent child cpu mm kthread, e = .fork parent child cpu mm kthread
  · obtain ⟨parent, child, cpu, mm, kthread, rfl⟩ := hfork
    obtain ⟨hparent, hchild, -, -, r, hr, rfl⟩ := fork_cases hstep
    obtain ⟨-, hdl⟩ := ready_schedFork (hts.fit hparent) hr
    have hzero : charge s.domains rd r = 0 :=
      if_neg fun hin => Bool.false_ne_true (hdl.symm.trans hin.1)
    refine (total_open (charge s.domains rd) s.tasks.task hchild r).trans ?_
    rw [hzero, Nat.zero_add]
    rfl
  have hthreads : t.tasks.threads = s.tasks.threads := by
    push Not at hfork
    by_cases hstop : ∃ c cpu stop, e = .stopTask c cpu stop
    · obtain ⟨c, cpu, stop, rfl⟩ := hstop
      exact (stopTask_cases hstep).1
    · push Not at hstop
      exact (step_sameThreads hstep hfork hexit hstop).threads
  unfold dlSum
  rw [hthreads]
  exact hsum

/-- One step from a state with right accounts. -/
theorem balanced_step {s t : State n} {e : Event n} (hacc : h.KeepAccounts) (hts : s.tasks.Fit)
    (hbalanced : Balanced s) (hstep : step h s e = some t) : Balanced t ↔ KeepsCharges s e t := by
  cases hcall : e.call s with
  | some r => exact balanced_call hts hbalanced hcall hstep
  | none =>
      by_cases hne : e = .normalize
      · subst hne
        exact balanced_normalize hts hbalanced hstep
      by_cases hexit : ∃ p, e = .exit p
      · obtain ⟨p, rfl⟩ := hexit
        exact balanced_exit hacc hts hbalanced hstep
      by_cases hmigrate : ∃ p cpu, e = .migrate p cpu
      · obtain ⟨p, cpu, rfl⟩ := hmigrate
        exact balanced_migrate hts hbalanced hstep
      by_cases hrebuilds : e.rebuilds = true
      · exact balanced_rebuilds hacc hbalanced hcall hrebuilds hstep
      rw [Bool.not_eq_true] at hrebuilds
      push Not at hexit hmigrate
      obtain ⟨hafter, hkeeps⟩ := balanced_quiet hts hbalanced hcall hne hexit hmigrate hrebuilds hstep
      exact iff_of_true hafter hkeeps

/-! ### Whole runs -/

theorem boot_balanced (cpu : Fin n) : Balanced (boot n cpu) := fun _ => rfl

theorem bootHooks_keepAccounts : bootHooks.KeepAccounts := by
  refine ⟨fun _ _ => rfl, fun _ => rfl, fun c hvalid => ?_⟩
  have hbw : (bootHooks.initDlBw c).bw =
      if globalRtRuntime c ≠ runtimeInf then toRatio (globalRtPeriod c) (globalRtRuntime c)
      else -1 := rfl
  rw [hbw]
  split_ifs
  · exact Or.inr (toRatio_globals_le hvalid)
  · exact Or.inl rfl

/-- A deadline task that leaves the policy while it is boosted and comes back is not charged. -/
example :
    let boosted := { superuser with topPiWaiter := some (-1) }
    ¬Each (step bootHooks) KeepsCharges (boot 2 0)
      [.setattr superuser 0 (dlRequest 10000000 30000000) true, .setprio 0 (-1) true,
        .setscheduler boosted 0 0 0 true,
        .setattr boosted 0 (dlRequest 10000000 30000000) true] := by decide

/-- A new partition forgets a deadline task. -/
example :
    ¬Each (step bootHooks) KeepsCharges (boot 2 0)
      [.setattr superuser 0 (dlRequest 10000000 30000000) true,
        .partition (onePartition [some 1])] := by decide

end Lkm.Core
