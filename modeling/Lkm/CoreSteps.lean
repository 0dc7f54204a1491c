import Lkm.CoreMachine

/-! What the functions and the steps of the control plane can do: an inversion lemma for
`__sched_setscheduler`, and for a step the list of what may become of the record of one thread. The
invariants are read from these. -/

namespace Lkm.Core

variable {n : Nat} {h : Hooks}

theorem neg_einval_ne : -einval ≠ 0 := by decide
theorem neg_eperm_ne : -eperm ≠ 0 := by decide
theorem neg_ebusy_ne : -ebusy ≠ 0 := by decide

/-! ### Updates of one task -/

@[simp] theorem Tasks.set_task_self (ts : Tasks n) (p : TaskPtr) (t : Task n) :
    (ts.set p t).task p = t := Function.update_self _ _ _

theorem Tasks.set_task (ts : Tasks n) (p q : TaskPtr) (t : Task n) :
    (ts.set p t).task q = if q = p then t else ts.task q := Function.update_apply _ _ _ _

@[simp] theorem Tasks.set_threads (ts : Tasks n) (p : TaskPtr) (t : Task n) :
    (ts.set p t).threads = ts.threads := rfl

@[simp] theorem Tasks.set_stop (ts : Tasks n) (p : TaskPtr) (t : Task n) :
    (ts.set p t).stop = ts.stop := rfl

@[simp] theorem Tasks.set_idle (ts : Tasks n) (p : TaskPtr) (t : Task n) :
    (ts.set p t).idle = ts.idle := rfl

@[simp] theorem Domains.setDlBw_self (d : Domains n) (rd : RdPtr) : d.setDlBw rd (d.dlBw rd) = d := by
  unfold Domains.setDlBw
  rw [Function.update_eq_self]

@[simp] theorem Domains.setDlBw_rd (d : Domains n) (rd : RdPtr) (b : DlBw) :
    (d.setDlBw rd b).rd = d.rd := rfl

@[simp] theorem Domains.setDlBw_active (d : Domains n) (rd : RdPtr) (b : DlBw) :
    (d.setDlBw rd b).active = d.active := rfl

/-- A loop that rewrites the records of a list of tasks, each once. -/
theorem foldl_set_task (f : Task n → Task n) {ps : List TaskPtr} (hnodup : ps.Nodup) (ts : Tasks n)
    (q : TaskPtr) :
    (ps.foldl (fun ts p => ts.set p (f (ts.task p))) ts).task q =
      if q ∈ ps then f (ts.task q) else ts.task q := by
  induction ps generalizing ts with
  | nil => rfl
  | cons p ps ih =>
      obtain ⟨hp, hps⟩ := List.nodup_cons.mp hnodup
      rw [List.foldl_cons, ih hps, Tasks.set_task]
      by_cases hq : q = p
      · subst hq
        simp [hp]
      · simp [hq]

/-- The same where doing it twice changes nothing. -/
theorem foldl_set_task_of_idem {f : Task n → Task n} (hf : ∀ t, f (f t) = f t) (ps : List TaskPtr)
    (ts : Tasks n) (q : TaskPtr) :
    (ps.foldl (fun ts p => ts.set p (f (ts.task p))) ts).task q =
      if q ∈ ps then f (ts.task q) else ts.task q := by
  induction ps generalizing ts with
  | nil => rfl
  | cons p ps ih =>
      rw [List.foldl_cons, ih, Tasks.set_task]
      by_cases hq : q = p
      · subst hq
        simp [hf]
      · simp [hq]

/-! ### Setting the policy -/

/-- The checks that a call has passed when it changes the task. -/
structure Permits (c : Caller) (s : State n) (p : TaskPtr) (attr : SchedAttr) (user : Bool) :
    Prop where
  valid : validAttr (s.tasks.task p) attr = true
  may : user = true → c.capSysNice = false → unprivilegedMay c (s.tasks.task p) attr = true
  notStop : s.tasks.stop (s.tasks.task p).cpu ≠ some p

/-- The charge of an admitted call to the bandwidth of the root domain. -/
def Charges (s : State n) (p : TaskPtr) (attr : SchedAttr) (b : DlBw) : Prop :=
  let t := s.tasks.task p
  let policy := attr.policyFor t
  let b₀ := dlBwOf s.domains t.cpu
  if dlPolicy policy || t.dlTask then
    dlOverflow t b₀ (dlBwCpus s.domains t.cpu) policy attr = (0, b)
  else b = b₀

theorem dlOverflow_of_ne_zero {t : Task n} {b : DlBw} {cpus : Nat} {policy : Int} {attr : SchedAttr}
    (herr : (dlOverflow t b cpus policy attr).1 ≠ 0) : (dlOverflow t b cpus policy attr).2 = b := by
  unfold dlOverflow at herr ⊢
  dsimp only at herr ⊢
  split_ifs at herr ⊢ <;> first | rfl | exact absurd rfl herr

/-- A call fails and leaves the state as it was, or it only stores `sched_reset_on_fork`, or it
changes the task and charges its root domain. -/
theorem innerSetscheduler_cases (c : Caller) (s : State n) (p : TaskPtr) (attr : SchedAttr)
    (user : Bool) :
    ((innerSetscheduler h c s p attr user).1 ≠ 0 ∧ (innerSetscheduler h c s p attr user).2 = s) ∨
    (Permits c s p attr user ∧ changes (s.tasks.task p) attr = false ∧
      innerSetscheduler h c s p attr user =
        (0, onTasks s (s.tasks.set p { s.tasks.task p with
          schedResetOnFork := attr.resetOnForkFor (s.tasks.task p) }))) ∨
    (Permits c s p attr user ∧
      (user = true → userMayRun s (s.tasks.task p) (attr.policyFor (s.tasks.task p)) = true) ∧
      ∃ b, Charges s p attr b ∧
        innerSetscheduler h c s p attr user =
          (0, { s with
            domains := s.domains.setDlBw (s.domains.rd (s.tasks.task p).cpu) b
            tasks := s.tasks.set p (commitTask h c (s.tasks.task p) attr) })) := by
  unfold innerSetscheduler
  dsimp only
  by_cases hvalid : validAttr (s.tasks.task p) attr = true
  swap
  · rw [if_pos hvalid]
    exact Or.inl ⟨neg_einval_ne, rfl⟩
  rw [if_neg (not_not_intro hvalid)]
  by_cases hmay : user = true ∧ ¬c.capSysNice = true ∧
      ¬unprivilegedMay c (s.tasks.task p) attr = true
  · rw [if_pos hmay]
    exact Or.inl ⟨neg_eperm_ne, rfl⟩
  rw [if_neg hmay]
  by_cases hsec : user = true ∧ c.security ≠ 0
  · rw [if_pos hsec]
    exact Or.inl ⟨hsec.2, rfl⟩
  rw [if_neg hsec]
  by_cases hstop : s.tasks.stop (s.tasks.task p).cpu = some p
  · rw [if_pos hstop]
    exact Or.inl ⟨neg_einval_ne, rfl⟩
  rw [if_neg hstop]
  have hpermits : Permits c s p attr user := by
    refine ⟨hvalid, fun huser hcap => ?_, hstop⟩
    by_contra hnot
    exact hmay ⟨huser, by simp [hcap], hnot⟩
  by_cases hchanges : changes (s.tasks.task p) attr = true
  swap
  · rw [if_pos hchanges]
    exact Or.inr (Or.inl ⟨hpermits, by simpa using hchanges, rfl⟩)
  rw [if_neg (not_not_intro hchanges)]
  by_cases hrun : user = true ∧
      ¬userMayRun s (s.tasks.task p) (attr.policyFor (s.tasks.task p)) = true
  · rw [if_pos hrun]
    exact Or.inl ⟨neg_eperm_ne, rfl⟩
  rw [if_neg hrun]
  have hrun' : user = true →
      userMayRun s (s.tasks.task p) (attr.policyFor (s.tasks.task p)) = true := by
    intro huser
    by_contra hnot
    exact hrun ⟨huser, hnot⟩
  unfold commit
  dsimp only
  by_cases hdl : (dlPolicy (attr.policyFor (s.tasks.task p)) || (s.tasks.task p).dlTask) = true
  · rw [if_pos hdl]
    by_cases herr : (dlOverflow (s.tasks.task p) (s.domains.dlBw (s.domains.rd (s.tasks.task p).cpu))
        (dlBwCpus s.domains (s.tasks.task p).cpu) (attr.policyFor (s.tasks.task p)) attr).1 ≠ 0
    · rw [if_pos herr]
      refine Or.inl ⟨neg_ebusy_ne, ?_⟩
      rw [dlOverflow_of_ne_zero herr, Domains.setDlBw_self]
    · rw [if_neg herr]
      refine Or.inr (Or.inr ⟨hpermits, hrun', _, ?_, rfl⟩)
      unfold Charges
      dsimp only
      rw [if_pos hdl]
      exact Prod.ext (not_not.mp herr) rfl
  · rw [if_neg hdl]
    refine Or.inr (Or.inr ⟨hpermits, hrun', dlBwOf s.domains (s.tasks.task p).cpu, ?_, ?_⟩)
    · unfold Charges
      dsimp only
      rw [if_neg hdl]
    · unfold dlBwOf
      rw [Domains.setDlBw_self]

/-! ### The steps of one thread -/

/-- The call of `__sched_setscheduler` that an event makes. -/
def Event.call (s : State n) : Event n → Option (Caller × TaskPtr × SchedAttr × Bool)
  | .setattr caller p attr user => some (caller, p, attr, user)
  | .setscheduler caller p policy priority check =>
      some (caller, p, paramAttr (s.tasks.task p) policy priority, check)
  | .stopTask caller _ (some p) =>
      some (caller, p, paramAttr (s.tasks.task p) (BitVec.ofInt 32 schedFifo) 99, false)
  | _ => none

/-- What the caller of `__sched_setscheduler` and the rest of the kernel have promised. -/
structure Promised (c : Caller) (t : Task n) (attr : SchedAttr) : Prop where
  boosts : ∀ prio, c.topPiWaiter = some prio → t.prio ≤ prio
  policy : setparamPolicy ≤ attr.schedPolicy
  nice : attr.schedNice = t.taskNice ∨ minNice ≤ attr.schedNice ∧ attr.schedNice ≤ maxNice

/-- What may become of the record of thread `p` in a step, except for the class of a stop task. -/
inductive Move (h : Hooks) (s : State n) (e : Event n) (p : TaskPtr) : Task n → Prop where
  | same : Move h s e p (s.tasks.task p)
  | resetOnFork (c : Caller) (attr : SchedAttr) (user : Bool)
      (hcall : e.call s = some (c, p, attr, user)) (hpermits : Permits c s p attr user)
      (hchanges : changes (s.tasks.task p) attr = false) :
      Move h s e p { s.tasks.task p with
        schedResetOnFork := attr.resetOnForkFor (s.tasks.task p) }
  | policy (c : Caller) (attr : SchedAttr) (user : Bool)
      (hcall : e.call s = some (c, p, attr, user)) (hpermits : Permits c s p attr user)
      (hpromised : Promised c (s.tasks.task p) attr)
      (hrun : user = true →
        userMayRun s (s.tasks.task p) (attr.policyFor (s.tasks.task p)) = true) :
      Move h s e p (commitTask h c (s.tasks.task p) attr)
  | nice (v : Int) (he : e = .nice p v) : Move h s e p (setUserNice (s.tasks.task p) v)
  | sysNice (c : Caller) (increment : Int) (he : e = .sysNice c p increment) :
      Move h s e p (sysNice c (s.tasks.task p) increment).2
  | setprio (prio : Int) (piPreempts : Bool) (he : e = .setprio p prio piPreempts)
      (hnamed : s.tasks.named p = false) (hprio : prio ≤ (s.tasks.task p).normalPrio) :
      Move h s e p ((rtMutexSetprio h s.tasks p prio piPreempts).task p)
  | normalize (he : e = .normalize) : Move h s e p (normalizeRtTask h (s.tasks.task p))
  | cpu (cpu : Fin n) (he : e = .migrate p cpu) (hnamed : s.tasks.named p = false) :
      Move h s e p { s.tasks.task p with cpu := cpu }
  | affinity (mask : Fin n → Bool) : Move h s e p { s.tasks.task p with cpusAllowed := mask }
  | group (tg : TgPtr) (htg : tg ∈ s.groups.taskGroups)
      (hattach : schedRtCanAttach s.groups tg (s.tasks.task p) = true) :
      Move h s e p { s.tasks.task p with schedTaskGroup := tg }

theorem named_eq_false {ts : Tasks n} {p : TaskPtr} :
    ts.named p = false ↔ ∀ cpu, ts.stop cpu ≠ some p ∧ ts.idle cpu ≠ some p := by
  simp [Tasks.named, not_or]

theorem ordinary_iff {ts : Tasks n} {p : TaskPtr} :
    ts.ordinary p = true ↔ p ∈ ts.threads ∧ ts.named p = false := by
  simp [Tasks.ordinary]

theorem toInt_and_nonneg {x : BitVec 32} (hx : 0 ≤ x.toInt) (y : BitVec 32) : 0 ≤ (x &&& y).toInt := by
  have hle : (x &&& y).toNat ≤ x.toNat := by
    rw [BitVec.toNat_and]
    exact Nat.and_le_left
  rw [BitVec.toInt_eq_toNat_cond] at hx ⊢
  split_ifs at hx ⊢ <;> omega

theorem promised_paramAttr {c : Caller} {t : Task n} {policy : BitVec 32} (priority : Nat)
    (hboosts : ∀ prio, c.topPiWaiter = some prio → t.prio ≤ prio)
    (hpolicy : setparamPolicy ≤ policy.toInt) : Promised c t (paramAttr t policy priority) := by
  refine ⟨hboosts, ?_, Or.inl ?_⟩
  · unfold paramAttr
    dsimp only
    split_ifs with hflag
    · have hnonneg : 0 ≤ policy.toInt := by
        have hne := hflag.1
        unfold setparamPolicy at hpolicy hne
        omega
      exact le_trans (by decide) (toInt_and_nonneg hnonneg _)
    · exact hpolicy
  · unfold paramAttr
    dsimp only
    split_ifs <;> rfl

theorem Caller.boosts_iff {c : Caller} {t : Task n} :
    c.boosts t = true ↔ ∀ prio, c.topPiWaiter = some prio → t.prio ≤ prio := by
  simp [Caller.boosts, Option.all_eq_true]

/-- A call of `__sched_setscheduler` moves its task and no other. -/
theorem innerSetscheduler_move {s : State n} {e : Event n} {c : Caller} {p : TaskPtr}
    {attr : SchedAttr} {user : Bool} (hcall : e.call s = some (c, p, attr, user))
    (hpromised : Promised c (s.tasks.task p) attr) :
    ∃ x, Move h s e p x ∧
      (innerSetscheduler h c s p attr user).2.tasks = s.tasks.set p x := by
  rcases innerSetscheduler_cases (h := h) c s p attr user with
    ⟨-, hs⟩ | ⟨hpermits, hchanges, hs⟩ | ⟨hpermits, hrun, b, -, hs⟩
  · refine ⟨_, .same, ?_⟩
    rw [hs]
    exact congrArg (fun f => { s.tasks with task := f }) (Function.update_eq_self p s.tasks.task).symm
  · exact ⟨_, .resetOnFork c attr user hcall hpermits hchanges, congrArg (fun r => r.2.tasks) hs⟩
  · exact ⟨_, .policy c attr user hcall hpermits hpromised hrun, congrArg (fun r => r.2.tasks) hs⟩

/-- The classes that `sched_set_stop_task` gives to the new and to the old stop task. -/
def Event.reclass (e : Event n) (s : State n) (p : TaskPtr) (x : Task n) : Task n :=
  match e with
  | .stopTask _ cpu stop =>
      if s.tasks.stop cpu = some p then { x with schedClass := .rt }
      else if stop = some p then { x with schedClass := .stop }
      else x
  | _ => x

theorem Event.reclass_stopTask (c : Caller) (cpu : Fin n) (stop : Option TaskPtr) (s : State n)
    (p : TaskPtr) (x : Task n) :
    (Event.stopTask c cpu stop).reclass s p x =
      if s.tasks.stop cpu = some p then { x with schedClass := .rt }
      else if stop = some p then { x with schedClass := .stop }
      else x := rfl

theorem stopTask_guard {s t : State n} {c : Caller} {cpu : Fin n} {p : TaskPtr}
    (hstep : step h s (.stopTask c cpu (some p)) = some t) :
    (p ∈ s.tasks.threads ∧ s.tasks.named p = false) ∧ (s.tasks.task p).cpu = cpu ∧
      (s.tasks.task p).kthread = true ∧ (s.tasks.task p).prio = (s.tasks.task p).normalPrio ∧
      c.topPiWaiter = none := by
  simp only [step, Option.ite_none_right_eq_some, Option.all_some, Bool.and_eq_true,
    decide_eq_true_eq, Option.isNone_iff_eq_none, ordinary_iff] at hstep
  obtain ⟨⟨⟨⟨⟨hord, hcpu⟩, hkthread⟩, hprio⟩, hwaiter⟩, -⟩ := hstep
  exact ⟨hord, hcpu, hkthread, hprio, hwaiter⟩

/-- The write behind a successful request for real-time bandwidth. -/
def setRtBandwidth (g : Groups n) (tg : TgPtr) (rtPeriod rtRuntime : BitVec 64) : Groups n :=
  g.set tg { g.tg tg with
    rtBandwidth := ⟨rtPeriod, rtRuntime⟩
    rtRqRuntime := fun _ => rtRuntime }

theorem tgSetRtBandwidth_cases {s t : State n} {tg : TgPtr} {rtPeriod rtRuntime : BitVec 64}
    {err : Int} (hset : tgSetRtBandwidth s tg rtPeriod rtRuntime = some (err, t)) :
    rtSchedulable s (some tg) rtPeriod rtRuntime = some err ∧
      (err ≠ 0 ∧ t = s ∨ err = 0 ∧ t = onGroups s (setRtBandwidth s.groups tg rtPeriod rtRuntime)) := by
  obtain ⟨err', herr, heq⟩ := Option.map_eq_some_iff.mp hset
  by_cases hzero : err' ≠ 0
  · rw [if_pos hzero, Prod.mk.injEq] at heq
    obtain ⟨rfl, rfl⟩ := heq
    exact ⟨herr, Or.inl ⟨hzero, rfl⟩⟩
  · rw [if_neg hzero, Prod.mk.injEq] at heq
    obtain ⟨rfl, rfl⟩ := heq
    exact ⟨herr, Or.inr ⟨not_not.mp hzero, rfl⟩⟩

/-- A write of the runtime or the period is refused, or comes down to one of these requests. -/
theorem rtEvent_cases {s t : State n} {e : Event n} {tg : TgPtr} {us : BitVec 64}
    (he : e = .rtRuntime tg us ∨ e = .rtPeriod tg us) (hstep : step h s e = some t) :
    t = s ∨ tg ∈ s.groups.taskGroups ∧ ∃ rtPeriod rtRuntime,
      rtSchedulable s (some tg) rtPeriod rtRuntime = some 0 ∧
        t = onGroups s (setRtBandwidth s.groups tg rtPeriod rtRuntime) := by
  have hset {rtPeriod rtRuntime : BitVec 64} {r : Int × State n} (htg : tg ∈ s.groups.taskGroups)
      (hr : tgSetRtBandwidth s tg rtPeriod rtRuntime = some r) (ht : r.2 = t) :
      t = s ∨ tg ∈ s.groups.taskGroups ∧ ∃ rtPeriod rtRuntime,
        rtSchedulable s (some tg) rtPeriod rtRuntime = some 0 ∧
          t = onGroups s (setRtBandwidth s.groups tg rtPeriod rtRuntime) := by
    obtain ⟨herr, hcases⟩ := tgSetRtBandwidth_cases hr
    rcases hcases with ⟨-, heq⟩ | ⟨hzero, heq⟩
    · exact Or.inl (ht.symm.trans heq)
    · rw [hzero] at herr
      exact Or.inr ⟨htg, _, _, herr, ht.symm.trans heq⟩
  rcases he with rfl | rfl
  · simp only [step, Option.ite_none_right_eq_some, Option.map_eq_some_iff] at hstep
    obtain ⟨htg, r, hr, ht⟩ := hstep
    exact hset htg hr ht
  · simp only [step, Option.ite_none_right_eq_some, Option.map_eq_some_iff] at hstep
    obtain ⟨htg, r, hr, ht⟩ := hstep
    unfold schedGroupSetRtPeriod at hr
    dsimp only at hr
    split_ifs at hr with hzero
    · cases hr
      exact Or.inl ht.symm
    · exact hset htg hr ht

/-- The checks that new global settings have passed. -/
structure GlobalsPass (s : State n) : Prop where
  valid : schedRtGlobalValidate s.sysctl = 0
  rt : rtSchedulable s none 0 0 = some 0
  dl : schedDlGlobalConstraints s = 0

theorem schedRtApply_cases {s : State n} {r : Int × State n} (hrun : schedRtApply s = some r) :
    (r.1 ≠ 0 ∧ r.2 = s) ∨
      (r.1 = 0 ∧ GlobalsPass s ∧
        r.2 = schedDlDoGlobal (onSysctl s (schedRtDoGlobal s.sysctl))) := by
  unfold schedRtApply at hrun
  dsimp only at hrun
  by_cases hvalid : schedRtGlobalValidate s.sysctl ≠ 0
  · rw [if_pos hvalid, Option.some.injEq] at hrun
    subst hrun
    exact Or.inl ⟨hvalid, rfl⟩
  rw [if_neg hvalid] at hrun
  obtain ⟨err, herr, heq⟩ := Option.map_eq_some_iff.mp hrun
  by_cases hzero : err ≠ 0
  · rw [if_pos hzero] at heq
    subst heq
    exact Or.inl ⟨hzero, rfl⟩
  rw [if_neg hzero] at heq
  by_cases hdl : schedDlGlobalConstraints s ≠ 0
  · rw [if_pos hdl] at heq
    subst heq
    exact Or.inl ⟨hdl, rfl⟩
  rw [if_neg hdl] at heq
  subst heq
  rw [not_not.mp hzero] at herr
  exact Or.inr ⟨rfl, ⟨not_not.mp hvalid, herr, not_not.mp hdl⟩, rfl⟩

/-- The handler restores the variables, or it only reads, or the new settings have passed all
checks. -/
theorem schedRtHandler_cases {s : State n} {write : Bool} {ret : Int} {period runtime : BitVec 32}
    {r : Int × State n} (hrun : schedRtHandler s write ret period runtime = some r)
    (hfits : (ret = 0 ∧ write = true) ∨
      (period = s.sysctl.schedRtPeriod ∧ runtime = s.sysctl.schedRtRuntime)) :
    let s' := onSysctl s (s.sysctl.store period runtime)
    r.2 = s ∨ (r.1 = 0 ∧ GlobalsPass s' ∧
      r.2 = schedDlDoGlobal (onSysctl s' (schedRtDoGlobal s'.sysctl))) := by
  intro s'
  unfold schedRtHandler at hrun
  dsimp only at hrun
  by_cases hwrite : ret = 0 ∧ write = true
  swap
  · rw [if_neg hwrite, Option.some.injEq] at hrun
    obtain ⟨rfl, rfl⟩ := hfits.resolve_left hwrite
    exact Or.inl (congrArg Prod.snd hrun).symm
  rw [if_pos hwrite] at hrun
  obtain ⟨a, ha, heq⟩ := Option.map_eq_some_iff.mp hrun
  rcases schedRtApply_cases ha with ⟨hne, ha2⟩ | ⟨hzero, hrest⟩
  · rw [if_pos hne] at heq
    refine Or.inl ?_
    rw [← heq, ha2]
    rfl
  · rw [if_neg (not_not_intro hzero)] at heq
    subst heq
    exact Or.inr ⟨hzero, hrest⟩

theorem Tasks.setClass_task (ts : Tasks n) (o : Option TaskPtr) (k : SchedClass) (p : TaskPtr) :
    (ts.setClass o k).task p =
      if o = some p then { ts.task p with schedClass := k } else ts.task p := by
  cases o with
  | none => rfl
  | some q =>
      by_cases hp : p = q
      · subst hp
        simp [Tasks.setClass]
      · simp [Tasks.setClass, Tasks.set_task, hp, Ne.symm hp]

/-- `schedSetStopTask` after it has given the new stop task its policy. -/
theorem schedSetStopTask_task (c : Caller) (s : State n) (cpu : Fin n) (stop : Option TaskPtr)
    (p : TaskPtr) :
    (schedSetStopTask h c s cpu stop).tasks.task p =
      (Event.stopTask c cpu stop).reclass s p
        ((match stop with
          | some q => (schedSetschedulerCheck h c s q (BitVec.ofInt 32 schedFifo) 99 false).2
          | none => s).tasks.task p) := by
  rw [Event.reclass_stopTask]
  unfold schedSetStopTask
  dsimp only
  rw [Tasks.setClass_task]
  dsimp only
  rw [Tasks.setClass_task]
  split_ifs <;> rfl

theorem cpuCgroupCanAttach_eq_zero {s : State n} {ps : List TaskPtr} {tg : TgPtr} :
    cpuCgroupCanAttach s ps tg = 0 ↔
      ∀ p ∈ ps, schedRtCanAttach s.groups tg (s.tasks.task p) = true := by
  unfold cpuCgroupCanAttach
  by_cases hany : ps.any (fun p => ¬schedRtCanAttach s.groups tg (s.tasks.task p) = true) = true
  · rw [if_pos hany]
    refine iff_of_false neg_einval_ne fun hall => ?_
    obtain ⟨p, hp, hno⟩ := List.any_eq_true.mp hany
    exact of_decide_eq_true hno (hall p hp)
  · rw [if_neg hany]
    refine iff_of_true rfl fun p hp => ?_
    by_contra hno
    exact hany (List.any_eq_true.mpr ⟨p, hp, decide_eq_true hno⟩)

/-- What a step does to a thread that stays. -/
theorem step_thread {s t : State n} {e : Event n} (hnodup : s.tasks.threads.Nodup)
    (hstep : step h s e = some t) {p : TaskPtr} (hp : p ∈ s.tasks.threads) :
    ∃ x, Move h s e p x ∧ t.tasks.task p = e.reclass s p x := by
  have hother (q : TaskPtr) (x : Task n) (hx : Move h s e q x) (ts : Tasks n)
      (hts : ts = s.tasks.set q x) : ∃ y, Move h s e p y ∧ ts.task p = y := by
    rw [hts, Tasks.set_task]
    by_cases hpq : p = q
    · subst hpq
      exact ⟨x, hx, if_pos rfl⟩
    · exact ⟨_, .same, if_neg hpq⟩
  cases e with
  | setattr c q attr user =>
      simp only [step, Option.ite_none_right_eq_some, Option.some.injEq, Caller.boosts_iff] at hstep
      obtain ⟨⟨-, hboosts, hpolicy, hnice⟩, rfl⟩ := hstep
      obtain ⟨x, hx, hts⟩ := innerSetscheduler_move (h := h) (e := .setattr c q attr user) rfl
        ⟨hboosts, hpolicy, Or.inr hnice⟩
      exact hother q x hx _ hts
  | setscheduler c q policy priority check =>
      simp only [step, Option.ite_none_right_eq_some, Option.some.injEq, Caller.boosts_iff] at hstep
      obtain ⟨⟨-, hboosts, hpolicy⟩, rfl⟩ := hstep
      obtain ⟨x, hx, hts⟩ := innerSetscheduler_move (h := h)
        (e := .setscheduler c q policy priority check) rfl
        (promised_paramAttr priority hboosts hpolicy)
      exact hother q x hx _ hts
  | nice q v =>
      simp only [step, Option.ite_none_right_eq_some, Option.some.injEq] at hstep
      obtain ⟨-, rfl⟩ := hstep
      exact hother q _ (.nice v rfl) _ rfl
  | sysNice c q increment =>
      simp only [step, Option.ite_none_right_eq_some, Option.some.injEq] at hstep
      obtain ⟨-, rfl⟩ := hstep
      exact hother q _ (.sysNice c increment rfl) _ rfl
  | setprio q prio piPreempts =>
      simp only [step, Option.ite_none_right_eq_some, Option.some.injEq, ordinary_iff] at hstep
      obtain ⟨⟨⟨-, hnamed⟩, hprio⟩, rfl⟩ := hstep
      refine hother q _ (.setprio prio piPreempts rfl hnamed hprio) _ ?_
      unfold rtMutexSetprio onTasks
      dsimp only
      rw [if_neg ((named_eq_false.mp hnamed _).2), Tasks.set_task_self]
  | fork parent child cpu mm kthread =>
      simp only [step, Option.ite_none_right_eq_some, Option.map_eq_some_iff] at hstep
      obtain ⟨⟨-, hchild, -, -⟩, r, -, rfl⟩ := hstep
      have hne : p ≠ child := fun heq => hchild (heq ▸ hp)
      exact ⟨_, .same, (Tasks.set_task s.tasks child p r).trans (if_neg hne)⟩
  | exit q =>
      simp only [step, Option.ite_none_right_eq_some, Option.some.injEq] at hstep
      obtain ⟨-, rfl⟩ := hstep
      exact ⟨_, .same, rfl⟩
  | stopTask c cpu stop =>
      have ht : t = schedSetStopTask h c s cpu stop := by
        simp only [step, Option.ite_none_right_eq_some, Option.some.injEq] at hstep
        exact hstep.2.symm
      rw [ht, schedSetStopTask_task]
      cases stop with
      | none => exact ⟨_, .same, rfl⟩
      | some q =>
          obtain ⟨-, -, -, -, hwaiter⟩ := stopTask_guard hstep
          obtain ⟨x, hx, hts⟩ := innerSetscheduler_move (h := h)
            (e := .stopTask c cpu (some q)) rfl
            (promised_paramAttr 99 (by simp [hwaiter]) (by decide))
          obtain ⟨y, hy, hpy⟩ := hother q x hx _ hts
          exact ⟨y, hy, congrArg _ hpy⟩
  | normalize =>
      simp only [step, Option.some.injEq] at hstep
      subst hstep
      refine ⟨_, .normalize rfl, ?_⟩
      exact (foldl_set_task (normalizeRtTask h) hnodup s.tasks p).trans (if_pos hp)
  | migrate q cpu =>
      simp only [step, Option.ite_none_right_eq_some, Option.some.injEq, ordinary_iff] at hstep
      obtain ⟨⟨-, hnamed⟩, rfl⟩ := hstep
      exact hother q _ (.cpu cpu rfl hnamed) _ rfl
  | affinity q mask =>
      simp only [step, Option.ite_none_right_eq_some, Option.some.injEq] at hstep
      obtain ⟨-, rfl⟩ := hstep
      exact hother q _ (.affinity mask) _ rfl
  | attach ps tg =>
      simp only [step, Option.ite_none_right_eq_some] at hstep
      obtain ⟨⟨htg, -⟩, hstep⟩ := hstep
      by_cases hcan : cpuCgroupCanAttach s ps tg ≠ 0
      · rw [if_pos hcan, Option.some.injEq] at hstep
        exact ⟨_, .same, congrArg (fun t => t.tasks.task p) hstep.symm⟩
      · rw [if_neg hcan, Option.some.injEq] at hstep
        subst hstep
        have hset := foldl_set_task_of_idem (f := fun t => { t with schedTaskGroup := tg })
          (fun _ => rfl) ps s.tasks p
        by_cases hmem : p ∈ ps
        · refine ⟨_, .group tg htg ?_, hset.trans (if_pos hmem)⟩
          exact cpuCgroupCanAttach_eq_zero.mp (not_not.mp hcan) p hmem
        · exact ⟨_, .same, hset.trans (if_neg hmem)⟩
  | rtRuntime tg us =>
      rcases rtEvent_cases (Or.inl rfl) hstep with rfl | ⟨-, -, -, -, rfl⟩ <;>
        exact ⟨_, .same, rfl⟩
  | rtPeriod tg us =>
      rcases rtEvent_cases (Or.inr rfl) hstep with rfl | ⟨-, -, -, -, rfl⟩ <;>
        exact ⟨_, .same, rfl⟩
  | cfsQuota tg us | cfsPeriod tg us =>
      simp only [step, Option.ite_none_right_eq_some, Option.map_eq_some_iff] at hstep
      obtain ⟨-, r, -, rfl⟩ := hstep
      exact ⟨_, .same, rfl⟩
  | online tg parent v | offline tg =>
      simp only [step, Option.ite_none_right_eq_some, Option.some.injEq] at hstep
      obtain ⟨-, rfl⟩ := hstep
      exact ⟨_, .same, rfl⟩
  | rtHandler write ret period runtime =>
      simp only [step, Option.ite_none_right_eq_some, Option.map_eq_some_iff] at hstep
      obtain ⟨hfits, r, hr, rfl⟩ := hstep
      rcases schedRtHandler_cases hr hfits with heq | ⟨-, -, heq⟩ <;>
        exact ⟨_, .same, congrArg (fun t => t.tasks.task p) heq⟩
  | cpuDown | cpuUp | partition =>
      simp only [step, Option.ite_none_right_eq_some, Option.some.injEq] at hstep
      obtain ⟨-, rfl⟩ := hstep
      exact ⟨_, .same, rfl⟩

/-! ### The threads and the tasks of the run queues -/

/-- The threads and the tasks that the run queues name stay as they are. -/
structure SameThreads (ts ts' : Tasks n) : Prop where
  threads : ts'.threads = ts.threads
  stop : ts'.stop = ts.stop
  idle : ts'.idle = ts.idle

theorem SameThreads.set (ts : Tasks n) (p : TaskPtr) (t : Task n) : SameThreads ts (ts.set p t) :=
  ⟨rfl, rfl, rfl⟩

theorem sameThreads_foldl (f : Task n → Task n) (ps : List TaskPtr) (ts : Tasks n) :
    SameThreads ts (ps.foldl (fun ts p => ts.set p (f (ts.task p))) ts) := by
  induction ps generalizing ts with
  | nil => exact ⟨rfl, rfl, rfl⟩
  | cons p ps ih =>
      obtain ⟨hthreads, hstop, hidle⟩ := ih (ts.set p (f (ts.task p)))
      exact ⟨hthreads, hstop, hidle⟩

theorem sameThreads_innerSetscheduler (c : Caller) (s : State n) (p : TaskPtr) (attr : SchedAttr)
    (user : Bool) : SameThreads s.tasks (innerSetscheduler h c s p attr user).2.tasks := by
  rcases innerSetscheduler_cases (h := h) c s p attr user with
    ⟨-, hs⟩ | ⟨-, -, hs⟩ | ⟨-, -, b, -, hs⟩ <;> rw [hs] <;> exact ⟨rfl, rfl, rfl⟩

/-- A forked task and its thread. -/
theorem fork_cases {s t : State n} {parent child : TaskPtr} {cpu : Fin n} {mm kthread : Bool}
    (hstep : step h s (.fork parent child cpu mm kthread) = some t) :
    parent ∈ s.tasks.threads ∧ child ∉ s.tasks.threads ∧ s.tasks.named child = false ∧
      s.tasks.threads.length < pidMaxLimit ∧
      ∃ r, schedFork (s.tasks.task parent)
          { s.tasks.task parent with mm := mm, kthread := kthread } cpu = some r ∧
        t = onTasks s { s.tasks.set child r with threads := child :: s.tasks.threads } := by
  simp only [step, Option.ite_none_right_eq_some, Option.map_eq_some_iff, Bool.not_eq_true] at hstep
  obtain ⟨⟨hparent, hchild, hnamed, hlen⟩, r, hr, ht⟩ := hstep
  exact ⟨hparent, hchild, hnamed, hlen, r, hr, ht.symm⟩

theorem exit_cases {s t : State n} {p : TaskPtr} (hstep : step h s (.exit p) = some t) :
    p ∈ s.tasks.threads ∧ s.tasks.named p = false ∧
      t = { s with
        domains := finishDead h s.domains (s.tasks.task p)
        tasks := { s.tasks with threads := s.tasks.threads.erase p } } := by
  simp only [step, Option.ite_none_right_eq_some, Option.some.injEq, ordinary_iff] at hstep
  obtain ⟨⟨hp, hnamed⟩, ht⟩ := hstep
  exact ⟨hp, hnamed, ht.symm⟩

theorem Tasks.setClass_sameThreads (ts : Tasks n) (o : Option TaskPtr) (k : SchedClass) :
    SameThreads ts (ts.setClass o k) := by
  cases o <;> exact ⟨rfl, rfl, rfl⟩

/-- A stop task changes the run queue of its CPU only. -/
theorem stopTask_cases {s t : State n} {c : Caller} {cpu : Fin n} {stop : Option TaskPtr}
    (hstep : step h s (.stopTask c cpu stop) = some t) :
    t.tasks.threads = s.tasks.threads ∧ t.tasks.idle = s.tasks.idle ∧
      t.tasks.stop = Function.update s.tasks.stop cpu stop := by
  simp only [step, Option.ite_none_right_eq_some, Option.some.injEq] at hstep
  obtain ⟨-, rfl⟩ := hstep
  unfold schedSetStopTask
  dsimp only
  have hset (s' : State n) (hs' : SameThreads s.tasks s'.tasks) :
      let ts := s'.tasks.setClass stop .stop
      let ts' := { ts with stop := Function.update ts.stop cpu stop }.setClass (s.tasks.stop cpu) .rt
      ts'.threads = s.tasks.threads ∧ ts'.idle = s.tasks.idle ∧
        ts'.stop = Function.update s.tasks.stop cpu stop := by
    intro ts ts'
    have h₁ := s'.tasks.setClass_sameThreads stop .stop
    have h₂ := Tasks.setClass_sameThreads { ts with stop := Function.update ts.stop cpu stop }
      (s.tasks.stop cpu) .rt
    refine ⟨h₂.threads.trans (h₁.threads.trans hs'.threads),
      h₂.idle.trans (h₁.idle.trans hs'.idle), h₂.stop.trans ?_⟩
    exact congrArg (Function.update · cpu stop) (h₁.stop.trans hs'.stop)
  cases stop with
  | none => exact hset s ⟨rfl, rfl, rfl⟩
  | some q => exact hset _ (sameThreads_innerSetscheduler _ _ _ _ _)

/-- Every other step. -/
theorem step_sameThreads {s t : State n} {e : Event n} (hstep : step h s e = some t)
    (hfork : ∀ parent child cpu mm kthread, e ≠ .fork parent child cpu mm kthread)
    (hexit : ∀ p, e ≠ .exit p) (hstop : ∀ c cpu stop, e ≠ .stopTask c cpu stop) :
    SameThreads s.tasks t.tasks := by
  cases e with
  | setattr c p attr user =>
      simp only [step, Option.ite_none_right_eq_some, Option.some.injEq] at hstep
      obtain ⟨-, rfl⟩ := hstep
      exact sameThreads_innerSetscheduler _ _ _ _ _
  | setscheduler c p policy priority check =>
      simp only [step, Option.ite_none_right_eq_some, Option.some.injEq] at hstep
      obtain ⟨-, rfl⟩ := hstep
      exact sameThreads_innerSetscheduler _ _ _ _ _
  | setprio p prio piPreempts =>
      simp only [step, Option.ite_none_right_eq_some, Option.some.injEq] at hstep
      obtain ⟨-, rfl⟩ := hstep
      unfold rtMutexSetprio onTasks
      dsimp only
      split_ifs <;> exact ⟨rfl, rfl, rfl⟩
  | fork parent child cpu mm kthread => exact absurd rfl (hfork parent child cpu mm kthread)
  | exit p => exact absurd rfl (hexit p)
  | stopTask c cpu stop => exact absurd rfl (hstop c cpu stop)
  | normalize =>
      simp only [step, Option.some.injEq] at hstep
      subst hstep
      exact sameThreads_foldl (normalizeRtTask h) s.tasks.threads s.tasks
  | attach ps tg =>
      simp only [step, Option.ite_none_right_eq_some] at hstep
      obtain ⟨-, hstep⟩ := hstep
      by_cases hcan : cpuCgroupCanAttach s ps tg ≠ 0
      · rw [if_pos hcan, Option.some.injEq] at hstep
        subst hstep
        exact ⟨rfl, rfl, rfl⟩
      · rw [if_neg hcan, Option.some.injEq] at hstep
        subst hstep
        exact sameThreads_foldl (fun t => { t with schedTaskGroup := tg }) ps s.tasks
  | rtRuntime tg us =>
      rcases rtEvent_cases (Or.inl rfl) hstep with rfl | ⟨-, -, -, -, rfl⟩ <;> exact ⟨rfl, rfl, rfl⟩
  | rtPeriod tg us =>
      rcases rtEvent_cases (Or.inr rfl) hstep with rfl | ⟨-, -, -, -, rfl⟩ <;> exact ⟨rfl, rfl, rfl⟩
  | cfsQuota tg us | cfsPeriod tg us =>
      simp only [step, Option.ite_none_right_eq_some, Option.map_eq_some_iff] at hstep
      obtain ⟨-, r, -, rfl⟩ := hstep
      exact ⟨rfl, rfl, rfl⟩
  | rtHandler write ret period runtime =>
      simp only [step, Option.ite_none_right_eq_some, Option.map_eq_some_iff] at hstep
      obtain ⟨hfits, r, hr, rfl⟩ := hstep
      rcases schedRtHandler_cases hr hfits with heq | ⟨-, -, heq⟩ <;> rw [heq] <;>
        exact ⟨rfl, rfl, rfl⟩
  | nice | sysNice | migrate | affinity | online | offline | cpuDown | cpuUp | partition =>
      simp only [step, Option.ite_none_right_eq_some, Option.some.injEq] at hstep
      obtain ⟨-, rfl⟩ := hstep
      exact ⟨rfl, rfl, rfl⟩

/-! ### What the steps do to the groups -/

/-- A step changes the tasks, or else the groups or the sysctl variables. -/
inductive GroupsMove (s : State n) (e : Event n) : Tasks n → Groups n → Sysctl → Prop where
  | tasks (ts : Tasks n) : GroupsMove s e ts s.groups s.sysctl
  | rt (tg : TgPtr) (rtPeriod rtRuntime : BitVec 64) (htg : tg ∈ s.groups.taskGroups)
      (hpass : rtSchedulable s (some tg) rtPeriod rtRuntime = some 0) :
      GroupsMove s e s.tasks (setRtBandwidth s.groups tg rtPeriod rtRuntime) s.sysctl
  | cfs (tg : TgPtr) (period quota : BitVec 64) (r : Int × Groups n) (htg : tg ∈ s.groups.taskGroups)
      (hrun : tgSetCfsBandwidth s.groups tg period quota = some r) : GroupsMove s e s.tasks r.2 s.sysctl
  | online (tg parent : TgPtr) (v : TaskGroup n) (he : e = .online tg parent v)
      (htg : tg ∉ s.groups.taskGroups) (hparent : parent ∈ s.groups.taskGroups)
      (hlen : s.groups.taskGroups.length < 2 ^ 44)
      (hempty : ∀ p ∈ s.tasks.threads, (s.tasks.task p).schedTaskGroup ≠ tg)
      (hrt : v.rtBandwidth.rtRuntime = 0) (hcfs : v.cfsBandwidth.quota = runtimeInf) :
      GroupsMove s e s.tasks (schedOnlineGroup (s.groups.set tg v) tg parent) s.sysctl
  | offline (tg : TgPtr) (hroot : tg ≠ rootTaskGroup) (hleaf : s.groups.links.children tg = [])
      (hempty : ∀ p ∈ s.tasks.threads, (s.tasks.task p).schedTaskGroup ≠ tg) :
      GroupsMove s e s.tasks (schedOfflineGroup s.groups tg) s.sysctl
  | globals (c : Sysctl) (hpass : GlobalsPass (onSysctl s c)) :
      GroupsMove s e s.tasks s.groups (schedDlDoGlobal (onSysctl s (schedRtDoGlobal c))).sysctl

theorem groups_innerSetscheduler (c : Caller) (s : State n) (p : TaskPtr) (attr : SchedAttr)
    (user : Bool) :
    (innerSetscheduler h c s p attr user).2.groups = s.groups ∧
      (innerSetscheduler h c s p attr user).2.sysctl = s.sysctl := by
  rcases innerSetscheduler_cases (h := h) c s p attr user with
    ⟨-, hs⟩ | ⟨-, -, hs⟩ | ⟨-, -, b, -, hs⟩ <;> rw [hs] <;> exact ⟨rfl, rfl⟩

theorem step_groups {s t : State n} {e : Event n} (hstep : step h s e = some t) :
    GroupsMove s e t.tasks t.groups t.sysctl := by
  cases e with
  | setattr c p attr user =>
      simp only [step, Option.ite_none_right_eq_some, Option.some.injEq] at hstep
      obtain ⟨-, rfl⟩ := hstep
      rw [(groups_innerSetscheduler c s p attr user).1, (groups_innerSetscheduler c s p attr user).2]
      exact .tasks _
  | setscheduler c p policy priority check =>
      simp only [step, Option.ite_none_right_eq_some, Option.some.injEq] at hstep
      obtain ⟨-, rfl⟩ := hstep
      unfold schedSetschedulerCheck
      rw [(groups_innerSetscheduler c s p _ check).1, (groups_innerSetscheduler c s p _ check).2]
      exact .tasks _
  | stopTask c cpu stop =>
      simp only [step, Option.ite_none_right_eq_some, Option.some.injEq] at hstep
      obtain ⟨-, rfl⟩ := hstep
      cases stop with
      | none => exact .tasks _
      | some p =>
          have hcall := groups_innerSetscheduler (h := h) c s p
            (paramAttr (s.tasks.task p) (BitVec.ofInt 32 schedFifo) 99) false
          have hgroups : (schedSetStopTask h c s cpu (some p)).groups = s.groups := hcall.1
          have hsysctl : (schedSetStopTask h c s cpu (some p)).sysctl = s.sysctl := hcall.2
          rw [hgroups, hsysctl]
          exact .tasks _
  | fork parent child cpu mm kthread =>
      obtain ⟨-, -, -, -, r, -, rfl⟩ := fork_cases hstep
      exact .tasks _
  | attach ps tg =>
      simp only [step, Option.ite_none_right_eq_some] at hstep
      obtain ⟨-, hstep⟩ := hstep
      split_ifs at hstep <;> cases hstep <;> exact .tasks _
  | rtRuntime tg us =>
      rcases rtEvent_cases (Or.inl rfl) hstep with rfl | ⟨htg, _, _, hpass, rfl⟩
      · exact .tasks _
      · exact .rt tg _ _ htg hpass
  | rtPeriod tg us =>
      rcases rtEvent_cases (Or.inr rfl) hstep with rfl | ⟨htg, _, _, hpass, rfl⟩
      · exact .tasks _
      · exact .rt tg _ _ htg hpass
  | cfsQuota tg us =>
      simp only [step, Option.ite_none_right_eq_some, Option.map_eq_some_iff] at hstep
      obtain ⟨htg, r, hr, rfl⟩ := hstep
      exact .cfs tg _ _ r htg hr
  | cfsPeriod tg us =>
      simp only [step, Option.ite_none_right_eq_some, Option.map_eq_some_iff] at hstep
      obtain ⟨htg, r, hr, rfl⟩ := hstep
      exact .cfs tg _ _ r htg hr
  | online tg parent v =>
      simp only [step, Option.ite_none_right_eq_some, Option.some.injEq] at hstep
      obtain ⟨⟨htg, hparent, hlen, hempty, hrt, hcfs⟩, rfl⟩ := hstep
      exact .online tg parent v rfl htg hparent hlen hempty hrt hcfs
  | offline tg =>
      simp only [step, Option.ite_none_right_eq_some, Option.some.injEq] at hstep
      obtain ⟨⟨-, hroot, hleaf, hempty⟩, rfl⟩ := hstep
      exact .offline tg hroot hleaf hempty
  | rtHandler write ret period runtime =>
      simp only [step, Option.ite_none_right_eq_some, Option.map_eq_some_iff] at hstep
      obtain ⟨hfits, r, hr, rfl⟩ := hstep
      rcases schedRtHandler_cases hr hfits with heq | ⟨-, hpass, heq⟩ <;> rw [heq]
      · exact .tasks _
      · exact .globals (s.sysctl.store period runtime) hpass
  | normalize =>
      simp only [step, Option.some.injEq] at hstep
      subst hstep
      exact .tasks _
  | nice | sysNice | setprio | exit | migrate | affinity | cpuDown | cpuUp | partition =>
      simp only [step, Option.ite_none_right_eq_some, Option.some.injEq] at hstep
      obtain ⟨-, rfl⟩ := hstep
      exact .tasks _

end Lkm.Core
