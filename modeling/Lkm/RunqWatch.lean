import Lkm.RunqLocks

/-! What the code has seen before it waits for a lock still holds when it has the lock. -/

namespace Lkm.Runq

open Dispatch

variable {n : Nat} {U : Type} [DecidableEq U] {k : Kernel} {s t : State n U}

/-! ### One change at a time -/

/-- A task that is bound to a CPU and is there stays bound and stays there. -/
def Task.Stays (t t' : Task n) : Prop :=
  ∀ c, t.boundTo c = true → t'.boundTo c = true ∧ (t.cpu = c → t'.cpu = c)

theorem Task.Stays.of_same {t t' : Task n} (hmask : t'.cpusAllowed = t.cpusAllowed)
    (hcpu : t'.cpu = t.cpu) : t.Stays t' := by
  intro c hbound
  refine ⟨?_, fun h => hcpu.trans h⟩
  unfold Task.boundTo at hbound ⊢
  rw [hmask]
  exact hbound

/-- It is only placed where it may be. -/
theorem Task.Stays.of_place {t t' : Task n} (hmask : t'.cpusAllowed = t.cpusAllowed)
    (hplace : t.cpusAllowed t'.cpu = true) : t.Stays t' := by
  intro c hbound
  have hcpu : t'.cpu = c := of_decide_eq_true hbound _ hplace
  refine ⟨?_, fun _ => hcpu⟩
  unfold Task.boundTo at hbound ⊢
  rw [hmask]
  exact hbound

omit [DecidableEq U] in
/-- A CPU goes to a place where it may rely on what it has seen. -/
theorem Watch.goto (h : Watch s) {c : Fin n} {pc : Pc n U} (hpc : s.relies c pc) : Watch (s.goto c pc) where
  idleCpu := h.idleCpu
  idleState := h.idleState
  called := h.called
  asleep := h.asleep
  fresh := h.fresh
  born := h.born
  places d := by
    by_cases hd : d = c
    · subst hd
      rw [State.goto_pc, Function.update_self]
      exact hpc
    · rw [State.goto_pc, Function.update_of_ne hd]
      exact h.places d

omit [DecidableEq U] in
theorem Watch.setRq (h : Watch s) {c : Fin n} {rq : Rq n U}
    (hcurr : rq.curr = (s.rq c).curr ∨ ∀ p, s.pc c ≠ .localPi p ∧ s.pc c ≠ .localRq p) :
    Watch (s.setRq c rq) where
  idleCpu := h.idleCpu
  idleState := h.idleState
  called := h.called
  asleep := h.asleep
  fresh := h.fresh
  born := h.born
  places d := by
    have hd := h.places d
    cases hpc : s.pc d <;> simp only [hpc, State.relies, State.setRq_rq, State.setRq_task, State.setRq_pc,
      State.setRq_threads, State.setRq_newborn, Function.update_apply] at hd ⊢ <;> grind -ring -linarith

/-- A new record for a task that is on a queue or on its way. -/
theorem Watch.setTask_of_onRq (h : Watch s) {p : Tid n U} {t : Task n} (hold : (s.task p).onRq ≠ .off)
    (hstate : t.state ≠ taskWaking)
    (hidle : p.isIdle = true → t.state = taskRunning ∧ t.cpu = (s.task p).cpu)
    (hasleep : t.onRq = .off → t.state ≠ taskRunning) (hstays : (s.task p).Stays t)
    (hmoving : t.cpu = (s.task p).cpu ∨ ∀ d cpu, s.pc d ≠ .moving p cpu) : Watch (s.setTask p t) := by
  obtain ⟨h1, h2, h3, h4, h5, h6, h7⟩ := h
  constructor <;> simp only [State.setTask_task, State.setTask_pc, State.setTask_threads,
    State.setTask_newborn, Function.update_apply]
  case places =>
    intro d
    have hd := h7 d
    cases hpc : s.pc d <;> simp only [hpc, State.relies, State.setTask_task, State.setTask_rq,
      State.setTask_threads, State.setTask_newborn, Function.update_apply] at hd ⊢ <;>
      grind -ring -linarith [Task.Stays]
  all_goals grind -ring -linarith [Tid.isIdle]

/-- A queued task becomes runnable. -/
theorem Watch.setTask_running (h : Watch s) {p : Tid n U} (hp : (s.task p).onRq = .queued) :
    Watch (s.setTask p { s.task p with state := taskRunning }) := by
  refine h.setTask_of_onRq (queued_ne_off hp) running_ne_waking (fun _ => ⟨rfl, rfl⟩) (fun hoff => ?_)
    (.of_same rfl rfl) (Or.inl rfl)
  exact absurd (hp.symm.trans hoff) (by decide)

/-- A new record for a task that is not runnable and that nobody has in his hands. -/
theorem Watch.setTask_of_state (h : Watch s) {p : Tid n U} {t : Task n}
    (hold : (s.task p).state ≠ taskRunning) (hfree : ∀ d, (s.pc d).piTask ≠ some p)
    (hcalled : t.state = taskWaking → t.onRq = .off ∧ t.onCpu = false)
    (hasleep : t.onRq = .off → t.state ≠ taskRunning) (hstays : (s.task p).Stays t) :
    Watch (s.setTask p t) := by
  obtain ⟨h1, h2, h3, h4, h5, h6, h7⟩ := h
  constructor <;> simp only [State.setTask_task, State.setTask_pc, State.setTask_threads,
    State.setTask_newborn, Function.update_apply]
  case places =>
    intro d
    have hd := h7 d
    have hfree := hfree d
    cases hpc : s.pc d <;> simp only [hpc, Pc.piTask, State.relies, State.setTask_task, State.setTask_rq,
      State.setTask_threads, State.setTask_newborn, Function.update_apply] at hd hfree ⊢ <;>
      grind -ring -linarith [Task.Stays]
  all_goals grind -ring -linarith

/-- A new record that only the CPU itself and the owner of the mask see. -/
theorem Watch.setTask_same (h : Watch s) {p : Tid n U} {t : Task n}
    (ht : t.state = (s.task p).state ∧ t.onRq = (s.task p).onRq ∧ t.cpu = (s.task p).cpu)
    (hon : t.onCpu = (s.task p).onCpu ∨ t.onCpu = false)
    (hlocal : (s.task p).Stays t ∨ ∀ d, s.pc d ≠ .localPi p ∧ s.pc d ≠ .localRq p) :
    Watch (s.setTask p t) := by
  obtain ⟨h1, h2, h3, h4, h5, h6, h7⟩ := h
  constructor <;> simp only [State.setTask_task, State.setTask_pc, State.setTask_threads,
    State.setTask_newborn, Function.update_apply]
  case places =>
    intro d
    have hd := h7 d
    cases hpc : s.pc d <;> simp only [hpc, State.relies, State.setTask_task, State.setTask_rq,
      State.setTask_threads, State.setTask_newborn, Function.update_apply] at hd ⊢ <;>
      grind -ring -linarith [Task.Stays]
  all_goals grind -ring -linarith

theorem Watch.fork (h : Watch s) {u : U} {t : Task n} (hu : .thread u ∉ s.threads)
    (ht : t.onRq = .off ∧ t.onCpu = false) (hstate : t.state = taskRunning)
    (hmoving : ∀ d cpu, s.pc d ≠ .moving (.thread u) cpu) :
    Watch { s.setTask (.thread u) t with
      threads := insert (.thread u) s.threads
      newborn := Function.update s.newborn (.thread u) true } := by
  have hwaking := running_ne_waking
  obtain ⟨h1, h2, h3, h4, h5, h6, h7⟩ := h
  constructor <;> simp only [State.setTask_task, State.setTask_pc, Function.update_apply, Finset.mem_insert]
  case places =>
    intro d
    have hd := h7 d
    cases hpc : s.pc d <;> simp only [hpc, State.relies, State.setTask_task, State.setTask_rq,
      Function.update_apply, Finset.mem_insert] at hd ⊢ <;> grind -ring -linarith
  all_goals grind -ring -linarith

theorem Watch.wakeUpNew (h : Watch s) {u : U} {t : Task n} (hu : s.newborn (.thread u) = true)
    (ht : t.onRq = .queued ∧ t.state = (s.task (.thread u)).state)
    (hstays : (s.task (.thread u)).Stays t) (hmoving : ∀ d cpu, s.pc d ≠ .moving (.thread u) cpu) :
    Watch { s.setTask (.thread u) t with newborn := Function.update s.newborn (.thread u) false } := by
  have hwaking := running_ne_waking
  obtain ⟨h1, h2, h3, h4, h5, h6, h7⟩ := h
  constructor <;> simp only [State.setTask_task, State.setTask_pc, State.setTask_threads,
    Function.update_apply]
  case places =>
    intro d
    have hd := h7 d
    cases hpc : s.pc d <;> simp only [hpc, State.relies, State.setTask_task, State.setTask_rq,
      Function.update_apply] at hd ⊢ <;> grind -ring -linarith [Task.Stays]
  all_goals grind -ring -linarith

omit [DecidableEq U] in
theorem Watch.lockRq (h : Watch s) (c : Fin n) : Watch (s.lockRq c) := h.setRq (Or.inl rfl)

omit [DecidableEq U] in
theorem Watch.unlockRq (h : Watch s) (c : Fin n) : Watch (s.unlockRq c) := h.setRq (Or.inl rfl)

theorem Watch.lockPi (h : Watch s) (p : Tid n U) (c : Fin n) : Watch (s.lockPi p c) :=
  h.setTask_same ⟨rfl, rfl, rfl⟩ (Or.inl rfl) (Or.inl (.of_same rfl rfl))

theorem Watch.unlockPi (h : Watch s) (p : Tid n U) : Watch (s.unlockPi p) :=
  h.setTask_same ⟨rfl, rfl, rfl⟩ (Or.inl rfl) (Or.inl (.of_same rfl rfl))

omit [DecidableEq U] in
theorem State.goto_goto (s : State n U) (c : Fin n) (pc pc' : Pc n U) :
    (s.goto c pc).goto c pc' = s.goto c pc' :=
  congrArg (fun pcs => { s with pc := pcs }) (Function.update_idem _ _ _)

/-! ### Who is not in the way -/

theorem Inv.idle (h : Inv s) {p : Tid n U} (hp : p.isIdle = true) :
    (s.task p).onRq = .queued ∧ (s.task p).state = taskRunning := by
  cases p with
  | idle c => exact ⟨h.dispatch.fixedQueued _ rfl, h.watch.idleState c⟩
  | thread u => cases hp

/-- The current task of a CPU that is not in `__schedule` is queued. -/
theorem Inv.curr_queued (h : Inv s) {c : Fin n} (hpc : s.pc c = .run) :
    (s.task (s.rq c).curr).onRq = .queued := by
  refine h.dispatch.currQueued c ?_
  rw [State.dispatch_phase, hpc]
  rintro ⟨⟩

/-- Once its holder has gone on, nobody is at a place that needs the `pi_lock` of `p`. -/
theorem Inv.free_of_goto (h : Inv s) {c : Fin n} {p : Tid n U} (hp : (s.pc c).piTask = some p) (d : Fin n) :
    ((s.goto c .run).pc d).piTask ≠ some p := by
  rw [State.goto_pc]
  by_cases hd : d = c
  · rw [hd, Function.update_self]
    rintro ⟨⟩
  · rw [Function.update_of_ne hd]
    intro hother
    have hlock := (h.locks.pi p c).mpr hp
    rw [(h.locks.pi p d).mpr hother, Option.some.injEq] at hlock
    exact hd hlock

theorem Inv.free_of_piLock (h : Inv s) {p : Tid n U} (hp : (s.task p).piLock = none) (d : Fin n) :
    (s.pc d).piTask ≠ some p := by
  intro hpc
  have hlock := (h.locks.pi p d).mpr hpc
  rw [hp] at hlock
  cases hlock

theorem Inv.not_at_moving (h : Inv s) {p : Tid n U} (hp : (s.task p).onRq ≠ .moving) (d cpu : Fin n) :
    s.pc d ≠ .moving p cpu := fun hpc => hp (h.dispatch.carrying d p (congrArg Pc.phase hpc))

/-- A task in a wake list is in nobody's hands. -/
theorem Inv.free_of_inbox (h : Inv s) {c : Fin n} {p : Tid n U} {l : List (Tid n U)}
    (hpc : s.pc c = .draining (p :: l)) (d : Fin n) : (s.pc d).piTask ≠ some p := by
  have hmem : p ∈ s.relay.inbox c := by simp [hpc, Pc.llist]
  obtain ⟨hcalled, hhome, hhand⟩ := h.relay.inbox c p hmem
  have hstate : (s.task p).state = taskWaking := of_decide_eq_true hcalled
  have hoff : (s.task p).onRq = .off := (h.watch.called p hstate).1
  intro hd
  rcases Pc.of_piTask hd with hpd | hpd | hpd | ⟨cpu, hpd⟩ | hpd | ⟨cpu, hpd⟩
  · exact (h.watch.matched (Or.inl hpd)).1 hstate
  · exact (h.watch.matched (Or.inr hpd)).1 hstate
  · exact (h.watch.at_place hpd).2.1 hstate
  · exact hhand d (congrArg Pc.hand hpd)
  · obtain rfl : c = d := hhome.symm.trans (h.watch.localTask (Or.inr hpd)).1
    rw [hpc] at hpd
    cases hpd
  · have hmoving : (s.task p).onRq = .moving := h.dispatch.carrying d p (congrArg Pc.phase hpd)
    rw [hoff] at hmoving
    cases hmoving

/-- A task that is not runnable is not new. -/
theorem Inv.not_fresh (h : Inv s) {p : Tid n U} (hp : (s.task p).state ≠ taskRunning) :
    s.newborn p = false ∧ p ∈ s.threads := by
  by_contra hfresh
  refine hp (h.watch.fresh p ?_).2.1
  rcases not_and_or.mp hfresh with hborn | hout
  · exact Or.inl (Bool.not_eq_false _ ▸ hborn)
  · exact Or.inr hout

/-! ### Steps -/

theorem switchCount_same (t : Task n) (voluntary : Bool) :
    (switchCount t voluntary).state = t.state ∧ (switchCount t voluntary).onRq = t.onRq ∧
      (switchCount t voluntary).cpu = t.cpu ∧ (switchCount t voluntary).onCpu = t.onCpu ∧
      (switchCount t voluntary).cpusAllowed = t.cpusAllowed := by
  cases voluntary <;> exact ⟨rfl, rfl, rfl, rfl, rfl⟩

theorem watch_step (h : Inv s) (hs : Step k s t) : Watch t := by
  have hw := h.watch
  cases hs with
  | idle => exact hw
  | @own c t hpc hspot hpi hcsw hmask hstate =>
      have hqueued := h.curr_queued hpc
      refine hw.setTask_of_onRq (queued_ne_off hqueued) ?_ ?_ ?_ (.of_same hmask (congrArg Spot.cpu hspot))
        (Or.inl (congrArg Spot.cpu hspot))
      · rcases hstate with hsame | hnew
        · exact hsame.trans_ne (h.not_waking_of_curr c)
        · exact hnew.2
      · intro hidle
        rcases hstate with hsame | hnew
        · exact ⟨hsame.trans (h.idle hidle).2, congrArg Spot.cpu hspot⟩
        · exact absurd hidle (Bool.eq_false_iff.mp hnew.1)
      · intro hoff
        have hstage : t.onRq = (s.task (s.rq c).curr).onRq := congrArg Spot.stage hspot
        rw [hoff, hqueued] at hstage
        cases hstage
  | fork hu ht hstate =>
      have hoff := (hw.fresh _ (Or.inr hu)).1
      exact hw.fork hu ht hstate (h.not_at_moving (hoff.trans_ne (by decide)))
  | @wakeUpNew u cpu hu hplace =>
      have hoff := (hw.fresh _ (Or.inl hu)).1
      refine Watch.wakeUpNew (hw.setRq (Or.inl ?_)) hu ⟨?_, ?_⟩ ?_
        (h.not_at_moving (hoff.trans_ne (by decide)))
      · rfl
      · rfl
      · rfl
      · exact .of_place rfl hplace
  | @matched c u hpc hpi hstate =>
      refine Watch.goto (hw.lockPi (.thread u) c) ⟨?_, h.not_fresh hstate.2⟩
      rw [State.lockPi_task, Function.update_self]
      exact hstate.1
  | onRq hpc hp => exact hw.goto (hw.matched (Or.inl hpc))
  | offRq hpc hp =>
      obtain ⟨hstate, hborn, hthread⟩ := hw.matched hpc
      exact hw.goto ⟨hp, hstate, hw.asleep _ hthread hp hborn⟩
  | remote hpc hp => exact Watch.goto (Watch.unlockPi (hw.setTask_running hp) _) trivial
  | @place c p cpu t hpc hp hplace ht hpi hmask hstate =>
      obtain ⟨hoff, -, hasleep⟩ := hw.at_place hpc
      have hrun : Watch (s.goto c .run) := hw.goto trivial
      have hplaced : Watch ((s.goto c .run).setTask p t) := by
        refine Watch.setTask_of_state hrun hasleep ?_ ?_ ?_ ?_
        · exact h.free_of_goto (by rw [hpc]; rfl)
        · exact fun _ => ⟨ht.1.trans hoff, ht.2.1.trans hp⟩
        · exact fun _ => hstate.trans_ne (Ne.symm running_ne_waking)
        · exact .of_place hmask (ht.2.2.symm ▸ hplace)
      have hgoto : Watch (((s.setTask p t).goto c .run).goto c (.placing p cpu)) := by
        have htask : (s.setTask p t).task p = t := Function.update_self _ _ _
        have hcalled : ((s.setTask p t).task p).state = taskWaking := (congrArg Task.state htask).trans hstate
        have hcpu : ((s.setTask p t).task p).cpu = cpu := (congrArg Task.cpu htask).trans ht.2.2
        exact Watch.goto hplaced ⟨hcalled, hcpu⟩
      rwa [State.goto_goto] at hgoto
  | post hpc =>
      refine Watch.goto (Watch.unlockPi (hw.setRq (Or.inl ?_)) _) ?_
      · rfl
      · trivial
  | @queue c p cpu hpc =>
      obtain ⟨hstate, -⟩ := hw.at_place hpc
      have hfree := h.free_of_goto (c := c) (p := p) (by rw [hpc]; rfl)
      have hrun : Watch (s.goto c .run) := hw.goto trivial
      refine Watch.unlockPi (Watch.setTask_of_state (hrun.setRq (Or.inl ?_)) ?_ hfree ?_ ?_ ?_) p
      · rfl
      · exact hstate.trans_ne (Ne.symm running_ne_waking)
      · exact fun heq => absurd heq running_ne_waking
      · rintro ⟨⟩
      · exact .of_same rfl rfl
  | ipi hpc =>
      refine Watch.goto (hw.setRq (Or.inl ?_)) ?_
      · rfl
      · trivial
  | pendingLock hpc => exact (hw.lockRq _).goto trivial
  | @pending c p l hpc =>
      have hmem : p ∈ s.relay.inbox c := by simp [hpc, Pc.llist]
      have hstate : (s.task p).state = taskWaking := of_decide_eq_true (h.relay.inbox c p hmem).1
      refine Watch.goto (Watch.setTask_of_state (hw.setRq (Or.inl ?_)) ?_ ?_ ?_ ?_ ?_) trivial
      · rfl
      · exact hstate.trans_ne (Ne.symm running_ne_waking)
      · exact h.free_of_inbox hpc
      · exact fun heq => absurd heq running_ne_waking
      · rintro ⟨⟩
      · exact .of_same rfl rfl
  | pendingEnd hpc => exact (hw.unlockRq _).goto trivial
  | schedule hpc => exact (hw.lockRq _).goto trivial
  | signal hpc => exact Watch.goto (Watch.lockRq (hw.setTask_running (h.curr_queued hpc)) _) trivial
  | @sleep c pc hpc hrq hstate hto =>
      have hqueued := h.curr_queued hpc
      refine Watch.goto (Watch.lockRq (Watch.setTask_of_onRq (hw.setRq (Or.inl ?_))
        (queued_ne_off hqueued) ?_ ?_ ?_ ?_ (Or.inl ?_)) _) ?_
      · rfl
      · exact h.not_waking_of_curr c
      · exact fun hidle => absurd hidle (Bool.eq_false_iff.mp (h.curr_not_idle hstate))
      · exact fun _ => hstate
      · exact .of_same rfl rfl
      · rfl
      · rcases hto with rfl | rfl <;> trivial
  | worker hpc => exact hw.goto trivial
  | workerLocal hpc hp hpi hqueued => exact Watch.goto (hw.setTask_running hqueued) trivial
  | workerActivate hpc hp hpi hqueued hstate =>
      refine Watch.goto (Watch.setTask_of_state (hw.setRq (Or.inl ?_)) hstate.2
        (h.free_of_piLock hpi) ?_ ?_ ?_) trivial
      · rfl
      · exact fun heq => absurd heq running_ne_waking
      · rintro ⟨⟩
      · exact .of_same rfl rfl
  | workerBusy hpc hp hne hbound hthread =>
      refine Watch.goto (hw.unlockRq _) ⟨hp, ?_, hbound, hthread⟩
      rw [State.unlockRq_rq, Function.update_self]
      exact hne
  | @localPi c p hpc hpi =>
      obtain ⟨hcpu, hne, hbound, hthread⟩ := hw.localTask (Or.inl hpc)
      have htask : (s.lockPi p c).task p = { s.task p with piLock := some c } := Function.update_self _ _ _
      refine Watch.goto (hw.lockPi p c) ⟨?_, hne, ?_, hthread⟩
      · rw [htask]
        exact hcpu
      · rw [htask]
        exact hbound
  | localOut hpc => exact Watch.goto ((hw.lockRq _).unlockPi _) trivial
  | localWake hpc hrq hqueued =>
      exact Watch.goto (Watch.unlockPi (Watch.lockRq (hw.setTask_running hqueued) _) _) trivial
  | @localActivate c p hpc hrq hqueued hstate =>
      have hfree := h.free_of_goto (c := c) (p := p) (by rw [hpc]; rfl)
      have hrun : Watch (s.goto c .run) := hw.goto trivial
      have hset : Watch (((s.goto c .run).setRq c ((s.rq c).insert p (k.load (s.task p)))).setTask p
          { s.task p with onRq := .queued, state := taskRunning }) := by
        refine Watch.setTask_of_state (hrun.setRq (Or.inl ?_)) hstate.2 hfree ?_ ?_ ?_
        · rfl
        · exact fun heq => absurd heq running_ne_waking
        · rintro ⟨⟩
        · exact .of_same rfl rfl
      have hgoto : Watch ((((((s.setRq c ((s.rq c).insert p (k.load (s.task p)))).setTask p
          { s.task p with onRq := .queued, state := taskRunning }).lockRq c).unlockPi p).goto c .run).goto c
          (.picking true)) := Watch.goto ((hset.lockRq c).unlockPi p) trivial
      rwa [State.goto_goto] at hgoto
  | unlock hpc => exact (hw.unlockRq _).goto trivial
  | relock hpc => exact (hw.lockRq _).goto trivial
  | stay hpc => exact (hw.unlockRq _).goto trivial
  | @switch c voluntary next hpc hnext hne =>
      obtain ⟨hqueued, -⟩ := h.next hnext
      have hother (p : Tid n U) : s.pc c ≠ .localPi p ∧ s.pc c ≠ .localRq p := by simp [hpc]
      have hprev : Watch ((s.setRq c
          { s.rq c with nrSwitches := (s.rq c).nrSwitches + 1, curr := next }).setTask
          (s.rq c).curr (switchCount (s.task (s.rq c).curr) voluntary)) := by
        obtain ⟨hstate, hon, hcpu, honCpu, hmask⟩ := switchCount_same (s.task (s.rq c).curr) voluntary
        exact Watch.setTask_same (hw.setRq (Or.inr hother)) ⟨hstate, hon, hcpu⟩ (Or.inl honCpu)
          (Or.inl (.of_same hmask hcpu))
      have htask : (Function.update s.task (s.rq c).curr (switchCount (s.task (s.rq c).curr) voluntary))
          next = s.task next := Function.update_of_ne (Ne.symm hne) _ _
      have hnext : (((s.setRq c { s.rq c with nrSwitches := (s.rq c).nrSwitches + 1, curr := next }).setTask
          (s.rq c).curr (switchCount (s.task (s.rq c).curr) voluntary)).task next) = s.task next := htask
      refine Watch.goto (hprev.setTask_of_onRq ?_ ?_ ?_ ?_ ?_ (Or.inl ?_)) trivial
      · rw [hnext]
        exact queued_ne_off hqueued
      · exact h.not_waking_of_onRq (queued_ne_off hqueued)
      · rw [hnext]
        exact fun hidle => ⟨(h.idle hidle).2, rfl⟩
      · exact fun hoff => absurd (hqueued.symm.trans hoff) (by decide)
      · rw [hnext]
        exact .of_same rfl rfl
      · rw [hnext]
  | finish hpc =>
      refine Watch.goto (Watch.unlockRq (hw.setTask_same ⟨?_, ?_, ?_⟩ (Or.inr ?_) (Or.inl (.of_same ?_ ?_)))
        _) ?_
      · rfl
      · rfl
      · rfl
      · rfl
      · rfl
      · rfl
      · trivial
  | @migrate c u cpu hpc hpi hrq hqueued hcurr hplace =>
      have hno := h.not_waking_of_onRq (queued_ne_off hqueued)
      have hmoving := h.not_at_moving (p := .thread u) (hqueued.trans_ne (by decide))
      refine Watch.goto (Watch.lockPi (Watch.setTask_of_onRq (hw.setRq (Or.inl ?_))
        (queued_ne_off hqueued) ?_ ?_ ?_ ?_ (Or.inr hmoving)) _ _) ?_
      · rfl
      · exact hno
      · rintro ⟨⟩
      · rintro ⟨⟩
      · exact .of_place rfl hplace
      · simp [State.relies, setTaskCpu]
  | @migrated c p cpu hpc =>
      have hmoving : (s.task p).onRq = .moving := h.dispatch.carrying c p (congrArg Pc.phase hpc)
      have hoff : (s.task p).onRq ≠ .off := by
        rw [hmoving]
        decide
      refine Watch.goto (Watch.unlockPi (Watch.setTask_of_onRq (hw.setRq (Or.inl ?_)) hoff ?_ ?_ ?_ ?_
        (Or.inl ?_)) _) ?_
      · rfl
      · exact h.not_waking_of_onRq hoff
      · exact fun hidle => ⟨(h.idle hidle).2, rfl⟩
      · rintro ⟨⟩
      · exact .of_same rfl rfl
      · rfl
      · trivial
  | @mask u newMask hlocal hpi =>
      refine hw.setTask_same ⟨rfl, rfl, rfl⟩ (Or.inl rfl) (Or.inr fun d => ⟨hlocal d, fun hd => ?_⟩)
      exact h.free_of_piLock hpi d (by rw [hd]; rfl)
  | wakeCpu => exact hw.setTask_same ⟨rfl, rfl, rfl⟩ (Or.inl rfl) (Or.inl (.of_same rfl rfl))
  | @transfer u cpu hrq hqueued hcurr hplace =>
      have hno := h.not_waking_of_onRq (queued_ne_off hqueued)
      have hmoving := h.not_at_moving (p := .thread u) (hqueued.trans_ne (by decide))
      refine Watch.setRq (Watch.setTask_of_onRq (hw.setRq (Or.inl ?_)) (queued_ne_off hqueued) ?_ ?_ ?_
        ?_ (Or.inr hmoving)) (Or.inl ?_)
      · rfl
      · exact hno
      · rintro ⟨⟩
      · exact fun hoff => absurd (hqueued.symm.trans hoff) (by decide)
      · exact .of_place rfl hplace
      · rfl

end Lkm.Runq
