import Lkm.SchedModel

/-! What the counters of `assg4.c` count. The hook is called after `switch_to` with the locals of
the incoming task's frame, so `sched_counter` is charged to the CPU on which that task was last
switched out, a first run is not counted, and `per_pid_switch_counter` counts the switches away
from the monitored task. Both counters are right in every state of a run exactly when no step of
the run is one of those that they get wrong. -/

namespace Lkm.Sched

open Runs

variable {T : Type} [DecidableEq T] {pidOf : T → Int}

/-! ### Switches per CPU -/

/-- Observer: how many context switches `__schedule` has performed on each CPU. -/
def countSwitches (n : Cpu → Nat) (s : State T) (e : Event T) : Cpu → Nat :=
  match switchOf s e with
  | some (cpu, _) => Function.update n cpu (n cpu + 1)
  | none => n

/-- `sched_counter` is the number of switches and the growth of `nr_switches` since `s₀`. -/
def SchedCounterExact (s₀ : State T) (sn : State T × (Cpu → Nat)) : Prop :=
  ∀ c, sn.1.mod.schedCounter c = BitVec.ofNat 64 (sn.2 c) ∧
    sn.1.mod.schedCounter c = (sn.1.rq c).nrSwitches - (s₀.rq c).nrSwitches

/-- A task that the step switches in was last switched out on the CPU that now switches it in. -/
def ReturnsToSameCpu (s : State T) (e : Event T) : Prop :=
  ∀ cpu next, switchOf s e = some (cpu, next) →
    ∃ frame, s.resume next = .contextSwitch frame ∧ frame.rq = cpu

/-- `nr_switches` itself is exact, whatever the tasks do. -/
def NrSwitchesExact (s₀ : State T) (sn : State T × (Cpu → Nat)) : Prop :=
  sn.1.hooks.contextCounter = true ∧
    ∀ c, (sn.1.rq c).nrSwitches - (s₀.rq c).nrSwitches = BitVec.ofNat 64 (sn.2 c)

theorem nrSwitchesExact_step {s₀ s t : State T} {n : Cpu → Nat} {e : Event T}
    (hinv : NrSwitchesExact s₀ (s, n)) (h : step pidOf s e = some t) :
    NrSwitchesExact s₀ (t, countSwitches n s e) := by
  obtain ⟨hhook, hcount⟩ := hinv
  simp only at hhook hcount
  unfold NrSwitchesExact countSwitches
  cases hsw : switchOf s e with
  | none =>
      obtain ⟨hhooks, -, hnr⟩ := step_quiet h hsw
      simp only [hhooks, hnr]
      exact ⟨hhook, hcount⟩
  | some sw =>
      obtain ⟨cpu, next⟩ := sw
      obtain ⟨-, hhooks, hnr, -⟩ := step_switch hhook h hsw
      simp only [hhooks, hnr]
      refine ⟨hhook, fun c => ?_⟩
      by_cases hc : c = cpu
      · subst hc
        rw [if_pos rfl, Function.update_self]
        calc (s.rq c).nrSwitches + 1 - (s₀.rq c).nrSwitches
            = (s.rq c).nrSwitches - (s₀.rq c).nrSwitches + 1 := by bv_omega
          _ = BitVec.ofNat 64 (n c) + BitVec.ofNat 64 1 := by rw [hcount c]; rfl
          _ = BitVec.ofNat 64 (n c + 1) := (BitVec.ofNat_add _ _).symm
      · rw [if_neg hc, Function.update_of_ne hc]
        exact hcount c

omit [DecidableEq T] in
theorem schedCounterExact_iff {s₀ : State T} {sn : State T × (Cpu → Nat)}
    (hinv : NrSwitchesExact s₀ sn) :
    SchedCounterExact s₀ sn ↔ ∀ c, sn.1.mod.schedCounter c = BitVec.ofNat 64 (sn.2 c) := by
  refine forall_congr' fun c => ?_
  rw [hinv.2 c, and_self]

/-- One switch keeps `sched_counter` exact if the hook charges it to the CPU that performs it. -/
theorem schedCounter_step {s t : State T} {n : Cpu → Nat} {e : Event T}
    (hhook : s.hooks.contextCounter = true)
    (hexact : ∀ c, s.mod.schedCounter c = BitVec.ofNat 64 (n c)) (h : step pidOf s e = some t) :
    (∀ c, t.mod.schedCounter c = BitVec.ofNat 64 (countSwitches n s e c)) ↔
      ReturnsToSameCpu s e := by
  unfold ReturnsToSameCpu countSwitches
  cases hsw : switchOf s e with
  | none =>
      obtain ⟨-, hcounters, -⟩ := step_quiet h hsw
      have hsched : t.mod.schedCounter = s.mod.schedCounter :=
        congrArg Counters.schedCounter hcounters
      simp only [hsched, hexact, reduceCtorEq, false_imp_iff, implies_true]
  | some sw =>
      obtain ⟨cpu, next⟩ := sw
      obtain ⟨-, -, -, hcounters⟩ := step_switch hhook h hsw
      have hlost : s.mod.schedCounter cpu ≠ BitVec.ofNat 64 (n cpu + 1) := by
        rw [hexact cpu, BitVec.ofNat_add]
        bv_omega
      simp only [Option.some.injEq, Prod.mk.injEq, and_imp, forall_eq', forall_apply_eq_imp_iff]
      rcases hcounters with ⟨frame, hresume, hcounters⟩ | ⟨hresume, hcounters⟩
      · have hsched : t.mod.schedCounter =
            Function.update s.mod.schedCounter frame.rq (s.mod.schedCounter frame.rq + 1) :=
          congrArg Counters.schedCounter hcounters
        simp only [hsched, hresume, Resume.contextSwitch.injEq, exists_eq_left']
        constructor
        · intro hafter
          by_contra hrq
          have hcpu := hafter cpu
          rw [Function.update_self, Function.update_of_ne (Ne.symm hrq)] at hcpu
          exact hlost hcpu
        · rintro rfl c
          by_cases hc : c = frame.rq
          · subst hc
            rw [Function.update_self, Function.update_self, hexact frame.rq, BitVec.ofNat_add]
            rfl
          · rw [Function.update_of_ne hc, Function.update_of_ne hc]
            exact hexact c
      · have hsched : t.mod.schedCounter = s.mod.schedCounter :=
          congrArg Counters.schedCounter hcounters
        simp only [hsched, hresume, reduceCtorEq, false_and, exists_false, iff_false]
        intro hafter
        have hcpu := hafter cpu
        rw [Function.update_self] at hcpu
        exact hlost hcpu

/-- `sched_counter[c]` is the number of context switches performed on CPU `c` since `init`, in
every state of a run, exactly when the run never switches in a task that last ran on another CPU or
has never run. -/
theorem schedCounter_exact_iff (s₀ : State T) (pid : Int) (es : List (Event T)) :
    Always (watch (step pidOf) countSwitches) (SchedCounterExact s₀) (loaded pid s₀, fun _ => 0) es ↔
      Each (watch (step pidOf) countSwitches) (fun sn e _ => ReturnsToSameCpu sn.1 e)
        (loaded pid s₀, fun _ => 0) es := by
  have hstart : NrSwitchesExact s₀ (loaded pid s₀, fun _ => 0) :=
    ⟨rfl, fun c => BitVec.sub_self _⟩
  refine always_exact (NrSwitchesExact s₀) ?_ ?_ hstart ?_ es
  · rintro ⟨s, n⟩ e ⟨t, m⟩ hinv hexact h
    obtain ⟨hstep, rfl⟩ := watch_eq_some.mp h
    rw [schedCounterExact_iff (nrSwitchesExact_step hinv hstep)]
    exact schedCounter_step hinv.1 ((schedCounterExact_iff hinv).mp hexact) hstep
  · rintro ⟨s, n⟩ e ⟨t, m⟩ hinv _ h _
    obtain ⟨hstep, rfl⟩ := watch_eq_some.mp h
    exact nrSwitchesExact_step hinv hstep
  · exact (schedCounterExact_iff hstart).mpr fun c => rfl

/-- Five tasks: task `c` runs on CPU `c`, and task 4 waits, last switched out on CPU 0. -/
def fiveTasks : State (Fin 5) where
  rq := fun c => { curr := c.castSucc, nrRunning := 1, nrSwitches := 0 }
  stats := fun _ => ⟨0, 0, 0, 0, 0, 0⟩
  taskCpu := fun t => if h : t.val < 4 then ⟨t.val, h⟩ else 0
  resume := fun _ => .contextSwitch ⟨0, 0⟩
  hooks := ⟨false, false, false⟩
  mod := Globals.zero 0

def fiveTasksPid (t : Fin 5) : Int := t.val

/-- A task that is switched out on CPU 0 and migrates to CPU 1 is counted on CPU 0. -/
theorem schedCounter_migrated :
    ¬Always (watch (step fiveTasksPid) countSwitches) (SchedCounterExact fiveTasks)
      (loaded 4 fiveTasks, fun _ => 0) [.migrate 4 1, .schedule 1 4] := by
  intro h
  have hlast := h.last rfl
  exact absurd (hlast 1).1 (by decide)

/-! ### Switches of the monitored task -/

/-- How often the task with the monitored pid was switched in on each CPU, and where last. -/
structure SwitchIns where
  count : Cpu → Nat
  last : Option Cpu

/-- Observer: the switches that bring in the task with pid `pid`. -/
def recordSwitchIn (pidOf : T → Int) (pid : Int) (w : SwitchIns) (s : State T) (e : Event T) :
    SwitchIns :=
  match switchOf s e with
  | some (cpu, next) =>
      if pidOf next = pid then
        { count := Function.update w.count cpu (w.count cpu + 1), last := some cpu }
      else w
  | none => w

/-- `per_pid_switch_counter` counts the switches in, and `curr_cpu` is the CPU of the last one. -/
def PidCountersExact (sw : State T × SwitchIns) : Prop :=
  (∀ c, sw.1.mod.perPidSwitchCounter c = BitVec.ofNat 64 (sw.2.count c)) ∧
    ∀ c, sw.2.last = some c → sw.1.mod.currCpu = c.val

/-- The step does not switch the monitored task in, and if it switches it out then to a task that
has never run before. -/
def SparesMonitored (pidOf : T → Int) (pid : Int) (s : State T) (e : Event T) : Prop :=
  ∀ cpu next, switchOf s e = some (cpu, next) →
    pidOf next ≠ pid ∧ (pidOf (s.rq cpu).curr = pid → s.resume next = .scheduleTail)

/-- The step switches the monitored task out, to a task that has run before. -/
def Counted (pidOf : T → Int) (s : State T) (e : Event T) (frame : Frame T) : Prop :=
  ∃ cpu next, switchOf s e = some (cpu, next) ∧ pidOf (s.rq cpu).curr = s.mod.pid ∧
    s.resume next = .contextSwitch frame

theorem pidCounters_counted {s t : State T} {e : Event T} (hhook : s.hooks.contextCounter = true)
    (h : step pidOf s e = some t) {frame : Frame T} (hcounted : Counted pidOf s e frame) :
    t.mod.perPidSwitchCounter =
      Function.update s.mod.perPidSwitchCounter frame.rq
        (s.mod.perPidSwitchCounter frame.rq + 1) := by
  obtain ⟨cpu, next, hsw, hout, hresume⟩ := hcounted
  obtain ⟨-, -, -, hcounters⟩ := step_switch hhook h hsw
  rcases hcounters with ⟨frame', hframe, hcounters⟩ | ⟨htail, -⟩
  · rw [hresume, Resume.contextSwitch.injEq] at hframe
    subst hframe
    refine (congrArg Counters.perPidSwitchCounter hcounters).trans ?_
    exact if_pos hout
  · rw [hresume] at htail
    cases htail

theorem pidCounters_not_counted {s t : State T} {e : Event T}
    (hhook : s.hooks.contextCounter = true) (h : step pidOf s e = some t)
    (hnot : ∀ frame, ¬Counted pidOf s e frame) :
    t.mod.perPidSwitchCounter = s.mod.perPidSwitchCounter ∧ t.mod.currCpu = s.mod.currCpu := by
  have hsame (hcounters : t.mod.counters = s.mod.counters) :
      t.mod.perPidSwitchCounter = s.mod.perPidSwitchCounter ∧ t.mod.currCpu = s.mod.currCpu :=
    ⟨congrArg Counters.perPidSwitchCounter hcounters, congrArg Counters.currCpu hcounters⟩
  cases hsw : switchOf s e with
  | none => exact hsame (step_quiet h hsw).2.1
  | some sw =>
      obtain ⟨cpu, next⟩ := sw
      obtain ⟨-, -, -, hcounters⟩ := step_switch hhook h hsw
      rcases hcounters with ⟨frame, hresume, hcounters⟩ | ⟨-, hcounters⟩
      · have hout : pidOf (s.rq cpu).curr ≠ s.mod.pid :=
          fun hout => hnot frame ⟨cpu, next, hsw, hout, hresume⟩
        constructor
        · refine (congrArg Counters.perPidSwitchCounter hcounters).trans ?_
          exact if_neg hout
        · refine (congrArg Counters.currCpu hcounters).trans ?_
          exact if_neg hout
      · exact hsame hcounters

theorem not_counted_of_quiet {s : State T} {e : Event T} (hsw : switchOf s e = none) (frame : Frame T) :
    ¬Counted pidOf s e frame := by
  rintro ⟨cpu, next, hswitch, -⟩
  rw [hsw] at hswitch
  cases hswitch

/-- The hook does not see a switch that brings the monitored task in: the other task of the switch has
another pid. -/
theorem not_counted_of_switchIn (hpid : Function.Injective pidOf) {s : State T} {e : Event T} {cpu : Cpu}
    {next : T} (hsw : switchOf s e = some (cpu, next)) (hne : (s.rq cpu).curr ≠ next)
    (hin : pidOf next = s.mod.pid) (frame : Frame T) : ¬Counted pidOf s e frame := by
  rintro ⟨cpu', next', hswitch, hout, -⟩
  rw [hsw] at hswitch
  cases hswitch
  apply hne
  apply hpid
  calc pidOf (s.rq cpu).curr = s.mod.pid := hout
    _ = pidOf next := hin.symm

/-- The hook counts a switch that takes the monitored task off a CPU and not one that brings it
in, and two tasks of a switch never have the same pid. -/
theorem pidCounters_step (hpid : Function.Injective pidOf) {pid : Int} {s t : State T}
    {w : SwitchIns} {e : Event T} (hhook : s.hooks.contextCounter = true) (hmod : s.mod.pid = pid)
    (hexact : PidCountersExact (s, w)) (h : step pidOf s e = some t) :
    PidCountersExact (t, recordSwitchIn pidOf pid w s e) ↔ SparesMonitored pidOf pid s e := by
  obtain ⟨hcount, hcpu⟩ := hexact
  simp only at hcount hcpu
  unfold SparesMonitored recordSwitchIn PidCountersExact
  cases hsw : switchOf s e with
  | none =>
      obtain ⟨hper, hcurr⟩ := pidCounters_not_counted hhook h (not_counted_of_quiet hsw)
      simp only [hper, hcurr, reduceCtorEq, false_imp_iff, implies_true, iff_true]
      exact ⟨hcount, hcpu⟩
  | some sw =>
      obtain ⟨cpu, next⟩ := sw
      obtain ⟨hne, -, -, hcounters⟩ := step_switch hhook h hsw
      simp only [Option.some.injEq, Prod.mk.injEq, and_imp, forall_eq', forall_apply_eq_imp_iff]
      by_cases hin : pidOf next = pid
      · have hnot := not_counted_of_switchIn hpid hsw hne (hin.trans hmod.symm)
        obtain ⟨hper, -⟩ := pidCounters_not_counted hhook h hnot
        simp only [hin, if_true, hper, ne_eq, not_true_eq_false, false_and, iff_false]
        rintro ⟨hafter, -⟩
        have hlost := hafter cpu
        rw [Function.update_self, hcount cpu, BitVec.ofNat_add] at hlost
        exact absurd hlost (by bv_omega)
      · simp only [hin, if_false, ne_eq, not_false_eq_true, true_and]
        by_cases hcounted : ∃ frame, Counted pidOf s e frame
        · obtain ⟨frame, hframe⟩ := hcounted
          have hper := pidCounters_counted hhook h hframe
          obtain ⟨cpu', next', hswitch, hout, hresume⟩ := hframe
          rw [hsw] at hswitch
          cases hswitch
          refine iff_of_false ?_ ?_
          · rintro ⟨hafter, -⟩
            have hextra := hafter frame.rq
            rw [hper, Function.update_self, hcount frame.rq] at hextra
            exact absurd hextra (by bv_omega)
          · intro hspares
            have htail := hspares (hout.trans hmod)
            rw [hresume] at htail
            cases htail
        · obtain ⟨hper, hcurr⟩ := pidCounters_not_counted hhook h (not_exists.mp hcounted)
          rw [hper, hcurr]
          refine iff_of_true ⟨hcount, hcpu⟩ fun hout => ?_
          rcases hcounters with ⟨frame, hresume, -⟩ | ⟨htail, -⟩
          · exact absurd ⟨frame, cpu, next, hsw, hout.trans hmod.symm, hresume⟩ hcounted
          · exact htail

theorem step_pid {s t : State T} {e : Event T} (hhook : s.hooks.contextCounter = true)
    (h : step pidOf s e = some t) :
    t.hooks.contextCounter = true ∧ t.mod.pid = s.mod.pid := by
  cases hsw : switchOf s e with
  | none =>
      obtain ⟨hhooks, hcounters, -⟩ := step_quiet h hsw
      exact ⟨by rw [hhooks, hhook], congrArg Counters.pid hcounters⟩
  | some sw =>
      obtain ⟨-, hhooks, -, hcounters⟩ := step_switch hhook h hsw
      refine ⟨by rw [hhooks, hhook], ?_⟩
      rcases hcounters with ⟨frame, -, hcounters⟩ | ⟨-, hcounters⟩
      · exact congrArg Counters.pid hcounters
      · exact congrArg Counters.pid hcounters

/-- With distinct pids, `per_pid_switch_counter` and `curr_cpu` describe the switches in of the
monitored task, in every state of a run, exactly when the run never switches that task in and
never switches it out to a task that has run before. -/
theorem pidCounters_exact_iff (hpid : Function.Injective pidOf) (s₀ : State T) (pid : Int)
    (es : List (Event T)) :
    Always (watch (step pidOf) (recordSwitchIn pidOf pid)) PidCountersExact
        (loaded pid s₀, ⟨fun _ => 0, none⟩) es ↔
      Each (watch (step pidOf) (recordSwitchIn pidOf pid))
        (fun sw e _ => SparesMonitored pidOf pid sw.1 e) (loaded pid s₀, ⟨fun _ => 0, none⟩) es := by
  refine always_exact
    (fun sw => sw.1.hooks.contextCounter = true ∧ sw.1.mod.pid = pid) ?_ ?_ ⟨rfl, rfl⟩ ?_ es
  · rintro ⟨s, w⟩ e ⟨t, v⟩ ⟨hhook, hmod⟩ hexact h
    obtain ⟨hstep, rfl⟩ := watch_eq_some.mp h
    exact pidCounters_step hpid hhook hmod hexact hstep
  · rintro ⟨s, w⟩ e ⟨t, v⟩ ⟨hhook, hmod⟩ _ h _
    obtain ⟨hstep, rfl⟩ := watch_eq_some.mp h
    obtain ⟨hhooks, hkept⟩ := step_pid hhook hstep
    exact ⟨hhooks, hkept.trans hmod⟩
  · exact ⟨fun _ => rfl, fun _ hlast => by cases hlast⟩

/-- The same tasks, before task 4 is forked. -/
def beforeFork : State (Fin 5) :=
  { fiveTasks with resume := Function.update fiveTasks.resume 4 .unforked }

/-- The monitored task 2 is switched out for the first run of task 4 and moves to CPU 1. The counters are
right until it is switched in there. -/
theorem pidCounters_exact_iff_beforeFork :
    Always (watch (step fiveTasksPid) (recordSwitchIn fiveTasksPid 2)) PidCountersExact
        (loaded 2 beforeFork, ⟨fun _ => 0, none⟩) [.fork 4 2, .schedule 2 4, .migrate 2 1] ∧
      ¬Always (watch (step fiveTasksPid) (recordSwitchIn fiveTasksPid 2)) PidCountersExact
        (loaded 2 beforeFork, ⟨fun _ => 0, none⟩)
        [.fork 4 2, .schedule 2 4, .migrate 2 1, .schedule 1 2] := by
  have hpid : Function.Injective fiveTasksPid := fun _ _ h => Fin.ext (Int.ofNat.inj h)
  constructor
  · refine (pidCounters_exact_iff hpid beforeFork 2 _).mpr ?_
    refine .cons rfl (fun _ _ hsw => by cases hsw) <| .cons rfl ?_ <|
      .cons rfl (fun _ _ hsw => by cases hsw) .nil
    intro cpu next hsw
    cases hsw
    exact ⟨by decide, fun _ => rfl⟩
  · intro h
    have hes := (pidCounters_exact_iff hpid beforeFork 2 _).mp h
    have hlast := ((((hes _ rfl).2 _ rfl).2 _ rfl).2 _ rfl).1
    exact (hlast 1 2 rfl).1 rfl

/-- Task 4 is switched in once on CPU 0, and no counter records it. -/
theorem pidCounters_switched_in :
    ¬Always (watch (step fiveTasksPid) (recordSwitchIn fiveTasksPid 4)) PidCountersExact
      (loaded 4 fiveTasks, ⟨fun _ => 0, none⟩) [.schedule 0 4] := by
  intro h
  have hlast := h.last rfl
  exact absurd (hlast.1 0) (by decide)

end Lkm.Sched
