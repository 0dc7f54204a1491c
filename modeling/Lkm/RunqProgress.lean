import Lkm.RunqRuns

/-! The locks and the wait for `on_cpu` never block each other: while a CPU is in the scheduler, one of
the CPUs in it can go on. The order in which `double_rq_lock` takes its locks is not part of this: a
section that takes several locks before it changes anything is one step. -/

namespace Lkm.Runq

open Dispatch

variable {n : Nat} {U : Type} [DecidableEq U] {k : Kernel} {s t : State n U}

/-- The CPU that takes the step. -/
def Event.cpu : Event n U → Fin n
  | .setState c _ | .setFlags c _ | .fork c _ _ _ _ | .wakeUpNew c _ _ | .tryToWakeUp c _ _ | .ttwuOnRq c _
  | .ttwuRemote c _ | .ttwuPlace c _ _ | .ttwuQueue c _ _ _ | .ipi c | .pendingLock c _ | .pending c _
  | .schedule c _ _ | .workerSleeping c _ | .localPi c _ | .localRq c _ | .unlock c _ | .relock c _
  | .pick c _ _ | .finish c _ | .setCpusAllowed c _ _ | .migrate c _ _ | .migrated c _ _ | .swap c _ _
  | .balance c _ _ => c

namespace State

/-- What a CPU waits for: a run queue lock, the `pi_lock` of a task, or that a task leaves its CPU. -/
def waits (s : State n U) (c : Fin n) : Prop :=
  match s.pc c with
  | .remote p => s.rqFree (s.task p).cpu = false ∨ (s.task p).onRq = .moving
  | .spin p => (s.task p).onCpu = true
  | .placing _ cpu | .moving _ cpu => s.rqFree cpu = false
  | .pending _ | .localRq _ | .balancing _ => s.rqFree c = false
  | .localPi p => s.piFree p = false
  | _ => False

/-- In the scheduler, waiting for nothing, and with a step that it can take. -/
def Going (s : State n U) (c : Fin n) : Prop :=
  s.pc c ≠ .run ∧ ¬s.waits c ∧ ∃ e, e.cpu = c ∧ s.enabled e = true

end State

/-! ### Every task may run somewhere -/

def State.masks (s : State n U) (p : Tid n U) : Fin n → Bool := (s.task p).cpusAllowed

@[simp] theorem masks_setTask (s : State n U) {p : Tid n U} {t : Task n}
    (h : t.cpusAllowed = (s.task p).cpusAllowed) : (s.setTask p t).masks = s.masks :=
  funext (seen_setTask Task.cpusAllowed s h)

omit [DecidableEq U] in
@[simp] theorem masks_setRq (s : State n U) (c : Fin n) (rq : Rq n U) : (s.setRq c rq).masks = s.masks := rfl

omit [DecidableEq U] in
@[simp] theorem masks_goto (s : State n U) (c : Fin n) (pc : Pc n U) : (s.goto c pc).masks = s.masks := rfl

@[simp] theorem masks_lockPi (s : State n U) (p : Tid n U) (c : Fin n) : (s.lockPi p c).masks = s.masks :=
  masks_setTask s rfl

@[simp] theorem masks_unlockPi (s : State n U) (p : Tid n U) : (s.unlockPi p).masks = s.masks :=
  masks_setTask s rfl

def Placeable (s : State n U) : Prop := ∀ p, ∃ c, s.masks p c = true

theorem Placeable.setTask (h : Placeable s) {p : Tid n U} {t : Task n} (ht : ∃ c, t.cpusAllowed c = true) :
    Placeable (s.setTask p t) := by
  intro q
  unfold State.masks
  by_cases hq : q = p
  · rw [hq, State.setTask_task, Function.update_self]
    exact ht
  · rw [State.setTask_task, Function.update_of_ne hq]
    exact h q

/-- Only a fork and `set_cpus_allowed_ptr` write the mask, and never an empty one. -/
theorem placeable_step (h : Placeable s) (hs : Step k s t) : Placeable t := by
  have same {m : Tid n U → Fin n → Bool} (heq : m = s.masks) : ∀ p, ∃ c, m p c = true := by
    rw [heq]
    exact h
  cases hs with
  | idle => exact h
  | own hpc hspot hpi hcsw hmask => exact same (masks_setTask s hmask)
  | fork hu ht hstate hpi hcsw hmask => exact Placeable.setTask h hmask
  | wakeUpNew hu hplace =>
      refine same ((masks_setTask _ ?_).trans (masks_setRq s _ _))
      rfl
  | place hpc hp hplace ht hpi hmask => exact same (masks_setTask s hmask)
  | @switch c voluntary next hpc hnext hne =>
      have hcount : (switchCount (s.task (s.rq c).curr) voluntary).cpusAllowed =
          (s.task (s.rq c).curr).cpusAllowed := by cases voluntary <;> rfl
      refine same ?_
      rw [masks_goto, masks_setTask, masks_setTask, masks_setRq]
      · exact hcount
      · rw [State.setTask_task, Function.update_of_ne (Ne.symm hne)]
        rfl
  | mask hlocal hpi hmask => exact h.setTask hmask
  | _ => exact same (by simp [State.lockRq, State.unlockRq, setTaskCpu])

/-! ### Who can go on -/

/-- A CPU with its own run queue locked waits for nothing. -/
theorem going_of_holdsRq {c : Fin n} (hc : (s.pc c).holdsRq = true) : s.Going c := by
  cases hpc : s.pc c with
  | draining l =>
      refine ⟨by simp [hpc], by simp [State.waits, hpc], .pending c l, rfl, ?_⟩
      simp [State.enabled, hpc]
  | worker =>
      refine ⟨by simp [hpc], by simp [State.waits, hpc], .workerSleeping c none, rfl, ?_⟩
      simp [State.enabled, hpc]
  | picking voluntary =>
      refine ⟨by simp [hpc], by simp [State.waits, hpc], .pick c voluntary (.idle c), rfl, ?_⟩
      simp [State.enabled, hpc]
  | switching prev =>
      refine ⟨by simp [hpc], by simp [State.waits, hpc], .finish c prev, rfl, ?_⟩
      simp [State.enabled, hpc]
  | _ => simp [hpc, Pc.holdsRq] at hc

theorem Inv.going_of_locked (h : Inv s) {c : Fin n} (hc : s.rqFree c = false) : s.Going c := by
  refine going_of_holdsRq ?_
  cases hlock : (s.rq c).lock with
  | none => simp [State.rqFree, hlock] at hc
  | some d => exact ((h.locks.rq c d).mp hlock).2

theorem Inv.rqFree_of_holdsRq (h : Inv s) {c : Fin n} (hc : (s.pc c).holdsRq = false) :
    s.rqFree c = true := by
  cases hlock : (s.rq c).lock with
  | none => simp [State.rqFree, hlock]
  | some d =>
      have hholds := ((h.locks.rq c d).mp hlock).2
      rw [hc] at hholds
      cases hholds

theorem going_of_not_waits (hplace : Placeable s) {c : Fin n} (hc : s.pc c ≠ .run) (hwaits : ¬s.waits c) :
    s.Going c := by
  refine ⟨hc, hwaits, ?_⟩
  cases hpc : s.pc c with
  | run => exact absurd hpc hc
  | waking p => exact ⟨.ttwuOnRq c p, rfl, by simp [State.enabled, hpc]⟩
  | remote p =>
      simp only [State.waits, hpc, not_or, Bool.not_eq_false] at hwaits
      exact ⟨.ttwuRemote c p, rfl, by simp [State.enabled, hpc, hwaits]⟩
  | spin p =>
      simp only [State.waits, hpc, Bool.not_eq_true] at hwaits
      obtain ⟨cpu, hcpu⟩ := hplace p
      exact ⟨.ttwuPlace c p cpu, rfl, decide_eq_true ⟨hpc, hwaits, hcpu⟩⟩
  | placing p cpu =>
      simp only [State.waits, hpc, Bool.not_eq_false] at hwaits
      exact ⟨.ttwuQueue c p cpu false, rfl, by simp [State.enabled, hpc, hwaits]⟩
  | pending l =>
      simp only [State.waits, hpc, Bool.not_eq_false] at hwaits
      exact ⟨.pendingLock c l, rfl, by simp [State.enabled, hpc, hwaits]⟩
  | localPi p =>
      simp only [State.waits, hpc, Bool.not_eq_false] at hwaits
      exact ⟨.localPi c p, rfl, by simp [State.enabled, hpc, hwaits]⟩
  | localRq p =>
      simp only [State.waits, hpc, Bool.not_eq_false] at hwaits
      exact ⟨.localRq c p, rfl, by simp [State.enabled, hpc, hwaits]⟩
  | balancing voluntary =>
      simp only [State.waits, hpc, Bool.not_eq_false] at hwaits
      exact ⟨.relock c voluntary, rfl, by simp [State.enabled, hpc, hwaits]⟩
  | moving p cpu =>
      simp only [State.waits, hpc, Bool.not_eq_false] at hwaits
      exact ⟨.migrated c p cpu, rfl, by simp [State.enabled, hpc, hwaits]⟩
  | _ => exact (going_of_holdsRq (by rw [hpc]; rfl)).2.2

theorem Inv.not_moving_of_remote (h : Inv s) {c : Fin n} {p : Tid n U} (hpc : s.pc c = .remote p) :
    (s.task p).onRq ≠ .moving := by
  refine h.not_moving_of_piTask (c := c) (by rw [hpc]; rfl) fun cpu hmoving => ?_
  rw [hpc] at hmoving
  cases hmoving

/-- The holder of the `pi_lock` that a CPU in `try_to_wake_up_local` waits for. -/
theorem Inv.going_of_local (h : Inv s) (hplace : Placeable s) {c d : Fin n} {p : Tid n U}
    (hc : s.pc c = .localPi p) (hd : (s.pc d).piTask = some p) : ∃ e, s.Going e := by
  obtain ⟨hcpu, hcurr, -⟩ := h.watch.localTask (Or.inl hc)
  have hfree : s.rqFree c = true := h.rqFree_of_holdsRq (by rw [hc]; rfl)
  have hon : (s.task p).onCpu = false := by
    refine h.onCpu_false (by rw [hcpu]; exact Ne.symm hcurr) ?_
    rw [hcpu, hc]
    rintro ⟨⟩
  by_cases hwaits : s.waits d
  · rcases Pc.of_piTask hd with hpc | hpc | hpc | ⟨cpu, hpc⟩ | hpc | ⟨cpu, hpc⟩ <;>
      simp only [State.waits, hpc] at hwaits
    · rcases hwaits with hlocked | hmoving
      · rw [hcpu, hfree] at hlocked
        cases hlocked
      · exact absurd hmoving (h.not_moving_of_remote hpc)
    · rw [hon] at hwaits
      cases hwaits
    · exact ⟨cpu, h.going_of_locked hwaits⟩
    · rw [h.rqFree_of_holdsRq (by rw [hpc]; rfl)] at hwaits
      cases hwaits
    · exact ⟨cpu, h.going_of_locked hwaits⟩
  · refine ⟨d, going_of_not_waits hplace ?_ hwaits⟩
    intro hrun
    rw [hrun] at hd
    cases hd

/-- A CPU between its current task and the next one is led by somebody who can go on. -/
theorem Inv.going_of_deciding (h : Inv s) (hplace : Placeable s) {c : Fin n}
    (hc : (s.pc c).phase = .deciding) : ∃ d, s.Going d := by
  have hrun : s.pc c ≠ .run := by
    intro hpc
    rw [hpc] at hc
    cases hc
  by_cases hwaits : s.waits c
  · cases hpc : s.pc c with
    | localPi p =>
        simp only [State.waits, hpc, State.piFree, decide_eq_false_iff_not] at hwaits
        obtain ⟨d, hd⟩ := Option.ne_none_iff_exists'.mp hwaits
        exact h.going_of_local hplace hpc ((h.locks.pi p d).mp hd)
    | localRq p =>
        simp only [State.waits, hpc] at hwaits
        rw [h.rqFree_of_holdsRq (by rw [hpc]; rfl)] at hwaits
        cases hwaits
    | balancing voluntary =>
        simp only [State.waits, hpc] at hwaits
        rw [h.rqFree_of_holdsRq (by rw [hpc]; rfl)] at hwaits
        cases hwaits
    | _ => simp [State.waits, hpc, Pc.phase] at hwaits hc
  · exact ⟨c, going_of_not_waits hplace hrun hwaits⟩

/-- While a task runs, its CPU has it as the current task, or is switching from it. -/
theorem Inv.going_of_onCpu (h : Inv s) (hplace : Placeable s) {p : Tid n U} (hoff : (s.task p).onRq = .off)
    (hon : (s.task p).onCpu = true) : ∃ d, s.Going d := by
  rcases h.dispatch.onCpu p hon with hcurr | hswitching
  · by_cases hphase : (s.pc (s.task p).cpu).phase = .deciding
    · exact h.going_of_deciding hplace hphase
    · have hqueued : (s.task (s.rq (s.task p).cpu).curr).onRq = .queued :=
        h.dispatch.currQueued _ hphase
      rw [show (s.rq (s.task p).cpu).curr = p from hcurr, hoff] at hqueued
      cases hqueued
  · have hpc := Pc.phase_eq_switching.mp hswitching
    exact ⟨_, going_of_holdsRq (by rw [hpc]; rfl)⟩

theorem Inv.going (h : Inv s) (hplace : Placeable s) {c : Fin n} (hc : s.pc c ≠ .run) : ∃ d, s.Going d := by
  by_cases hwaits : s.waits c
  · cases hpc : s.pc c with
    | remote p =>
        simp only [State.waits, hpc] at hwaits
        rcases hwaits with hlocked | hmoving
        · exact ⟨_, h.going_of_locked hlocked⟩
        · exact absurd hmoving (h.not_moving_of_remote hpc)
    | spin p =>
        simp only [State.waits, hpc] at hwaits
        exact h.going_of_onCpu hplace (h.watch.at_place hpc).1 hwaits
    | placing p cpu =>
        simp only [State.waits, hpc] at hwaits
        exact ⟨cpu, h.going_of_locked hwaits⟩
    | moving p cpu =>
        simp only [State.waits, hpc] at hwaits
        exact ⟨cpu, h.going_of_locked hwaits⟩
    | pending l =>
        simp only [State.waits, hpc] at hwaits
        exact ⟨c, h.going_of_locked hwaits⟩
    | localPi p => exact h.going_of_deciding hplace (c := c) (by rw [hpc]; rfl)
    | localRq p => exact h.going_of_deciding hplace (c := c) (by rw [hpc]; rfl)
    | balancing voluntary => exact h.going_of_deciding hplace (c := c) (by rw [hpc]; rfl)
    | _ => simp [State.waits, hpc] at hwaits
  · exact ⟨c, going_of_not_waits hplace hc hwaits⟩

/-! ### Every run -/

theorem boot_placeable (cpu : Fin n) : Placeable (boot n U cpu) := by
  rintro (c | u)
  · exact ⟨c, decide_eq_true rfl⟩
  · exact ⟨cpu, decide_eq_true rfl⟩

theorem going_step {e : Event n U} (h : Inv s ∧ Placeable s) (ht : step k s e = some t) :
    Inv t ∧ Placeable t := by
  have hsteps := step_steps h.1 ht
  clear ht
  induction hsteps with
  | refl => exact h
  | tail _ hs ih => exact ⟨ih.1.step hs, placeable_step ih.2 hs⟩

end Lkm.Runq
