import Lkm.RunqWatch
import Mathlib.Algebra.BigOperators.Ring.Finset

/-! Every run: no task is on two CPUs or on two queues, and no wakeup is lost or done twice. -/

namespace Lkm.Runq

open Dispatch

variable {n : Nat} {U : Type} [DecidableEq U] {k : Kernel} {s t : State n U}

/-! ### The invariant in every run -/

@[simp] theorem boot_idle (cpu c : Fin n) : (boot n U cpu).task (.idle c) = initIdle c := rfl

@[simp] theorem boot_thread (cpu : Fin n) (u : U) :
    (boot n U cpu).task (.thread u) = { initIdle cpu with onRq := .off, onCpu := false } := rfl

@[simp] theorem boot_pc (cpu c : Fin n) : (boot n U cpu).pc c = .run := rfl

@[simp] theorem boot_rq (cpu c : Fin n) : (boot n U cpu).rq c =
    { lock := none, curr := .idle c, queue := [], nrUninterruptible := 0, nrSwitches := 0, wakeList := [] } :=
  rfl

@[simp] theorem boot_newborn (cpu : Fin n) (p : Tid n U) : (boot n U cpu).newborn p = false := rfl

/-- Only the idle tasks exist. -/
theorem boot_threads (cpu : Fin n) (p : Tid n U) : p ∈ (boot n U cpu).threads ↔ p.isIdle = true := by
  simp only [boot, Finset.mem_map, Finset.mem_univ, true_and]
  cases p with
  | idle c => exact iff_of_true ⟨c, rfl⟩ rfl
  | thread u => exact iff_of_false (fun ⟨_, h⟩ => by cases h) Bool.false_ne_true

/-- And all of them are runnable. -/
theorem boot_state (cpu : Fin n) (p : Tid n U) : ((boot n U cpu).task p).state = taskRunning := by
  cases p <;> rfl

theorem boot_locks (cpu : Fin n) : Locks (boot n U cpu) := by
  constructor
  · intro c d
    simp [Pc.holdsRq]
  · intro p c
    cases p <;> simp [initIdle, Pc.piTask]

theorem boot_dispatch (cpu : Fin n) : (boot n U cpu).dispatch.Sound Tid.isIdle := by
  constructor
  · rintro c (d | u) <;> simp [initIdle, Task.spot, Tid.isIdle]
  · rintro (d | u) <;> simp [initIdle, Task.spot, Tid.isIdle]
  · simp [initIdle, Task.spot]
  · simp [initIdle, Task.spot]
  · simp [initIdle, Task.spot]
  · rintro (d | u) <;> simp [initIdle, Task.spot]
  · simp [Pc.phase]
  · simp [Pc.phase]
  · simp [Pc.phase]
  · rintro (d | u) <;> simp [initIdle, Task.spot]

theorem boot_relay (cpu : Fin n) : (boot n U cpu).relay.Sound := by
  constructor
  · simp [Pc.llist]
  · simp [Pc.llist]
  · simp [Pc.hand]
  · simp [Pc.hand]
  · simp [boot_state, running_ne_waking]

theorem boot_watch (cpu : Fin n) : Watch (boot n U cpu) := by
  constructor
  · simp [initIdle]
  · simp [initIdle]
  · simp [boot_state, running_ne_waking]
  · rintro (d | u) <;> simp [boot_threads, Tid.isIdle, initIdle]
  · rintro (d | u) <;> simp [boot_threads, Tid.isIdle, initIdle]
  · simp
  · exact fun _ => trivial

theorem boot_inv (U : Type) [DecidableEq U] (cpu : Fin n) : Inv (boot n U cpu) :=
  ⟨boot_locks cpu, boot_dispatch cpu, boot_relay cpu, boot_watch cpu⟩

theorem Inv.step (h : Inv s) (hs : Step k s t) : Inv t where
  locks := locks_step h hs
  dispatch := h.dispatch.moves (dispatch_step h hs)
  relay := h.relay.moves (relay_step h hs)
  watch := watch_step h hs

theorem inv_step {e : Event n U} (h : Inv s) (ht : step k s e = some t) : Inv t := by
  have hsteps := step_steps h ht
  clear ht
  induction hsteps with
  | refl => exact h
  | tail _ hs ih => exact ih.step hs

theorem inv_run (k : Kernel) (cpu : Fin n) (es : List (Event n U)) :
    Runs.Always (step k) Inv (boot n U cpu) es :=
  Runs.always_of_step Inv (fun _ _ _ => inv_step) (boot_inv U cpu) es

/-! ### What it says -/

namespace State

/-- `c` runs `p`, or is still switching from it. -/
def runs (s : State n U) (c : Fin n) (p : Tid n U) : Prop := (s.rq c).curr = p ∨ s.pc c = .switching p

/-- How often `p` is about to be queued: by the CPU that has just called it, from a wake list, or from
what a CPU has taken out of one. -/
def wakeups (s : State n U) (p : Tid n U) : Nat :=
  ∑ c, ((if (s.pc c).hand = some p then 1 else 0) + ((s.rq c).wakeList.count p + (s.pc c).llist.count p))

end State

/-- Every task is in one place. -/
structure Placed (s : State n U) : Prop where
  one : ∀ c d p, s.runs c p → s.runs d p → c = d
  runs : ∀ c p, s.runs c p → (s.task p).cpu = c
  onCpu : ∀ p, (s.task p).onCpu = true ↔ ∃ c, s.runs c p
  queue : ∀ c p, (s.rq c).queue.count p =
    if (s.task p).onRq = .queued ∧ (s.task p).cpu = c ∧ p.isIdle = false then 1 else 0
  waking : ∀ p, s.wakeups p = if (s.task p).state = taskWaking then 1 else 0
  called : ∀ p, (s.task p).state = taskWaking → (s.task p).onRq = .off ∧ (s.task p).onCpu = false

omit [DecidableEq U] in
theorem Pc.phase_eq_switching {pc : Pc n U} {p : Tid n U} : pc.phase = .switching p ↔ pc = .switching p := by
  cases pc <;> simp [Pc.phase]

theorem Inv.placed (h : Inv s) : Placed s := by
  have holds {c : Fin n} {p : Tid n U} (hp : s.runs c p) :
      s.dispatch.curr c = p ∨ s.dispatch.phase c = .switching p := by
    exact hp.imp_right fun hpc => Pc.phase_eq_switching.mpr hpc
  constructor
  · intro c d p hc hd
    exact (h.dispatch.holder (holds hc)).trans (h.dispatch.holder (holds hd)).symm
  · intro c p hp
    exact (h.dispatch.holder (holds hp)).symm
  · intro p
    constructor
    · intro hon
      exact ⟨(s.task p).cpu, (h.dispatch.onCpu p hon).imp_right Pc.phase_eq_switching.mp⟩
    · rintro ⟨c, rfl | hpc⟩
      · exact h.dispatch.currOnCpu c
      · exact (h.dispatch.switching c p (Pc.phase_eq_switching.mpr hpc)).2.2
  · exact h.dispatch.count
  · intro p
    have htotal := h.relay.total p
    simp only [State.relay_hand, State.relay_inbox, State.relay_called, List.count_append, decide_eq_true_eq]
      at htotal
    exact htotal
  · exact h.watch.called

end Lkm.Runq
