import Lkm.RunqModel

/-! What holds in every state of the run queue machine: who holds which lock, where the tasks are,
who is being woken, and what the code that waits for a lock has read before. -/

namespace Lkm.Runq

open Dispatch

variable {n : Nat} {U : Type} [DecidableEq U]

/-! ### The two boards -/

def Pc.phase : Pc n U → Phase (Tid n U)
  | .worker | .localPi _ | .localRq _ | .picking _ | .balancing _ => .deciding
  | .switching prev => .switching prev
  | .moving p _ => .carrying p
  | _ => .steady

def Pc.llist : Pc n U → List (Tid n U)
  | .pending l | .draining l => l
  | _ => []

def Pc.hand : Pc n U → Option (Tid n U)
  | .placing p _ => some p
  | _ => none

def Task.spot (t : Task n) : Spot (Fin n) := ⟨t.onRq, t.onCpu, t.cpu⟩

namespace State

/-- The tasks as jobs of the CPUs. -/
@[simps]
def dispatch (s : State n U) : Dispatch.Board (Fin n) (Tid n U) where
  spot p := (s.task p).spot
  curr c := (s.rq c).curr
  queue c := (s.rq c).queue
  phase c := (s.pc c).phase

/-- The tasks that are being woken. -/
@[simps]
def relay (s : State n U) : Relay.Board (Fin n) (Tid n U) where
  called p := (s.task p).state = taskWaking
  home p := (s.task p).cpu
  inbox c := (s.rq c).wakeList ++ (s.pc c).llist
  hand c := (s.pc c).hand

end State

/-! ### The invariant -/

/-- A lock that is held from one step to the next is held by the CPU that is at such a place. -/
structure Locks (s : State n U) : Prop where
  rq : ∀ c d, (s.rq c).lock = some d ↔ d = c ∧ (s.pc c).holdsRq = true
  pi : ∀ p c, (s.task p).piLock = some c ↔ (s.pc c).piTask = some p

/-- What the code at a place of `c` relies on: what it has seen of a task before it waits. -/
def State.relies (s : State n U) (c : Fin n) : Pc n U → Prop
  | .waking p | .remote p => (s.task p).state ≠ taskWaking ∧ s.newborn p = false ∧ p ∈ s.threads
  | .spin p => (s.task p).onRq = .off ∧ (s.task p).state ≠ taskWaking ∧ (s.task p).state ≠ taskRunning
  | .placing p cpu => (s.task p).state = taskWaking ∧ (s.task p).cpu = cpu
  | .localPi p | .localRq p =>
      (s.task p).cpu = c ∧ p ≠ (s.rq c).curr ∧ (s.task p).boundTo c = true ∧ p ∈ s.threads
  | .moving p cpu => (s.task p).cpu = cpu
  | _ => True

structure Watch (s : State n U) : Prop where
  idleCpu : ∀ c, (s.task (.idle c)).cpu = c
  idleState : ∀ c, (s.task (.idle c)).state = taskRunning
  called : ∀ p, (s.task p).state = taskWaking → (s.task p).onRq = .off ∧ (s.task p).onCpu = false
  asleep : ∀ p, p ∈ s.threads → (s.task p).onRq = .off → s.newborn p = false →
    (s.task p).state ≠ taskRunning
  fresh : ∀ p, s.newborn p = true ∨ p ∉ s.threads →
    (s.task p).onRq = .off ∧ (s.task p).state = taskRunning ∧ (s.task p).onCpu = false
  born : ∀ p, s.newborn p = true → p ∈ s.threads
  places : ∀ c, s.relies c (s.pc c)

namespace Watch

variable {s : State n U}

omit [DecidableEq U] in
theorem at_place (h : Watch s) {c : Fin n} {pc : Pc n U} (hpc : s.pc c = pc) : s.relies c pc :=
  hpc ▸ h.places c

omit [DecidableEq U] in
theorem matched (h : Watch s) {c : Fin n} {p : Tid n U} (hpc : s.pc c = .waking p ∨ s.pc c = .remote p) :
    (s.task p).state ≠ taskWaking ∧ s.newborn p = false ∧ p ∈ s.threads := by
  rcases hpc with hpc | hpc
  · exact h.at_place hpc
  · exact h.at_place hpc

omit [DecidableEq U] in
theorem localTask (h : Watch s) {c : Fin n} {p : Tid n U} (hpc : s.pc c = .localPi p ∨ s.pc c = .localRq p) :
    (s.task p).cpu = c ∧ p ≠ (s.rq c).curr ∧ (s.task p).boundTo c = true ∧ p ∈ s.threads := by
  rcases hpc with hpc | hpc
  · exact h.at_place hpc
  · exact h.at_place hpc

end Watch

structure Inv (s : State n U) : Prop where
  locks : Locks s
  dispatch : s.dispatch.Sound Tid.isIdle
  relay : s.relay.Sound
  watch : Watch s

end Lkm.Runq
