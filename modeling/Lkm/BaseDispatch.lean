import Mathlib.Data.List.Count
import Mathlib.Logic.Function.Basic
import Mathlib.Logic.Relation

/-! Dispatching jobs on processors. A job is off every queue, on the queue of its processor, or on
its way to the queue of another one; a processor runs one job, decides on the next one and switches
to it, and for a moment the switch holds both jobs. What has to be true before each operation, and
that then no job is on two processors or on two queues. -/

namespace Lkm.Dispatch

inductive Stage where
  | off
  | queued
  | moving
  deriving DecidableEq

/-- What a job's record says of the place of the job. -/
structure Spot (P : Type*) where
  stage : Stage
  onCpu : Bool
  cpu : P

inductive Phase (J : Type*) where
  | steady
  | deciding
  | switching (prev : J)
  | carrying (j : J)

@[ext]
structure Board (P J : Type*) where
  spot : J → Spot P
  curr : P → J
  queue : P → List J
  phase : P → Phase J

variable {P J : Type*} [DecidableEq P] [DecidableEq J]

namespace Board

/-- `c` starts to decide. -/
def enter (b : Board P J) (c : P) : Board P J :=
  { b with phase := Function.update b.phase c .deciding }

/-- The current job of `c` leaves the queue. -/
def sleep (b : Board P J) (c : P) : Board P J :=
  { b with
    spot := Function.update b.spot (b.curr c) { b.spot (b.curr c) with stage := .off }
    queue := Function.update b.queue c ((b.queue c).erase (b.curr c)) }

/-- `c` goes on with the job that it has. -/
def stay (b : Board P J) (c : P) : Board P J :=
  { b with phase := Function.update b.phase c .steady }

def switch (b : Board P J) (c : P) (next : J) : Board P J :=
  { b with
    spot := Function.update b.spot next { b.spot next with onCpu := true }
    curr := Function.update b.curr c next
    phase := Function.update b.phase c (.switching (b.curr c)) }

def finish (b : Board P J) (c : P) (prev : J) : Board P J :=
  { b with
    spot := Function.update b.spot prev { b.spot prev with onCpu := false }
    phase := Function.update b.phase c .steady }

/-- A job off the queues gets a processor. -/
def place (b : Board P J) (j : J) (c : P) : Board P J :=
  { b with spot := Function.update b.spot j { b.spot j with cpu := c } }

def enqueue (b : Board P J) (c : P) (j : J) : Board P J :=
  { b with
    spot := Function.update b.spot j { b.spot j with stage := .queued }
    queue := Function.update b.queue c (j :: b.queue c) }

/-- `c` takes a job off its queue, to bring it to `d`. -/
def detach (b : Board P J) (c : P) (j : J) (d : P) : Board P J :=
  { b with
    spot := Function.update b.spot j { b.spot j with stage := .moving, cpu := d }
    queue := Function.update b.queue (b.spot j).cpu ((b.queue (b.spot j).cpu).erase j)
    phase := Function.update b.phase c (.carrying j) }

/-- `c` brings the job. -/
def attach (b : Board P J) (c : P) (j : J) (d : P) : Board P J :=
  { b with
    spot := Function.update b.spot j { b.spot j with stage := .queued }
    queue := Function.update b.queue d (j :: b.queue d)
    phase := Function.update b.phase c .steady }

/-- From queue to queue in one go. -/
def transfer (b : Board P J) (j : J) (d : P) : Board P J :=
  let q := Function.update b.queue (b.spot j).cpu ((b.queue (b.spot j).cpu).erase j)
  { b with
    spot := Function.update b.spot j { b.spot j with cpu := d }
    queue := Function.update q d (j :: q d) }

/-- The jobs that `fixed` names never leave their processor and are on no queue. -/
@[grind]
structure Sound (fixed : J → Bool) (b : Board P J) : Prop where
  count : ∀ c j, (b.queue c).count j =
    if (b.spot j).stage = .queued ∧ (b.spot j).cpu = c ∧ fixed j = false then 1 else 0
  fixedQueued : ∀ j, fixed j = true → (b.spot j).stage = .queued
  currCpu : ∀ c, (b.spot (b.curr c)).cpu = c
  currOnCpu : ∀ c, (b.spot (b.curr c)).onCpu = true
  currQueued : ∀ c, b.phase c ≠ .deciding → (b.spot (b.curr c)).stage = .queued
  onCpu : ∀ j, (b.spot j).onCpu = true →
    b.curr (b.spot j).cpu = j ∨ b.phase (b.spot j).cpu = .switching j
  switching : ∀ c j, b.phase c = .switching j →
    j ≠ b.curr c ∧ (b.spot j).cpu = c ∧ (b.spot j).onCpu = true
  carrying : ∀ c j, b.phase c = .carrying j → (b.spot j).stage = .moving
  carried : ∀ c d j, b.phase c = .carrying j → b.phase d = .carrying j → c = d
  moving : ∀ j, (b.spot j).stage = .moving →
    (∃ c, b.phase c = .carrying j) ∧ (b.spot j).onCpu = false

namespace Sound

variable {fixed : J → Bool} {b : Board P J}

/-- At most one processor holds a job. -/
theorem holder (h : b.Sound fixed) {c : P} {j : J} (hj : b.curr c = j ∨ b.phase c = .switching j) :
    c = (b.spot j).cpu := by
  rcases hj with rfl | hj
  · exact (h.currCpu c).symm
  · exact (h.switching c j hj).2.1.symm

theorem of_mem_queue (h : b.Sound fixed) {c : P} {j : J} (hj : j ∈ b.queue c) :
    (b.spot j).stage = .queued ∧ (b.spot j).cpu = c ∧ fixed j = false := by
  have hcount := h.count c j
  have hpos := List.count_pos_iff.mpr hj
  by_contra hne
  rw [if_neg hne] at hcount
  omega

theorem enter (h : b.Sound fixed) {c : P} (hc : b.phase c = .steady) : (b.enter c).Sound fixed := by
  constructor <;> simp only [Board.enter, Function.update_apply] <;> grind -ring -linarith

theorem sleep (h : b.Sound fixed) {c : P} (hc : b.phase c = .deciding)
    (hj : fixed (b.curr c) = false) : (b.sleep c).Sound fixed := by
  constructor <;> simp only [Board.sleep, Function.update_apply] <;> grind -ring -linarith

theorem stay (h : b.Sound fixed) {c : P} (hc : b.phase c = .deciding)
    (hj : (b.spot (b.curr c)).stage = .queued) : (b.stay c).Sound fixed := by
  constructor <;> simp only [Board.stay, Function.update_apply] <;> grind -ring -linarith

theorem switch (h : b.Sound fixed) {c : P} (hc : b.phase c = .deciding) {j : J}
    (hj : (b.spot j).stage = .queued) (hcpu : (b.spot j).cpu = c) (hne : b.curr c ≠ j) :
    (b.switch c j).Sound fixed := by
  constructor <;> simp only [Board.switch, Function.update_apply] <;> grind -ring -linarith

theorem finish (h : b.Sound fixed) {c : P} {j : J} (hc : b.phase c = .switching j) :
    (b.finish c j).Sound fixed := by
  constructor <;> simp only [Board.finish, Function.update_apply] <;> grind -ring -linarith

theorem place (h : b.Sound fixed) {j : J} (hj : (b.spot j).stage = .off)
    (hcpu : (b.spot j).onCpu = false) (c : P) : (b.place j c).Sound fixed := by
  constructor <;> simp only [Board.place, Function.update_apply] <;> grind -ring -linarith

theorem enqueue (h : b.Sound fixed) {c : P} {j : J} (hj : (b.spot j).stage = .off)
    (hcpu : (b.spot j).cpu = c) : (b.enqueue c j).Sound fixed := by
  constructor <;> simp only [Board.enqueue, Function.update_apply] <;> grind -ring -linarith

theorem detach (h : b.Sound fixed) {c : P} (hc : b.phase c = .steady) {j : J}
    (hj : (b.spot j).stage = .queued) (hfixed : fixed j = false) (hcpu : (b.spot j).onCpu = false)
    (d : P) : (b.detach c j d).Sound fixed := by
  constructor <;> simp only [Board.detach, Function.update_apply] <;> grind -ring -linarith

theorem attach (h : b.Sound fixed) {c : P} {j : J} (hc : b.phase c = .carrying j) :
    (b.attach c j (b.spot j).cpu).Sound fixed := by
  constructor <;> simp only [Board.attach, Function.update_apply] <;> grind -ring -linarith

theorem transfer (h : b.Sound fixed) {j : J} (hj : (b.spot j).stage = .queued)
    (hfixed : fixed j = false) (hcpu : (b.spot j).onCpu = false) (d : P) :
    (b.transfer j d).Sound fixed := by
  constructor <;> simp only [Board.transfer, Function.update_apply] <;> grind -ring -linarith

end Sound

/-- The operations, each where it may happen. -/
inductive Move (fixed : J → Bool) : Board P J → Board P J → Prop
  | enter {b : Board P J} {c : P} (hc : b.phase c = .steady) : Move fixed b (b.enter c)
  | sleep {b : Board P J} {c : P} (hc : b.phase c = .deciding) (hj : fixed (b.curr c) = false) :
      Move fixed b (b.sleep c)
  | stay {b : Board P J} {c : P} (hc : b.phase c = .deciding)
      (hj : (b.spot (b.curr c)).stage = .queued) : Move fixed b (b.stay c)
  | switch {b : Board P J} {c : P} {j : J} (hc : b.phase c = .deciding)
      (hj : (b.spot j).stage = .queued) (hcpu : (b.spot j).cpu = c) (hne : b.curr c ≠ j) :
      Move fixed b (b.switch c j)
  | finish {b : Board P J} {c : P} {j : J} (hc : b.phase c = .switching j) :
      Move fixed b (b.finish c j)
  | place {b : Board P J} {j : J} {c : P} (hj : (b.spot j).stage = .off)
      (hcpu : (b.spot j).onCpu = false) : Move fixed b (b.place j c)
  | enqueue {b : Board P J} {c : P} {j : J} (hj : (b.spot j).stage = .off)
      (hcpu : (b.spot j).cpu = c) : Move fixed b (b.enqueue c j)
  | detach {b : Board P J} {c : P} {j : J} {d : P} (hc : b.phase c = .steady)
      (hj : (b.spot j).stage = .queued) (hfixed : fixed j = false)
      (hcpu : (b.spot j).onCpu = false) : Move fixed b (b.detach c j d)
  | attach {b : Board P J} {c : P} {j : J} {d : P} (hc : b.phase c = .carrying j)
      (hd : (b.spot j).cpu = d) : Move fixed b (b.attach c j d)
  | transfer {b : Board P J} {j : J} {d : P} (hj : (b.spot j).stage = .queued)
      (hfixed : fixed j = false) (hcpu : (b.spot j).onCpu = false) : Move fixed b (b.transfer j d)

theorem Sound.move {fixed : J → Bool} {b b' : Board P J} (h : b.Sound fixed) (hm : Move fixed b b') :
    b'.Sound fixed := by
  cases hm with
  | enter hc => exact h.enter hc
  | sleep hc hj => exact h.sleep hc hj
  | stay hc hj => exact h.stay hc hj
  | switch hc hj hcpu hne => exact h.switch hc hj hcpu hne
  | finish hc => exact h.finish hc
  | place hj hcpu => exact h.place hj hcpu _
  | enqueue hj hcpu => exact h.enqueue hj hcpu
  | detach hc hj hfixed hcpu => exact h.detach hc hj hfixed hcpu _
  | attach hc hd =>
      subst hd
      exact h.attach hc
  | transfer hj hfixed hcpu => exact h.transfer hj hfixed hcpu _

theorem Sound.moves {fixed : J → Bool} {b b' : Board P J} (h : b.Sound fixed)
    (hm : Relation.ReflTransGen (Move fixed) b b') : b'.Sound fixed := by
  induction hm with
  | refl => exact h
  | tail _ hm ih => exact ih.move hm

end Board

end Lkm.Dispatch
