import Mathlib.Data.Option.Basic
import Mathlib.Tactic.SplitIfs

/-! Kernel timers. A timer is pending from `mod_timer` until it expires or is deleted. When it expires its
callback starts, and the callback runs beside everything else until it returns; `L` are the places where
it can stand. -/

namespace Lkm.KernelTimer

structure Timer (L : Type) where
  pending : Bool
  running : Option L

namespace Timer

variable {L : Type}

/-- `setup_timer`. -/
def setup : Timer L := ⟨false, none⟩

/-- `mod_timer` arms the timer; its result tells whether the timer was pending. -/
def modTimer (t : Timer L) : Int × Timer L := (if t.pending then 1 else 0, { t with pending := true })

/-- `del_timer` does not wait for the callback. -/
def delTimer (t : Timer L) : Int × Timer L := (if t.pending then 1 else 0, { t with pending := false })

/-- The timer expires. The callbacks of one timer run one after the other, so it waits for the last one to
return. -/
def expire (entry : L) (t : Timer L) : Option (Timer L) :=
  if t.pending && t.running.isNone then some ⟨false, some entry⟩ else none

/-- The callback, if it is at `here`, goes on to `next`, or returns. -/
def goto [DecidableEq L] (here : L) (next : Option L) (t : Timer L) : Option (Timer L) :=
  if t.running = some here then some { t with running := next } else none

/-- Nothing will happen unless somebody arms the timer. -/
structure Quiet (t : Timer L) : Prop where
  pending : t.pending = false
  running : t.running = none

theorem expire_eq_some {entry : L} {t u : Timer L} (h : t.expire entry = some u) :
    t.pending = true ∧ t.running = none ∧ u = ⟨false, some entry⟩ := by
  unfold expire at h
  split_ifs at h with hready
  obtain ⟨hpending, hrunning⟩ := Bool.and_eq_true_iff.mp hready
  exact ⟨hpending, Option.isNone_iff_eq_none.mp hrunning, (Option.some.inj h).symm⟩

theorem goto_eq_some [DecidableEq L] {here : L} {next : Option L} {t u : Timer L}
    (h : t.goto here next = some u) : t.running = some here ∧ u = { t with running := next } := by
  unfold goto at h
  split_ifs at h with hhere
  exact ⟨hhere, (Option.some.inj h).symm⟩

end Timer

end Lkm.KernelTimer
