import Lkm.ShmModel
import Lkm.BaseRuns
import Lkm.BaseChrdev

/-! Unloading `ex77.c`. `cleanup` passes `flag`, which processes write through sysfs, to `unregister_chrdev`
in place of the number that `init` got. The kobject, which `cleanup` puts first, is left out. -/

namespace Lkm.Shm

open Scan Runs Chrdev

variable {P D : Type}

/-- `cleanup()`: what it makes of the table of character devices. -/
def cleanup (x : State P) (chrdevs : Table D) : Table D := unregisterChrdev chrdevs x.flag

/-- `cleanup` removes what `init` registered and nothing else, so the module is registered nowhere unless
it was before. -/
structure Unloads (before : Table D) (major : Outcome before) (driver : D) (x : State P) : Prop where
  exact : cleanup x (registerChrdev before major driver) = before
  gone : (∀ m, before m ≠ some driver) →
    ∀ m, cleanup x (registerChrdev before major driver) m ≠ some driver

theorem unloads_of_eq {before : Table D} {major : Outcome before} {driver : D} {x : State P}
    (h : cleanup x (registerChrdev before major driver) = before) : Unloads before major driver x where
  exact := h
  gone := by
    intro hbefore m
    rw [h]
    exact hbefore m

/-- The value that an event leaves in `flag`; `none` when it leaves `flag` alone. A store of 0 is refused
while the device is mapped. -/
def stored (x : State P) : Event P → Option Int
  | .flagStore buf junk =>
      let var := (sscanfInt buf).getD junk
      if var = 0 ∧ x.count ≠ 0 then none else some var
  | _ => none

/-- The value of the last store to `flag` that took effect. -/
def lastStored (last : Int) (x : State P) (e : Event P) : Int := (stored x e).getD last

variable [DecidableEq P]

/-- Only the stores to `flag` change it. -/
theorem flag_step {x y : State P} {e : Event P} (h : step x e = some y) :
    y.flag = (stored x e).getD x.flag := by
  cases e with
  | ioctl p cmd interrupted copyFails =>
      obtain ⟨locked, rfl⟩ := step_ioctl h
      rfl
  | charOpen file =>
      obtain ⟨-, rfl⟩ := step_charOpen h
      rfl
  | mmap p file =>
      obtain ⟨privateData, -, rfl⟩ := step_mmap h
      rfl
  | dup vma p =>
      obtain ⟨-, rfl⟩ := step_dup h
      rfl
  | munmap vma =>
      obtain ⟨-, rfl⟩ := step_munmap h
      rfl
  | exit p =>
      obtain rfl := step_exit h
      rfl
  | fault vma =>
      obtain ⟨-, rfl⟩ := step_fault h
      exact congrArg State.Control.flag (x.control_mmapFault vma)
  | charClose file =>
      obtain ⟨privateData, -, rfl⟩ := step_charClose h
      exact congrArg State.Control.flag (x.control_charClose privateData)
  | flagStore buf junk =>
      obtain rfl := step_flagStore h
      simp only [stored]
      split_ifs <;> rfl
  | sizeStore buf junk outcome =>
      cases h
      exact congrArg State.Control.flag (x.control_sizeStore buf junk outcome)

theorem flag_eq_lastStored (major : Int) (es : List (Event P)) :
    Always (watch step lastStored) (fun xw => xw.1.flag = xw.2) (init P major, 0) es := by
  refine always_of_step (fun xw : State P × Int => xw.1.flag = xw.2) ?_ rfl es
  intro xw e yw hflag h
  obtain ⟨hstep, hlast⟩ := watch_eq_some.mp h
  rw [flag_step hstep, ← hlast, hflag, lastStored]

/-- Unloading, at any time, undoes the registration exactly if the last store to `flag` that took effect
stored the major number; when the registration had failed, exactly if no driver has the number that was
stored. -/
theorem unloads_iff (before : Table D) (major : Outcome before) (driver : D) (es : List (Event P)) :
    Always (watch step lastStored)
      (fun xw => Unloads before major driver xw.1 ↔
        if 0 < major.result then xw.2 = major.result else before xw.2 = none)
      (init P major.result, 0) es := by
  refine (flag_eq_lastStored major.result es).mono fun xw hflag => ?_
  rw [← hflag, ← unregisterChrdev_eq_iff before major driver]
  exact ⟨fun h => h.exact, unloads_of_eq⟩

/-- Without a store, the number 0 is unregistered. -/
theorem unloads_no_store :
    ¬∀ (before : Table Nat) major driver es (x : State Nat),
      run step (init Nat major.result) es = some x → Unloads before major driver x := by
  intro h
  let major : Outcome (fun _ => none : Table Nat) := ⟨250, fun _ => rfl⟩
  have hexact := (h _ major 7 [] _ rfl).exact
  exact absurd (congrFun hexact 250) (by decide)

end Lkm.Shm
