import Mathlib.Logic.Function.Basic
import Mathlib.Tactic.SplitIfs

/-! The kernel's table of character devices: which driver is registered under which major number.
`register_chrdev(0, ...)` picks a number that is free, `unregister_chrdev` removes whatever is registered
under a number; the name that it is given plays no part. -/

namespace Lkm.Chrdev

abbrev Table (D : Type) := Int → Option D

variable {D : Type}

/-- What `register_chrdev(0, ...)` can return: a positive number under which nobody is registered, or an
error code. -/
structure Outcome (table : Table D) where
  result : Int
  free : 0 < result → table result = none

def registerChrdev (table : Table D) (outcome : Outcome table) (driver : D) : Table D :=
  if 0 < outcome.result then Function.update table outcome.result (some driver) else table

def unregisterChrdev (table : Table D) (major : Int) : Table D := Function.update table major none

/-- An unregistration undoes a registration exactly if it is for the same number; when the registration
has failed, exactly if nobody is registered under the number. -/
theorem unregisterChrdev_eq_iff (table : Table D) (outcome : Outcome table) (driver : D) (major : Int) :
    unregisterChrdev (registerChrdev table outcome driver) major = table ↔
      if 0 < outcome.result then major = outcome.result else table major = none := by
  unfold unregisterChrdev registerChrdev
  by_cases hdone : 0 < outcome.result
  · rw [if_pos hdone, if_pos hdone]
    have hfree := outcome.free hdone
    constructor
    · intro h
      by_contra hne
      have hat := congrFun h outcome.result
      rw [Function.update_of_ne (Ne.symm hne), Function.update_self, hfree] at hat
      cases hat
    · rintro rfl
      rw [Function.update_idem, Function.update_eq_self_iff, hfree]
  · rw [if_neg hdone, if_neg hdone, Function.update_eq_self_iff]
    exact eq_comm

end Lkm.Chrdev
