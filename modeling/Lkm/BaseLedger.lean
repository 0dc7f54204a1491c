import Mathlib.Algebra.Order.BigOperators.Group.List
import Mathlib.Algebra.Order.Ring.Nat
import Mathlib.Algebra.Order.Sub.Basic
import Mathlib.Algebra.BigOperators.Group.List.Basic
import Mathlib.Logic.Function.Basic

/-! Ledgers: the sum of a charge over a list of holders, each of which has an account. What opening,
closing and changing one account does to the sum, and when a change of all of them leaves it. -/

namespace Lkm.Ledger

variable {ι α : Type*}

/-- What the holders `l` with the accounts `g` are charged together. -/
def total (f : α → Nat) (g : ι → α) (l : List ι) : Nat := (l.map fun i => f (g i)).sum

@[simp] theorem total_cons (f : α → Nat) (g : ι → α) (i : ι) (l : List ι) :
    total f g (i :: l) = f (g i) + total f g l := rfl

theorem total_congr {f f' : α → Nat} {g g' : ι → α} {l : List ι}
    (h : ∀ i ∈ l, f (g i) = f' (g' i)) : total f g l = total f' g' l :=
  congrArg List.sum (List.map_congr_left h)

theorem total_le {f : α → Nat} {g : ι → α} {l : List ι} {b : Nat} (h : ∀ i ∈ l, f (g i) ≤ b) :
    total f g l ≤ l.length * b := by
  induction l with
  | nil => exact Nat.zero_le _
  | cons i l ih =>
      have hi := h i List.mem_cons_self
      have hl := ih fun j hj => h j (List.mem_cons_of_mem i hj)
      rw [total_cons, List.length_cons, Nat.succ_mul]
      omega

theorem le_total (f : α → Nat) (g : ι → α) {l : List ι} {i : ι} (hi : i ∈ l) :
    f (g i) ≤ total f g l :=
  List.le_sum_of_mem (List.mem_map_of_mem hi)

/-- If no charge rises, the sum stays only if every charge does. -/
theorem total_eq_iff_of_le {f f' : α → Nat} {g g' : ι → α} {l : List ι}
    (h : ∀ i ∈ l, f' (g' i) ≤ f (g i)) :
    total f' g' l = total f g l ↔ ∀ i ∈ l, f' (g' i) = f (g i) := by
  induction l with
  | nil => simp [total]
  | cons i l ih =>
      have hi := h i List.mem_cons_self
      have hl := fun j hj => h j (List.mem_cons_of_mem i hj)
      have hle : total f' g' l ≤ total f g l := List.sum_le_sum hl
      rw [total_cons, total_cons, List.forall_mem_cons, ← ih hl]
      omega

variable [DecidableEq ι]

theorem total_erase (f : α → Nat) (g : ι → α) {l : List ι} {i : ι} (hi : i ∈ l) :
    f (g i) + total f g (l.erase i) = total f g l :=
  List.sum_map_erase (fun i => f (g i)) hi

/-- One account changes. -/
theorem total_update (f : α → Nat) (g : ι → α) {l : List ι} (hnodup : l.Nodup) {i : ι} (hi : i ∈ l)
    (a : α) : total f (Function.update g i a) l + f (g i) = total f g l + f a := by
  have hold := total_erase f g hi
  have hnew := total_erase f (Function.update g i a) hi
  have hrest : total f (Function.update g i a) (l.erase i) = total f g (l.erase i) := by
    refine total_congr fun j hj => ?_
    rw [Function.update_of_ne (hnodup.mem_erase_iff.mp hj).1]
  rw [Function.update_self] at hnew
  omega

/-- A new account. -/
theorem total_open (f : α → Nat) (g : ι → α) {l : List ι} {i : ι} (hi : i ∉ l) (a : α) :
    total f (Function.update g i a) (i :: l) = f a + total f g l := by
  rw [total_cons, Function.update_self]
  congr 1
  refine total_congr fun j hj => ?_
  have hne : j ≠ i := fun heq => hi (heq ▸ hj)
  rw [Function.update_of_ne hne]

end Lkm.Ledger
