import Mathlib.Algebra.BigOperators.Group.Finset.Piecewise
import Mathlib.Logic.Function.Basic
import Mathlib.Logic.Relation

/-! Accounts that are kept twice: processors count what happens on them, jobs count what happens to
them, and the two sums agree as long as every entry is made on both sides. A single processor's sum
says nothing, since an amount may move from one to another. -/

namespace Lkm.Accounts

@[ext]
structure Book (P J M : Type*) where
  proc : P → M
  job : J → M
  jobs : Finset J

variable {P J M : Type*} [DecidableEq P] [DecidableEq J] [AddCommGroup M]

namespace Book

/-- An entry on both sides. -/
def post (b : Book P J M) (c : P) (j : J) (x : M) : Book P J M :=
  { b with
    proc := Function.update b.proc c (b.proc c + x)
    job := Function.update b.job j (b.job j + x) }

/-- An amount moves from `c` to `d`. -/
def move (b : Book P J M) (c d : P) (x : M) : Book P J M :=
  let proc := Function.update b.proc c (b.proc c + x)
  { b with proc := Function.update proc d (proc d - x) }

/-- A new job. -/
def start (b : Book P J M) (j : J) : Book P J M :=
  { b with
    job := Function.update b.job j 0
    jobs := insert j b.jobs }

def Balanced [Fintype P] (b : Book P J M) : Prop := ∑ c, b.proc c = ∑ j ∈ b.jobs, b.job j

inductive Entry : Book P J M → Book P J M → Prop
  | post {b : Book P J M} {c : P} {j : J} {x : M} (hj : j ∈ b.jobs) : Entry b (b.post c j x)
  | move {b : Book P J M} {c d : P} {x : M} : Entry b (b.move c d x)
  | start {b : Book P J M} {j : J} (hj : j ∉ b.jobs) : Entry b (b.start j)

theorem sum_update_add {ι : Type*} [DecidableEq ι] {s : Finset ι} {i : ι} (hi : i ∈ s) (f : ι → M) (x : M) :
    ∑ j ∈ s, Function.update f i (f i + x) j = (∑ j ∈ s, f j) + x := by
  rw [Finset.sum_update_of_mem hi, ← Finset.add_sum_erase s f hi, Finset.erase_eq]
  exact add_right_comm _ _ _

namespace Balanced

variable [Fintype P] {b b' : Book P J M}

theorem entry (h : b.Balanced) (he : Entry b b') : b'.Balanced := by
  unfold Balanced at h ⊢
  cases he with
  | post hj =>
      simp only [Book.post]
      rw [sum_update_add (Finset.mem_univ _), sum_update_add hj, h]
  | @move c d x =>
      have hfirst := sum_update_add (Finset.mem_univ c) b.proc x
      have hsecond := sum_update_add (Finset.mem_univ d) (Function.update b.proc c (b.proc c + x)) (-x)
      simp only [Book.move, sub_eq_add_neg]
      rw [hsecond, hfirst, h]
      exact add_neg_cancel_right _ _
  | @start j hj =>
      have hsame : ∑ i ∈ b.jobs, Function.update b.job j 0 i = ∑ i ∈ b.jobs, b.job i := by
        refine Finset.sum_congr rfl fun i hi => Function.update_of_ne ?_ _ _
        rintro rfl
        exact hj hi
      simp only [Book.start]
      rw [Finset.sum_insert hj, Function.update_self, zero_add, hsame, h]

theorem entries (h : b.Balanced) (he : Relation.ReflTransGen Entry b b') : b'.Balanced := by
  induction he with
  | refl => exact h
  | tail _ he ih => exact ih.entry he

end Balanced

end Book

end Lkm.Accounts
