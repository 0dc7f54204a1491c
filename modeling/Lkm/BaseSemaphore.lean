import Mathlib.Logic.Function.Basic
import Mathlib.Tactic.SplitIfs

/-! Counting semaphores and mutexes, and the discipline of a semaphore that is initialised with one: it
guards a section when its count and the processes inside the section always add up to one. -/

namespace Lkm.Semaphore

/-- `down_interruptible`: its result and the new count. `none` when the caller has to wait; a signal
may end the wait at any time, and then the count is left alone. -/
def downInterruptible (interrupted : Bool) (count : Nat) : Option (Int × Nat) :=
  if interrupted then some (-4, count)
  else
    match count with
    | 0 => none
    | n + 1 => some (0, n)

def up (count : Nat) : Nat := count + 1

theorem downInterruptible_taken {count : Nat} {r : Int × Nat}
    (h : downInterruptible false count = some r) : count = r.2 + 1 := by
  cases count with
  | zero => cases h
  | succ n =>
      cases h
      rfl

@[simp] theorem downInterruptible_true (count : Nat) :
    downInterruptible true count = some (-4, count) := rfl

/-- `mutex_lock_interruptible`: its result, and whether the mutex is locked then. `none` when the
caller has to wait. -/
def mutexLockInterruptible (interrupted locked : Bool) : Option (Int × Bool) :=
  if interrupted then some (-4, locked)
  else if locked then none
  else some (0, true)

/-! ### Guarded sections -/

variable {P : Type}

/-- Either the semaphore is free and the section is empty, or it is taken and exactly one process is
inside. -/
def Guards (count : Nat) (inside : P → Prop) : Prop :=
  (count = 1 ∧ ∀ p, ¬inside p) ∨ (count = 0 ∧ ∃ p, inside p ∧ ∀ q, inside q → q = p)

variable {count : Nat} {inside inside' : P → Prop} {p : P}

theorem Guards.unique (h : Guards count inside) {q : P} (hp : inside p) (hq : inside q) : p = q := by
  rcases h with ⟨-, hnone⟩ | ⟨-, r, -, honly⟩
  · exact absurd hp (hnone p)
  · rw [honly p hp, honly q hq]

theorem Guards.free (h : Guards count inside) (hnone : ∀ p, ¬inside p) : count = 1 := by
  rcases h with ⟨hcount, -⟩ | ⟨-, r, hr, -⟩
  · exact hcount
  · exact absurd hr (hnone r)

theorem Guards.taken (h : Guards count inside) (hp : inside p) : count = 0 := by
  rcases h with ⟨-, hnone⟩ | ⟨hcount, -⟩
  · exact absurd hp (hnone p)
  · exact hcount

theorem Guards.congr (h : Guards count inside) (hsame : ∀ q, inside' q ↔ inside q) :
    Guards count inside' := by
  have : inside' = inside := funext fun q => propext (hsame q)
  rw [this]
  exact h

/-- A process that takes the semaphore enters the section. -/
theorem Guards.enter (h : Guards (count + 1) inside) (hother : ∀ q, q ≠ p → (inside' q ↔ inside q))
    (hp : inside' p) : Guards count inside' := by
  rcases h with ⟨hcount, hnone⟩ | ⟨hcount, -⟩
  · refine Or.inr ⟨by omega, p, hp, fun q hq => ?_⟩
    by_contra hne
    exact hnone q ((hother q hne).mp hq)
  · omega

/-- The process inside gives the semaphore back when it leaves. -/
theorem Guards.leave (h : Guards count inside) (hother : ∀ q, q ≠ p → (inside' q ↔ inside q))
    (hp : inside p) (hp' : ¬inside' p) : Guards (up count) inside' := by
  refine Or.inl ⟨by rw [h.taken hp, up], fun q hq => ?_⟩
  have hne : q ≠ p := fun heq => hp' (heq ▸ hq)
  exact hne (h.unique ((hother q hne).mp hq) hp)

/-- A process that enters without the semaphore breaks the discipline. -/
theorem Guards.not_enter (h : Guards count inside) (hother : ∀ q, q ≠ p → (inside' q ↔ inside q))
    (hp : ¬inside p) (hp' : inside' p) : ¬Guards count inside' := by
  intro h'
  rcases h with ⟨hcount, -⟩ | ⟨hcount, r, hr, -⟩
  · have := h'.taken hp'
    omega
  · have hne : r ≠ p := fun heq => hp (heq ▸ hr)
    exact hne (h'.unique ((hother r hne).mpr hr) hp')

/-- So does one that leaves without giving it back. -/
theorem Guards.not_leave (h : Guards count inside) (hother : ∀ q, q ≠ p → (inside' q ↔ inside q))
    (hp : inside p) (hp' : ¬inside' p) : ¬Guards count inside' := by
  intro h'
  have hnone : ∀ q, ¬inside' q := by
    intro q hq
    have hne : q ≠ p := fun heq => hp' (heq ▸ hq)
    exact hne (h.unique ((hother q hne).mp hq) hp)
  have hfree := h'.free hnone
  rw [h.taken hp] at hfree
  exact absurd hfree (by decide)

/-! ### Sections of a mutex -/

/-- At most one process is inside, and only while the mutex is locked. -/
structure Protects (locked : Bool) (inside : P → Prop) : Prop where
  unique : ∀ p q, inside p → inside q → p = q
  locked : ∀ p, inside p → locked = true

theorem Protects.mono {locked : Bool} (h : Protects locked inside)
    (hsub : ∀ q, inside' q → inside q) : Protects locked inside' where
  unique := fun p q hp hq => h.unique p q (hsub p hp) (hsub q hq)
  locked := fun p hp => h.locked p (hsub p hp)

/-- A free mutex protects an empty section only. -/
theorem protects_false_iff : Protects false inside ↔ ∀ q, ¬inside q := by
  constructor
  · intro h q hq
    exact absurd (h.locked q hq) Bool.false_ne_true
  · intro h
    exact ⟨fun p _ hp => absurd hp (h p), fun p hp => absurd hp (h p)⟩

/-- A process that locks a free mutex enters. -/
theorem Protects.enter (h : Protects false inside) (p : P)
    (hother : ∀ q, q ≠ p → inside' q → inside q) : Protects true inside' := by
  have hnone := protects_false_iff.mp h
  have honly : ∀ q, inside' q → q = p := by
    intro q hq
    by_contra hne
    exact hnone q (hother q hne hq)
  refine ⟨fun q r hq hr => ?_, fun _ _ => rfl⟩
  rw [honly q hq, honly r hr]

theorem mutexLockInterruptible_zero {interrupted locked locked' : Bool}
    (h : mutexLockInterruptible interrupted locked = some (0, locked')) :
    locked = false ∧ locked' = true := by
  unfold mutexLockInterruptible at h
  split_ifs at h with hinterrupted hlocked
  · cases h
  · cases h
    exact ⟨Bool.not_eq_true locked ▸ hlocked, rfl⟩

/-- A failed attempt leaves the mutex alone. -/
theorem mutexLockInterruptible_ne_zero {interrupted locked : Bool} {r : Int × Bool}
    (h : mutexLockInterruptible interrupted locked = some r) (hr : r.1 ≠ 0) : r.2 = locked := by
  unfold mutexLockInterruptible at h
  split_ifs at h
  · cases h
    rfl
  · cases h
    exact absurd rfl hr

end Lkm.Semaphore
