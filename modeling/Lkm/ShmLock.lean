import Lkm.ShmModel
import Lkm.BaseRuns

/-! The lock that `ex77.c` offers. `UNLOCK` and `mmap_close` free the mutex without a look at who
locked it, and `mmap_close` runs for every mapping that goes, also for those that a fork or a split
has made. The lock works as long as the processes do not disturb each other with them. -/

namespace Lkm.Shm

open Semaphore Runs

variable {P : Type} [DecidableEq P]

/-- The processes that are between a successful `LOCK` of their own and their `UNLOCK` or exit. -/
abbrev Sections (P : Type) := P → Bool

def track (inside : Sections P) (x : State P) : Event P → Sections P
  | .ioctl p cmd interrupted copyFails =>
      if (x.ioctl cmd interrupted copyFails).map Prod.fst = some 0 then
        if cmd = State.LOCK then Function.update inside p true
        else if cmd = State.UNLOCK then Function.update inside p false
        else inside
      else inside
  | .exit p => Function.update inside p false
  | _ => inside

/-- The process that takes the step. -/
def Event.actor : Event P → Option P
  | .ioctl p _ _ _ | .mmap p _ | .exit p => some p
  | .munmap vma | .fault vma => some vma.owner
  | _ => none

def Exclusive (s : State P × Sections P) : Prop :=
  ∀ p q, s.2 p = true → s.2 q = true → p = q

/-- Nobody releases the lock that another process holds. -/
def KeepsLock (s : State P × Sections P) (e : Event P) (t : State P × Sections P) : Prop :=
  ∀ p, s.2 p = true → e.actor ≠ some p → s.1.locked = true → t.1.locked = true

/-- `UNLOCK`, and the exit of a process that has the device mapped, come while no other process is in
its section, and a mapping goes while no process is. -/
def Undisturbed (s : State P × Sections P) : Event P → Prop
  | .ioctl p cmd _ _ => cmd = State.UNLOCK → ∀ q, s.2 q = true → q = p
  | .munmap _ => ∀ q, ¬s.2 q = true
  | .exit p => (∃ vma ∈ s.1.vmas, vma.owner = p) → ∀ q, s.2 q = true → q = p
  | _ => True

/-- At most one process is in its section, and only while the mutex is locked. -/
def Held (s : State P × Sections P) : Prop := Protects s.1.locked fun p => s.2 p = true

theorem of_update_false {inside : Sections P} {p q : P}
    (h : Function.update inside p false q = true) : q ≠ p ∧ inside q = true := by
  have hne : q ≠ p := by
    rintro rfl
    rw [Function.update_self] at h
    cases h
  rw [Function.update_of_ne hne] at h
  exact ⟨hne, h⟩

/-- After the process has left and the mutex is free, nobody may be left inside. -/
theorem protects_unlocked_iff {inside : Sections P} {p : P} :
    Protects false (fun q => Function.update inside p false q = true) ↔
      ∀ q, inside q = true → q = p := by
  rw [protects_false_iff]
  constructor
  · intro h q hq
    by_contra hne
    apply h q
    rw [Function.update_of_ne hne]
    exact hq
  · intro h q hq
    obtain ⟨hne, hinside⟩ := of_update_false hq
    exact hne (h q hinside)

theorem held_ioctl_iff {x y : State P} {inside : Sections P} {p : P} {cmd : BitVec 32}
    {interrupted copyFails : Bool} (hx : Held (x, inside))
    (h : step x (.ioctl p cmd interrupted copyFails) = some y) :
    Held (y, track inside x (.ioctl p cmd interrupted copyFails)) ↔
      Undisturbed (x, inside) (.ioctl p cmd interrupted copyFails) := by
  obtain ⟨⟨code, y⟩, hioctl, rfl⟩ := Option.map_eq_some_iff.mp h
  simp only [Held] at hx
  simp only [Held, track, hioctl, Option.map_some, Option.some.injEq, Undisturbed]
  by_cases hlock : cmd = State.LOCK
  · subst hlock
    refine iff_of_true ?_ fun hunlock => absurd hunlock (by decide)
    rcases State.ioctl_lock hioctl with ⟨rfl, hfree, rfl⟩ | ⟨hcode, rfl⟩
    · rw [if_pos rfl, if_pos rfl]
      rw [hfree] at hx
      apply hx.enter p
      intro q hq hinside
      rwa [Function.update_of_ne hq] at hinside
    · rw [if_neg hcode]
      exact hx
  · by_cases hunlock : cmd = State.UNLOCK
    · subst hunlock
      rw [State.ioctl_unlock, Option.some.injEq, Prod.mk.injEq] at hioctl
      obtain ⟨rfl, rfl⟩ := hioctl
      rw [if_pos rfl, if_neg hlock, if_pos rfl, protects_unlocked_iff]
      exact ⟨fun h _ => h, fun h => h rfl⟩
    · have hsame := State.ioctl_other hlock hunlock hioctl
      subst hsame
      refine iff_of_true ?_ fun heq => absurd heq hunlock
      rw [if_neg hlock, if_neg hunlock, ite_self]
      exact hx

omit [DecidableEq P] in
/-- A step that leaves the mutex and the sections alone. -/
theorem Held.same {x y : State P} {inside : Sections P} (hx : Held (x, inside))
    (h : y.locked = x.locked) : Held (y, inside) := by
  simp only [Held] at hx ⊢
  rw [h]
  exact hx

theorem held_exit_iff {x y : State P} {inside : Sections P} {p : P} (hx : Held (x, inside))
    (h : step x (.exit p) = some y) :
    Held (y, track inside x (.exit p)) ↔ Undisturbed (x, inside) (.exit p) := by
  obtain rfl := step_exit h
  simp only [Held] at hx
  simp only [Held, track, Undisturbed]
  by_cases hmapped : ∃ vma ∈ x.vmas, vma.owner = p
  · have hown : (x.vmas.filter (·.owner = p)).isEmpty = false := by
      obtain ⟨vma, hmem, howner⟩ := hmapped
      rw [← Bool.not_eq_true, List.isEmpty_iff]
      exact List.ne_nil_of_mem (List.mem_filter.mpr ⟨hmem, decide_eq_true howner⟩)
    rw [hown, Bool.and_false, protects_unlocked_iff]
    exact ⟨fun h _ => h, fun h => h hmapped⟩
  · have hown : (x.vmas.filter (·.owner = p)).isEmpty = true := by
      rw [List.isEmpty_iff, List.filter_eq_nil_iff]
      intro vma hmem howner
      exact hmapped ⟨vma, hmem, of_decide_eq_true howner⟩
    rw [hown, Bool.and_true]
    refine iff_of_true (hx.mono fun q hq => (of_update_false hq).2) fun h => absurd h hmapped

/-- At most one process stays in its section, with the mutex locked, exactly when the step disturbs
nobody. -/
theorem held_step_iff {s t : State P × Sections P} {e : Event P} (hs : Held s)
    (h : watch step track s e = some t) : Held t ↔ Undisturbed s e := by
  obtain ⟨x, inside⟩ := s
  obtain ⟨y, inside'⟩ := t
  obtain ⟨hstep, rfl⟩ := watch_eq_some.mp h
  cases e with
  | ioctl p cmd interrupted copyFails => exact held_ioctl_iff hs hstep
  | exit p => exact held_exit_iff hs hstep
  | munmap vma =>
      obtain ⟨-, rfl⟩ := step_munmap hstep
      exact protects_false_iff
  | charOpen file =>
      obtain ⟨-, rfl⟩ := step_charOpen hstep
      exact iff_of_true (hs.same rfl) trivial
  | mmap p file =>
      obtain ⟨privateData, -, rfl⟩ := step_mmap hstep
      exact iff_of_true (hs.same rfl) trivial
  | dup vma p =>
      obtain ⟨-, rfl⟩ := step_dup hstep
      exact iff_of_true (hs.same rfl) trivial
  | fault vma =>
      obtain ⟨-, rfl⟩ := step_fault hstep
      exact iff_of_true (hs.same (congrArg State.Control.locked (x.control_mmapFault vma))) trivial
  | charClose file =>
      obtain ⟨privateData, -, rfl⟩ := step_charClose hstep
      have hcontrol := x.control_charClose privateData
      exact iff_of_true (hs.same (congrArg State.Control.locked hcontrol)) trivial
  | flagStore buf junk =>
      obtain rfl := step_flagStore hstep
      exact iff_of_true (hs.same rfl) trivial
  | sizeStore buf junk outcome =>
      cases hstep
      have hcontrol := x.control_sizeStore buf junk outcome
      exact iff_of_true (hs.same (congrArg State.Control.locked hcontrol)) trivial

/-- A step changes the place of no process but the one that takes it. -/
theorem track_other {inside : Sections P} {x : State P} {e : Event P} {p : P}
    (h : e.actor ≠ some p) : track inside x e p = inside p := by
  cases e with
  | ioctl q cmd interrupted copyFails =>
      have hne : p ≠ q := fun heq => h (by rw [heq, Event.actor])
      simp only [track]
      split_ifs
      · exact Function.update_of_ne hne _ _
      · exact Function.update_of_ne hne _ _
      · rfl
      · rfl
  | exit q =>
      have hne : p ≠ q := fun heq => h (by rw [heq, Event.actor])
      exact Function.update_of_ne hne _ _
  | _ => rfl

omit [DecidableEq P] in
theorem held_init (majorNo : Int) : Held (init P majorNo, fun _ => false) :=
  protects_false_iff.mpr fun _ h => Bool.false_ne_true h

/-- The lock holds throughout a run exactly when no step disturbs the holder. -/
theorem held_run_iff (majorNo : Int) (es : List (Event P)) :
    Always (watch step track) Held (init P majorNo, fun _ => false) es ↔
      Each (watch step track) (fun s e _ => Undisturbed s e) (init P majorNo, fun _ => false) es :=
  always_exact (fun _ => True) (fun _ _ _ _ hs h => held_step_iff hs h)
    (fun _ _ _ _ _ _ _ => trivial) trivial (held_init majorNo) es

/-- If no process unlocks, or exits with the device mapped, while another one is in its section, and
no mapping goes while one is, then at most one process at a time is in its section, and no other one
releases the lock that it holds. -/
theorem exclusive_of_undisturbed (majorNo : Int) (es : List (Event P))
    (hes : Each (watch step track) (fun s e _ => Undisturbed s e)
      (init P majorNo, fun _ => false) es) :
    Always (watch step track) Exclusive (init P majorNo, fun _ => false) es ∧
      Each (watch step track) KeepsLock (init P majorNo, fun _ => false) es := by
  constructor
  · exact ((held_run_iff majorNo es).mpr hes).mono fun s hs => hs.unique
  · refine each_of_each Held (fun s e t hs h he => (held_step_iff hs h).mpr he) ?_
      (held_init majorNo) hes
    intro s e t hs h he p hp hactor _
    have ht := (held_step_iff hs h).mpr he
    apply ht.locked p
    obtain ⟨-, htrack⟩ := watch_eq_some.mp h
    rw [← htrack, track_other hactor]
    exact hp

/-- One process locks and unlocks, and then another one locks. -/
def handOver : List (Event Nat) :=
  [.ioctl 1 State.LOCK false false, .ioctl 1 State.UNLOCK false false,
    .ioctl 2 State.LOCK false false]

theorem exclusive_of_undisturbed_handOver :
    Always (watch step track) Exclusive (init Nat 250, fun _ => false) handOver ∧
      Each (watch step track) KeepsLock (init Nat 250, fun _ => false) handOver := by
  refine exclusive_of_undisturbed 250 handOver ?_
  refine .cons rfl (fun h => absurd h (by decide)) ?_
  refine .cons rfl (fun _ q hq => ?_) ?_
  · have hinside : Function.update (fun _ => false) 1 true q = true := hq
    by_contra hne
    rw [Function.update_of_ne hne] at hinside
    cases hinside
  · exact .cons rfl (fun h => absurd h (by decide)) .nil

/-- A process locks, another one unlocks and locks: both are in their sections. -/
theorem exclusive_unlocked_by_other :
    ¬Always (watch step track) Exclusive (init Nat 250, fun _ => false)
      [.ioctl 1 State.LOCK false false, .ioctl 2 State.UNLOCK false false,
        .ioctl 2 State.LOCK false false] := by
  intro h
  exact absurd ((h.last rfl : Exclusive _) 1 2 (by decide) (by decide)) (by decide)

end Lkm.Shm
