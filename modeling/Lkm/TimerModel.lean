import Lkm.BaseFormat
import Lkm.BaseTimer
import Lkm.BaseRuns

/-! The timer of `hrtimer.c`. Its callback counts its calls and arms the timer again in the first 50 of
them; `cleanup_module` deletes the timer. The steps of the callback and of `cleanup_module` come in any
order, and the timer can expire at any time when it is pending. -/

namespace Lkm.HrTimer

open Buffer Format KernelTimer

def ITERATION : Int := 50

/-- Where `my_timer_callback` stands: before the test of the counter, before `mod_timer`, or behind both. -/
inductive Place where
  | test
  | rearm
  | leave
  deriving DecidableEq

/-- Whether `cleanup_module` has called `del_timer` and whether it has returned. -/
inductive Cleanup where
  | notCalled
  | deleted
  | returned
  deriving DecidableEq

/-- The globals of the module, how far unloading is, and the kernel log. -/
structure State where
  counter : Int
  myTimer : Timer Place
  cleanup : Cleanup
  log : List (List Byte)

def modTimerError : List Byte := ascii "Error in mod_timer\n"

/-- The lines for a `ret` that is not 0. -/
def report (ret : Int) (line : List Byte) : List (List Byte) := if ret ≠ 0 then [line] else []

/-- `init_module`, with its result. -/
def initModule (jiffies : Int) : Int × State :=
  let log := [ascii "Timer module installing\n",
    ascii "Starting timer to fire in 200ms (" ++ formatInt jiffies ++ ascii ")\n"]
  let (ret, timer) := Timer.setup.modTimer
  (0, ⟨0, timer, .notCalled, log ++ report ret modTimerError⟩)

inductive Event where
  /-- The timer expires, and `my_timer_callback` is called. -/
  | expire (jiffies : Int)
  /-- The callback evaluates `counter++ < ITERATION`. -/
  | test
  | modTimer
  | callbackReturn
  | delTimer
  | cleanupReturn
  deriving DecidableEq

def step (s : State) : Event → Option State
  | .expire jiffies =>
      (s.myTimer.expire .test).map fun timer =>
        { s with
          myTimer := timer
          log := s.log ++ [ascii "my_timer_callback called (" ++ formatInt jiffies ++ ascii ").\n"] }
  | .test =>
      (s.myTimer.goto .test (some (if s.counter < ITERATION then .rearm else .leave))).map fun timer =>
        { s with counter := s.counter + 1, myTimer := timer }
  | .modTimer =>
      (s.myTimer.goto .rearm (some .leave)).map fun timer =>
        let (ret, timer) := timer.modTimer
        { s with myTimer := timer, log := s.log ++ report ret modTimerError }
  | .callbackReturn => (s.myTimer.goto .leave none).map fun timer => { s with myTimer := timer }
  | .delTimer =>
      if s.cleanup = .notCalled then
        let (ret, timer) := s.myTimer.delTimer
        some { s with
          myTimer := timer
          cleanup := .deleted
          log := s.log ++ report ret (ascii "The timer is still in use...\n") ++
            [ascii "Timer module uninstalling\n"] }
      else none
  | .cleanupReturn =>
      if s.cleanup = .deleted then some { s with cleanup := .returned } else none

/-! ### The steps that are left -/

/-- How many tests of the counter will still pass. -/
def passes (counter : Int) : Nat := (ITERATION - counter).toNat

/-- The steps that the running callback, and the callbacks that it leads to, still have. With `k` tests to
pass, a pending timer has `4 * k + 3` steps left: four for each callback that arms it again, and three
for the last one. -/
def callbackOwes (s : State) : Nat :=
  match s.myTimer.running with
  | none => 0
  | some .test => 4 * passes s.counter + 2
  | some .rearm => 4 * passes s.counter + 5
  | some .leave => 1

def owes (s : State) : Nat :=
  callbackOwes s + if s.myTimer.pending then 4 * passes s.counter + 3 else 0

theorem owes_eq_zero_iff (s : State) : owes s = 0 ↔ s.myTimer.Quiet := by
  unfold owes callbackOwes
  constructor
  · intro h
    constructor
    · cases hpending : s.myTimer.pending with
      | false => rfl
      | true => simp [hpending] at h
    · cases hrunning : s.myTimer.running with
      | none => rfl
      | some place => cases place <;> simp [hrunning] at h
  · intro h
    simp [h.pending, h.running]

/-- The timer is not pending while the callback has not come to `mod_timer`. -/
def Consistent (s : State) : Prop :=
  s.myTimer.running = some .test ∨ s.myTimer.running = some .rearm → s.myTimer.pending = false

theorem consistent_initModule (jiffies : Int) : Consistent (initModule jiffies).2 := by
  intro h
  rcases h with h | h
  · cases h
  · cases h

/-- The events of the timer and its callback. -/
def Event.ofTimer : Event → Bool
  | .delTimer | .cleanupReturn => false
  | _ => true

theorem Event.ofTimer_or (e : Event) : e.ofTimer = true ∨ e = .delTimer ∨ e = .cleanupReturn := by
  cases e with
  | delTimer => exact Or.inr (Or.inl rfl)
  | cleanupReturn => exact Or.inr (Or.inr rfl)
  | _ => exact Or.inl rfl

/-- Each step of the timer or its callback is one of those that are left, and unloading does not notice
it. -/
theorem owes_step {s t : State} {e : Event} (hs : Consistent s) (he : e.ofTimer = true)
    (h : step s e = some t) : owes s = owes t + 1 ∧ Consistent t ∧ t.cleanup = s.cleanup := by
  cases e with
  | expire jiffies =>
      obtain ⟨timer, hexpire, rfl⟩ := Option.map_eq_some_iff.mp h
      obtain ⟨hpending, hrunning, rfl⟩ := Timer.expire_eq_some hexpire
      refine ⟨?_, fun _ => rfl, rfl⟩
      simp [owes, callbackOwes, hpending, hrunning]
  | test =>
      obtain ⟨timer, hgoto, rfl⟩ := Option.map_eq_some_iff.mp h
      obtain ⟨hrunning, rfl⟩ := Timer.goto_eq_some hgoto
      have hpending := hs (Or.inl hrunning)
      refine ⟨?_, fun _ => hpending, rfl⟩
      by_cases hpass : s.counter < ITERATION
      · have hpasses : passes s.counter = passes (s.counter + 1) + 1 := by
          unfold passes
          omega
        simp only [owes, callbackOwes, hrunning, hpending, Bool.false_eq_true, if_false, if_pos hpass,
          hpasses]
        omega
      · have hpasses : passes s.counter = 0 := by
          unfold passes
          omega
        simp [owes, callbackOwes, hrunning, hpending, hpass, hpasses]
  | modTimer =>
      obtain ⟨timer, hgoto, rfl⟩ := Option.map_eq_some_iff.mp h
      obtain ⟨hrunning, rfl⟩ := Timer.goto_eq_some hgoto
      have hpending := hs (Or.inr hrunning)
      refine ⟨?_, ?_, rfl⟩
      · simp only [owes, callbackOwes, Timer.modTimer, hrunning, hpending, Bool.false_eq_true, if_false,
          if_true]
        omega
      · rintro (hplace | hplace)
        · cases hplace
        · cases hplace
  | callbackReturn =>
      obtain ⟨timer, hgoto, rfl⟩ := Option.map_eq_some_iff.mp h
      obtain ⟨hrunning, rfl⟩ := Timer.goto_eq_some hgoto
      refine ⟨?_, ?_, rfl⟩
      · simp only [owes, callbackOwes, hrunning]
        omega
      · rintro (hplace | hplace)
        · cases hplace
        · cases hplace
  | delTimer => cases he
  | cleanupReturn => cases he

theorem delTimer_eq_some {s t : State} (h : step s .delTimer = some t) :
    s.cleanup = .notCalled ∧ t.cleanup = .deleted ∧ t.counter = s.counter ∧
      t.myTimer = { s.myTimer with pending := false } := by
  simp only [step] at h
  split_ifs at h with hcalled
  cases h
  exact ⟨hcalled, rfl, rfl, rfl⟩

theorem cleanupReturn_eq_some {s t : State} (h : step s .cleanupReturn = some t) :
    s.cleanup = .deleted ∧ t = { s with cleanup := .returned } := by
  simp only [step] at h
  split_ifs at h with hdeleted
  exact ⟨hdeleted, (Option.some.inj h).symm⟩

end Lkm.HrTimer
