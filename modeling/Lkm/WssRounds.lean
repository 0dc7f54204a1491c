import Lkm.WssModel
import Mathlib.Data.Finset.Card

/-! The numbers that `wssdemo3.c` prints. `start` clears `wss` at the top of each round and prints it
before the round's `msleep`, so the pages that the process touches while the module sleeps are
counted into a number that is cleared before it is printed. -/

namespace Lkm.Wss.Demo3

open PageTable

variable (pid : Int) (accesses : Nat → List Addr)

/-- The state at the `printk` of a round that begins in `s`. -/
def markRound (s : State) : State := { mm := { s.mm with pgd := markPgd s.mm }, wss := 0 }

/-- The state after the sleep of round `i`. -/
def roundEnd (i : Nat) (s : State) : State := (accesses i).foldl (access pid) (markRound s)

/-- The state at the beginning of round `i + k + 1`, when round `i + 1` begins in `s`. -/
def roundStart (s : State) (i : Nat) : Nat → State
  | 0 => s
  | k + 1 => roundEnd pid accesses (i + k + 1) (roundStart s i k)

theorem startLoop_succ (rounds i : Nat) (s : State) :
    startLoop pid accesses (rounds + 1) i s =
      (startLoop pid accesses rounds (i + 1) (roundEnd pid accesses (i + 1) s)).map fun r =>
        ((i + 1, 0) :: r.1, r.2) := by
  have hmark : step pid { s with wss := 0 } .mark = some (markRound s) :=
    step_mark pid { s with wss := 0 }
  simp only [startLoop, hmark, Option.bind_eq_bind, Option.bind_some, Option.pure_def, markRound,
    roundEnd, Option.map_eq_bind, Function.comp_def]

/-- After `k` rounds the loop goes on from the state `roundStart` says. -/
theorem startLoop_add (k rounds i : Nat) (s : State) :
    ∃ log, log.length = k ∧
      startLoop pid accesses (k + rounds) i s =
        (startLoop pid accesses rounds (i + k) (roundStart pid accesses s i k)).map fun r =>
          (log ++ r.1, r.2) := by
  induction k generalizing rounds with
  | zero => exact ⟨[], rfl, by simp [roundStart]⟩
  | succ k ih =>
      obtain ⟨log, hlength, hloop⟩ := ih (rounds + 1)
      refine ⟨log ++ [(i + k + 1, 0)], by simp [hlength], ?_⟩
      rw [show k + 1 + rounds = k + (rounds + 1) by omega, hloop, startLoop_succ, Option.map_map]
      rw [show i + (k + 1) = i + k + 1 by omega]
      congr 1
      funext r
      simp only [Function.comp_apply, List.append_assoc, List.singleton_append]

/-- Every round prints 0. -/
theorem startLoop_eq (rounds i : Nat) (s : State) :
    ∃ t, startLoop pid accesses rounds i s =
      some ((List.range rounds).map fun j => (i + 1 + j, 0), t) := by
  induction rounds generalizing i s with
  | zero => exact ⟨s, rfl⟩
  | succ rounds ih =>
      obtain ⟨t, ht⟩ := ih (i + 1) (roundEnd pid accesses (i + 1) s)
      refine ⟨t, ?_⟩
      rw [startLoop_succ, ht, Option.map_some, List.range_succ_eq_map, List.map_cons, List.map_map]
      congr 3
      apply List.map_congr_left
      intro j _
      simp only [Function.comp_apply, Prod.mk.injEq, and_true]
      omega

theorem start_eq (mm : Mm) :
    ∃ t, start pid (some ⟨pid, mm⟩) accesses =
      some ((List.range 10).map fun j => (j + 1, 0), some t) := by
  obtain ⟨t, ht⟩ := startLoop_eq pid accesses 10 0 ⟨mm, 0⟩
  refine ⟨t, ?_⟩
  simp only [start, if_true, ht, Option.map_some, Nat.zero_add, Nat.add_comm]

/-- The pages that are marked in a round which begins in `s`. -/
def markedIn (s : State) : Finset Slot := (markedSlots s.mm).toFinset

/-- The pages that are accessed during the sleep of round `i`. -/
def accessedIn (i : Nat) : Finset Slot := ((accesses i).map slotOf).toFinset

/-- The number printed in round `k + 2` is the number of pages that round `k + 1` marked and that
were accessed between the two rounds exactly when there is no such page. -/
theorem printed_wss_iff (mm : Mm) (k : Nat) (hk : k < 9) :
    ∃ log t, ∃ wss : Int, start pid (some ⟨pid, mm⟩) accesses = some (log, t) ∧
      log[k + 1]? = some (k + 2, wss) ∧
      (wss = (markedIn (roundStart pid accesses ⟨mm, 0⟩ 0 k) ∩ accessedIn accesses (k + 1)).card ↔
        ∀ addr ∈ accesses (k + 1),
          slotOf addr ∉ markedSlots (roundStart pid accesses ⟨mm, 0⟩ 0 k).mm) := by
  obtain ⟨t, ht⟩ := start_eq pid accesses mm
  refine ⟨_, _, 0, ht, ?_, ?_⟩
  · rw [List.getElem?_map, List.getElem?_range (by omega)]
    rfl
  · rw [eq_comm, Nat.cast_eq_zero, Finset.card_eq_zero, Finset.eq_empty_iff_forall_notMem]
    simp only [markedIn, accessedIn, Finset.mem_inter, List.mem_toFinset, List.mem_map, not_and,
      not_exists]
    constructor
    · intro h addr haddr hmarked
      exact h _ hmarked addr haddr rfl
    · rintro h slot hmarked addr haddr rfl
      exact h addr haddr hmarked

/-- One area of one page, and every entry present and accessible for the user. -/
def allPresent : Mm where
  mmap := [oneArea]
  pgd := fun _ => .table fun _ => .table fun _ => .table fun _ => 0x25

theorem printed_wss_iff_allPresent :
    ∃ log t, ∃ wss : Int, start 7 (some ⟨7, allPresent⟩) (fun _ => [0x500000]) = some (log, t) ∧
      log[3]? = some (4, wss) ∧
      (wss = (markedIn (roundStart 7 (fun _ => [0x500000]) ⟨allPresent, 0⟩ 0 2) ∩
          accessedIn (fun _ => [0x500000]) 3).card ↔
        ∀ addr ∈ [(0x500000 : Addr)],
          slotOf addr ∉ markedSlots (roundStart 7 (fun _ => [0x500000]) ⟨allPresent, 0⟩ 0 2).mm) :=
  printed_wss_iff 7 (fun _ => [0x500000]) allPresent 2 (by decide)

/-- The process touches a marked page during the first sleep, and round 2 prints 0 instead of 1. -/
theorem printed_wss_touched :
    ¬∃ log t, ∃ wss : Int, start 7 (some ⟨7, allPresent⟩) (fun _ => [0x400000]) = some (log, t) ∧
      log[1]? = some (2, wss) ∧
      wss = (markedIn (roundStart 7 (fun _ => [0x400000]) ⟨allPresent, 0⟩ 0 0) ∩
        accessedIn (fun _ => [0x400000]) 1).card := by
  rintro ⟨log, t, wss, hstart, hlog, hwss⟩
  obtain ⟨t', ht'⟩ := start_eq 7 (fun _ => [0x400000]) allPresent
  rw [ht'] at hstart
  cases hstart
  have hzero : wss = 0 := by
    simpa using hlog.symm
  have hcard : (markedIn (roundStart 7 (fun _ => [0x400000]) ⟨allPresent, 0⟩ 0 0) ∩
      accessedIn (fun _ => [0x400000]) 1).card = 1 := by
    decide
  rw [hzero, hcard] at hwss
  exact absurd hwss (by decide)

end Lkm.Wss.Demo3
