import Lkm.ShmModel
import Lkm.BaseRuns
import Mathlib.Data.List.Basic

/-! The count of mappings in `ex77.c`. `mmap_mmap` counts the first mapping itself, the kernel counts
the copies through `mmap_open`, and every mapping that goes is taken off by `mmap_close`. The two
stores of the module look at the count before they change what the processes share. The count is an
`int`: it is the number of live mappings modulo `2 ^ 32`, and with `2 ^ 32` of them it is 0 again. -/

namespace Lkm.Shm

open Scan Runs

variable {P : Type}

/-- The count is the number of live mappings as far as 32 bits can say it, and what the stores guard
with it is safe while that is not 0. -/
structure Counted (x : State P) : Prop where
  count : x.count = BitVec.ofNat 32 x.vmas.length
  int : x.vmas.length < 2 ^ 31 → x.count.toInt = x.vmas.length
  flagKept : x.vmas.length % 2 ^ 32 ≠ 0 → ∀ buf junk, (sscanfInt buf).getD junk = 0 →
    (x.flagStore buf junk).2.flag = x.flag
  sizeKept : x.vmas.length % 2 ^ 32 ≠ 0 → ∀ buf junk outcome,
    (State.final (x.sizeStore buf junk outcome)).size = x.size ∧
      (State.final (x.sizeStore buf junk outcome)).mpInfo = x.mpInfo

theorem count_ne_zero {x : State P} (h : x.count = BitVec.ofNat 32 x.vmas.length)
    (hlength : x.vmas.length % 2 ^ 32 ≠ 0) : x.count ≠ 0 := by
  intro hzero
  rw [h] at hzero
  have hnat := congrArg BitVec.toNat hzero
  rw [BitVec.toNat_ofNat] at hnat
  exact hlength hnat

theorem counted_of_count {x : State P} (h : x.count = BitVec.ofNat 32 x.vmas.length) : Counted x where
  count := h
  int := by
    intro hlength
    have hint := toInt32_eq_self (v := x.vmas.length) (by omega) (by omega)
    rw [toInt32, BitVec.ofInt_natCast] at hint
    rw [h]
    exact hint
  flagKept := by
    intro hlength buf junk hzero
    simp only [State.flagStore, hzero, if_true, if_pos (count_ne_zero h hlength)]
  sizeKept := by
    intro hlength buf junk outcome
    have hguard : ¬((sscanfInt buf).getD junk > x.size ∧ x.count = 0) :=
      fun hguard => count_ne_zero h hlength hguard.2
    rw [State.sizeStore_of_not_guard outcome hguard]
    exact ⟨rfl, rfl⟩

/-- An operation that leaves the count and the mappings alone. -/
theorem count_of_control {x y : State P} (h : x.count = BitVec.ofNat 32 x.vmas.length)
    (hcontrol : y.control = x.control) : y.count = BitVec.ofNat 32 y.vmas.length := by
  have hcount : y.count = x.count := congrArg State.Control.count hcontrol
  have hvmas : y.vmas = x.vmas := congrArg State.Control.vmas hcontrol
  rw [hcount, hvmas]
  exact h

/-- Taking `b` of `a + b` mappings off the count. -/
theorem ofNat_sub_of_add {a b l : Nat} (h : l = a + b) :
    BitVec.ofNat 32 l - BitVec.ofNat 32 b = BitVec.ofNat 32 a := by
  rw [h, BitVec.ofNat_add, BitVec.add_sub_cancel]

variable [DecidableEq P]

theorem count_step {x y : State P} {e : Event P} (hx : x.count = BitVec.ofNat 32 x.vmas.length)
    (h : step x e = some y) : y.count = BitVec.ofNat 32 y.vmas.length := by
  cases e with
  | ioctl p cmd interrupted copyFails =>
      obtain ⟨locked, rfl⟩ := step_ioctl h
      exact hx
  | charOpen file =>
      obtain ⟨-, rfl⟩ := step_charOpen h
      exact hx
  | mmap p file =>
      obtain ⟨privateData, -, rfl⟩ := step_mmap h
      simp only [State.mmapOpen, List.length_cons, BitVec.ofNat_add, hx]
      rfl
  | dup vma p =>
      obtain ⟨-, rfl⟩ := step_dup h
      simp only [State.mmapOpen, List.length_cons, BitVec.ofNat_add, hx]
      rfl
  | munmap vma =>
      obtain ⟨hmem, rfl⟩ := step_munmap h
      have hlength := List.length_erase_add_one hmem
      simp only [State.mmapClose, hx]
      exact ofNat_sub_of_add (b := 1) hlength.symm
  | exit p =>
      obtain rfl := step_exit h
      have hsplit := List.length_eq_length_filter_add (l := x.vmas) fun vma => decide (vma.owner = p)
      simp only [hx, ne_eq, decide_not]
      exact ofNat_sub_of_add (hsplit.trans (Nat.add_comm _ _))
  | fault vma =>
      obtain ⟨-, rfl⟩ := step_fault h
      exact count_of_control hx (x.control_mmapFault vma)
  | charClose file =>
      obtain ⟨privateData, -, rfl⟩ := step_charClose h
      have hclose := count_of_control hx (x.control_charClose privateData)
      exact hclose
  | flagStore buf junk =>
      obtain rfl := step_flagStore h
      exact hx
  | sizeStore buf junk outcome =>
      cases h
      exact count_of_control hx (x.control_sizeStore buf junk outcome)

/-- The count is the number of live mappings modulo `2 ^ 32` in every state of a run, and while that is
not 0 a store of 0 to `flag` and any store to `size` change nothing. -/
theorem count_eq_mappings (majorNo : Int) (es : List (Event P)) :
    Always step Counted (init P majorNo) es := by
  have hcount : Always step (fun x => x.count = BitVec.ofNat 32 x.vmas.length) (init P majorNo) es :=
    always_of_step (fun x => x.count = BitVec.ofNat 32 x.vmas.length)
      (fun _ _ _ hx h => count_step hx h) rfl es
  exact hcount.mono fun _ => counted_of_count

/-! ### The number itself -/

/-- What the count would be without a bound. -/
structure CountsMappings (x : State P) : Prop where
  count : x.count.toInt = x.vmas.length
  flagKept : x.vmas ≠ [] → ∀ buf junk, (sscanfInt buf).getD junk = 0 →
    (x.flagStore buf junk).2.flag = x.flag
  sizeKept : x.vmas ≠ [] → ∀ buf junk outcome,
    (State.final (x.sizeStore buf junk outcome)).size = x.size ∧
      (State.final (x.sizeStore buf junk outcome)).mpInfo = x.mpInfo

/-- Mapping an open file again and again. -/
theorem run_mmaps {x : State P} {file : Nat} {privateData : Option Ptr}
    (hfile : x.files file = some privateData) (p : P) (k : Nat) :
    run step x (List.replicate k (.mmap p file)) = some { x with
      count := x.count + BitVec.ofNat 32 k
      vmas := List.replicate k ⟨p, file, privateData⟩ ++ x.vmas } := by
  induction k generalizing x with
  | zero =>
      have hcount : x.count + BitVec.ofNat 32 0 = x.count := BitVec.add_zero x.count
      rw [hcount]
      rfl
  | succ k ih =>
      let vma : Vma P := ⟨p, file, privateData⟩
      have hstep : step x (.mmap p file) = some { x.mmapOpen with vmas := vma :: x.vmas } := by
        simp only [step, hfile, State.mmapMmap]
        rfl
      have hcount : x.count + 1 + BitVec.ofNat 32 k = x.count + BitVec.ofNat 32 (k + 1) := by
        rw [BitVec.add_assoc, Nat.add_comm k 1, BitVec.ofNat_add]
        rfl
      have hvmas : List.replicate k vma ++ vma :: x.vmas = List.replicate (k + 1) vma ++ x.vmas := by
        rw [List.append_cons, ← List.replicate_succ']
      have hrest := ih (x := { x.mmapOpen with vmas := vma :: x.vmas }) hfile
      rw [List.replicate_succ, run, hstep, Option.bind_some, hrest, ← hcount, ← hvmas]
      rfl

/-- A file opened once and mapped `k` times, with `flag` set before. -/
theorem exists_run_mmaps (k : Nat) : ∃ x, run step (init Unit 250)
      (.charOpen 0 :: .flagStore [0x31] 0 :: List.replicate k (.mmap () 0)) = some x ∧
    x.vmas.length = k ∧ x.count = BitVec.ofNat 32 k ∧ x.flag = 1 := by
  let y : State Unit := (((init Unit 250).charOpen 0).flagStore [0x31] 0).2
  have hfile : y.files 0 = some none := rfl
  have hrun := run_mmaps hfile () k
  have hstart : y.count = 0 ∧ y.vmas = [] ∧ y.flag = 1 := ⟨rfl, rfl, rfl⟩
  refine ⟨_, hrun, ?_, ?_, hstart.2.2⟩
  · simp only [hstart.2.1, List.append_nil, List.length_replicate]
  · simp only [hstart.1]
    exact BitVec.zero_add _

/-- With `2 ^ 32` mappings the count is 0, and a store of 0 to `flag` goes through. -/
theorem count_wraps : ∃ x, run step (init Unit 250)
      (.charOpen 0 :: .flagStore [0x31] 0 :: List.replicate (2 ^ 32) (.mmap () 0)) = some x ∧
    x.vmas.length = 2 ^ 32 ∧ x.count = 0 ∧ (x.flagStore [0x30] 0).2.flag ≠ x.flag ∧
      ¬CountsMappings x := by
  obtain ⟨x, hrun, hlength, hcount, hflag⟩ := exists_run_mmaps (2 ^ 32)
  have hzero : x.count = 0 := hcount.trans (by decide)
  have hscan : (sscanfInt [0x30]).getD 0 = 0 := by decide
  have hstore : (x.flagStore [0x30] 0).2.flag = 0 := by
    simp only [State.flagStore, hscan, hzero, if_true, ne_eq, not_true_eq_false, if_false]
  refine ⟨x, hrun, hlength, hzero, ?_, fun hcounts => ?_⟩
  · rw [hstore, hflag]
    decide
  · have hint := hcounts.count
    rw [hlength, hzero] at hint
    exact absurd hint (by decide)

end Lkm.Shm
