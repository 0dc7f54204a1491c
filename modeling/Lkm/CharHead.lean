import Lkm.CharModel
import Lkm.BaseRuns

/-! The position that `char.c` keeps beside its queue. A write moves `queue_head` by the length of its
text, whatever the queue takes, a read moves it back byte by byte, and both go to the start when the
distance has reached 4095. So the distance is the number of queued bytes as long as writes find room
and nothing happens at the boundary. -/

namespace Lkm.Char

open Buffer Queue Semaphore Runs

/-- `queue_head - initial_head_pos`. -/
def Dev.distance (dev : Dev) : BitVec 64 := dev.queueHead - dev.initialHeadPos

/-- The distance is the number of bytes in the queue. -/
def HeadExact (x : Sys) : Prop :=
  x.crashed = false ∧ x.dev.distance.toNat = x.dev.cQueue.items.length

/-- A write of a message that stays in the staging buffer, with fewer than 4095 bytes queued and room
for its text; or a read with a queue that is not full. -/
def HeadSafe (x : Sys) : Call → Prop
  | .read _ _ => x.dev.cQueue.items.length < 4096
  | .write _ msg => Staged msg ∧ x.dev.cQueue.items.length < 4095 ∧
      (msg.takeWhile (· ≠ 0)).length ≤ x.dev.cQueue.free

/-- What `headDown` does to the distance. -/
def distanceDown (d : BitVec 64) : BitVec 64 := if d ≥ 4095#64 then 0#64 else d - 1#64

theorem headDown_sub (start head : BitVec 64) :
    headDown start head - start = distanceDown (head - start) := by
  unfold headDown distanceDown
  split_ifs <;> bv_omega

theorem headUp_sub (start head : BitVec 64) (len : Nat) :
    headUp start head len - start =
      if head - start ≥ 4095#64 then 0#64 else head - start + BitVec.ofNat 64 len := by
  unfold headUp
  split_ifs <;> bv_omega

theorem headDown_iterate_sub (start : BitVec 64) (n : Nat) (head : BitVec 64) :
    (headDown start)^[n] head - start = distanceDown^[n] (head - start) := by
  induction n generalizing head with
  | zero => rfl
  | succ n ih => rw [Function.iterate_succ_apply, Function.iterate_succ_apply, ih, headDown_sub]

theorem distanceDown_succ {n : Nat} (hn : n + 1 < 4095) :
    distanceDown (BitVec.ofNat 64 (n + 1)) = BitVec.ofNat 64 n := by
  have hlt : ¬BitVec.ofNat 64 (n + 1) ≥ 4095#64 := by
    simp only [ge_iff_le, BitVec.le_def, BitVec.toNat_ofNat]
    omega
  rw [distanceDown, if_neg hlt, BitVec.ofNat_add]
  bv_omega

theorem distanceDown_iterate {n : Nat} (hn : n < 4095) :
    distanceDown^[n] (BitVec.ofNat 64 n) = 0#64 := by
  induction n with
  | zero => rfl
  | succ n ih => rw [Function.iterate_succ_apply, distanceDown_succ hn, ih (by omega)]

/-- At the start the reads go back and forth between 0 and -1. -/
theorem distanceDown_iterate_zero (k : Nat) : distanceDown^[2 * k] 0#64 = 0#64 := by
  rw [Function.iterate_mul]
  exact Function.iterate_fixed rfl k

/-- What draining the queue does to the distance. -/
theorem distanceDown_drain {n : Nat} (hn : n ≤ 4096) :
    distanceDown^[n] (BitVec.ofNat 64 n) = 0#64 ↔ n < 4096 := by
  have hcases : n < 4095 ∨ n = 2 * 2047 + 1 ∨ n = (2 * 2047 + 1) + 1 := by omega
  rcases hcases with hlt | rfl | rfl
  · exact iff_of_true (distanceDown_iterate hlt) (by omega)
  · refine iff_of_true ?_ (by decide)
    rw [Function.iterate_succ_apply]
    exact distanceDown_iterate_zero 2047
  · refine iff_of_false ?_ (by decide)
    rw [Function.iterate_succ_apply, Function.iterate_succ_apply']
    have hzero : distanceDown^[2 * 2047] (distanceDown 4096#64) = 0#64 := distanceDown_iterate_zero 2047
    rw [show BitVec.ofNat 64 (2 * 2047 + 1 + 1) = 4096#64 from rfl, hzero]
    decide

theorem headExact_read_iff {x y : Sys} {interrupted : Bool} {user : UserBuf} (hx : HeadExact x)
    (h : step x (.read interrupted user) = some y) :
    HeadExact y ↔ HeadSafe x (.read interrupted user) := by
  obtain ⟨code, s, -, rfl⟩ := step_read h
  obtain ⟨hcrashed, hdistance⟩ := hx
  have hof : x.dev.queueHead - x.dev.initialHeadPos = BitVec.ofNat 64 x.dev.cQueue.items.length := by
    rw [← hdistance, BitVec.ofNat_toNat, BitVec.setWidth_eq]
    rfl
  rw [HeadExact, and_iff_right hcrashed]
  simp only [Dev.distance, HeadSafe, headDown_iterate_sub, Kfifo.items_empty, List.length_nil, hof]
  rw [← distanceDown_drain x.dev.cQueue.bound, ← BitVec.toNat_inj]
  rfl

theorem headExact_write_iff {x y : Sys} {interrupted : Bool} {msg : List Byte} (hx : HeadExact x)
    (h : step x (.write interrupted msg) = some y) :
    HeadExact y ↔ HeadSafe x (.write interrupted msg) := by
  obtain ⟨hcrashed, hdistance⟩ := hx
  rcases step_write h with ⟨hmsg, code, s, data, -, rfl⟩ | ⟨hmsg, rfl⟩
  · have hbound : x.dev.cQueue.items.length ≤ 4096 := x.dev.cQueue.bound
    have hfree : x.dev.cQueue.free = 4096 - x.dev.cQueue.items.length := rfl
    have hlength : (msg.takeWhile (· ≠ 0)).length ≤ 50 := by
      refine (List.takeWhile_prefix _).length_le.trans ?_
      rcases hmsg with hlt | ⟨heq, -⟩ <;> omega
    simp only [Dev.distance] at hdistance
    rw [HeadExact, and_iff_right hcrashed, HeadSafe, and_iff_right hmsg]
    simp only [Dev.distance, headUp_sub, Kfifo.items_kfifoIn, List.length_append, List.length_take]
    by_cases hfar : x.dev.queueHead - x.dev.initialHeadPos ≥ 4095#64
    · have hcount : 4095 ≤ x.dev.cQueue.items.length := by
        rw [← hdistance]
        exact hfar
      rw [if_pos hfar]
      refine iff_of_false ?_ fun hsafe => absurd hsafe.1 (by omega)
      rw [BitVec.toNat_ofNat]
      omega
    · have hcount : x.dev.cQueue.items.length < 4095 := by
        rw [← hdistance]
        exact not_le.mp hfar
      rw [if_neg hfar, BitVec.toNat_add, hdistance, BitVec.toNat_ofNat, and_iff_right hcount]
      omega
  · refine iff_of_false ?_ fun hsafe => hmsg hsafe.1
    rintro ⟨hrun, -⟩
    cases hrun

/-- `queue_head` stays as far from its start as there are bytes in the queue, throughout a sequence of
calls, exactly when writes find room and fewer than 4095 queued bytes, and reads no full queue. -/
theorem head_exact_iff (addr : BitVec 64) (calls : List Call) :
    Always step HeadExact (start addr) calls ↔
      Each step (fun x call _ => HeadSafe x call) (start addr) calls := by
  have hstart : HeadExact (start addr) := by
    refine ⟨rfl, ?_⟩
    change (addr - addr).toNat = 0
    rw [BitVec.sub_self]
    rfl
  refine always_exact (fun _ => True) ?_ (fun _ _ _ _ _ _ _ => trivial) trivial hstart calls
  intro x call y _ hx h
  cases call with
  | read interrupted user => exact headExact_read_iff hx h
  | write interrupted msg => exact headExact_write_iff hx h

/-! ### Filling the queue -/

/-- Writes of 49 bytes, one after the other. -/
def fill (k : Nat) : List Call := List.replicate k (.write false (List.replicate 49 0x41))

/-- With `s` free, such a write returns and leaves `s` free. -/
theorem step_fill {x : Sys} (hcrashed : x.crashed = false) (hs : x.dev.s = 1) :
    ∃ y, step x (.write false (List.replicate 49 0x41)) = some y ∧ y.crashed = false ∧
      y.dev.s = 1 ∧ y.dev.cQueue.items.length = min (x.dev.cQueue.items.length + 49) 4096 := by
  have hdown : downInterruptible false x.dev.s = some (0, 0) := by rw [hs]; rfl
  have hmsg : Staged (List.replicate 49 0x41) := Or.inl (by decide)
  obtain ⟨data, hwrite⟩ := charWrite_eq hdown hmsg
  generalize hdev : ({ x.dev with
    s := up 0
    cQueue := (x.dev.cQueue.kfifoIn ((List.replicate 49 0x41).takeWhile (· ≠ 0))).2
    data := data
    queueHead := headUp x.dev.initialHeadPos x.dev.queueHead
      ((List.replicate 49 (0x41 : Byte)).takeWhile (· ≠ 0)).length
    readCount := x.dev.readCount + 1 } : Dev) = dev at hwrite
  refine ⟨{ x with
    dev := dev
    log := x.log ++ [⟨.write false (List.replicate 49 0x41), 0, []⟩] }, ?_, hcrashed, ?_, ?_⟩
  · rw [step, hcrashed, if_neg Bool.false_ne_true, perform, hwrite]
    rfl
  · rw [← hdev]
    rfl
  · have htext : ((List.replicate 49 (0x41 : Byte)).takeWhile (· ≠ 0)).length = 49 := by decide
    have hbound : x.dev.cQueue.items.length ≤ 4096 := x.dev.cQueue.bound
    have hfree : x.dev.cQueue.free = 4096 - x.dev.cQueue.items.length := rfl
    rw [← hdev]
    simp only [Kfifo.items_kfifoIn, List.length_append, List.length_take, htext, hfree]
    omega

theorem run_fill (k : Nat) (hk : 49 * k ≤ 4096) :
    ∃ x, run step (start 0) (fill k) = some x ∧ x.crashed = false ∧ x.dev.s = 1 ∧
      x.dev.cQueue.items.length = 49 * k := by
  induction k with
  | zero => exact ⟨start 0, rfl, rfl, rfl, rfl⟩
  | succ k ih =>
      obtain ⟨x, hrun, hcrashed, hs, hitems⟩ := ih (by omega)
      obtain ⟨y, hstep, hcrashed', hs', hitems'⟩ := step_fill hcrashed hs
      refine ⟨y, ?_, hcrashed', hs', by omega⟩
      rw [fill, List.replicate_succ', run_append, ← fill, hrun, Option.bind_some, run, hstep]
      rfl

/-- The 84th of these writes moves the head by 49, and the queue takes 29 bytes. -/
theorem head_exact_full_queue : ¬Always step HeadExact (start 0) (fill 84) := by
  intro h
  rw [always_iff_visited] at h
  obtain ⟨x, hrun, hcrashed, hs, hitems⟩ := run_fill 83 (by decide)
  obtain ⟨y, hstep, -⟩ := step_fill hcrashed hs
  have hfill : fill 84 = fill 83 ++ [.write false (List.replicate 49 0x41)] := rfl
  have hrun' : run step (start 0) (fill 84) = some y := by
    rw [hfill, run_append, hrun, Option.bind_some, run, hstep]
    rfl
  have hx : HeadExact x := h (fill 83) x ⟨_, hfill.symm⟩ hrun
  have hy : HeadExact y := h (fill 84) y List.prefix_rfl hrun'
  have hfits := ((headExact_write_iff hx hstep).mp hy).2.2
  have hfree : x.dev.cQueue.free = 29 := by
    change 4096 - x.dev.cQueue.items.length = 29
    rw [hitems]
  rw [hfree] at hfits
  exact absurd hfits (by decide)

end Lkm.Char
