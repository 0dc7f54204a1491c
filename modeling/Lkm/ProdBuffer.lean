import Lkm.ProdAgree

/-! The line buffer of `consumer` of `prod_cons.c`, whatever is in the queue. The 20 bytes hold the
first line for every 32-bit number, and not one byte more for the longest of them, but the second line
only for pids of at most five digits. -/

namespace Lkm.Prod

open Buffer Format Queue

/-- A queue with these `int`s. -/
def fifoOf (content : Kfifo (BitVec 32) 4096) : Fifo where
  items := content.items.map BitVec.toInt
  bound := by
    rw [List.length_map]
    exact content.bound

/-- The texts that `consumer` formats for these numbers, two in every iteration of its loop, from the
position `ts` of the walk on. -/
def texts (tasks : List Pid) : Nat → List Int → List (List Byte)
  | _, [] => []
  | ts, i :: items =>
      pidLine i :: taskLine (taskPid tasks ts).val :: texts tasks (nextTask tasks ts) items

/-- A text fits the line buffer with its terminator. -/
def FitsLine (line : List Byte) : Prop := line.length + 1 ≤ 20

/-- The texts of all iterations fit. -/
def LinesFit (tasks : List Pid) (test : Fifo) : Prop :=
  ∀ line ∈ texts tasks (nextTask tasks 0) test.items, FitsLine line

theorem fitsLine_pidLine (i : BitVec 32) : FitsLine (pidLine i.toInt) := by
  have hlow := BitVec.le_toInt i
  have hhigh := BitVec.toInt_lt (x := i)
  have hnumber := length_formatInt_le (v := i.toInt) (k := 10) (by decide) (by omega) (by omega)
  rw [FitsLine, length_pidLine]
  omega

theorem fitsLine_taskLine_iff (pid : Pid) : FitsLine (taskLine pid.val) ↔ pid.val < 100000 :=
  length_taskLine_lt_iff pid

/-! ### The loop -/

/-- The loop goes on to its end exactly when the texts fit. -/
theorem consumerLoop_isSome_iff (tty : Bool) (tasks : List Pid) (items : List Int) {rounds : Nat}
    (hrounds : items.length < rounds) (ts : Nat) (buffer : Buf 20) {test : Fifo}
    (hitems : test.items = items) (out : Output) :
    (consumerLoop tty tasks rounds ts buffer test out).isSome ↔
      ∀ line ∈ texts tasks ts items, FitsLine line := by
  induction items generalizing rounds ts buffer test out with
  | nil =>
      obtain ⟨rounds, rfl⟩ := Nat.exists_eq_succ_of_ne_zero (Nat.ne_zero_of_lt hrounds)
      rw [consumerLoop, Kfifo.kfifoGet_nil hitems]
      exact iff_of_true rfl fun line hline => absurd hline List.not_mem_nil
  | cons i items ih =>
      obtain ⟨rounds, rfl⟩ := Nat.exists_eq_succ_of_ne_zero (Nat.ne_zero_of_lt hrounds)
      obtain ⟨test', hget, htest'⟩ := Kfifo.kfifoGet_cons hitems
      rw [texts, List.forall_mem_cons, List.forall_mem_cons]
      simp only [consumerLoop, hget]
      by_cases hfirst : FitsLine (pidLine i)
      · obtain ⟨buffer1, out1, hbuffer1, hout1, -⟩ :=
          print_eq tty buffer (nul_notMem_pidLine i) hfirst
            (out.printk (ascii "pid = " ++ formatInt i ++ ascii "   "))
        simp only [hbuffer1, hout1, Option.bind_eq_bind, Option.bind_some]
        rw [and_iff_right hfirst]
        by_cases hsecond : FitsLine (taskLine (taskPid tasks ts).val)
        · obtain ⟨buffer2, out2, hbuffer2, hout2, -⟩ :=
            print_eq tty buffer1 (nul_notMem_taskLine (taskPid tasks ts).val) hsecond
              { out1 with walk := out1.walk ++ [ts] }
          simp only [hbuffer2, hout2, Option.bind_some]
          rw [and_iff_right hsecond]
          exact ih (Nat.lt_of_succ_lt_succ hrounds) (nextTask tasks ts) buffer2 htest' out2
        · rw [sprintf_eq_none buffer1 (Nat.le_of_not_lt hsecond)]
          exact iff_of_false Bool.false_ne_true fun h => hsecond h.1
      · rw [sprintf_eq_none buffer (Nat.le_of_not_lt hfirst)]
        exact iff_of_false Bool.false_ne_true fun h => hfirst h.1

/-- `consumer` comes to its end exactly when the texts fit. -/
theorem consumer_isSome_iff (tty : Bool) (tasks : List Pid) (buffer : Buf 20) (test : Fifo)
    (out : Output) : (consumer tty tasks buffer test out).isSome ↔ LinesFit tasks test :=
  consumerLoop_isSome_iff tty tasks test.items (Nat.lt_succ_of_le test.bound) (nextTask tasks 0)
    buffer rfl _

/-! ### The walk -/

/-- What holds of all texts holds of the first line for every number and of the second one for every
step of the walk. -/
theorem forall_texts_iff (P : List Byte → Prop) (tasks : List Pid) (items : List Int) (ts : Nat) :
    (∀ line ∈ texts tasks ts items, P line) ↔ (∀ i ∈ items, P (pidLine i)) ∧
      ∀ k < items.length, P (taskLine (taskPid tasks ((nextTask tasks)^[k] ts)).val) := by
  induction items generalizing ts with
  | nil => simp [texts]
  | cons i items ih =>
      rw [texts, List.forall_mem_cons, List.forall_mem_cons, ih, List.forall_mem_cons,
        List.length_cons, Nat.forall_lt_succ_left, ← and_assoc]
      exact and_and_and_comm

/-- After `k` steps from `init_task` the walk is at a position up to `k`, in the list. -/
theorem iterate_nextTask_le (tasks : List Pid) (k : Nat) :
    (nextTask tasks)^[k] 0 ≤ k ∧ (nextTask tasks)^[k] 0 ≤ tasks.length := by
  induction k with
  | zero => exact ⟨Nat.le_refl 0, Nat.zero_le _⟩
  | succ k ih =>
      rw [Function.iterate_succ_apply', nextTask]
      split_ifs with hlt
      · exact ⟨Nat.succ_le_succ ih.1, hlt⟩
      · exact ⟨Nat.zero_le _, Nat.zero_le _⟩

/-- Up to the end of the list it goes straight on. -/
theorem iterate_nextTask_eq (tasks : List Pid) {k : Nat} (hk : k ≤ tasks.length) :
    (nextTask tasks)^[k] 0 = k := by
  induction k with
  | zero => rfl
  | succ k ih => rw [Function.iterate_succ_apply', ih (Nat.le_of_lt hk), nextTask, if_pos (Nat.lt_of_succ_le hk)]

/-- The pids that a walk of `n` steps prints are those of the first `n` processes, and 0. -/
theorem walked_iff (tasks : List Pid) (n : Nat) :
    (∀ k < n, (taskPid tasks ((nextTask tasks)^[k] (nextTask tasks 0))).val < 100000) ↔
      ∀ pid ∈ tasks.take n, pid.val < 100000 := by
  constructor
  · intro h pid hpid
    obtain ⟨k, hk, rfl⟩ := List.mem_iff_getElem.mp hpid
    rw [List.length_take] at hk
    have hstep := h k (by omega)
    have hlt : k < tasks.length := by omega
    rw [← Function.iterate_succ_apply, iterate_nextTask_eq tasks hlt, taskPid_succ hlt] at hstep
    rwa [List.getElem_take]
  · intro h k hk
    rw [← Function.iterate_succ_apply]
    obtain ⟨hsteps, hlist⟩ := iterate_nextTask_le tasks (k + 1)
    cases hts : (nextTask tasks)^[k + 1] 0 with
    | zero => exact Nat.zero_lt_succ _
    | succ i =>
        rw [hts] at hsteps hlist
        rw [taskPid_succ hlist]
        exact h _ (List.mem_iff_getElem.mpr
          ⟨i, by rw [List.length_take]; omega, List.getElem_take⟩)

/-- In every iteration of `consumer` both texts fit the line buffer, and so it comes to its end, exactly
when the pids of the first processes, as many as there are numbers in the queue, have at most five
digits. -/
theorem linesFit_iff (tty : Bool) (tasks : List Pid) (buffer : Buf 20)
    (content : Kfifo (BitVec 32) 4096) (out : Output) :
    (LinesFit tasks (fifoOf content) ↔
        ∀ pid ∈ tasks.take content.items.length, pid.val < 100000) ∧
      ((consumer tty tasks buffer (fifoOf content) out).isSome ↔ LinesFit tasks (fifoOf content)) := by
  refine ⟨?_, consumer_isSome_iff tty tasks buffer (fifoOf content) out⟩
  have hlength : (fifoOf content).items.length = content.items.length := List.length_map _
  have hfirst : ∀ i ∈ (fifoOf content).items, FitsLine (pidLine i) := by
    intro i hi
    obtain ⟨v, -, rfl⟩ := List.mem_map.mp hi
    exact fitsLine_pidLine v
  rw [LinesFit, forall_texts_iff, and_iff_right hfirst, hlength, ← walked_iff]
  exact forall₂_congr fun k _ => fitsLine_taskLine_iff _

/-- The process 100000 and a queue with its pid, as `producer` fills it. -/
theorem not_linesFit_sixDigits :
    ¬∀ (tasks : List Pid) (content : Kfifo (BitVec 32) 4096), LinesFit tasks (fifoOf content) := by
  intro h
  have hline := h [100000] ⟨[100000], by decide⟩ (taskLine 100000)
    (List.mem_cons_of_mem _ List.mem_cons_self)
  rw [FitsLine, length_taskLine] at hline
  exact absurd hline (by decide)

end Lkm.Prod
