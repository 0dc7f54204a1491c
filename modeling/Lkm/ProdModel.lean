import Lkm.BaseQueue
import Lkm.BaseFormat

/-! The producer and the consumer of `prod_cons.c`. The producer puts the pids of all processes into a
queue of 4096 numbers and does not look at what `kfifo_put` returns. The consumer empties the queue and
walks the list of processes once more beside it. Its line buffer has 20 bytes; a text that does not fit
is `none`. -/

namespace Lkm.Prod

open Buffer Format Queue

/-- The pids that the kernel assigns are below `PID_MAX_LIMIT`. -/
abbrev Pid := Fin 4194304

/-! ### The circular list of the processes

Position 0 is `init_task`, and the process `i` of the list is at position `i + 1`. -/

def nextTask (tasks : List Pid) (ts : Nat) : Nat := if ts < tasks.length then ts + 1 else 0

def taskPid (tasks : List Pid) : Nat → Pid
  | 0 => 0
  | i + 1 => tasks.getD i 0

/-- `for_each_process(task)`, from behind the position `task` on; `none` when the rounds run out. -/
def forEachProcess {σ : Type} (tasks : List Pid) (body : Pid → σ → σ) : Nat → Nat → σ → Option σ
  | 0, _, _ => none
  | rounds + 1, task, s =>
      let task := nextTask tasks task
      if task = 0 then some s
      else forEachProcess tasks body rounds task (body (taskPid tasks task) s)

/-! ### The module -/

abbrev Fifo := Kfifo Int 4096

def producer (tasks : List Pid) (test : Fifo) : Option (Int × Fifo) :=
  (forEachProcess tasks (fun pid test => (test.kfifoPut pid.val).2) (tasks.length + 1) 0 test).map
    fun test => (0, test)

/-- What is written to the terminal and to the kernel log, and the positions of the list whose pids are
printed. -/
structure Output where
  tty : List (List Byte)
  log : List (List Byte)
  walk : List Nat

def Output.printk (out : Output) (line : List Byte) : Output := { out with log := out.log ++ [line] }

/-- `console_output(str)`; `tty` says whether `get_current_tty` finds a terminal. -/
def consoleOutput (tty : Bool) (str : Buf 20) (out : Output) : Option Output := do
  if tty then
    let str ← text str
    return { out with tty := out.tty ++ [str] }
  else return out.printk (ascii "tty is NULL ")

def pidLine (i : Int) : List Byte := ascii "pid = " ++ formatInt i ++ ascii " \n"

def taskLine (pid : Int) : List Byte := ascii "task->pid is " ++ formatInt pid ++ ascii "\n"

/-- The loop of `consumer`. -/
def consumerLoop (tty : Bool) (tasks : List Pid) :
    Nat → Nat → Buf 20 → Fifo → Output → Option (Fifo × Output)
  | 0, _, _, _, _ => none
  | rounds + 1, ts, buffer, test, out =>
      match test.kfifoGet with
      | none => some (test, out)
      | some (i, test) => do
          let out := out.printk (ascii "pid = " ++ formatInt i ++ ascii "   ")
          let buffer ← sprintf buffer (pidLine i)
          let out ← consoleOutput tty buffer out
          let buffer ← sprintf buffer (taskLine (taskPid tasks ts).val)
          let out ← consoleOutput tty buffer { out with walk := out.walk ++ [ts] }
          consumerLoop tty tasks rounds (nextTask tasks ts) buffer test out

/-- `consumer()`. The buffer is not initialised. -/
def consumer (tty : Bool) (tasks : List Pid) (buffer : Buf 20) (test : Fifo) (out : Output) :
    Option (Fifo × Output) :=
  let out :=
    match test.kfifoPeek with
    | some i => out.printk (formatInt i ++ ascii " \n")
    | none => out
  consumerLoop tty tasks 4097 (nextTask tasks 0) buffer test out

/-- `init()` of the module, where the list is the same for both functions. -/
def init (tty : Bool) (tasks : List Pid) (buffer : Buf 20) : Option Output := do
  let (_, test) ← producer tasks .empty
  let (_, out) ← consumer tty tasks buffer test ⟨[], [], []⟩
  return out

/-! ### The list -/

theorem taskPid_succ {tasks : List Pid} {i : Nat} (h : i < tasks.length) :
    taskPid tasks (i + 1) = tasks[i] := by
  rw [taskPid, List.getD_eq_getElem?_getD, List.getElem?_eq_getElem h, Option.getD_some]

theorem forEachProcess_eq {σ : Type} (tasks : List Pid) (body : Pid → σ → σ) (rounds task : Nat)
    (s : σ) (hrounds : tasks.length - task < rounds) :
    forEachProcess tasks body rounds task s =
      some ((tasks.drop task).foldl (fun s pid => body pid s) s) := by
  induction rounds generalizing task s with
  | zero => exact absurd hrounds (Nat.not_lt_zero _)
  | succ rounds ih =>
      by_cases hlt : task < tasks.length
      · rw [forEachProcess, nextTask, if_pos hlt, if_neg (Nat.succ_ne_zero task), ih (task + 1) _ (by omega),
          taskPid_succ hlt, List.drop_eq_getElem_cons hlt, List.foldl_cons]
      · rw [forEachProcess, nextTask, if_neg hlt, if_pos rfl, List.drop_of_length_le (Nat.not_lt.mp hlt),
          List.foldl_nil]

/-- The producer stores the pids of the first 4096 processes. -/
theorem producer_eq (tasks : List Pid) :
    ∃ test, producer tasks .empty = some (0, test) ∧
      test.items = (tasks.map fun pid => (pid.val : Int)).take 4096 := by
  have hloop := forEachProcess_eq tasks (fun pid (test : Fifo) => (test.kfifoPut pid.val).2)
    (tasks.length + 1) 0 .empty (by omega)
  refine ⟨_, by rw [producer, hloop, Option.map_some], ?_⟩
  have hput := Kfifo.items_foldl_kfifoPut (.empty : Fifo) (tasks.map fun pid => (pid.val : Int))
  rw [List.foldl_map] at hput
  exact hput

/-! ### The lines -/

theorem nul_notMem_pidLine (i : Int) : 0 ∉ pidLine i := by
  simp only [pidLine, List.mem_append, not_or]
  exact ⟨⟨by decide, nul_notMem_formatInt i⟩, by decide⟩

theorem nul_notMem_taskLine (pid : Int) : 0 ∉ taskLine pid := by
  simp only [taskLine, List.mem_append, not_or]
  exact ⟨⟨by decide, nul_notMem_formatInt pid⟩, by decide⟩

theorem length_pidLine (i : Int) : (pidLine i).length = (formatInt i).length + 8 := by
  simp only [pidLine, List.length_append, length_ascii, String.reduceToList, List.length_cons,
    List.length_nil]
  omega

theorem length_taskLine (pid : Int) : (taskLine pid).length = (formatInt pid).length + 14 := by
  simp only [taskLine, List.length_append, length_ascii, String.reduceToList, List.length_cons,
    List.length_nil]
  omega

theorem length_pidLine_lt (pid : Pid) : (pidLine pid.val).length < 20 := by
  have hpid := pid.isLt
  have hnumber := length_formatInt_le (v := pid.val) (k := 6) (by decide) (by omega) (by omega)
  rw [length_pidLine]
  omega

/-- The second line fits the buffer for pids of at most five digits. -/
theorem length_taskLine_lt_iff (pid : Pid) : (taskLine pid.val).length < 20 ↔ pid.val < 100000 := by
  have hnumber : (formatInt (pid.val : Int)).length ≤ 5 ↔ pid.val < 10 ^ 5 := by
    rw [formatInt, if_neg (by omega), Int.natAbs_natCast]
    exact length_formatNat_le_iff pid.val (by decide)
  rw [length_taskLine]
  omega

end Lkm.Prod
