import Lkm.TaskModel

/-! What `cleanup` of `ex5.c` prints. Its loop stops at the last node before printing it, and looks into
the first node before it knows that there is one, so the last process is left out, and unloading fails
when `init` has found no process. -/

namespace Lkm.TaskList

open Buffer Format HeapList

/-- The line of a task. -/
def lineOf (text : Addr → List Byte) (ts : TaskStruct) : List Byte :=
  taskLine ts.pid (text ts.comm) ts.onCpu

/-- With `k` nodes behind the node `i`, the loop prints `k` tasks from the task `i` on. -/
theorem cleanupLoop_from (text : Addr → List Byte) (tasks : List TaskStruct) {i k rounds : Nat}
    (h : i + k + 1 = tasks.length) (hrounds : k < rounds) :
    cleanupLoop text (listOf tasks).heap rounds (some i) =
      some (((tasks.drop i).take k).map (lineOf text)) := by
  induction k generalizing i rounds with
  | zero =>
      obtain ⟨rounds, rfl⟩ := Nat.exists_eq_succ_of_ne_zero (Nat.ne_zero_of_lt hrounds)
      have hi : i < tasks.length := by omega
      have hnext : (nodeOf tasks.length i tasks[i]).next = none := if_neg (by omega)
      simp only [cleanupLoop, Option.bind_eq_bind, Option.bind_some, getElem?_heap_listOf,
        List.getElem?_eq_getElem hi, Option.map_some, hnext, List.take_zero, List.map_nil]
  | succ k ih =>
      obtain ⟨rounds, rfl⟩ := Nat.exists_eq_succ_of_ne_zero (Nat.ne_zero_of_lt hrounds)
      have hi : i < tasks.length := by omega
      have hnext : (nodeOf tasks.length i tasks[i]).next = some (i + 1) := if_pos (by omega)
      have hrest := ih (by omega : i + 1 + k + 1 = tasks.length) (by omega : k < rounds)
      rw [List.drop_eq_getElem_cons hi, List.take_succ_cons, List.map_cons]
      simp only [cleanupLoop, Option.bind_eq_bind, Option.bind_some, getElem?_heap_listOf,
        List.getElem?_eq_getElem hi, Option.map_some, hnext, hrest]
      rfl

/-- `cleanup` fails without processes, and otherwise prints all of them but the last one. -/
theorem cleanup_listOf (text : Addr → List Byte) (tasks : List TaskStruct) :
    cleanup text (listOf tasks) =
      if tasks = [] then none else some (tasks.dropLast.map (lineOf text) ++ [removedLine]) := by
  by_cases htasks : tasks = []
  · subst htasks
    rfl
  · obtain ⟨n, hn⟩ := Nat.exists_eq_succ_of_ne_zero (mt List.length_eq_zero_iff.mp htasks)
    have hrounds : n < (listOf tasks).heap.length + 1 := by
      rw [length_heap_listOf]
      omega
    have hloop := cleanupLoop_from text tasks (by omega : 0 + n + 1 = tasks.length) hrounds
    rw [if_neg htasks, cleanup, head_listOf htasks, hloop, List.drop_zero, List.dropLast_eq_take, hn]
    rfl

/-- Every task has its line, in the order visited, with any text for its name. -/
def Reports (tasks : List TaskStruct) (printed : Option (List (List Byte))) : Prop :=
  ∃ lines, printed = some (lines ++ [removedLine]) ∧
    List.Forall₂ (fun ts line => ∃ name, line = taskLine ts.pid name ts.onCpu) tasks lines

/-- Loading and unloading the module never reports all the processes. -/
theorem not_reports (text : Addr → List Byte) (visited : List (TaskStruct × MyList)) :
    ¬Reports (visited.map Prod.fst) ((init visited).bind (cleanup text)) := by
  rintro ⟨lines, hprinted, hlines⟩
  rw [init_eq, Option.bind_some, cleanup_listOf] at hprinted
  split_ifs at hprinted with htasks
  have hlength := congrArg List.length (Option.some.inj hprinted)
  have hpos := List.length_pos_of_ne_nil htasks
  rw [List.length_append, List.length_append, List.length_map, List.length_dropLast,
    ← hlines.length_eq] at hlength
  omega

/-- One process, which runs on a processor. -/
def onlyInit : TaskStruct := ⟨0, 1, 0xffff880000001000, 1⟩

/-- A single process is not printed. -/
theorem not_reports_onlyInit :
    ¬∀ text visited, Reports (visited.map Prod.fst) ((init visited).bind (cleanup text)) := by
  intro h
  obtain ⟨lines, hprinted, hlines⟩ := h (fun _ => []) [(onlyInit, ⟨0, 0, 0, 0, none, none⟩)]
  have hone : lines.length = 1 := hlines.length_eq.symm
  have hcount := congrArg (Option.map List.length) hprinted
  rw [Option.map_some, List.length_append, hone] at hcount
  exact absurd hcount (by decide)

end Lkm.TaskList
