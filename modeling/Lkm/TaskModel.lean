import Lkm.BaseFormat
import Lkm.BaseHeapList

/-! The task list of `ex5.c`: `init` appends a node for every process to a doubly linked list, and
`cleanup` walks the list and prints the nodes. The nodes that `kmalloc` has returned are an explicit
heap, and every `kmalloc` succeeds. -/

namespace Lkm.TaskList

open Buffer Format HeapList

abbrev Addr := BitVec 64

/-- What `add_task_data` reads of a task; `comm` is the address of its name. -/
structure TaskStruct where
  state : Int
  pid : Int
  comm : Addr
  onCpu : Int

structure MyList where
  state : Int
  pid : Int
  name : Addr
  processor : Int
  prev : Option Ptr
  next : Option Ptr

/-- The nodes that `kmalloc` has returned, and the global `head`. Nothing is ever freed. -/
structure Nodes where
  heap : List MyList
  head : Option Ptr

/-- The four stores into the fresh node, which holds `fresh` before. -/
def fill (ts : TaskStruct) (fresh : MyList) : MyList :=
  { fresh with state := ts.state, pid := ts.pid, name := ts.comm, processor := ts.onCpu }

/-- `add_task_data(ts)`; `none` when the search for the last node dereferences null or does not end. -/
def addTaskData (ts : TaskStruct) (fresh : MyList) (l : Nodes) : Option Nodes :=
  let new := l.heap.length
  let heap := l.heap ++ [fill ts fresh]
  match l.head with
  | none => some ⟨heap.modify new fun node => { node with prev := none, next := none }, some new⟩
  | some tmp =>
      (lastNode MyList.next heap heap.length (some tmp)).map fun tmp =>
        let heap := heap.modify new fun node => { node with next := none }
        let heap := heap.modify tmp fun node => { node with next := some new }
        let heap := heap.modify new fun node => { node with prev := some tmp }
        ⟨heap, l.head⟩

/-- `init`, for the tasks that `for_each_process` visits, each with what `kmalloc` returns for it. -/
def init (visited : List (TaskStruct × MyList)) : Option Nodes :=
  visited.foldlM (fun l tf => addTaskData tf.1 tf.2 l) ⟨[], none⟩

/-- A line that `cleanup` prints; `name` is the text at the address in the node. -/
def taskLine (pid : Int) (name : List Byte) (processor : Int) : List Byte :=
  ascii "PID:" ++ formatInt pid ++ ascii "  NAME :" ++ name ++ ascii " ON_CPU_CORE : " ++
    formatInt processor ++ ascii "\n"

def removedLine : List Byte := ascii "lkm removed \n"

/-- The loop `while (ptr->next != NULL)` of `cleanup` and what it prints. `text` is what the memory
holds at an address by now. -/
def cleanupLoop (text : Addr → List Byte) (heap : List MyList) :
    Nat → Option Ptr → Option (List (List Byte))
  | 0, _ => none
  | rounds + 1, ptr => do
      let p ← ptr
      let node ← heap[p]?
      match node.next with
      | none => some []
      | some next =>
          let lines ← cleanupLoop text heap rounds (some next)
          return taskLine node.pid (text node.name) node.processor :: lines

/-- `cleanup` and what it prints; `none` when it dereferences null or does not end. -/
def cleanup (text : Addr → List Byte) (l : Nodes) : Option (List (List Byte)) :=
  (cleanupLoop text l.heap (l.heap.length + 1) l.head).map (· ++ [removedLine])

/-! ### The list of the tasks -/

/-- The node for the task `i` of `n`, which are allocated in order. -/
def nodeOf (n i : Nat) (ts : TaskStruct) : MyList where
  state := ts.state
  pid := ts.pid
  name := ts.comm
  processor := ts.onCpu
  prev := if i = 0 then none else some (i - 1)
  next := if i + 1 < n then some (i + 1) else none

/-- The doubly linked list of these tasks. -/
def listOf (tasks : List TaskStruct) : Nodes where
  heap := tasks.mapIdx (nodeOf tasks.length)
  head := if tasks = [] then none else some 0

theorem length_heap_listOf (tasks : List TaskStruct) : (listOf tasks).heap.length = tasks.length :=
  List.length_mapIdx

theorem getElem?_heap_listOf (tasks : List TaskStruct) (i : Nat) :
    (listOf tasks).heap[i]? = tasks[i]?.map (nodeOf tasks.length i) :=
  List.getElem?_mapIdx

theorem head_listOf {tasks : List TaskStruct} (h : tasks ≠ []) : (listOf tasks).head = some 0 :=
  if_neg h

/-- From the node `i` on, the links visit the nodes behind it. -/
theorem chain_from (tasks : List TaskStruct) {i k : Nat} (h : i + k + 1 = tasks.length) :
    Chain MyList.next (listOf tasks).heap (some i) (List.range' i (k + 1)) := by
  induction k generalizing i with
  | zero =>
      have hi : i < tasks.length := by omega
      refine ⟨rfl, nodeOf tasks.length i tasks[i], ?_, ?_⟩
      · rw [getElem?_heap_listOf, List.getElem?_eq_getElem hi, Option.map_some]
      · exact if_neg (by omega)
  | succ k ih =>
      have hi : i < tasks.length := by omega
      rw [List.range'_succ]
      refine ⟨rfl, nodeOf tasks.length i tasks[i], ?_, ?_⟩
      · rw [getElem?_heap_listOf, List.getElem?_eq_getElem hi, Option.map_some]
      · have hnext : (nodeOf tasks.length i tasks[i]).next = some (i + 1) := if_pos (by omega)
        rw [hnext]
        exact ih (by omega)

/-- The list with its last node. -/
theorem chain_listOf (tasks : List TaskStruct) {n : Nat} (h : tasks.length = n + 1) :
    Chain MyList.next (listOf tasks).heap (listOf tasks).head (List.range n ++ [n]) := by
  rw [head_listOf (List.ne_nil_of_length_eq_add_one h), ← List.range_succ, List.range_eq_range']
  exact chain_from tasks (by omega)

/-- A node that is not the last one stays the same when the list grows. -/
theorem nodeOf_succ {n i : Nat} (h : i + 1 < n) (ts : TaskStruct) :
    nodeOf (n + 1) i ts = nodeOf n i ts := by
  have hnext : (if i + 1 < n + 1 then some (i + 1) else none) =
      if i + 1 < n then some (i + 1) else none := by
    rw [if_pos (Nat.lt_succ_of_lt h), if_pos h]
  simp only [nodeOf, hnext]

/-- The last node is linked to the new one. -/
theorem nodeOf_last (n : Nat) (ts : TaskStruct) :
    nodeOf (n + 2) n ts = { nodeOf (n + 1) n ts with next := some (n + 1) } := by
  have hnext : (if n + 1 < n + 2 then some (n + 1) else none) = some (n + 1) := if_pos (by omega)
  simp only [nodeOf, hnext]

/-- The new node is linked back to the node before. -/
theorem nodeOf_new (n : Nat) (ts : TaskStruct) (fresh : MyList) :
    nodeOf (n + 2) (n + 1) ts = { fill ts fresh with prev := some n, next := none } := by
  have hnext : (if n + 1 + 1 < n + 2 then some (n + 1 + 1) else none) = none := if_neg (by omega)
  simp only [nodeOf, hnext, fill, Nat.add_one_ne_zero, if_false, Nat.add_sub_cancel]

/-- The stores of `add_task_data` behind the search, node by node. -/
theorem heap_listOf_concat (tasks : List TaskStruct) (ts : TaskStruct) (fresh : MyList) {n : Nat}
    (h : tasks.length = n + 1) :
    ((((listOf tasks).heap ++ [fill ts fresh]).modify (n + 1)
        fun node => { node with next := none }).modify n
        fun node => { node with next := some (n + 1) }).modify (n + 1)
        (fun node => { node with prev := some n }) = (listOf (tasks ++ [ts])).heap := by
  have hheap : (listOf tasks).heap.length = n + 1 := by rw [length_heap_listOf, h]
  have hlength : (tasks ++ [ts]).length = n + 2 := by
    rw [List.length_append, h, List.length_singleton]
  apply List.ext_getElem?
  intro i
  rw [getElem?_heap_listOf, hlength]
  by_cases hnew : n + 1 = i
  · subst hnew
    rw [List.getElem?_modify_eq, List.getElem?_modify_ne _ _ (by omega), List.getElem?_modify_eq,
      ← hheap, List.getElem?_concat_length, hheap, ← h, List.getElem?_concat_length, h]
    exact congrArg some (nodeOf_new n ts fresh).symm
  rw [List.getElem?_modify_ne _ _ hnew]
  rcases Nat.lt_or_ge i (n + 1) with hi | hi
  · have hold : i < tasks.length := by omega
    have hnode : ((listOf tasks).heap ++ [fill ts fresh])[i]? = some (nodeOf (n + 1) i tasks[i]) := by
      rw [List.getElem?_append_left (by omega), getElem?_heap_listOf, List.getElem?_eq_getElem hold, h,
        Option.map_some]
    rw [List.getElem?_append_left hold, List.getElem?_eq_getElem hold, Option.map_some]
    by_cases hlast : n = i
    · subst hlast
      rw [List.getElem?_modify_eq, List.getElem?_modify_ne _ _ hnew, hnode, nodeOf_last]
      rfl
    · rw [List.getElem?_modify_ne _ _ hlast, List.getElem?_modify_ne _ _ hnew, hnode,
        nodeOf_succ (by omega : i + 1 < n + 1)]
  · have hgrown : ((listOf tasks).heap ++ [fill ts fresh]).length = n + 2 := by
      rw [List.length_append, hheap, List.length_singleton]
    rw [List.getElem?_eq_none (by simp only [List.length_modify, hgrown]; omega),
      List.getElem?_eq_none (by omega), Option.map_none]

/-- `add_task_data` ends, and appends the task. -/
theorem addTaskData_listOf (tasks : List TaskStruct) (ts : TaskStruct) (fresh : MyList) :
    addTaskData ts fresh (listOf tasks) = some (listOf (tasks ++ [ts])) := by
  by_cases htasks : tasks = []
  · subst htasks
    rfl
  · obtain ⟨n, hn⟩ := Nat.exists_eq_succ_of_ne_zero (mt List.length_eq_zero_iff.mp htasks)
    have hheap : (listOf tasks).heap.length = n + 1 := by rw [length_heap_listOf, hn]
    have hsearch : lastNode MyList.next ((listOf tasks).heap ++ [fill ts fresh])
        ((listOf tasks).heap ++ [fill ts fresh]).length (listOf tasks).head = some n := by
      apply lastNode_eq ((chain_listOf tasks hn).grow (fill ts fresh))
      rw [List.length_range, List.length_append, hheap]
      omega
    have hhead : (listOf (tasks ++ [ts])).head = some 0 := head_listOf (by simp)
    rw [head_listOf htasks] at hsearch
    simp only [addTaskData, head_listOf htasks, hsearch, Option.map_some, hheap,
      heap_listOf_concat tasks ts fresh hn]
    rw [← hhead]

theorem foldlM_addTaskData (tasks : List TaskStruct) (visited : List (TaskStruct × MyList)) :
    visited.foldlM (fun l tf => addTaskData tf.1 tf.2 l) (listOf tasks) =
      some (listOf (tasks ++ visited.map Prod.fst)) := by
  induction visited generalizing tasks with
  | nil => rw [List.foldlM_nil, List.map_nil, List.append_nil]; rfl
  | cons tf visited ih =>
      rw [List.foldlM_cons, addTaskData_listOf, Option.bind_eq_bind, Option.bind_some, ih,
        List.map_cons, List.append_assoc, List.singleton_append]

/-- `init` ends with the list of all the tasks that it visits. -/
theorem init_eq (visited : List (TaskStruct × MyList)) :
    init visited = some (listOf (visited.map Prod.fst)) :=
  foldlM_addTaskData [] visited

end Lkm.TaskList
