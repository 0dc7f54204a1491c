import Lkm.TaskModel

/-! The invariant of the list of `ex5.c`: the links forward and back agree on the nodes that
`add_task_data` has allocated, in the order of the calls. -/

namespace Lkm.TaskList

open HeapList

/-- The data of a node, without its links. -/
def MyList.data (node : MyList) : TaskStruct := ⟨node.state, node.pid, node.name, node.processor⟩

/-- The list `l` consists of the nodes `nodes`, which hold the data of these tasks. -/
structure DoublyLinked (tasks : List TaskStruct) (nodes : List Ptr) (l : Nodes) : Prop where
  /-- From `head` on, `next` visits the nodes in this order and ends at null. -/
  forward : Chain MyList.next l.heap l.head nodes
  once : nodes.Nodup
  /-- The first node has no predecessor, any other one has the node before it. -/
  back : Back MyList.prev l.heap none nodes
  /-- From the last node on, `prev` visits the nodes in reverse and ends at null. -/
  backward : Chain MyList.prev l.heap nodes.getLast? nodes.reverse
  data : nodes.map (fun q => l.heap[q]?.map MyList.data) = tasks.map some

theorem map_data_listOf (tasks : List TaskStruct) : (listOf tasks).heap.map MyList.data = tasks := by
  apply List.ext_getElem?
  intro i
  rw [List.getElem?_map, getElem?_heap_listOf, Option.map_map]
  exact Option.map_id'

/-- The `k` nodes from the node `i` on point back, the node `i` to the one before it. -/
theorem back_from (tasks : List TaskStruct) {i k : Nat} (h : i + k ≤ tasks.length) :
    Back MyList.prev (listOf tasks).heap (if i = 0 then none else some (i - 1))
      (List.range' i k) := by
  induction k generalizing i with
  | zero => trivial
  | succ k ih =>
      have hi : i < tasks.length := by omega
      rw [List.range'_succ]
      refine ⟨⟨nodeOf tasks.length i tasks[i], ?_, rfl⟩, ?_⟩
      · rw [getElem?_heap_listOf, List.getElem?_eq_getElem hi, Option.map_some]
      · exact ih (by omega : i + 1 + k ≤ tasks.length)

theorem forward_listOf (tasks : List TaskStruct) :
    Chain MyList.next (listOf tasks).heap (listOf tasks).head (List.range tasks.length) := by
  cases hn : tasks.length with
  | zero =>
      rw [List.length_eq_zero_iff.mp hn]
      rfl
  | succ n =>
      rw [List.range_succ]
      exact chain_listOf tasks hn

/-- The representation invariant of the list of any tasks. -/
theorem doublyLinked_listOf (tasks : List TaskStruct) :
    DoublyLinked tasks (List.range tasks.length) (listOf tasks) := by
  have hback : Back MyList.prev (listOf tasks).heap none (List.range tasks.length) := by
    rw [List.range_eq_range']
    exact back_from tasks (i := 0) (by omega)
  refine ⟨forward_listOf tasks, List.nodup_range, hback, hback.reverse, ?_⟩
  apply List.ext_getElem?
  intro i
  rw [List.getElem?_map, List.getElem?_map]
  rcases Nat.lt_or_ge i tasks.length with hi | hi
  · rw [List.getElem?_range hi, Option.map_some, ← List.getElem?_map, map_data_listOf,
      List.getElem?_eq_getElem hi, Option.map_some]
  · rw [List.getElem?_eq_none (by rwa [List.length_range]), List.getElem?_eq_none hi]
    rfl

/-- One more call, on the list `l`: it ends, the new node has the task's data and the nodes before
keep theirs. -/
def Appends (ts : TaskStruct) (fresh : MyList) (l : Nodes) : Prop :=
  ∃ l', addTaskData ts fresh l = some l' ∧
    l'.heap.map MyList.data = l.heap.map MyList.data ++ [ts]

theorem appends_listOf (ts : TaskStruct) (fresh : MyList) (tasks : List TaskStruct) :
    Appends ts fresh (listOf tasks) := by
  refine ⟨listOf (tasks ++ [ts]), addTaskData_listOf tasks ts fresh, ?_⟩
  rw [map_data_listOf, map_data_listOf]

/-- After any calls of `add_task_data`, with any contents of the fresh nodes, the list is made of all
the nodes that `kmalloc` has returned, in the order of the calls, and is linked both ways; and any
further call ends and keeps the data. -/
theorem doublyLinked_init (visited : List (TaskStruct × MyList)) :
    ∃ l, init visited = some l ∧ l.heap.length = visited.length ∧
      DoublyLinked (visited.map Prod.fst) (List.range visited.length) l ∧
      ∀ ts fresh, Appends ts fresh l := by
  have hlength : (visited.map Prod.fst).length = visited.length := List.length_map _
  refine ⟨listOf (visited.map Prod.fst), init_eq visited, ?_, ?_, ?_⟩
  · rw [length_heap_listOf, hlength]
  · rw [← hlength]
    exact doublyLinked_listOf (visited.map Prod.fst)
  · exact fun ts fresh => appends_listOf ts fresh (visited.map Prod.fst)

end Lkm.TaskList
