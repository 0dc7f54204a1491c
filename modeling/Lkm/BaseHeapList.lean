import Mathlib.Data.List.Basic

/-! Linked lists on an explicit heap. A heap is the list of the nodes allocated so far, a pointer
the index of a node, and `none` the null pointer; `next` reads the link of a node. `Chain` says that
following the links from a pointer visits exactly the given nodes and ends at null. -/

namespace Lkm.HeapList

abbrev Ptr := Nat

variable {N : Type} (next : N → Option Ptr)

def Chain (heap : List N) : Option Ptr → List Ptr → Prop
  | p, [] => p = none
  | p, q :: qs => p = some q ∧ ∃ node, heap[q]? = some node ∧ Chain heap (next node) qs

/-- The loop `while (p->next != NULL) p = p->next`; `none` when it dereferences null or does not end
within the given number of rounds. -/
def lastNode (heap : List N) : Nat → Option Ptr → Option Ptr
  | 0, _ => none
  | rounds + 1, p => do
      let q ← p
      let node ← heap[q]?
      match next node with
      | none => some q
      | some q' => lastNode heap rounds (some q')

variable {next}

theorem Chain.lt_length {heap : List N} {p : Option Ptr} {qs : List Ptr}
    (h : Chain next heap p qs) : ∀ q ∈ qs, q < heap.length := by
  induction qs generalizing p with
  | nil => simp
  | cons q qs ih =>
      obtain ⟨-, node, hnode, hrest⟩ := h
      intro q' hq'
      rcases List.mem_cons.mp hq' with rfl | hq'
      · exact (List.getElem?_eq_some_iff.mp hnode).1
      · exact ih hrest q' hq'

/-- A null pointer starts the empty chain only. -/
theorem Chain.head_none {heap : List N} {qs : List Ptr} (h : Chain next heap none qs) : qs = [] := by
  cases qs with
  | nil => rfl
  | cons q qs => exact absurd h.1 (by simp)

/-- Nodes outside the chain can be changed, and the heap can grow. -/
theorem Chain.frame {heap heap' : List N} {p : Option Ptr} {qs : List Ptr}
    (h : Chain next heap p qs) (hsame : ∀ q ∈ qs, heap'[q]? = heap[q]?) : Chain next heap' p qs := by
  induction qs generalizing p with
  | nil => exact h
  | cons q qs ih =>
      obtain ⟨hp, node, hnode, hrest⟩ := h
      refine ⟨hp, node, ?_, ih hrest fun q' hq' => hsame q' (List.mem_cons_of_mem _ hq')⟩
      rw [hsame q List.mem_cons_self, hnode]

theorem Chain.grow {heap : List N} {p : Option Ptr} {qs : List Ptr} (h : Chain next heap p qs)
    (new : N) : Chain next (heap ++ [new]) p qs :=
  h.frame fun q hq => List.getElem?_append_left (h.lt_length q hq)

/-- The tail search finds the last node of the chain. -/
theorem lastNode_eq {heap : List N} {p : Option Ptr} {qs : List Ptr} {q : Ptr}
    (h : Chain next heap p (qs ++ [q])) {rounds : Nat} (hrounds : qs.length < rounds) :
    lastNode next heap rounds p = some q := by
  induction qs generalizing p rounds with
  | nil =>
      obtain ⟨rounds, rfl⟩ := Nat.exists_eq_succ_of_ne_zero (Nat.ne_zero_of_lt hrounds)
      obtain ⟨rfl, node, hnode, hnext⟩ := h
      have hnext : next node = none := hnext
      simp only [lastNode, Option.bind_eq_bind, Option.bind_some, hnode, hnext]
  | cons q' qs ih =>
      obtain ⟨rounds, rfl⟩ := Nat.exists_eq_succ_of_ne_zero (Nat.ne_zero_of_lt hrounds)
      obtain ⟨rfl, node, hnode, hrest⟩ := h
      have hlt : qs.length < rounds := by
        simp only [List.length_cons] at hrounds
        omega
      have hstep := ih hrest hlt
      cases hnext : next node with
      | none =>
          rw [hnext] at hrest
          exact absurd hrest.head_none (by simp)
      | some r =>
          rw [hnext] at hstep
          simp only [lastNode, Option.bind_eq_bind, Option.bind_some, hnode, hnext]
          exact hstep

/-- Linking a fresh node behind the last one. -/
theorem Chain.link {heap heap' : List N} {p : Option Ptr} {qs : List Ptr} {q r : Ptr} {last new : N}
    (h : Chain next heap p (qs ++ [q])) (hsame : ∀ q' ∈ qs, heap'[q']? = heap[q']?)
    (hlast : heap'[q]? = some last) (hlink : next last = some r) (hnew : heap'[r]? = some new)
    (hend : next new = none) :
    Chain next heap' p (qs ++ [q] ++ [r]) := by
  induction qs generalizing p with
  | nil =>
      obtain ⟨hp, -⟩ := h
      exact ⟨hp, last, hlast, hlink, new, hnew, hend⟩
  | cons q' qs ih =>
      obtain ⟨hp, node, hnode, hrest⟩ := h
      refine ⟨hp, node, ?_, ih hrest fun q'' hq'' => hsame q'' (List.mem_cons_of_mem _ hq'')⟩
      rw [hsame q' List.mem_cons_self, hnode]

/-- The same for a node that is allocated at the end of the heap, with `setLink` for the store into
the last node. -/
theorem Chain.push {heap : List N} {p : Option Ptr} {qs : List Ptr} {q : Ptr} {new : N}
    {setLink : N → N} (h : Chain next heap p (qs ++ [q])) (hq : q ∉ qs)
    (hlink : ∀ node, next (setLink node) = some heap.length) (hend : next new = none) :
    Chain next ((heap ++ [new]).modify q setLink) p (qs ++ [q] ++ [heap.length]) := by
  have hlt : q < heap.length := h.lt_length q (List.mem_append_right qs List.mem_cons_self)
  have hold : ∀ q' ∈ qs, ((heap ++ [new]).modify q setLink)[q']? = (heap ++ [new])[q']? := by
    intro q' hq'
    apply List.getElem?_modify_ne
    rintro rfl
    exact hq hq'
  have hlast : ((heap ++ [new]).modify q setLink)[q]? = some (setLink heap[q]) := by
    rw [List.getElem?_modify_eq, List.getElem?_append_left hlt, List.getElem?_eq_getElem hlt]
    rfl
  have hnew : ((heap ++ [new]).modify q setLink)[heap.length]? = some new := by
    rw [List.getElem?_modify_ne _ _ (Nat.ne_of_lt hlt), List.getElem?_append_right (Nat.le_refl _),
      Nat.sub_self]
    rfl
  exact (h.grow new).link hold hlast (hlink _) hnew hend

/-! ### Links back

A doubly linked list has a second link in every node, which is read by `prev`. -/

section Back

variable (prev : N → Option Ptr)

/-- The nodes point back to each other, the first one to `before`. -/
def Back (heap : List N) : Option Ptr → List Ptr → Prop
  | _, [] => True
  | before, q :: qs => (∃ node, heap[q]? = some node ∧ prev node = before) ∧ Back heap (some q) qs

variable {prev}

/-- Going back from the last node visits the nodes in reverse, and then what is before the first one. -/
theorem Back.reverse_append {heap : List N} {before : Option Ptr} {qs rs : List Ptr}
    (h : Back prev heap before qs) (hbefore : Chain prev heap before rs) :
    Chain prev heap (qs.getLast?.or before) (qs.reverse ++ rs) := by
  induction qs generalizing before rs with
  | nil => exact hbefore
  | cons q qs ih =>
      obtain ⟨⟨node, hnode, hprev⟩, hrest⟩ := h
      have hq : Chain prev heap (some q) (q :: rs) := ⟨rfl, node, hnode, hprev ▸ hbefore⟩
      have hall := ih hrest hq
      have hlast : ((q :: qs).getLast?).or before = qs.getLast?.or (some q) := by
        cases qs with
        | nil => rfl
        | cons r qs => rfl
      rw [hlast, List.reverse_cons, List.append_assoc]
      exact hall

theorem Back.reverse {heap : List N} {qs : List Ptr} (h : Back prev heap none qs) :
    Chain prev heap qs.getLast? qs.reverse := by
  have hend : Chain prev heap none [] := rfl
  have hall := h.reverse_append hend
  rwa [Option.or_none, List.append_nil] at hall

end Back

end Lkm.HeapList
