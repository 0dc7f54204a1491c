import Mathlib.Data.List.Basic

/-! Bounded queues as `kfifo` has them: one of single elements, where an insertion stores as much as
fits, and one of records with a header of one unit each, where an insertion stores all or nothing. -/

namespace Lkm.Queue

variable {α : Type} {cap : Nat}

/-! ### Elements -/

structure Kfifo (α : Type) (cap : Nat) where
  items : List α
  bound : items.length ≤ cap

namespace Kfifo

def empty : Kfifo α cap := ⟨[], Nat.zero_le cap⟩

def free (q : Kfifo α cap) : Nat := cap - q.items.length

def kfifoIsEmpty (q : Kfifo α cap) : Bool := q.items.isEmpty

/-- `kfifo_in`: the number of elements stored, and the queue. -/
def kfifoIn (q : Kfifo α cap) (xs : List α) : Nat × Kfifo α cap :=
  (min xs.length q.free,
    { items := q.items ++ xs.take q.free
      bound := by
        have := q.bound
        rw [List.length_append, List.length_take, free]
        omega })

/-- `kfifo_out` for at most `n` elements. -/
def kfifoOut (q : Kfifo α cap) (n : Nat) : List α × Kfifo α cap :=
  (q.items.take n, ⟨q.items.drop n, by have := q.bound; rw [List.length_drop]; omega⟩)

/-- `kfifo_put`: an insertion of one element, which a full queue refuses with 0. -/
def kfifoPut (q : Kfifo α cap) (x : α) : Nat × Kfifo α cap := q.kfifoIn [x]

/-- `kfifo_peek`, which removes nothing. -/
def kfifoPeek (q : Kfifo α cap) : Option α := q.items.head?

/-- `kfifo_get`: the oldest element; `none` when there is none. -/
def kfifoGet (q : Kfifo α cap) : Option (α × Kfifo α cap) :=
  match h : q.items with
  | [] => none
  | x :: rest =>
      some (x, ⟨rest, by have := q.bound; rw [h, List.length_cons] at this; omega⟩)

theorem ext_items {q r : Kfifo α cap} (h : q.items = r.items) : q = r := by
  cases q
  cases r
  cases h
  rfl

@[simp] theorem items_empty : (empty : Kfifo α cap).items = [] := rfl

@[simp] theorem items_kfifoIn (q : Kfifo α cap) (xs : List α) :
    (q.kfifoIn xs).2.items = q.items ++ xs.take q.free := rfl

theorem kfifoIsEmpty_iff (q : Kfifo α cap) : q.kfifoIsEmpty = true ↔ q.items = [] :=
  List.isEmpty_iff

theorem kfifoGet_nil {q : Kfifo α cap} (h : q.items = []) : q.kfifoGet = none := by
  obtain ⟨items, bound⟩ := q
  cases h
  rfl

theorem kfifoGet_cons {q : Kfifo α cap} {x : α} {rest : List α} (h : q.items = x :: rest) :
    ∃ r : Kfifo α cap, q.kfifoGet = some (x, r) ∧ r.items = rest := by
  obtain ⟨items, bound⟩ := q
  cases h
  exact ⟨_, rfl, rfl⟩

/-- Elements that are put one by one, whatever `kfifo_put` returns: the first ones for which there is
room are stored. -/
theorem items_foldl_kfifoPut (q : Kfifo α cap) (xs : List α) :
    (xs.foldl (fun q x => (q.kfifoPut x).2) q).items = q.items ++ xs.take q.free := by
  induction xs generalizing q with
  | nil => rw [List.foldl_nil, List.take_nil, List.append_nil]
  | cons x xs ih =>
      have hfree : (q.kfifoPut x).2.free = q.free - 1 := by
        have hbound := q.bound
        rw [kfifoPut, free, items_kfifoIn, List.length_append, List.length_take, free,
          List.length_singleton]
        omega
      rw [List.foldl_cons, ih, hfree, kfifoPut, items_kfifoIn, List.append_assoc]
      congr 1
      cases q.free with
      | zero => rfl
      | succ n =>
          rw [List.take_succ_cons, List.take_succ_cons, List.take_nil]
          rfl

end Kfifo

/-! ### Records -/

/-- The space that records take, with one unit for the header of each. -/
def space : List (List α) → Nat
  | [] => 0
  | r :: rest => r.length + 1 + space rest

theorem space_append (rs ts : List (List α)) : space (rs ++ ts) = space rs + space ts := by
  induction rs with
  | nil => exact (Nat.zero_add _).symm
  | cons r rs ih =>
      rw [List.cons_append, space, space, ih]
      omega

structure RecKfifo (α : Type) (cap : Nat) where
  records : List (List α)
  bound : space records ≤ cap

namespace RecKfifo

def empty : RecKfifo α cap := ⟨[], Nat.zero_le cap⟩

def free (q : RecKfifo α cap) : Nat := cap - space q.records

def kfifoIsEmpty (q : RecKfifo α cap) : Bool := q.records.isEmpty

/-- `kfifo_in`: a record that does not fit is refused with 0. -/
def kfifoIn (q : RecKfifo α cap) (r : List α) : Nat × RecKfifo α cap :=
  if h : r.length + 1 ≤ q.free then
    (r.length,
      { records := q.records ++ [r]
        bound := by
          rw [free] at h
          rw [space_append, space, space]
          omega })
  else (0, q)

/-- `kfifo_out` into a buffer of `n` elements: the oldest record is removed and cut to the size of
the buffer. -/
def kfifoOut (q : RecKfifo α cap) (n : Nat) : List α × RecKfifo α cap :=
  match h : q.records with
  | [] => ([], q)
  | r :: rest =>
      (r.take n,
        { records := rest
          bound := by
            have hbound := q.bound
            have hspace : space (r :: rest) = r.length + 1 + space rest := rfl
            rw [h] at hbound
            omega })

theorem kfifoIsEmpty_iff (q : RecKfifo α cap) : q.kfifoIsEmpty = true ↔ q.records = [] :=
  List.isEmpty_iff

theorem records_kfifoIn (q : RecKfifo α cap) (r : List α) :
    (q.kfifoIn r).2.records = if r.length + 1 ≤ q.free then q.records ++ [r] else q.records := by
  unfold kfifoIn
  split_ifs <;> rfl

theorem kfifoOut_cons {q : RecKfifo α cap} {r : List α} {rest : List (List α)}
    (h : q.records = r :: rest) (n : Nat) :
    (q.kfifoOut n).1 = r.take n ∧ (q.kfifoOut n).2.records = rest := by
  obtain ⟨records, bound⟩ := q
  cases h
  exact ⟨rfl, rfl⟩

end RecKfifo

end Lkm.Queue
