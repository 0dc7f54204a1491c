import Lkm.CharModel
import Lkm.BaseRuns

/-! What the calls of `char.c` report. `char_read` drains the queue into the caller's memory, whatever
the length, and both calls return 0 in the end; so the numbers that they return agree with the bytes that
they move exactly where nothing is moved. -/

namespace Lkm.Char

open Buffer Queue Runs

/-- The call returns what it moved: a read stores within the length that was asked for and returns the
number of bytes stored, a write returns by how much the queue has grown. -/
def Counts (x : Sys) (call : Call) (y : Sys) : Prop :=
  y.crashed = false ∧ ∃ result stored, y.log = x.log ++ [⟨call, result, stored⟩] ∧
    match call with
    | .read _ user => (∀ put ∈ stored, put.1 < user.length) ∧ result = (stored.length : Int)
    | .write _ _ => (x.dev.cQueue.items.length : Int) + result = y.dev.cQueue.items.length

/-- What a call that has returned adds to the queue, by the number that it returned. -/
def Entry.reported (e : Entry) : Int :=
  match e.call with
  | .read _ _ => -e.result
  | .write _ _ => e.result

/-- The sum of what the writes returned, less the sum of what the reads returned. -/
def reported (log : List Entry) : Int := (log.map Entry.reported).sum

def Balanced (x : Sys) : Prop :=
  x.crashed = false ∧ reported x.log = x.dev.cQueue.items.length

/-- The call moves nothing: a read finds no byte that it could store, and a write that stays within the
staging buffer has no text, or the queue has no room. -/
def MovesNothing (x : Sys) : Call → Prop
  | .read _ user => ∀ i < x.dev.cQueue.items.length, user.writable i = false
  | .write _ msg => Staged msg ∧ (msg.takeWhile (· ≠ 0) = [] ∨ x.dev.cQueue.free = 0)

theorem reported_append (log : List Entry) (e : Entry) :
    reported (log ++ [e]) = reported log + e.reported := by
  rw [reported, List.map_append, List.sum_append, List.map_singleton, List.sum_singleton]
  rfl

theorem counts_read_iff {x y : Sys} {interrupted : Bool} {user : UserBuf} (hx : x.crashed = false)
    (h : step x (.read interrupted user) = some y) :
    Counts x (.read interrupted user) y ↔ MovesNothing x (.read interrupted user) := by
  obtain ⟨code, s, -, rfl⟩ := step_read h
  have hnothing := putAll_eq_nil_iff user 0 x.dev.cQueue.items
  simp only [Nat.zero_add] at hnothing
  rw [MovesNothing, ← hnothing]
  constructor
  · rintro ⟨-, result, stored, hlog, -, hresult⟩
    have hentry := List.append_cancel_left hlog
    simp only [List.cons.injEq, Entry.mk.injEq, true_and, and_true] at hentry
    obtain ⟨rfl, rfl⟩ := hentry
    exact List.length_eq_zero_iff.mp (Int.ofNat_eq_zero.mp hresult.symm)
  · intro hstored
    refine ⟨hx, 0, [], ?_, ?_, rfl⟩
    · rw [hstored]
    · intro put hput
      cases hput

theorem counts_write_iff {x y : Sys} {interrupted : Bool} {msg : List Byte} (hx : x.crashed = false)
    (h : step x (.write interrupted msg) = some y) :
    Counts x (.write interrupted msg) y ↔ MovesNothing x (.write interrupted msg) := by
  rcases step_write h with ⟨hmsg, code, s, data, -, rfl⟩ | ⟨hmsg, rfl⟩
  · rw [MovesNothing, and_iff_right hmsg, ← List.length_eq_zero_iff]
    simp only [Counts, hx, true_and, Kfifo.items_kfifoIn, List.length_append, List.length_take]
    constructor
    · rintro ⟨result, stored, hlog, hresult⟩
      have hentry := List.append_cancel_left hlog
      simp only [List.cons.injEq, Entry.mk.injEq, true_and, and_true] at hentry
      obtain ⟨rfl, rfl⟩ := hentry
      omega
    · intro hnothing
      refine ⟨0, [], rfl, ?_⟩
      omega
  · refine iff_of_false ?_ fun hnothing => hmsg hnothing.1
    rintro ⟨hcrashed, -⟩
    cases hcrashed

theorem counts_step_iff {x y : Sys} {call : Call} (h : step x call = some y) :
    Counts x call y ↔ MovesNothing x call := by
  have hx : x.crashed = false := by
    unfold step at h
    split_ifs at h with hcrashed
    exact Bool.not_eq_true _ ▸ hcrashed
  cases call with
  | read interrupted user => exact counts_read_iff hx h
  | write interrupted msg => exact counts_write_iff hx h

/-- Nothing has come through the queue, and all calls returned 0. -/
structure Untouched (x : Sys) : Prop where
  crashed : x.crashed = false
  items : x.dev.cQueue.items = []
  reported : reported x.log = 0

theorem untouched_step {x y : Sys} {call : Call} (hx : Untouched x) (h : step x call = some y)
    (hnothing : MovesNothing x call) : Untouched y := by
  cases call with
  | read interrupted user =>
      obtain ⟨code, s, -, rfl⟩ := step_read h
      refine ⟨hx.crashed, rfl, ?_⟩
      rw [reported_append, hx.reported]
      rfl
  | write interrupted msg =>
      rcases step_write h with ⟨hmsg, code, s, data, -, rfl⟩ | ⟨hmsg, rfl⟩
      · have hfree : x.dev.cQueue.free ≠ 0 := by
          rw [Kfifo.free, hx.items]
          decide
        have htext := hnothing.2.resolve_right hfree
        refine ⟨hx.crashed, ?_, ?_⟩
        · rw [Kfifo.items_kfifoIn, htext, hx.items, List.take_nil, List.append_nil]
        · rw [reported_append, hx.reported]
          rfl
      · exact absurd hnothing.1 hmsg

/-- Whatever the queue holds, a call returns what it moved exactly if it moves nothing. All calls of a
sequence do, and the numbers returned add up to the length of the queue, exactly if no call moves
anything. -/
theorem counts_iff (addr : BitVec 64) (calls : List Call) :
    (∀ x call y, step x call = some y → (Counts x call y ↔ MovesNothing x call)) ∧
    ((Each step Counts (start addr) calls ∧ Always step Balanced (start addr) calls) ↔
      Each step (fun x call _ => MovesNothing x call) (start addr) calls) := by
  refine ⟨fun x call y h => counts_step_iff h, ?_⟩
  have heach : Each step Counts (start addr) calls ↔
      Each step (fun x call _ => MovesNothing x call) (start addr) calls := by
    refine each_exact (fun _ => True) ?_ (fun _ _ _ _ _ _ => trivial) trivial calls
    intro x call y _ h
    exact counts_step_iff h
  rw [heach]
  refine and_iff_left_of_imp fun hnothing => ?_
  have huntouched : Always step Untouched (start addr) calls :=
    always_of_each Untouched (fun _ _ _ hx h hn => untouched_step hx h hn) ⟨rfl, rfl, rfl⟩ hnothing
  refine huntouched.mono fun x hx => ⟨hx.crashed, ?_⟩
  rw [hx.reported, hx.items]
  rfl

/-- A write of one byte puts it into the queue and returns 0. -/
theorem counts_one_byte :
    ¬∀ addr calls, Each step Counts (start addr) calls ∧ Always step Balanced (start addr) calls := by
  intro h
  obtain ⟨-, -, hbalanced⟩ := h 0 [.write false [0x41]]
  exact absurd (hbalanced _ rfl).2 (by decide)

end Lkm.Char
