import Lkm.CharModel
import Lkm.BaseRuns

/-! The bytes that pass through `char.c`. The device is a byte stream exactly as long as every
message fits the staging buffer and the queue, has no terminator in it, and every byte that is taken
out of the queue can be stored. -/

namespace Lkm.Char

open Buffer Queue Runs

/-- What the readers got, followed by what is in the queue, is what the writers passed. -/
def Stream (x : Sys) : Prop :=
  x.crashed = false ∧ handed x.log ++ x.dev.cQueue.items = written x.log

/-- A message of at most 49 bytes, without a terminator, for which the queue has room; or a read
whose memory takes all that is queued. -/
def Fits (x : Sys) : Call → Prop
  | .read _ user => ∀ i < x.dev.cQueue.items.length, user.writable i = true
  | .write _ msg => msg.length < 50 ∧ 0 ∉ msg ∧ msg.length ≤ x.dev.cQueue.free

theorem handed_append (log : List Entry) (e : Entry) : handed (log ++ [e]) = handed log ++ e.handed := by
  rw [handed, List.flatMap_append, List.flatMap_singleton]
  rfl

theorem written_append (log : List Entry) (e : Entry) :
    written (log ++ [e]) = written log ++ e.written := by
  rw [written, List.flatMap_append, List.flatMap_singleton]
  rfl

theorem stream_read_iff {x y : Sys} {interrupted : Bool} {user : UserBuf} (hx : Stream x)
    (h : step x (.read interrupted user) = some y) :
    Stream y ↔ Fits x (.read interrupted user) := by
  obtain ⟨code, s, -, rfl⟩ := step_read h
  obtain ⟨hcrashed, hstream⟩ := hx
  simp only [Stream, Fits, hcrashed, true_and, Kfifo.items_empty, List.append_nil, handed_append,
    written_append, ← hstream, Entry.handed, Entry.written]
  rw [List.append_cancel_left_eq, map_putAll_eq_iff]
  simp only [Nat.zero_add]

theorem stream_write_iff {x y : Sys} {interrupted : Bool} {msg : List Byte} (hx : Stream x)
    (h : step x (.write interrupted msg) = some y) :
    Stream y ↔ Fits x (.write interrupted msg) := by
  obtain ⟨hcrashed, hstream⟩ := hx
  rcases step_write h with ⟨hmsg, code, s, data, -, rfl⟩ | ⟨hmsg, rfl⟩
  · simp only [Stream, Fits, hcrashed, true_and, Kfifo.items_kfifoIn, handed_append, written_append,
      ← hstream, Entry.handed, Entry.written, List.map_nil, List.append_nil]
    rw [← List.append_assoc, List.append_cancel_left_eq, take_text_eq_iff]
    constructor
    · rintro ⟨hnul, hfree⟩
      refine ⟨?_, hnul, hfree⟩
      rcases hmsg with hlt | ⟨-, hmem⟩
      · exact hlt
      · exact absurd hmem hnul
    · rintro ⟨-, hnul, hfree⟩
      exact ⟨hnul, hfree⟩
  · refine iff_of_false ?_ ?_
    · rintro ⟨hrun, -⟩
      cases hrun
    · rintro ⟨hlt, -⟩
      exact hmsg (Or.inl hlt)

/-- The device behaves as a byte stream throughout a sequence of calls, without an access outside
the staging buffer, exactly when every call of the sequence fits. -/
theorem stream_iff (addr : BitVec 64) (calls : List Call) :
    Always step Stream (start addr) calls ↔
      Each step (fun x call _ => Fits x call) (start addr) calls := by
  refine always_exact (fun _ => True) ?_ (fun _ _ _ _ _ _ _ => trivial) trivial ⟨rfl, rfl⟩ calls
  intro x call y _ hx h
  cases call with
  | read interrupted user => exact stream_read_iff hx h
  | write interrupted msg => exact stream_write_iff hx h

/-- A message of 50 bytes without a terminator: `strlen` reads past the staging buffer. -/
theorem stream_fifty_bytes :
    ¬Always step Stream (start 0) [.write false (List.replicate 50 0x41)] := by
  intro h
  have hlast := (h.2 _ rfl : Stream _)
  exact absurd hlast.1 (by decide)

end Lkm.Char
