import Lkm.TttModel
import Lkm.BaseRuns

/-! The messages that pass through `ttt.c`. The device is a message queue exactly as long as every
message leaves room for its terminator in the staging buffer and fits the record queue with its
header, and every byte of the message that is read can be stored. -/

namespace Lkm.Ttt

open Buffer Queue Runs

/-- The message of a write that reports success. -/
def Entry.accepted (e : Entry) : Option (List Byte) :=
  match e.call with
  | .read _ => none
  | .write msg => if e.result = 1 then some msg.bytes else none

/-- What a read that found a record handed to its caller. -/
def Entry.handed (e : Entry) : Option (List Byte) :=
  match e.call with
  | .read _ => if e.result = 0 then some (e.stored.map Prod.snd) else none
  | .write _ => none

def accepted (log : List Entry) : List (List Byte) := log.filterMap Entry.accepted

def handed (log : List Entry) : List (List Byte) := log.filterMap Entry.handed

/-- What the readers got, followed by the records in the queue, are the accepted messages. -/
def Delivered (x : Sys) : Prop :=
  x.crashed = false ∧ handed x.log ++ x.dev.test.records = accepted x.log

/-- A message of at most 99 bytes for which the queue has room; or a read whose memory takes the
oldest record, if there is one. -/
def Fits (x : Sys) : Call → Prop
  | .read user => ∀ r ∈ x.dev.test.records.head?, ∀ i < r.length, user.writable i = true
  | .write msg => msg.bytes.length < 100 ∧ msg.bytes.length + 1 ≤ x.dev.test.free

/-- Every record came through the staging buffer. -/
def Staged (x : Sys) : Prop := ∀ r ∈ x.dev.test.records, r.length < 100 ∧ 0 ∉ r

theorem handed_append (log : List Entry) (e : Entry) :
    handed (log ++ [e]) = handed log ++ e.handed.toList := by
  rw [handed, List.filterMap_append, handed]
  cases h : e.handed <;> simp [h]

theorem accepted_append (log : List Entry) (e : Entry) :
    accepted (log ++ [e]) = accepted log ++ e.accepted.toList := by
  rw [accepted, List.filterMap_append, accepted]
  cases h : e.accepted <;> simp [h]

theorem delivered_read_iff {x y : Sys} {user : UserBuf} (hstaged : Staged x) (hx : Delivered x)
    (h : step x (.read user) = some y) : (Delivered y ↔ Fits x (.read user)) ∧ Staged y := by
  obtain ⟨hcrashed, hqueue⟩ := hx
  cases hrecords : x.dev.test.records with
  | nil =>
      rw [step_returns (.read user) hcrashed (devRead_empty hrecords user), Option.some.injEq] at h
      subst h
      refine ⟨iff_of_true ⟨hcrashed, ?_⟩ ?_, hstaged⟩
      · rw [handed_append, accepted_append, ← hqueue]
        simp [Entry.handed, Entry.accepted]
      · intro r hr
        rw [hrecords] at hr
        cases hr
  | cons r rest =>
      obtain ⟨hlength, hnul⟩ := hstaged r (hrecords ▸ List.mem_cons_self)
      obtain ⟨test, data, htest, hread⟩ := devRead_cons hrecords hlength hnul user
      rw [step_returns (.read user) hcrashed hread, Option.some.injEq] at h
      subst h
      constructor
      · have hhanded : Entry.handed ⟨.read user, 0, putAll user 0 r⟩ =
            some ((putAll user 0 r).map Prod.snd) := rfl
        have haccepted : Entry.accepted ⟨.read user, 0, putAll user 0 r⟩ = none := rfl
        rw [Delivered, and_iff_right hcrashed, handed_append, accepted_append, hhanded, haccepted,
          ← hqueue, htest, hrecords, Option.toList_some, Option.toList_none, List.append_nil,
          List.append_assoc, List.append_cancel_left_eq, List.singleton_append, List.cons.injEq,
          and_iff_left rfl, map_putAll_eq_iff]
        simp only [Fits, hrecords, List.head?_cons, Option.mem_def, Option.some.injEq, forall_eq',
          Nat.zero_add]
      · intro r' hr'
        simp only [htest] at hr'
        exact hstaged r' (hrecords ▸ List.mem_cons_of_mem r hr')

theorem delivered_write_iff {x y : Sys} {msg : Message} (hstaged : Staged x) (hx : Delivered x)
    (h : step x (.write msg) = some y) :
    (Delivered y ↔ Fits x (.write msg)) ∧ (Fits x (.write msg) → Staged y) := by
  obtain ⟨hcrashed, hqueue⟩ := hx
  by_cases hlength : msg.bytes.length < 100
  · obtain ⟨data, hwrite⟩ := devWrite_eq x.dev msg hlength
    have hperform := congrArg (Option.map fun r : Int × Dev => (r.1, ([] : List (Nat × Byte)), r.2)) hwrite
    rw [step_returns (.write msg) hcrashed hperform, Option.some.injEq] at h
    subst h
    have hhanded : Entry.handed ⟨.write msg, 1, []⟩ = none := rfl
    have haccepted : Entry.accepted ⟨.write msg, 1, []⟩ = some msg.bytes := rfl
    have hrecords := RecKfifo.records_kfifoIn x.dev.test msg.bytes
    constructor
    · rw [Delivered, and_iff_right hcrashed, handed_append, accepted_append, hhanded, haccepted,
        ← hqueue, hrecords, Option.toList_some, Option.toList_none, List.append_nil,
        List.append_assoc, List.append_cancel_left_eq, Fits, and_iff_right hlength]
      by_cases hfree : msg.bytes.length + 1 ≤ x.dev.test.free
      · rw [if_pos hfree]
        exact iff_of_true rfl hfree
      · rw [if_neg hfree]
        refine iff_of_false (fun heq => ?_) hfree
        have hcount := congrArg List.length heq
        rw [List.length_append, List.length_singleton] at hcount
        omega
    · rintro ⟨-, hfree⟩ r hr
      simp only [hrecords, if_pos hfree] at hr
      rcases List.mem_append.mp hr with hr | hr
      · exact hstaged r hr
      · rw [List.mem_singleton.mp hr]
        exact ⟨hlength, msg.nulFree⟩
  · have hperform := congrArg (Option.map fun r : Int × Dev => (r.1, ([] : List (Nat × Byte)), r.2))
      (devWrite_out x.dev msg hlength)
    rw [step_crashes (.write msg) hcrashed hperform, Option.some.injEq] at h
    subst h
    refine ⟨iff_of_false ?_ fun hfits => hlength hfits.1, fun hfits => absurd hfits.1 hlength⟩
    rintro ⟨hrun, -⟩
    cases hrun

/-- Every write that reports success adds its message, and every read that finds a record hands over
the oldest message, throughout a sequence of calls and without an access outside the staging buffer,
exactly when every call of the sequence fits. -/
theorem delivered_iff (calls : List Call) :
    Always step Delivered start calls ↔ Each step (fun x call _ => Fits x call) start calls := by
  have hstart : Staged start := fun _ h => (nomatch h)
  refine always_exact Staged ?_ ?_ hstart ⟨rfl, rfl⟩ calls
  · intro x call y hstaged hx h
    cases call with
    | read user => exact (delivered_read_iff hstaged hx h).1
    | write msg => exact (delivered_write_iff hstaged hx h).1
  · intro x call y hstaged hx h hfits
    cases call with
    | read user => exact (delivered_read_iff hstaged hx h).2
    | write msg => exact (delivered_write_iff hstaged hx h).2 hfits

/-- A message of 100 bytes: `strlen` reads past the staging buffer. -/
theorem delivered_hundred_bytes :
    ¬Always step Delivered start [.write ⟨List.replicate 100 0x41, by decide⟩] := by
  intro h
  exact absurd (h.last rfl : Delivered _).1 (by decide)

end Lkm.Ttt
