import Lkm.BaseBuffer
import Lkm.BaseQueue

/-! The device of `ttt.c`: a queue of records of 128 bytes behind a staging buffer of 100 bytes. A
write inserts the text it finds in the buffer as one record and reports success in any case; a read
takes the oldest record into the buffer, terminates it there and hands it over up to the terminator.
An access outside the buffer is `none`. -/

namespace Lkm.Ttt

open Buffer Queue

/-- A message without a terminator in it. -/
structure Message where
  bytes : List Byte
  nulFree : 0 ∉ bytes

/-- The queue, the buffer of the `struct chardevice`, and the counters. -/
structure Dev where
  test : RecKfifo Byte 128
  data : Buf 100
  reads : Int
  writes : Int

/-- The globals after `init_module`. -/
def init : Dev := ⟨.empty, zeroed 100, 0, 0⟩

/-- The loop of `dev_read` from the index `readPos` on, over the rest of the buffer. -/
def handOver (user : UserBuf) : Nat → List Byte → Option (List (Nat × Byte))
  | _, [] => none
  | readPos, c :: rest =>
      if c = 0 then some []
      else (handOver user (readPos + 1) rest).map fun stored => putUser user readPos c ++ stored

/-- `dev_read`: its result, what it stores at which offsets of the caller's buffer, and the globals.
The length is not looked at. -/
def devRead (user : UserBuf) (dev : Dev) : Option (Int × List (Nat × Byte) × Dev) :=
  if dev.test.kfifoIsEmpty then some (-1, [], dev)
  else do
    let (out, test) := dev.test.kfifoOut 100
    let dev := { dev with test := test }
    let data ← store dev.data 0 out
    let ret := out.length
    let data ← store data ret [0]
    let dev := { dev with data := data }
    let stored ← handOver user 0 dev.data.toList
    return (0, stored, { dev with writes := dev.writes + 1 })

/-- `dev_write` for the bytes of the caller. The index of its loop is a `short`, which leaves the
buffer long before it wraps. -/
def devWrite (msg : List Byte) (dev : Dev) : Option (Int × Dev) := do
  let dev := { dev with data := zeroed 100 }
  let data ← store dev.data 0 msg
  let dev := { dev with data := data }
  let text ← text dev.data
  let dev := { dev with test := (dev.test.kfifoIn text).2 }
  return (1, { dev with reads := dev.reads + 1 })

/-! ### What the calls do -/

theorem handOver_eq (user : UserBuf) (readPos : Nat) {cs : List Byte} (rest : List Byte)
    (hcs : 0 ∉ cs) : handOver user readPos (cs ++ 0 :: rest) = some (putAll user readPos cs) := by
  induction cs generalizing readPos with
  | nil => rfl
  | cons c cs ih =>
      have hc : c ≠ 0 := fun h => hcs (h ▸ List.mem_cons_self)
      have hrest : 0 ∉ cs := fun h => hcs (List.mem_cons_of_mem c h)
      rw [List.cons_append, handOver, if_neg hc, ih (readPos + 1) hrest, Option.map_some, putAll]

theorem devRead_empty {dev : Dev} (h : dev.test.records = []) (user : UserBuf) :
    devRead user dev = some (-1, [], dev) := by
  rw [devRead, if_pos ((RecKfifo.kfifoIsEmpty_iff _).mpr h)]

/-- A read hands over the oldest record. -/
theorem devRead_cons {dev : Dev} {r : List Byte} {rest : List (List Byte)}
    (h : dev.test.records = r :: rest) (hlength : r.length < 100) (hnul : 0 ∉ r) (user : UserBuf) :
    ∃ test data, test.records = rest ∧ devRead user dev =
      some (0, putAll user 0 r,
        { dev with test := test, data := data, writes := dev.writes + 1 }) := by
  obtain ⟨hout, htest⟩ := RecKfifo.kfifoOut_cons h 100
  rw [List.take_of_length_le (Nat.le_of_lt hlength)] at hout
  obtain ⟨data, hstore, hdata⟩ := store_eq_some dev.data 0 r (by omega)
  obtain ⟨data', hstore', hdata'⟩ := store_eq_some data r.length [0]
    (by rw [List.length_singleton]; omega)
  have hfull : dev.test.kfifoIsEmpty = false := by
    rw [← Bool.not_eq_true, RecKfifo.kfifoIsEmpty_iff, h]
    exact List.cons_ne_nil r rest
  have hterminated : data'.toList = r ++ 0 :: data.toList.drop (r.length + 1) := by
    rw [hdata', hdata, List.take_zero, List.nil_append, List.take_left, List.append_assoc]
    rfl
  have hover : handOver user 0 data'.toList = some (putAll user 0 r) := by
    rw [hterminated, handOver_eq user 0 _ hnul]
  refine ⟨(dev.test.kfifoOut 100).2, data', htest, ?_⟩
  simp only [devRead, hfull, Bool.false_eq_true, if_false, hout, hstore, hstore', Option.bind_eq_bind,
    Option.bind_some, hover]
  rfl

theorem devWrite_eq (dev : Dev) (msg : Message) (hlength : msg.bytes.length < 100) :
    ∃ data, devWrite msg.bytes dev =
      some (1,
        { dev with
          test := (dev.test.kfifoIn msg.bytes).2
          data := data
          reads := dev.reads + 1 }) := by
  have htext := text_store_zeroed 100 msg.bytes
  rw [if_pos (Or.inl hlength), takeWhile_eq_self msg.nulFree] at htext
  obtain ⟨data, hstore, htext⟩ := Option.bind_eq_some_iff.mp htext
  refine ⟨data, ?_⟩
  simp only [devWrite, hstore, Option.bind_eq_bind, Option.bind_some, htext]
  rfl

/-- A longer message is copied past the buffer, or `strlen` reads past it. -/
theorem devWrite_out (dev : Dev) (msg : Message) (hlength : ¬msg.bytes.length < 100) :
    devWrite msg.bytes dev = none := by
  have htext := text_store_zeroed 100 msg.bytes
  rw [if_neg (fun h => h.elim hlength fun h => msg.nulFree h.2)] at htext
  cases hstore : store (zeroed 100) 0 msg.bytes with
  | none => simp only [devWrite, hstore, Option.bind_eq_bind, Option.bind_none]
  | some data =>
      rw [hstore, Option.bind_some] at htext
      simp only [devWrite, hstore, Option.bind_eq_bind, Option.bind_some, htext, Option.bind_none]

/-! ### Sequences of calls -/

/-- A call that runs alone. -/
inductive Call where
  | read (user : UserBuf)
  | write (msg : Message)

/-- A call that has returned: its result, and what it stored into the caller's memory. -/
structure Entry where
  call : Call
  result : Int
  stored : List (Nat × Byte)

/-- The device and the calls so far. After an access outside the staging buffer nothing is known. -/
structure Sys where
  dev : Dev
  log : List Entry
  crashed : Bool

def start : Sys := ⟨init, [], false⟩

def perform (dev : Dev) : Call → Option (Int × List (Nat × Byte) × Dev)
  | .read user => devRead user dev
  | .write msg => (devWrite msg.bytes dev).map fun r => (r.1, [], r.2)

def step (x : Sys) (call : Call) : Option Sys :=
  if x.crashed then none
  else
    match perform x.dev call with
    | none => some { x with crashed := true }
    | some (result, stored, dev) =>
        some { x with dev := dev, log := x.log ++ [⟨call, result, stored⟩] }

theorem step_returns {x : Sys} (call : Call) {result : Int} {stored : List (Nat × Byte)} {dev : Dev}
    (hcrashed : x.crashed = false) (h : perform x.dev call = some (result, stored, dev)) :
    step x call = some { x with dev := dev, log := x.log ++ [⟨call, result, stored⟩] } := by
  rw [step, hcrashed, if_neg Bool.false_ne_true, h]

theorem step_crashes {x : Sys} (call : Call) (hcrashed : x.crashed = false)
    (h : perform x.dev call = none) : step x call = some { x with crashed := true } := by
  rw [step, hcrashed, if_neg Bool.false_ne_true, h]

end Lkm.Ttt
