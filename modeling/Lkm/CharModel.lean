import Lkm.BaseBuffer
import Lkm.BaseQueue
import Lkm.BaseSemaphore

/-! The device of `char.c`: a queue of 4096 bytes behind a staging buffer of 50 bytes. A write copies
the caller's bytes into the buffer and inserts what `strlen` finds there; a read drains the whole
queue into the caller's memory. The results of the kernel's functions that the source only prints
are left out. -/

namespace Lkm.Char

open Buffer Queue Semaphore

def fifoSize : Nat := 4096

/-- The globals of the module. -/
structure Dev where
  sem : Nat
  s : Nat
  cQueue : Kfifo Byte fifoSize
  data : Buf 50
  queueHead : BitVec 64
  initialHeadPos : BitVec 64
  readCount : Int
  writeCount : Int

/-- The globals after `init`, when `c_queue` is at `addr`. -/
def init (addr : BitVec 64) : Dev where
  sem := 1
  s := 1
  cQueue := .empty
  data := zeroed 50
  queueHead := addr
  initialHeadPos := addr
  readCount := 0
  writeCount := 0

/-- Why a call does not return. -/
inductive Stop where
  | blocked
  | outOfBounds
  | endless
  deriving DecidableEq

def orStop {α : Type} (stop : Stop) : Option α → Except Stop α
  | none => .error stop
  | some a => .ok a

@[simp] theorem orStop_some_bind {α β : Type} (stop : Stop) (a : α) (f : α → Except Stop β) :
    orStop stop (some a) >>= f = f a := rfl

@[simp] theorem orStop_none_bind {α β : Type} (stop : Stop) (f : α → Except Stop β) :
    orStop stop none >>= f = .error stop := rfl

/-! ### Reading -/

/-- The update of `queue_head` for a byte that is taken out. -/
def headDown (initialHeadPos queueHead : BitVec 64) : BitVec 64 :=
  if queueHead - initialHeadPos ≥ 4095#64 then initialHeadPos else queueHead - 1#64

/-- A round of the loop of `consumer`, with what it stores into the caller's memory; `none` when
`kfifo_out` returns 0. -/
def consumerRound (user : UserBuf) (offset : Nat) (dev : Dev) : Option (List (Nat × Byte) × Dev) :=
  match dev.cQueue.kfifoOut 1 with
  | ([], _) => none
  | (c :: _, cQueue) =>
      some (putUser user offset c,
        { dev with cQueue := cQueue, queueHead := headDown dev.initialHeadPos dev.queueHead })

/-- The loop of `consumer`; `none` when it does not end within the given number of rounds. -/
def consumerLoop (user : UserBuf) : Nat → Nat → Dev → Option (List (Nat × Byte) × Dev)
  | 0, _, _ => none
  | rounds + 1, offset, dev =>
      match consumerRound user offset dev with
      | none => some ([], dev)
      | some (put, dev) =>
          (consumerLoop user rounds (offset + 1) dev).map fun r => (put ++ r.1, r.2)

/-- `consumer`. It goes on when the wait for the semaphore was interrupted, and it returns from an
empty queue without the `up`. -/
def consumer (interrupted : Bool) (user : UserBuf) (dev : Dev) :
    Except Stop (List (Nat × Byte) × Dev) := do
  let (_, s) ← orStop .blocked (downInterruptible interrupted dev.s)
  let dev := { dev with s := s }
  if dev.cQueue.kfifoIsEmpty then
    return ([], dev)
  let (stored, dev) ← orStop .endless (consumerLoop user (fifoSize + 1) 0 dev)
  return (stored, { dev with s := up dev.s })

/-- `char_read`: its result, what it stores at which offsets of the caller's buffer, and the globals.
The length is not looked at. -/
def charRead (interrupted : Bool) (user : UserBuf) (dev : Dev) :
    Except Stop (Int × List (Nat × Byte) × Dev) := do
  let (stored, dev) ← consumer interrupted user dev
  let dev := { dev with writeCount := dev.writeCount + 1 }
  return (0, stored, dev)

/-! ### Writing -/

/-- The update of `queue_head` for a text of the given length. -/
def headUp (initialHeadPos queueHead : BitVec 64) (len : Nat) : BitVec 64 :=
  if queueHead - initialHeadPos ≥ 4095#64 then initialHeadPos else queueHead + BitVec.ofNat 64 len

/-- `kfifo_in` of the text that `strlen` finds, and the counter. -/
def insertText (text : List Byte) (dev : Dev) : Dev :=
  { dev with cQueue := (dev.cQueue.kfifoIn text).2, readCount := dev.readCount + 1 }

def advanceHead (text : List Byte) (dev : Dev) : Dev :=
  { dev with queueHead := headUp dev.initialHeadPos dev.queueHead text.length }

/-- `char_write` for the bytes `msg` of the caller. -/
def charWrite (interrupted : Bool) (msg : List Byte) (dev : Dev) : Except Stop (Int × Dev) := do
  let dev := { dev with data := zeroed 50 }
  let data ← orStop .outOfBounds (store dev.data 0 msg)
  let dev := { dev with data := data }
  let (_, s) ← orStop .blocked (downInterruptible interrupted dev.s)
  let dev := { dev with s := s }
  let inserted ← orStop .outOfBounds (text dev.data)
  let dev := insertText inserted dev
  let counted ← orStop .outOfBounds (text dev.data)
  let dev := advanceHead counted dev
  return (0, { dev with s := up dev.s })

/-! ### What the calls do -/

theorem consumerLoop_eq (user : UserBuf) (rounds offset : Nat) (dev : Dev)
    (hrounds : dev.cQueue.items.length < rounds) :
    consumerLoop user rounds offset dev =
      some (putAll user offset dev.cQueue.items,
        { dev with
          cQueue := .empty
          queueHead := (headDown dev.initialHeadPos)^[dev.cQueue.items.length] dev.queueHead }) := by
  induction rounds generalizing offset dev with
  | zero => omega
  | succ rounds ih =>
      obtain ⟨sem, s, ⟨items, bound⟩, data, queueHead, initialHeadPos, readCount, writeCount⟩ := dev
      cases items with
      | nil => rfl
      | cons c cs =>
          simp only [List.length_cons] at hrounds
          simp only [consumerLoop, consumerRound, Kfifo.kfifoOut, List.take_succ_cons, List.drop_succ_cons,
            List.drop_zero]
          rw [ih _ _ (by simp only; omega)]
          rfl

/-- `char_read` empties the queue, and it gives the semaphore back unless the queue was empty
before. -/
theorem charRead_eq {interrupted : Bool} {dev : Dev} {code : Int} {s : Nat}
    (h : downInterruptible interrupted dev.s = some (code, s)) (user : UserBuf) :
    charRead interrupted user dev =
      .ok (0, putAll user 0 dev.cQueue.items,
        { dev with
          s := if dev.cQueue.items = [] then s else up s
          cQueue := .empty
          queueHead := (headDown dev.initialHeadPos)^[dev.cQueue.items.length] dev.queueHead
          writeCount := dev.writeCount + 1 }) := by
  have hbound := dev.cQueue.bound
  by_cases hitems : dev.cQueue.items = []
  · have hempty : dev.cQueue.kfifoIsEmpty = true := dev.cQueue.kfifoIsEmpty_iff.mpr hitems
    have hqueue : dev.cQueue = .empty := Kfifo.ext_items hitems
    simp only [charRead, consumer, h, orStop_some_bind, hempty, if_true, hitems, List.length_nil,
      ← hqueue]
    rfl
  · have hfull : dev.cQueue.kfifoIsEmpty = false := by
      rw [← Bool.not_eq_true, Kfifo.kfifoIsEmpty_iff]
      exact hitems
    have hloop := consumerLoop_eq user (fifoSize + 1) 0 { dev with s := s } (Nat.lt_succ_of_le hbound)
    simp only [charRead, consumer, h, orStop_some_bind, hfull, Bool.false_eq_true, if_false, hloop,
      if_neg hitems]
    rfl

/-- The messages for which `char_write` stays within the staging buffer. -/
def Staged (msg : List Byte) : Prop := msg.length < 50 ∨ msg.length = 50 ∧ 0 ∈ msg

/-- `char_write` inserts what is before the first terminator. -/
theorem charWrite_eq {interrupted : Bool} {dev : Dev} {code : Int} {s : Nat}
    (h : downInterruptible interrupted dev.s = some (code, s)) {msg : List Byte}
    (hmsg : Staged msg) :
    ∃ data, charWrite interrupted msg dev =
      .ok (0,
        { dev with
          s := up s
          cQueue := (dev.cQueue.kfifoIn (msg.takeWhile (· ≠ 0))).2
          data := data
          queueHead := headUp dev.initialHeadPos dev.queueHead (msg.takeWhile (· ≠ 0)).length
          readCount := dev.readCount + 1 }) := by
  have htext := text_store_zeroed 50 msg
  rw [if_pos (show _ ∨ _ from hmsg)] at htext
  obtain ⟨data, hstore, htext⟩ := Option.bind_eq_some_iff.mp htext
  refine ⟨data, ?_⟩
  simp only [charWrite, hstore, h, orStop_some_bind, insertText, htext]
  rfl

theorem charWrite_out {interrupted : Bool} {dev : Dev} {r : Int × Nat}
    (h : downInterruptible interrupted dev.s = some r) {msg : List Byte} (hmsg : ¬Staged msg) :
    charWrite interrupted msg dev = .error .outOfBounds := by
  have htext := text_store_zeroed 50 msg
  rw [if_neg (show ¬(_ ∨ _) from hmsg)] at htext
  cases hstore : store (zeroed 50) 0 msg with
  | none =>
      simp only [charWrite, hstore, orStop_none_bind]
  | some data =>
      rw [hstore, Option.bind_some] at htext
      simp only [charWrite, hstore, h, orStop_some_bind, htext, orStop_none_bind]

theorem charRead_blocked {interrupted : Bool} {dev : Dev}
    (h : downInterruptible interrupted dev.s = none) (user : UserBuf) :
    charRead interrupted user dev = .error .blocked := by
  simp only [charRead, consumer, h, orStop_none_bind]
  rfl

theorem charWrite_blocked {interrupted : Bool} {dev : Dev}
    (h : downInterruptible interrupted dev.s = none) (msg : List Byte) :
    charWrite interrupted msg dev = .error (if msg.length ≤ 50 then .blocked else .outOfBounds) := by
  by_cases hlength : msg.length ≤ 50
  · obtain ⟨data, hstore, -⟩ := store_eq_some (zeroed 50) 0 msg (by omega)
    simp only [charWrite, hstore, orStop_some_bind, h, orStop_none_bind, if_pos hlength]
  · have hstore := store_eq_none (zeroed 50) 0 msg (Nat.zero_le 50) (by omega)
    simp only [charWrite, hstore, orStop_none_bind, if_neg hlength]

/-! ### Sequences of calls -/

/-- A call that runs alone. -/
inductive Call where
  | read (interrupted : Bool) (user : UserBuf)
  | write (interrupted : Bool) (msg : List Byte)

/-- A call that has returned: its result, and what it stored into the caller's memory. -/
structure Entry where
  call : Call
  result : Int
  stored : List (Nat × Byte)

/-- The device and the calls so far. After an access outside the staging buffer nothing is known. -/
structure Sys where
  dev : Dev
  log : List Entry
  crashed : Bool

def start (addr : BitVec 64) : Sys := ⟨init addr, [], false⟩

def perform (dev : Dev) : Call → Except Stop (Int × List (Nat × Byte) × Dev)
  | .read interrupted user => charRead interrupted user dev
  | .write interrupted msg => (charWrite interrupted msg dev).map fun r => (r.1, [], r.2)

/-- A call that blocks does not return, since it runs alone. -/
def step (x : Sys) (call : Call) : Option Sys :=
  if x.crashed then none
  else
    match perform x.dev call with
    | .ok (result, stored, dev) => some { x with dev := dev, log := x.log ++ [⟨call, result, stored⟩] }
    | .error .outOfBounds => some { x with crashed := true }
    | .error _ => none

def Entry.handed (e : Entry) : List Byte := e.stored.map Prod.snd

def Entry.written (e : Entry) : List Byte :=
  match e.call with
  | .read _ _ => []
  | .write _ msg => msg

/-- The bytes that the readers got, in order. -/
def handed (log : List Entry) : List Byte := log.flatMap Entry.handed

/-- The bytes that the writers passed, in order. -/
def written (log : List Entry) : List Byte := log.flatMap Entry.written

theorem step_read {x y : Sys} {interrupted : Bool} {user : UserBuf}
    (h : step x (.read interrupted user) = some y) :
    ∃ code s, downInterruptible interrupted x.dev.s = some (code, s) ∧ y =
      { x with
        dev :=
          { x.dev with
            s := if x.dev.cQueue.items = [] then s else up s
            cQueue := .empty
            queueHead :=
              (headDown x.dev.initialHeadPos)^[x.dev.cQueue.items.length] x.dev.queueHead
            writeCount := x.dev.writeCount + 1 }
        log := x.log ++ [⟨.read interrupted user, 0, putAll user 0 x.dev.cQueue.items⟩] } := by
  unfold step at h
  split_ifs at h with hcrashed
  cases hdown : downInterruptible interrupted x.dev.s with
  | none =>
      simp only [perform, charRead_blocked hdown] at h
      cases h
  | some r =>
      obtain ⟨code, s⟩ := r
      simp only [perform, charRead_eq hdown] at h
      cases h
      exact ⟨code, s, rfl, rfl⟩

theorem step_write {x y : Sys} {interrupted : Bool} {msg : List Byte}
    (h : step x (.write interrupted msg) = some y) :
    (Staged msg ∧ ∃ code s data, downInterruptible interrupted x.dev.s = some (code, s) ∧ y =
      { x with
        dev :=
          { x.dev with
            s := up s
            cQueue := (x.dev.cQueue.kfifoIn (msg.takeWhile (· ≠ 0))).2
            data := data
            queueHead :=
              headUp x.dev.initialHeadPos x.dev.queueHead (msg.takeWhile (· ≠ 0)).length
            readCount := x.dev.readCount + 1 }
        log := x.log ++ [⟨.write interrupted msg, 0, []⟩] }) ∨
    (¬Staged msg ∧ y = { x with crashed := true }) := by
  unfold step at h
  split_ifs at h with hcrashed
  cases hdown : downInterruptible interrupted x.dev.s with
  | none =>
      have hblocked := charWrite_blocked hdown msg
      by_cases hlength : msg.length ≤ 50
      · rw [if_pos hlength] at hblocked
        simp only [perform, hblocked, Except.map] at h
        cases h
      · rw [if_neg hlength] at hblocked
        simp only [perform, hblocked, Except.map] at h
        cases h
        refine Or.inr ⟨?_, rfl⟩
        rintro (hlt | ⟨heq, -⟩) <;> omega
  | some r =>
      obtain ⟨code, s⟩ := r
      by_cases hmsg : Staged msg
      · obtain ⟨data, hwrite⟩ := charWrite_eq hdown hmsg
        simp only [perform, hwrite, Except.map] at h
        cases h
        exact Or.inl ⟨hmsg, code, s, data, rfl, rfl⟩
      · simp only [perform, charWrite_out hdown hmsg, Except.map] at h
        cases h
        exact Or.inr ⟨hmsg, rfl⟩

end Lkm.Char
