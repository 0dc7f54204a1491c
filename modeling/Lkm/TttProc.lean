import Lkm.TttModel
import Lkm.BaseScan
import Lkm.BaseFormat

/-! The proc file of `ttt.c`. Its text is made anew for every read, and a read hands over the first
bytes of it, whatever was read before; only `temp` remembers how much of the text is left, and it
starts from the length that the text had when the module was loaded. `copy_to_user` succeeds here. -/

namespace Lkm.Ttt

open Buffer Scan Format

/-- The globals. `temp` stays between 0 and `len`, so the conversions between `int` and `size_t` do not
change it. -/
structure Proc where
  dev : Dev
  len : Nat
  temp : Nat
  msg : Buf 100

/-- What the format of `msg` makes of the counters. -/
def msgText (dev : Dev) : List Byte :=
  ascii "writes# " ++ formatInt (toInt32 dev.reads) ++ ascii "\nreads# " ++
    formatInt (toInt32 dev.writes) ++ ascii "\n"

def initModule : Option Proc := do
  let msg ← sprintf (zeroed 100) (msgText init)
  let len ← strlen msg
  return ⟨init, len, len, msg⟩

/-- `read_proc` for a request of `count` bytes: its result, the bytes that it copies to the reader, and
the globals. -/
def readProc (count : Nat) (s : Proc) : Option (Nat × List Byte × Proc) := do
  let count := if count > s.temp then s.temp else count
  let msg ← sprintf s.msg (msgText s.dev)
  let s := { s with msg := msg, temp := s.temp - count }
  let bytes := s.msg.toList.take count
  let s := if count = 0 then { s with temp := s.len } else s
  return (count, bytes, s)

/-- A reader that calls `read_proc` until it returns 0, with `requests i` bytes in the call `i`; `none`
when that takes more calls than the last bound. -/
def readUntilZero (requests : Nat → Nat) : Nat → Nat → Proc → Option (List Byte × Proc)
  | 0, _, _ => none
  | calls + 1, i, s => do
      let (count, bytes, s) ← readProc (requests i) s
      if count = 0 then return ([], s)
      else
        let (rest, s) ← readUntilZero requests calls (i + 1) s
        return (bytes ++ rest, s)

/-- The proc file after any use of the device and before a read: nothing has been read of the 19 bytes
that the text had when the module was loaded. -/
def fresh (dev : Dev) (msg : Buf 100) : Proc := ⟨dev, 19, 19, msg⟩

theorem initModule_eq : ∃ msg, initModule = some (fresh init msg) := by
  have htext : msgText init = ascii "writes# 0\nreads# 0\n" := by decide
  have hlength : (msgText init).length = 19 := by rw [htext]; decide
  have hnul : 0 ∉ msgText init := by rw [htext]; decide
  obtain ⟨msg, hmsg, hlist⟩ := sprintf_eq_some (zeroed 100) (hlength.trans_lt (by decide))
  have hlen : strlen msg = some 19 := by rw [strlen_of_terminated hnul hlist, hlength]
  refine ⟨msg, ?_⟩
  simp only [initModule, hmsg, hlen, Option.bind_eq_bind, Option.bind_some]
  rfl

/-! ### The text -/

theorem length_msgText (dev : Dev) :
    (msgText dev).length =
      17 + (formatInt (toInt32 dev.reads)).length + (formatInt (toInt32 dev.writes)).length := by
  simp only [msgText, List.length_append, length_ascii, String.reduceToList, List.length_cons,
    List.length_nil]
  omega

/-- The text has its first letter only once. -/
theorem msgText_eq (dev : Dev) : ∃ rest, msgText dev = 0x77 :: rest ∧ 0x77 ∉ rest := by
  have hreads := notMem_formatInt (c := 0x77) (by decide) (by decide) (toInt32 dev.reads)
  have hwrites := notMem_formatInt (c := 0x77) (by decide) (by decide) (toInt32 dev.writes)
  refine ⟨ascii "rites# " ++ formatInt (toInt32 dev.reads) ++ ascii "\nreads# " ++
    formatInt (toInt32 dev.writes) ++ ascii "\n", rfl, ?_⟩
  simp only [List.mem_append, not_or]
  exact ⟨⟨⟨⟨by decide, hreads⟩, by decide⟩, hwrites⟩, by decide⟩

theorem toInt32_bounds (v : Int) : -10 ^ 10 < toInt32 v ∧ toInt32 v < 10 ^ 11 := by
  have hlow := BitVec.le_toInt (BitVec.ofInt 32 v)
  have hhigh := BitVec.toInt_lt (x := BitVec.ofInt 32 v)
  unfold toInt32
  omega

/-- The text and its terminator fit the buffer. -/
theorem length_msgText_lt (dev : Dev) : (msgText dev).length < 100 := by
  obtain ⟨hlow, hhigh⟩ := toInt32_bounds dev.reads
  obtain ⟨hlow', hhigh'⟩ := toInt32_bounds dev.writes
  have hreads := length_formatInt_le (k := 10) (by decide) hlow hhigh
  have hwrites := length_formatInt_le (k := 10) (by decide) hlow' hhigh'
  rw [length_msgText]
  omega

theorem le_length_msgText (dev : Dev) : 19 ≤ (msgText dev).length := by
  have hreads := length_formatInt_pos (toInt32 dev.reads)
  have hwrites := length_formatInt_pos (toInt32 dev.writes)
  rw [length_msgText]
  omega

/-- The counter is printed with one digit. -/
def OneDigit (v : Int) : Prop := 0 ≤ toInt32 v ∧ toInt32 v ≤ 9

theorem length_msgText_eq_iff (dev : Dev) :
    (msgText dev).length = 19 ↔ OneDigit dev.reads ∧ OneDigit dev.writes := by
  have hreads := length_formatInt_pos (toInt32 dev.reads)
  have hwrites := length_formatInt_pos (toInt32 dev.writes)
  rw [OneDigit, OneDigit, ← length_formatInt_eq_one_iff, ← length_formatInt_eq_one_iff, length_msgText]
  omega

/-! ### One read -/

/-- The state while `dev` is not used: at most 19 bytes are left. -/
structure Reading (dev : Dev) (s : Proc) : Prop where
  dev : s.dev = dev
  len : s.len = 19
  temp : s.temp ≤ 19

theorem reading_fresh (dev : Dev) (msg : Buf 100) : Reading dev (fresh dev msg) :=
  ⟨rfl, rfl, Nat.le_refl 19⟩

/-- A read hands over the beginning of the text, and a read that hands over nothing starts again. -/
theorem readProc_eq {dev : Dev} {s : Proc} (hs : Reading dev s) (count : Nat) :
    ∃ t, readProc count s = some (min count s.temp, (msgText dev).take (min count s.temp), t) ∧
      Reading dev t ∧
      t.temp = if min count s.temp = 0 then 19 else s.temp - min count s.temp := by
  obtain ⟨rfl, hlen, htemp⟩ := hs
  obtain ⟨msg, hmsg, hlist⟩ := sprintf_eq_some s.msg (length_msgText_lt s.dev)
  have hcount : (if count > s.temp then s.temp else count) = min count s.temp := by
    split_ifs <;> omega
  have hle := le_length_msgText s.dev
  have hbytes : msg.toList.take (min count s.temp) = (msgText s.dev).take (min count s.temp) := by
    rw [hlist, List.take_append_of_le_length (by omega)]
  simp only [readProc, hcount, hmsg, hbytes, Option.bind_eq_bind, Option.bind_some, Option.pure_def]
  refine ⟨_, rfl, ?_, ?_⟩
  · split_ifs
    · exact ⟨rfl, hlen, Nat.le_of_eq hlen⟩
    · exact ⟨rfl, hlen, by simp only; omega⟩
  · split_ifs
    · exact hlen
    · rfl

/-! ### Reading to the end -/

/-- Reads until the result is 0 end. They hand over at most the bytes that were left, and the first
byte of them is the first byte of the text. -/
theorem readUntilZero_eq (requests : Nat → Nat) {dev : Dev} (calls i : Nat) {s : Proc}
    (hs : Reading dev s) (hcalls : s.temp < calls) :
    ∃ bytes t, readUntilZero requests calls i s = some (bytes, t) ∧ Reading dev t ∧ t.temp = 19 ∧
      bytes.length ≤ s.temp ∧ (bytes = [] ∨ 0x77 ∈ bytes) := by
  induction calls generalizing i s with
  | zero => exact absurd hcalls (Nat.not_lt_zero _)
  | succ calls ih =>
      obtain ⟨t, hread, ht, htemp⟩ := readProc_eq hs (requests i)
      by_cases hzero : min (requests i) s.temp = 0
      · rw [if_pos hzero] at htemp
        refine ⟨[], t, ?_, ht, htemp, Nat.zero_le _, Or.inl rfl⟩
        simp only [readUntilZero, hread, hzero, Option.bind_eq_bind, Option.bind_some, if_true]
        rfl
      · rw [if_neg hzero] at htemp
        obtain ⟨rest, u, hrest, hu, hutemp, hlength, -⟩ := ih (i + 1) ht (by omega)
        obtain ⟨text, htext, -⟩ := msgText_eq dev
        refine ⟨(msgText dev).take (min (requests i) s.temp) ++ rest, u, ?_, hu, hutemp, ?_, Or.inr ?_⟩
        · simp only [readUntilZero, hread, hzero, Option.bind_eq_bind, Option.bind_some, if_false, hrest]
          rfl
        · rw [List.length_append, List.length_take]
          omega
        · obtain ⟨n, hn⟩ := Nat.exists_eq_succ_of_ne_zero hzero
          rw [hn, htext]
          exact List.mem_append_left _ List.mem_cons_self

/-- What the reader of the proc file expects: the text once, and after the 0 the text again from its
beginning. -/
structure Complete (dev : Dev) (bytes : List Byte) (s : Proc) : Prop where
  once : bytes = msgText dev
  again : ∀ count, ∃ ret t, readProc count s = some (ret, (msgText dev).take ret, t) ∧
    (0 < count → 0 < ret)

theorem again_of_reading {dev : Dev} {s : Proc} (hs : Reading dev s) (htemp : s.temp = 19)
    (count : Nat) :
    ∃ ret t, readProc count s = some (ret, (msgText dev).take ret, t) ∧ (0 < count → 0 < ret) := by
  obtain ⟨t, hread, -, -⟩ := readProc_eq hs count
  exact ⟨_, t, hread, by omega⟩

/-- The first piece of the text and what the later reads hand over are the text only if the first
piece was all of it: a later piece would have to begin with the letter that the text begins with. -/
theorem once_iff (dev : Dev) {rest : List Byte} {count : Nat} (hpos : 0 < count) (hle : count ≤ 19)
    (hlength : rest.length ≤ 19 - count) (hrest : rest = [] ∨ 0x77 ∈ rest) :
    (msgText dev).take count ++ rest = msgText dev ↔ count = 19 ∧ (msgText dev).length = 19 := by
  have htext := le_length_msgText dev
  constructor
  · intro h
    have hdrop : rest = (msgText dev).drop count := by
      have hsplit := List.take_append_drop count (msgText dev)
      exact List.append_cancel_left (h.trans hsplit.symm)
    have hcount : count = 19 := by
      by_contra hne
      cases hrest with
      | inl hnil =>
          have := congrArg List.length hdrop
          rw [hnil, List.length_nil, List.length_drop] at this
          omega
      | inr hmem =>
          obtain ⟨tail, hcons, hnot⟩ := msgText_eq dev
          obtain ⟨k, rfl⟩ := Nat.exists_eq_succ_of_ne_zero (Nat.ne_of_gt hpos)
          rw [hdrop, hcons, List.drop_succ_cons] at hmem
          exact hnot (List.mem_of_mem_drop hmem)
    have := congrArg List.length hdrop
    rw [List.length_drop] at this
    omega
  · intro h
    obtain ⟨hcount, hall⟩ := h
    have hnil : rest = [] := List.eq_nil_of_length_eq_zero (by omega)
    rw [hnil, List.append_nil, List.take_of_length_le (by omega)]

/-- From a fresh start the reads come to a 0, and they have handed over the text exactly once, with the
next read at its beginning again, exactly when the first one asks for 19 bytes at least and both
counters are printed with one digit. -/
theorem complete_iff (dev : Dev) (msg : Buf 100) (requests : Nat → Nat) :
    ∃ bytes s, readUntilZero requests 20 0 (fresh dev msg) = some (bytes, s) ∧
      (Complete dev bytes s ↔ 19 ≤ requests 0 ∧ OneDigit dev.reads ∧ OneDigit dev.writes) := by
  have hfresh := reading_fresh dev msg
  obtain ⟨t, hread, ht, htemp⟩ := readProc_eq hfresh (requests 0)
  change t.temp = if min (requests 0) 19 = 0 then 19 else 19 - min (requests 0) 19 at htemp
  change readProc (requests 0) (fresh dev msg) =
    some (min (requests 0) 19, (msgText dev).take (min (requests 0) 19), t) at hread
  by_cases hzero : min (requests 0) 19 = 0
  · refine ⟨[], t, ?_, ?_⟩
    · simp only [readUntilZero, hread, hzero, Option.bind_eq_bind, Option.bind_some, if_true]
      rfl
    · have htext := le_length_msgText dev
      refine iff_of_false (fun h => ?_) (by omega)
      rw [← h.once, List.length_nil] at htext
      exact absurd htext (by decide)
  · rw [if_neg hzero] at htemp
    obtain ⟨rest, u, hrest, hu, hutemp, hlength, hfirst⟩ :=
      readUntilZero_eq requests 19 1 ht (by omega)
    refine ⟨(msgText dev).take (min (requests 0) 19) ++ rest, u, ?_, ?_⟩
    · rw [readUntilZero]
      simp only [hread, hzero, Option.bind_eq_bind, Option.bind_some, if_false, hrest]
      rfl
    · have honce := once_iff dev (Nat.pos_of_ne_zero hzero) (Nat.min_le_right _ _)
        (htemp ▸ hlength) hfirst
      rw [← length_msgText_eq_iff]
      constructor
      · intro h
        obtain ⟨hcount, hall⟩ := honce.mp h.once
        exact ⟨by omega, hall⟩
      · intro h
        exact ⟨honce.mpr ⟨by omega, h.2⟩, again_of_reading hu hutemp⟩

/-- A reader that asks for 10 bytes at a time gets the first line and then the beginning of it again. -/
theorem complete_chunks :
    ¬∀ dev msg requests bytes s, readUntilZero requests 20 0 (fresh dev msg) = some (bytes, s) →
      Complete dev bytes s := by
  intro h
  have hread : (readUntilZero (fun _ => 10) 20 0 (fresh init (zeroed 100))).map Prod.fst =
      some (ascii "writes# 0\nwrites# 0") := by decide
  obtain ⟨⟨bytes, s⟩, hsome, hbytes⟩ := Option.map_eq_some_iff.mp hread
  have honce := (h init (zeroed 100) (fun _ => 10) bytes s hsome).once
  exact absurd (hbytes.symm.trans honce) (by decide)

end Lkm.Ttt
