import Lkm.CharModel
import Lkm.BaseRuns

/-! The semaphores of `char.c` under interleaving. Any number of processes are in the middle of calls
of the device, and each step is one access of one of them to the globals. The semaphores keep their
books exactly as long as no `down_interruptible` is interrupted and no read finds the queue empty:
the first goes on without the semaphore, the second returns with it. -/

namespace Lkm.Char

open Buffer Queue Semaphore Runs

/-- Where a process is in a call of the device. -/
inductive Pc where
  | idle
  | opening
  | readWait (user : UserBuf)
  | readCheck (user : UserBuf)
  | readLoop (user : UserBuf) (offset : Nat)
  | readUp
  | writeCopy (rest : List Byte) (i : Nat)
  | writeInsert
  | writeHead
  | writeUp

/-- Between the `down_interruptible(&s)` and the end of the section that it guards. -/
def Pc.InSection : Pc → Prop
  | .readCheck _ | .readLoop _ _ | .readUp | .writeInsert | .writeHead | .writeUp => True
  | _ => False

/-- In a call of `char_read` or `char_write`. -/
def Pc.InTransfer : Pc → Prop
  | .idle | .opening => False
  | _ => True

variable {P : Type} [DecidableEq P]

/-- The globals, the place of every process, and the owner of each open file of the device. -/
structure World (P : Type) where
  dev : Dev
  pc : P → Pc
  files : List P

/-- The accesses of the processes. `wild` is what an access outside the staging buffer makes of the
globals, or finds there. -/
inductive Event (P : Type) where
  | openCall (p : P)
  | openDown (p : P) (interrupted : Bool)
  | close (p : P)
  | readCall (p : P) (user : UserBuf)
  | readDown (p : P) (interrupted : Bool)
  | readCheck (p : P)
  | readRound (p : P)
  | readUp (p : P)
  | writeCall (p : P) (msg : List Byte)
  | writeByte (p : P) (wild : Dev)
  | writeDown (p : P) (interrupted : Bool)
  | writeInsert (p : P) (wild : List Byte)
  | writeHead (p : P) (wild : List Byte)
  | writeUp (p : P)

def World.goto (w : World P) (p : P) (pc : Pc) (dev : Dev) : World P :=
  { w with dev := dev, pc := Function.update w.pc p pc }

def World.start (addr : BitVec 64) : World P := ⟨init addr, fun _ => .idle, []⟩

namespace World

/-- `char_open` and `char_close`: `char_open` succeeds whether or not it got the semaphore. -/
def openDown (w : World P) (p : P) (interrupted : Bool) : Option (World P) :=
  match w.pc p with
  | .opening =>
      (downInterruptible interrupted w.dev.sem).map fun r =>
        { w.goto p .idle { w.dev with sem := r.2 } with files := p :: w.files }
  | _ => none

def close (w : World P) (p : P) : Option (World P) :=
  match w.pc p with
  | .idle =>
      if p ∈ w.files then
        some { w with dev := { w.dev with sem := up w.dev.sem }, files := w.files.erase p }
      else none
  | _ => none

def step (w : World P) : Event P → Option (World P)
  | .openCall p =>
      match w.pc p with
      | .idle => some (w.goto p .opening w.dev)
      | _ => none
  | .openDown p interrupted => w.openDown p interrupted
  | .close p => w.close p
  | .readCall p user =>
      match w.pc p with
      | .idle => some (w.goto p (.readWait user) w.dev)
      | _ => none
  | .readDown p interrupted =>
      match w.pc p with
      | .readWait user =>
          (downInterruptible interrupted w.dev.s).map fun r =>
            w.goto p (.readCheck user) { w.dev with s := r.2 }
      | _ => none
  | .readCheck p =>
      match w.pc p with
      | .readCheck user =>
          if w.dev.cQueue.kfifoIsEmpty then
            some (w.goto p .idle { w.dev with writeCount := w.dev.writeCount + 1 })
          else some (w.goto p (.readLoop user 0) w.dev)
      | _ => none
  | .readRound p =>
      match w.pc p with
      | .readLoop user offset =>
          match consumerRound user offset w.dev with
          | none => some (w.goto p .readUp w.dev)
          | some (_, dev) => some (w.goto p (.readLoop user (offset + 1)) dev)
      | _ => none
  | .readUp p =>
      match w.pc p with
      | .readUp =>
          some (w.goto p .idle { w.dev with s := up w.dev.s, writeCount := w.dev.writeCount + 1 })
      | _ => none
  | .writeCall p msg =>
      match w.pc p with
      | .idle => some (w.goto p (.writeCopy msg 0) { w.dev with data := zeroed 50 })
      | _ => none
  | .writeByte p wild =>
      match w.pc p with
      | .writeCopy (c :: rest) i =>
          some (w.goto p (.writeCopy rest (i + 1))
            (if h : i < 50 then { w.dev with data := w.dev.data.set i c h } else wild))
      | _ => none
  | .writeDown p interrupted =>
      match w.pc p with
      | .writeCopy [] _ =>
          (downInterruptible interrupted w.dev.s).map fun r =>
            w.goto p .writeInsert { w.dev with s := r.2 }
      | _ => none
  | .writeInsert p wild =>
      match w.pc p with
      | .writeInsert => some (w.goto p .writeHead (insertText ((text w.dev.data).getD wild) w.dev))
      | _ => none
  | .writeHead p wild =>
      match w.pc p with
      | .writeHead => some (w.goto p .writeUp (advanceHead ((text w.dev.data).getD wild) w.dev))
      | _ => none
  | .writeUp p =>
      match w.pc p with
      | .writeUp => some (w.goto p .idle { w.dev with s := up w.dev.s })
      | _ => none

/-! ### A call that runs alone

The calls of `CharModel` are the runs in which one process goes through a call while the others
rest. -/

theorem goto_pc (w : World P) (p : P) (pc : Pc) (dev : Dev) :
    (w.goto p pc dev).pc = Function.update w.pc p pc := rfl

theorem goto_dev (w : World P) (p : P) (pc : Pc) (dev : Dev) : (w.goto p pc dev).dev = dev := rfl

theorem goto_goto (w : World P) (p : P) (pc pc' : Pc) (dev dev' : Dev) :
    (w.goto p pc dev).goto p pc' dev' = w.goto p pc' dev' := by
  simp only [goto, Function.update_idem]

theorem goto_idle {w : World P} {p : P} (h : w.pc p = .idle) (dev : Dev) :
    w.goto p .idle dev = { w with dev := dev } := by
  simp only [goto, ← h, Function.update_eq_self]

theorem run_readRounds (p : P) {user : UserBuf} (rounds offset : Nat) (w : World P) {dev dev' : Dev}
    {stored : List (Nat × Byte)} (h : consumerLoop user rounds offset dev = some (stored, dev')) :
    ∃ n, run step (w.goto p (.readLoop user offset) dev) (List.replicate n (.readRound p)) =
      some (w.goto p .readUp dev') := by
  induction rounds generalizing offset dev stored with
  | zero => cases h
  | succ rounds ih =>
      rw [consumerLoop] at h
      cases hround : consumerRound user offset dev with
      | none =>
          rw [hround] at h
          cases h
          refine ⟨1, ?_⟩
          simp only [List.replicate_one, run, step, goto_pc, Function.update_self, goto_dev, hround,
            goto_goto, Option.bind_some]
      | some r =>
          obtain ⟨put, next⟩ := r
          rw [hround] at h
          obtain ⟨⟨rest, _⟩, hrest, hend⟩ := Option.map_eq_some_iff.mp h
          cases hend
          obtain ⟨n, hn⟩ := ih (offset + 1) hrest
          refine ⟨n + 1, ?_⟩
          simp only [List.replicate_succ, run, step, goto_pc, Function.update_self, goto_dev, hround,
            goto_goto, Option.bind_some]
          exact hn

/-- A `char_read` is a run of the interleaved machine. -/
theorem run_charRead {w : World P} {p : P} (hp : w.pc p = .idle) {interrupted : Bool} {user : UserBuf}
    {code : Int} {stored : List (Nat × Byte)} {dev : Dev}
    (h : charRead interrupted user w.dev = .ok (code, stored, dev)) :
    ∃ es, run step w es = some { w with dev := dev } := by
  cases hdown : downInterruptible interrupted w.dev.s with
  | none =>
      rw [charRead_blocked hdown] at h
      cases h
  | some r =>
      cases hempty : w.dev.cQueue.kfifoIsEmpty with
      | true =>
          simp only [charRead, consumer, hdown, orStop_some_bind, hempty, if_true] at h
          cases h
          refine ⟨[.readCall p user, .readDown p interrupted, .readCheck p], ?_⟩
          simp only [run, step, hp, goto_pc, goto_dev, goto_goto, goto_idle hp, Function.update_self,
            hdown, hempty, if_true, Option.map_some, Option.bind_some]
      | false =>
          have hloop := consumerLoop_eq user (fifoSize + 1) 0 { w.dev with s := r.2 }
            (Nat.lt_succ_of_le w.dev.cQueue.bound)
          obtain ⟨n, hn⟩ := run_readRounds p _ 0 w hloop
          simp only [charRead, consumer, hdown, orStop_some_bind, hempty, Bool.false_eq_true, if_false,
            hloop] at h
          cases h
          refine ⟨[.readCall p user, .readDown p interrupted, .readCheck p] ++
            (List.replicate n (.readRound p) ++ [.readUp p]), ?_⟩
          rw [run_append]
          simp only [run, step, hp, goto_pc, goto_dev, goto_goto, Function.update_self, hdown, hempty,
            Bool.false_eq_true, if_false, Option.map_some, Option.bind_some]
          rw [run_append, hn]
          simp only [run, step, goto_pc, goto_dev, goto_goto, goto_idle hp, Function.update_self,
            Option.bind_some]

theorem run_writeBytes {p : P} (wild : Dev) (w : World P) (dev : Dev) {rest : List Byte} {i : Nat}
    {data : Buf 50} (h : store dev.data i rest = some data) :
    ∃ j, run step (w.goto p (.writeCopy rest i) dev) (List.replicate rest.length (.writeByte p wild)) =
      some (w.goto p (.writeCopy [] j) { dev with data := data }) := by
  induction rest generalizing i dev with
  | nil =>
      cases h
      exact ⟨i, rfl⟩
  | cons c rest ih =>
      rw [store] at h
      split_ifs at h with hi
      obtain ⟨j, hj⟩ := ih { dev with data := dev.data.set i c hi } h
      refine ⟨j, ?_⟩
      simp only [List.length_cons, List.replicate_succ, run, step, goto_pc, Function.update_self,
        goto_dev, goto_goto, Option.bind_some, dif_pos hi]
      exact hj

/-- And so is a `char_write`. -/
theorem run_charWrite {w : World P} {p : P} (hp : w.pc p = .idle) {interrupted : Bool}
    {msg : List Byte} {code : Int} {dev : Dev}
    (h : charWrite interrupted msg w.dev = .ok (code, dev)) :
    ∃ es, run step w es = some { w with dev := dev } := by
  have htext := text_store_zeroed 50 msg
  cases hdown : downInterruptible interrupted w.dev.s with
  | none =>
      rw [charWrite_blocked hdown] at h
      cases h
  | some r =>
      by_cases hmsg : Staged msg
      · rw [if_pos (show _ ∨ _ from hmsg)] at htext
        obtain ⟨data, hstore, htext⟩ := Option.bind_eq_some_iff.mp htext
        obtain ⟨j, hj⟩ := run_writeBytes w.dev w { w.dev with data := zeroed 50 } hstore
        simp only [charWrite, hstore, hdown, orStop_some_bind, insertText, htext] at h
        cases h
        refine ⟨[.writeCall p msg] ++ (List.replicate msg.length (.writeByte p w.dev) ++
          [.writeDown p interrupted, .writeInsert p [], .writeHead p [], .writeUp p]), ?_⟩
        rw [run_append]
        simp only [run, step, hp, Option.bind_some]
        rw [run_append, hj]
        simp only [run, step, goto_pc, goto_dev, goto_goto, goto_idle hp, Function.update_self,
          hdown, insertText, htext, Option.map_some, Option.bind_some, Option.getD_some]
      · rw [charWrite_out hdown hmsg] at h
        cases h

/-- The process is inside the section that `s` guards. -/
def inSection (w : World P) (p : P) : Prop := (w.pc p).InSection

theorem inSection_goto (w : World P) (p : P) (pc : Pc) (dev : Dev) :
    (w.goto p pc dev).inSection p ↔ pc.InSection := by
  rw [inSection, goto_pc, Function.update_self]

theorem inSection_goto_other (w : World P) {p q : P} (pc : Pc) (dev : Dev) (h : q ≠ p) :
    (w.goto p pc dev).inSection q ↔ w.inSection q := by
  rw [inSection, goto_pc, Function.update_of_ne h, inSection]

/-- A move that stays on its side of the section. -/
theorem inSection_goto_same (w : World P) {p : P} {pc : Pc} (dev : Dev)
    (h : pc.InSection ↔ w.inSection p) (q : P) : (w.goto p pc dev).inSection q ↔ w.inSection q := by
  by_cases hq : q = p
  · rw [hq, inSection_goto, h]
  · exact inSection_goto_other w pc dev hq

end World

/-! ### The books -/

/-- The rules that the two semaphores are there for. -/
structure LockRules (w : World P) : Prop where
  exclusive : ∀ p q, w.inSection p → w.inSection q → p = q
  released : (∀ p, ¬(w.pc p).InTransfer) → w.dev.s = 1
  opens : w.dev.sem + w.files.length = 1
  single : ∀ p ∈ w.files, ∀ q ∈ w.files, p = q

/-- `s` guards its section, and `sem` counts the open files. -/
structure Accounts (w : World P) : Prop where
  guards : Guards w.dev.s w.inSection
  opens : w.dev.sem + w.files.length = 1

/-- No wait is interrupted, and no read finds the queue empty. -/
def Earned (w : World P) : Event P → Prop
  | .openDown _ interrupted | .readDown _ interrupted | .writeDown _ interrupted =>
      interrupted = false
  | .readCheck _ => w.dev.cQueue.items ≠ []
  | _ => True

/-- No byte is written outside the staging buffer. -/
def InBounds (w : World P) : Event P → Prop
  | .writeByte p _ =>
      match w.pc p with
      | .writeCopy _ i => i < 50
      | _ => True
  | _ => True

theorem Accounts.lockRules {w : World P} (h : Accounts w) : LockRules w where
  exclusive := fun _ _ hp hq => h.guards.unique hp hq
  released := by
    intro hnone
    refine h.guards.free fun p hp => hnone p ?_
    unfold World.inSection at hp
    cases hpc : w.pc p <;> rw [hpc] at hp <;> first | exact hp.elim | trivial
  opens := h.opens
  single := by
    have hlength := h.opens
    intro p hp q hq
    match hfiles : w.files with
    | [] =>
        rw [hfiles] at hp
        cases hp
    | [r] =>
        rw [hfiles] at hp hq
        rw [List.mem_singleton.mp hp, List.mem_singleton.mp hq]
    | r :: r' :: rest =>
        rw [hfiles] at hlength
        simp only [List.length_cons] at hlength
        omega

omit [DecidableEq P] in
theorem accounts_start (addr : BitVec 64) : Accounts (World.start addr : World P) where
  guards := Or.inl ⟨rfl, fun _ h => h⟩
  opens := rfl

omit [DecidableEq P] in
theorem inSection_of_pc {w : World P} {p : P} {pc : Pc} (h : w.pc p = pc) :
    pc.InSection ↔ w.inSection p := by
  rw [World.inSection, h]

/-- A move of one process that does not touch the semaphores. -/
theorem Accounts.move {w : World P} (h : Accounts w) {p : P} {old pc : Pc} {dev : Dev}
    (hpc : w.pc p = old) (hside : pc.InSection ↔ old.InSection) (hs : dev.s = w.dev.s)
    (hsem : dev.sem = w.dev.sem) : Accounts (w.goto p pc dev) where
  guards := by
    have hguards := h.guards.congr (w.inSection_goto_same dev (hside.trans (inSection_of_pc hpc)))
    rwa [← hs] at hguards
  opens := by
    have hopens := h.opens
    rwa [← hsem] at hopens

/-- The `down_interruptible(&s)` of `consumer` and of `char_write`. -/
theorem accounts_down_iff {w : World P} (h : Accounts w) {p : P} {pc : Pc} {interrupted : Bool}
    {r : Int × Nat} (hdown : downInterruptible interrupted w.dev.s = some r)
    (hout : ¬w.inSection p) (hin : pc.InSection) :
    Accounts (w.goto p pc { w.dev with s := r.2 }) ↔ interrupted = false := by
  have hother : ∀ q, q ≠ p → ((w.goto p pc { w.dev with s := r.2 }).inSection q ↔ w.inSection q) :=
    fun q hq => w.inSection_goto_other pc _ hq
  have hself := (w.inSection_goto p pc { w.dev with s := r.2 }).mpr hin
  cases interrupted with
  | false =>
      refine iff_of_true ⟨?_, h.opens⟩ rfl
      have hguards := h.guards
      rw [downInterruptible_taken hdown] at hguards
      exact hguards.enter hother hself
  | true =>
      rw [downInterruptible_true, Option.some.injEq] at hdown
      subst hdown
      exact iff_of_false (fun h' => h.guards.not_enter hother hout hself h'.guards) Bool.noConfusion

/-- The `up(&s)` of both. -/
theorem Accounts.up {w : World P} (h : Accounts w) {p : P} {dev : Dev} (hin : w.inSection p)
    (hs : dev.s = up w.dev.s) (hsem : dev.sem = w.dev.sem) : Accounts (w.goto p .idle dev) where
  guards := by
    have hguards := h.guards.leave (fun q hq => w.inSection_goto_other .idle dev hq) hin
      (fun h' => (w.inSection_goto p .idle dev).mp h')
    rwa [← hs] at hguards
  opens := by
    have hopens := h.opens
    rwa [← hsem] at hopens

theorem accounts_openDown_iff {w v : World P} {p : P} {interrupted : Bool} (hw : Accounts w)
    (h : w.openDown p interrupted = some v) : Accounts v ↔ interrupted = false := by
  unfold World.openDown at h
  split at h
  · rename_i hpc
    obtain ⟨r, hdown, rfl⟩ := Option.map_eq_some_iff.mp h
    have hguards := hw.guards.congr (w.inSection_goto_same { w.dev with sem := r.2 }
      (show Pc.idle.InSection ↔ w.inSection p by rw [World.inSection, hpc]; rfl))
    have hopens := hw.opens
    cases interrupted with
    | false =>
        have := downInterruptible_taken hdown
        refine iff_of_true ⟨hguards, ?_⟩ rfl
        simp only [World.goto, List.length_cons]
        omega
    | true =>
        rw [downInterruptible_true, Option.some.injEq] at hdown
        subst hdown
        refine iff_of_false (fun h' => ?_) Bool.noConfusion
        have hopens' := h'.opens
        simp only [World.goto, List.length_cons] at hopens'
        omega
  · cases h

theorem accounts_close {w v : World P} {p : P} (hw : Accounts w) (h : w.close p = some v) :
    Accounts v := by
  unfold World.close at h
  split at h
  · split_ifs at h with hmem
    cases h
    refine ⟨hw.guards, ?_⟩
    have hopens := hw.opens
    have hpos := List.length_pos_of_mem hmem
    simp only [List.length_erase_of_mem hmem, up]
    omega
  · cases h

theorem consumerRound_sem {user : UserBuf} {offset : Nat} {dev dev' : Dev} {put : List (Nat × Byte)}
    (h : consumerRound user offset dev = some (put, dev')) : dev'.s = dev.s ∧ dev'.sem = dev.sem := by
  unfold consumerRound at h
  split at h
  · cases h
  · cases h
    exact ⟨rfl, rfl⟩

/-- The exit of `consumer` from an empty queue. -/
theorem accounts_readCheck_iff {w v : World P} {p : P} (hw : Accounts w)
    (h : w.step (.readCheck p) = some v) : Accounts v ↔ w.dev.cQueue.items ≠ [] := by
  simp only [World.step] at h
  split at h
  · rename_i user hpc
    have hin : w.inSection p := (inSection_of_pc hpc).mp trivial
    split_ifs at h with hempty
    · cases h
      have hnot := hw.guards.not_leave (fun q hq => w.inSection_goto_other .idle
        { w.dev with writeCount := w.dev.writeCount + 1 } hq) hin
        (fun h' => (w.inSection_goto p .idle _).mp h')
      exact iff_of_false (fun h' => hnot h'.guards) fun hne => hne (w.dev.cQueue.kfifoIsEmpty_iff.mp hempty)
    · cases h
      refine iff_of_true (hw.move hpc Iff.rfl rfl rfl) fun hnil => hempty ?_
      exact w.dev.cQueue.kfifoIsEmpty_iff.mpr hnil
  · cases h

/-- One step keeps the books exactly when it is earned. -/
theorem accounts_step_iff {w v : World P} {e : Event P} (hw : Accounts w) (hbounds : InBounds w e)
    (h : w.step e = some v) : Accounts v ↔ Earned w e := by
  cases e with
  | openDown p interrupted => exact accounts_openDown_iff hw h
  | close p => exact iff_of_true (accounts_close hw h) trivial
  | readCheck p => exact accounts_readCheck_iff hw h
  | openCall p | readCall p _ | writeCall p _ | writeInsert p _ | writeHead p _ =>
      -- The process goes on on its side of the section, and no semaphore is touched.
      simp only [World.step] at h
      split at h
      · rename_i hpc
        cases h
        exact iff_of_true (hw.move hpc Iff.rfl rfl rfl) trivial
      · cases h
  | readDown p interrupted | writeDown p interrupted =>
      simp only [World.step] at h
      split at h
      · rename_i hpc
        obtain ⟨r, hdown, rfl⟩ := Option.map_eq_some_iff.mp h
        exact accounts_down_iff hw hdown (fun hin => (inSection_of_pc hpc).mpr hin) trivial
      · cases h
  | readUp p | writeUp p =>
      simp only [World.step] at h
      split at h
      · rename_i hpc
        cases h
        exact iff_of_true (hw.up ((inSection_of_pc hpc).mp trivial) rfl rfl) trivial
      · cases h
  | readRound p =>
      simp only [World.step] at h
      split at h
      · rename_i user offset hpc
        split at h
        · cases h
          exact iff_of_true (hw.move hpc Iff.rfl rfl rfl) trivial
        · rename_i put dev hround
          cases h
          obtain ⟨hs, hsem⟩ := consumerRound_sem hround
          exact iff_of_true (hw.move hpc Iff.rfl hs hsem) trivial
      · cases h
  | writeByte p wild =>
      simp only [World.step] at h
      split at h
      · rename_i c rest i hpc
        cases h
        simp only [InBounds, hpc] at hbounds
        rw [dif_pos hbounds]
        exact iff_of_true (hw.move hpc Iff.rfl rfl rfl) trivial
      · cases h

/-- Over a run that stays within the staging buffer, the books are kept exactly when every step is
earned. -/
theorem accounts_run_iff (addr : BitVec 64) (es : List (Event P)) :
    Each World.step (fun w e v => InBounds w e ∧ Accounts v) (World.start addr) es ↔
      Each World.step (fun w e _ => InBounds w e ∧ Earned w e) (World.start addr) es := by
  refine each_exact Accounts ?_ ?_ (accounts_start addr) es
  · intro w e v hw h
    exact and_congr_right fun hbounds => accounts_step_iff hw hbounds h
  · rintro w e v hw h ⟨hbounds, hearned⟩
    exact (accounts_step_iff hw hbounds h).mpr hearned

/-- If no wait is interrupted, no read finds the queue empty and no byte is written outside the
staging buffer, the semaphores do what they are there for in every state of a run. -/
theorem lockRules_of_earned (addr : BitVec 64) (es : List (Event P))
    (hes : Each World.step (fun w e _ => InBounds w e ∧ Earned w e) (World.start addr) es) :
    Always World.step LockRules (World.start addr) es := by
  have haccounts : Always World.step Accounts (World.start addr) es := by
    refine always_of_each Accounts ?_ (accounts_start addr) hes
    rintro w e v hw h ⟨hbounds, hearned⟩
    exact (accounts_step_iff hw hbounds h).mpr hearned
  exact haccounts.mono fun w hw => hw.lockRules

/-- Process 1 opens the device and writes a byte. Process 2, which has inherited the file, reads it, and while
it does so, process 1 fills the staging buffer once more. Then the file is closed, and process 2, which has
waited for it, opens the device. -/
def handOver : List (Event Nat) :=
  [.openCall 1, .openDown 1 false, .writeCall 1 [0x41], .writeByte 1 (init 0),
    .readCall 2 ⟨1, fun _ => true⟩, .writeDown 1 false, .writeInsert 1 [], .writeHead 1 [], .writeUp 1,
    .readDown 2 false, .readCheck 2, .writeCall 1 [0x42], .readRound 2, .writeByte 1 (init 0),
    .readRound 2, .readUp 2, .writeDown 1 false, .openCall 2, .writeInsert 1 [], .writeHead 1 [],
    .writeUp 1, .close 1, .openDown 2 false]

theorem lockRules_of_earned_handOver :
    Always World.step LockRules (World.start 0 : World Nat) handOver :=
  lockRules_of_earned 0 handOver <|
    .cons rfl ⟨trivial, trivial⟩ <| .cons rfl ⟨trivial, rfl⟩ <| .cons rfl ⟨trivial, trivial⟩ <|
    .cons rfl ⟨(by decide : 0 < 50), trivial⟩ <| .cons rfl ⟨trivial, trivial⟩ <|
    .cons rfl ⟨trivial, rfl⟩ <| .cons rfl ⟨trivial, trivial⟩ <| .cons rfl ⟨trivial, trivial⟩ <|
    .cons rfl ⟨trivial, trivial⟩ <| .cons rfl ⟨trivial, rfl⟩ <|
    .cons rfl ⟨trivial, List.cons_ne_nil _ _⟩ <| .cons rfl ⟨trivial, trivial⟩ <|
    .cons rfl ⟨trivial, trivial⟩ <| .cons rfl ⟨(by decide : 0 < 50), trivial⟩ <|
    .cons rfl ⟨trivial, trivial⟩ <| .cons rfl ⟨trivial, trivial⟩ <| .cons rfl ⟨trivial, rfl⟩ <|
    .cons rfl ⟨trivial, trivial⟩ <| .cons rfl ⟨trivial, trivial⟩ <| .cons rfl ⟨trivial, trivial⟩ <|
    .cons rfl ⟨trivial, trivial⟩ <| .cons rfl ⟨trivial, trivial⟩ <| .cons rfl ⟨trivial, rfl⟩ .nil

/-- One process opens the device and reads from the empty queue; afterwards no call is in progress,
and `s` is not free. -/
theorem lockRules_empty_read :
    ¬Always World.step LockRules (World.start 0 : World Nat)
      [.openCall 1, .openDown 1 false, .readCall 1 ⟨1, fun _ => true⟩, .readDown 1 false,
        .readCheck 1] := by
  intro h
  have hlast := h.last rfl
  have hfree := hlast.released fun p htransfer => by
    by_cases hp : p = 1
    · subst hp
      exact htransfer
    · simp only [World.goto, World.start, Function.update_of_ne hp] at htransfer
      exact htransfer
  exact absurd hfree (by decide)

end Lkm.Char
