import Lkm.BaseScan
import Lkm.BaseSemaphore

/-! The shared-memory device of `ex77.c`. The `mmap_info` objects that `kmalloc` has returned and the
status of every page are explicit, and every access to an object or a page that is not allocated is
recorded. An access through null ends the operation where it stands; any other bad access has no
effect on the state here. -/

namespace Lkm.Shm

open Buffer Scan Semaphore

abbrev Addr := BitVec 64

/-- A pointer to an `mmap_info`: the place of the object in the list of all objects. -/
abbrev Ptr := Nat

structure MmapInfo where
  data : Addr
  freed : Bool

/-- The status of the page at an address. -/
inductive Page where
  | never
  | live
  | freed
  deriving DecidableEq

inductive Violation where
  | nullInfo
  | freedInfo
  | badPage
  | badFree
  deriving DecidableEq

/-- A `vm_area_struct` of a process that maps the device. -/
structure Vma (P : Type) where
  owner : P
  file : Nat
  vmPrivateData : Option Ptr
  deriving DecidableEq

/-- The globals of the module, the objects and pages, the `private_data` of each open file, and the
live mappings. -/
structure State (P : Type) where
  majorNo : Int
  flag : Int
  size : Int
  count : BitVec 32
  mpInfo : Option Ptr
  locked : Bool
  infos : List MmapInfo
  pages : Addr → Page
  files : Nat → Option (Option Ptr)
  vmas : List (Vma P)
  violations : List Violation

/-- The state after `init`, with the number that `register_chrdev` returns. -/
def init (P : Type) (majorNo : Int) : State P where
  majorNo := majorNo
  flag := 0
  size := 0
  count := 0
  mpInfo := none
  locked := false
  infos := []
  pages := fun _ => .never
  files := fun _ => none
  vmas := []
  violations := []

variable {P : Type}

namespace State

/-! ### Memory -/

def note (x : State P) (v : Violation) : State P := { x with violations := x.violations ++ [v] }

/-- `info->data`, or the state in which the operation ends because `info` is null. -/
def readData (x : State P) (info : Option Ptr) : Except (State P) (Addr × State P) :=
  match info.bind (x.infos[·]?) with
  | none => .error (x.note .nullInfo)
  | some object => .ok (object.data, if object.freed then x.note .freedInfo else x)

/-- An access to the page at `addr`. -/
def touchPage (x : State P) (addr : Addr) : State P :=
  match x.pages addr with
  | .live => x
  | _ => x.note .badPage

/-- `free_page(addr)`. -/
def freePage (x : State P) (addr : Addr) : State P :=
  if addr = 0 then x
  else
    match x.pages addr with
    | .live => { x with pages := Function.update x.pages addr .freed }
    | _ => x.note .badFree

def kfree (x : State P) (info : Option Ptr) : State P :=
  match info with
  | none => x
  | some p =>
      match x.infos[p]? with
      | some ⟨data, false⟩ => { x with infos := x.infos.set p ⟨data, true⟩ }
      | _ => x.note .badFree

/-- `kmalloc`: `outcome` is what the memory holds as `data`, or `none` when it fails. -/
def kmalloc (x : State P) (outcome : Option Addr) : Option Ptr × State P :=
  match outcome with
  | none => (none, x)
  | some garbage => (some x.infos.length, { x with infos := x.infos ++ [⟨garbage, false⟩] })

/-! ### The operations -/

def LOCK : BitVec 32 := 0xc0087100
def UNLOCK : BitVec 32 := 0xc0087101
def STATUS : BitVec 32 := 0xc0087102

/-- `_ioctl`; `none` when the caller waits for the mutex. -/
def ioctl (x : State P) (cmd : BitVec 32) (interrupted copyFails : Bool) : Option (Int × State P) :=
  if cmd = LOCK then
    (mutexLockInterruptible interrupted x.locked).map fun r =>
      (if r.1 ≠ 0 then -512 else 0, { x with locked := r.2 })
  else if cmd = UNLOCK then some (0, { x with locked := false })
  else if cmd = STATUS then some (if copyFails then -13 else 0, x)
  else some (-22, x)

def mmapOpen (x : State P) : State P := { x with count := x.count + 1 }

def mmapClose (x : State P) : State P := { x with locked := false, count := x.count - 1 }

/-- `mmap_fault`, with its result. -/
def mmapFault (x : State P) (vma : Vma P) : Except (State P) (Int × State P) := do
  let x := { x with mpInfo := vma.vmPrivateData }
  let (data, x) ← x.readData x.mpInfo
  if data = 0 then
    return (-1, x)
  return (0, x.touchPage data)

/-- `mmap_mmap` of a new area for an open file with the given `private_data`. -/
def mmapMmap (x : State P) (vma : Vma P) (privateData : Option Ptr) : Vma P × State P :=
  ({ vma with vmPrivateData := privateData }, x.mmapOpen)

/-- `char_close` for a file with the given `private_data`, with its result. -/
def charClose (x : State P) (privateData : Option Ptr) : Except (State P) (Int × State P) := do
  let (data, x) ← x.readData privateData
  return (0, x.freePage data)

def charOpen (x : State P) (file : Nat) : State P :=
  { x with files := Function.update x.files file (some x.mpInfo) }

/-- `flag_store`, with its result; `junk` is what the local variable holds that `sscanf` may not
assign. -/
def flagStore (x : State P) (buf : List Byte) (junk : Int) : Int × State P :=
  let var := (sscanfInt buf).getD junk
  if var = 0 then
    if x.count ≠ 0 then (buf.length, x)
    else (buf.length, { x with flag := var })
  else (buf.length, { x with flag := var })

/-- What `size_store` does to the old object. -/
def releaseOld (x : State P) : Except (State P) (State P) :=
  if x.size > 0 then do
    let (data, x) ← x.readData x.mpInfo
    let x := x.freePage data
    return x.kfree x.mpInfo
  else return x

/-- The rest of `size_store`, for the size `tmp`. -/
def installNew (x : State P) (tmp : Int) (outcome : Option Addr) : Except (State P) (State P) := do
  let x := { x with size := tmp }
  let (info, x) := x.kmalloc outcome
  let x := { x with mpInfo := info }
  let (data, x) ← x.readData x.mpInfo
  return x.touchPage data

/-- `size_store`, with its result. -/
def sizeStore (x : State P) (buf : List Byte) (junk : Int) (outcome : Option Addr) :
    Except (State P) (Int × State P) := do
  let tmp := (sscanfInt buf).getD junk
  if tmp > x.size ∧ x.count = 0 then
    let x ← x.releaseOld
    let x ← x.installNew tmp outcome
    return (buf.length, x)
  else return (buf.length, x)

/-- The state in which an operation ends, in the middle or not. -/
def final : Except (State P) (Int × State P) → State P
  | .error x => x
  | .ok (_, x) => x

/-! ### The stores step by step -/

theorem readData_live {x : State P} {p : Ptr} {data : Addr} (h : x.infos[p]? = some ⟨data, false⟩) :
    x.readData (some p) = .ok (data, x) := by
  simp only [readData, Option.bind_some, h, Bool.false_eq_true, if_false]

theorem installNew_none (x : State P) (tmp : Int) :
    x.installNew tmp none = .error ({ x with size := tmp, mpInfo := none }.note .nullInfo) := rfl

theorem installNew_some (x : State P) (tmp : Int) (garbage : Addr) :
    x.installNew tmp (some garbage) =
      .ok (touchPage
        { x with
          size := tmp
          mpInfo := some x.infos.length
          infos := x.infos ++ [⟨garbage, false⟩] } garbage) := by
  let y : State P :=
    { x with
      size := tmp
      mpInfo := some x.infos.length
      infos := x.infos ++ [⟨garbage, false⟩] }
  have hread : y.readData (some x.infos.length) = .ok (garbage, y) := by
    apply readData_live
    rw [List.getElem?_append_right (Nat.le_refl _), Nat.sub_self]
    rfl
  change (y.readData (some x.infos.length) >>= fun r => .ok (r.2.touchPage r.1)) = _
  rw [hread]
  rfl

/-- A store that does not pass the guard. -/
theorem sizeStore_of_not_guard {x : State P} {buf : List Byte} {junk : Int}
    (outcome : Option Addr) (hguard : ¬((sscanfInt buf).getD junk > x.size ∧ x.count = 0)) :
    x.sizeStore buf junk outcome = .ok (buf.length, x) := by
  simp only [sizeStore, if_neg hguard]
  rfl

/-! ### What the operations leave alone -/

/-- The part of the state that accesses to memory do not change. -/
structure Control (P : Type) where
  majorNo : Int
  flag : Int
  count : BitVec 32
  locked : Bool
  files : Nat → Option (Option Ptr)
  vmas : List (Vma P)

def control (x : State P) : Control P := ⟨x.majorNo, x.flag, x.count, x.locked, x.files, x.vmas⟩

theorem control_readData_error {x y : State P} {info : Option Ptr}
    (h : x.readData info = .error y) : y.control = x.control := by
  unfold readData at h
  split at h
  · cases h
    rfl
  · cases h

theorem control_readData_ok {x y : State P} {info : Option Ptr} {data : Addr}
    (h : x.readData info = .ok (data, y)) : y.control = x.control := by
  unfold readData at h
  split at h
  · cases h
  · cases h
    split_ifs <;> rfl

theorem control_touchPage (x : State P) (addr : Addr) : (x.touchPage addr).control = x.control := by
  unfold touchPage
  split <;> rfl

theorem control_freePage (x : State P) (addr : Addr) : (x.freePage addr).control = x.control := by
  unfold freePage
  split_ifs
  · rfl
  · split <;> rfl

theorem control_kfree (x : State P) (info : Option Ptr) : (x.kfree info).control = x.control := by
  unfold kfree
  split
  · rfl
  · split <;> rfl

theorem control_mmapFault (x : State P) (vma : Vma P) :
    (final (x.mmapFault vma)).control = x.control := by
  let y : State P := { x with mpInfo := vma.vmPrivateData }
  have hy : y.control = x.control := rfl
  cases hread : y.readData vma.vmPrivateData with
  | error z =>
      have hfault : x.mmapFault vma = .error z := by
        change (y.readData vma.vmPrivateData >>= _) = _
        rw [hread]
        rfl
      rw [hfault, ← hy]
      exact control_readData_error hread
  | ok r =>
      obtain ⟨data, z⟩ := r
      have hz := control_readData_ok hread
      have hfault : x.mmapFault vma =
          if data = 0 then .ok (-1, z) else .ok (0, z.touchPage data) := by
        change (y.readData vma.vmPrivateData >>= _) = _
        rw [hread]
        rfl
      rw [hfault, ← hy, ← hz]
      split_ifs
      · rfl
      · exact control_touchPage z data

theorem control_charClose (x : State P) (privateData : Option Ptr) :
    (final (x.charClose privateData)).control = x.control := by
  unfold charClose
  cases hread : x.readData privateData with
  | error z => exact control_readData_error hread
  | ok r =>
      calc (r.2.freePage r.1).control = r.2.control := control_freePage r.2 r.1
        _ = x.control := control_readData_ok hread

theorem control_releaseOld {x y : State P} (h : x.releaseOld = .error y ∨ x.releaseOld = .ok y) :
    y.control = x.control := by
  unfold releaseOld at h
  split_ifs at h with hsize
  · cases hread : x.readData x.mpInfo with
    | error z =>
        have hz := control_readData_error hread
        rw [hread] at h
        rcases h with h | h <;> cases h
        exact hz
    | ok r =>
        obtain ⟨data, z⟩ := r
        have hz := control_readData_ok hread
        rw [hread] at h
        rcases h with h | h <;> cases h
        calc ((z.freePage data).kfree (z.freePage data).mpInfo).control
            = (z.freePage data).control := control_kfree _ _
          _ = z.control := control_freePage z data
          _ = x.control := hz
  · rcases h with h | h <;> cases h
    rfl

theorem control_installNew {x y : State P} {tmp : Int} {outcome : Option Addr}
    (h : x.installNew tmp outcome = .error y ∨ x.installNew tmp outcome = .ok y) :
    y.control = x.control := by
  let z : State P :=
    { (x.kmalloc outcome).2 with size := tmp, mpInfo := (x.kmalloc outcome).1 }
  have hz : z.control = x.control := by
    cases outcome <;> rfl
  have hinstall : x.installNew tmp outcome = z.readData z.mpInfo >>= fun r => .ok (r.2.touchPage r.1) := by
    cases outcome <;> rfl
  rw [hinstall] at h
  rw [← hz]
  cases hread : z.readData z.mpInfo with
  | error u =>
      have hu := control_readData_error hread
      rw [hread] at h
      rcases h with h | h <;> cases h
      exact hu
  | ok r =>
      obtain ⟨data, u⟩ := r
      have hu := control_readData_ok hread
      rw [hread] at h
      rcases h with h | h <;> cases h
      rw [control_touchPage, hu]

theorem control_sizeStore (x : State P) (buf : List Byte) (junk : Int) (outcome : Option Addr) :
    (final (x.sizeStore buf junk outcome)).control = x.control := by
  unfold sizeStore
  dsimp only
  split_ifs
  · cases hrelease : x.releaseOld with
    | error y => exact control_releaseOld (Or.inl hrelease)
    | ok y =>
        have hy := control_releaseOld (Or.inr hrelease)
        change (final (y.installNew _ outcome >>= fun z => .ok (_, z))).control = _
        cases hinstall : y.installNew ((sscanfInt buf).getD junk) outcome with
        | error z => exact (control_installNew (Or.inl hinstall)).trans hy
        | ok z => exact (control_installNew (Or.inr hinstall)).trans hy
  · rfl

theorem ioctl_lock {x y : State P} {interrupted copyFails : Bool} {code : Int}
    (h : x.ioctl LOCK interrupted copyFails = some (code, y)) :
    (code = 0 ∧ x.locked = false ∧ y = { x with locked := true }) ∨ (code ≠ 0 ∧ y = x) := by
  rw [ioctl, if_pos rfl] at h
  obtain ⟨⟨result, locked⟩, hlock, hr⟩ := Option.map_eq_some_iff.mp h
  by_cases hresult : result = 0
  · subst hresult
    obtain ⟨hfree, rfl⟩ := mutexLockInterruptible_zero hlock
    cases hr
    exact Or.inl ⟨rfl, hfree, rfl⟩
  · have hsame : locked = x.locked := mutexLockInterruptible_ne_zero hlock hresult
    rw [if_pos hresult, Prod.mk.injEq] at hr
    obtain ⟨rfl, rfl⟩ := hr
    refine Or.inr ⟨by decide, ?_⟩
    rw [hsame]

theorem ioctl_unlock (x : State P) (interrupted copyFails : Bool) :
    x.ioctl UNLOCK interrupted copyFails = some (0, { x with locked := false }) := by
  rw [ioctl, if_neg (by decide), if_pos rfl]

theorem ioctl_other {x y : State P} {cmd : BitVec 32} {interrupted copyFails : Bool} {code : Int}
    (hlock : cmd ≠ LOCK) (hunlock : cmd ≠ UNLOCK)
    (h : x.ioctl cmd interrupted copyFails = some (code, y)) : y = x := by
  rw [ioctl, if_neg hlock, if_neg hunlock] at h
  split_ifs at h <;> cases h <;> rfl

/-- `_ioctl` changes nothing but the mutex. -/
theorem ioctl_frame {x y : State P} {cmd : BitVec 32} {interrupted copyFails : Bool} {code : Int}
    (h : x.ioctl cmd interrupted copyFails = some (code, y)) :
    ∃ locked, y = { x with locked := locked } := by
  by_cases hlock : cmd = LOCK
  · subst hlock
    rcases ioctl_lock h with ⟨-, -, rfl⟩ | ⟨-, rfl⟩
    · exact ⟨true, rfl⟩
    · exact ⟨y.locked, rfl⟩
  · by_cases hunlock : cmd = UNLOCK
    · subst hunlock
      rw [ioctl_unlock] at h
      cases h
      exact ⟨false, rfl⟩
    · exact ⟨x.locked, ioctl_other hlock hunlock h⟩

/-- Closing several mappings one after the other. -/
theorem foldl_mmapClose (own : List (Vma P)) (x : State P) :
    own.foldl (fun x _ => x.mmapClose) x =
      { x with
        locked := x.locked && own.isEmpty
        count := x.count - BitVec.ofNat 32 own.length } := by
  induction own generalizing x with
  | nil => simp
  | cons vma own ih =>
      rw [List.foldl_cons, ih]
      simp only [mmapClose, Bool.false_and, List.isEmpty_cons, Bool.and_false, List.length_cons]
      congr 1
      rw [Nat.add_comm, BitVec.ofNat_add, ← BitVec.sub_sub]
      rfl

end State

/-! ### Runs -/

/-- What processes do to the device. A mapping is duplicated for a process by a fork, a split or a
move. -/
inductive Event (P : Type) where
  | ioctl (p : P) (cmd : BitVec 32) (interrupted copyFails : Bool)
  | charOpen (file : Nat)
  | mmap (p : P) (file : Nat)
  | dup (vma : Vma P) (p : P)
  | munmap (vma : Vma P)
  | fault (vma : Vma P)
  | charClose (file : Nat)
  | exit (p : P)
  | flagStore (buf : List Byte) (junk : Int)
  | sizeStore (buf : List Byte) (junk : Int) (outcome : Option Addr)

variable [DecidableEq P]

/-- The kernel links a new area into the process once `mmap_mmap` has succeeded. A file is closed when
the mappings made through it are gone, and a process that exits loses its mappings one after the
other. -/
def step (x : State P) : Event P → Option (State P)
  | .ioctl _ cmd interrupted copyFails => (x.ioctl cmd interrupted copyFails).map Prod.snd
  | .charOpen file =>
      match x.files file with
      | none => some (x.charOpen file)
      | some _ => none
  | .mmap p file =>
      match x.files file with
      | none => none
      | some privateData =>
          let (vma, y) := x.mmapMmap ⟨p, file, none⟩ privateData
          some { y with vmas := vma :: y.vmas }
  | .dup vma p =>
      if vma ∈ x.vmas then some { x.mmapOpen with vmas := { vma with owner := p } :: x.vmas }
      else none
  | .munmap vma =>
      if vma ∈ x.vmas then some { x.mmapClose with vmas := x.vmas.erase vma } else none
  | .fault vma => if vma ∈ x.vmas then some (State.final (x.mmapFault vma)) else none
  | .charClose file =>
      match x.files file with
      | none => none
      | some privateData =>
          if x.vmas.all (·.file ≠ file) then
            let x := State.final (x.charClose privateData)
            some { x with files := Function.update x.files file none }
          else none
  | .exit p =>
      let own := x.vmas.filter (·.owner = p)
      some { own.foldl (fun x _ => x.mmapClose) x with vmas := x.vmas.filter (·.owner ≠ p) }
  | .flagStore buf junk => some (x.flagStore buf junk).2
  | .sizeStore buf junk outcome => some (State.final (x.sizeStore buf junk outcome))

/-! ### What the steps do -/

theorem step_ioctl {x y : State P} {p : P} {cmd : BitVec 32} {interrupted copyFails : Bool}
    (h : step x (.ioctl p cmd interrupted copyFails) = some y) :
    ∃ locked, y = { x with locked := locked } := by
  obtain ⟨⟨code, z⟩, hioctl, rfl⟩ := Option.map_eq_some_iff.mp h
  exact State.ioctl_frame hioctl

theorem step_charOpen {x y : State P} {file : Nat} (h : step x (.charOpen file) = some y) :
    x.files file = none ∧ y = x.charOpen file := by
  simp only [step] at h
  split at h
  · rename_i hfile
    exact ⟨hfile, (Option.some.inj h).symm⟩
  · cases h

theorem step_mmap {x y : State P} {p : P} {file : Nat} (h : step x (.mmap p file) = some y) :
    ∃ privateData, x.files file = some privateData ∧
      y = { x.mmapOpen with vmas := ⟨p, file, privateData⟩ :: x.vmas } := by
  simp only [step] at h
  split at h
  · cases h
  · rename_i privateData hfile
    exact ⟨privateData, hfile, (Option.some.inj h).symm⟩

theorem step_dup {x y : State P} {vma : Vma P} {p : P} (h : step x (.dup vma p) = some y) :
    vma ∈ x.vmas ∧ y = { x.mmapOpen with vmas := { vma with owner := p } :: x.vmas } := by
  simp only [step] at h
  split_ifs at h with hmem
  exact ⟨hmem, (Option.some.inj h).symm⟩

theorem step_munmap {x y : State P} {vma : Vma P} (h : step x (.munmap vma) = some y) :
    vma ∈ x.vmas ∧ y = { x.mmapClose with vmas := x.vmas.erase vma } := by
  simp only [step] at h
  split_ifs at h with hmem
  exact ⟨hmem, (Option.some.inj h).symm⟩

theorem step_fault {x y : State P} {vma : Vma P} (h : step x (.fault vma) = some y) :
    vma ∈ x.vmas ∧ y = State.final (x.mmapFault vma) := by
  simp only [step] at h
  split_ifs at h with hmem
  exact ⟨hmem, (Option.some.inj h).symm⟩

theorem step_charClose {x y : State P} {file : Nat} (h : step x (.charClose file) = some y) :
    ∃ privateData, x.files file = some privateData ∧
      y = { State.final (x.charClose privateData) with
        files := Function.update (State.final (x.charClose privateData)).files file none } := by
  simp only [step] at h
  split at h
  · cases h
  · rename_i privateData hfile
    split_ifs at h
    exact ⟨privateData, hfile, (Option.some.inj h).symm⟩

theorem step_exit {x y : State P} {p : P} (h : step x (.exit p) = some y) :
    y = { x with
      locked := x.locked && (x.vmas.filter (·.owner = p)).isEmpty
      count := x.count - BitVec.ofNat 32 (x.vmas.filter (·.owner = p)).length
      vmas := x.vmas.filter (·.owner ≠ p) } := by
  simp only [step, Option.some.injEq, State.foldl_mmapClose] at h
  exact h.symm

theorem step_flagStore {x y : State P} {buf : List Byte} {junk : Int}
    (h : step x (.flagStore buf junk) = some y) :
    y = { x with
      flag := if (sscanfInt buf).getD junk = 0 ∧ x.count ≠ 0 then x.flag
        else (sscanfInt buf).getD junk } := by
  rw [← Option.some.inj h]
  unfold State.flagStore
  dsimp only
  by_cases hkept : (sscanfInt buf).getD junk = 0 ∧ x.count ≠ 0
  · rw [if_pos hkept.1, if_pos hkept.2, if_pos hkept]
  · rw [if_neg hkept]
    split_ifs with hzero hcount
    · exact absurd ⟨hzero, hcount⟩ hkept
    · rfl
    · rfl

end Lkm.Shm
