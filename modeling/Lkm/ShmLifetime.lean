import Lkm.ShmModel
import Lkm.BaseRuns

/-! The lifetimes of the objects of `ex77.c`. The module frees pages and never allocates one: the
`data` of a new `mmap_info` is whatever `kmalloc` left there, and a file that is opened before the
first `size_store` holds null. So an operation respects the lifetimes exactly when it looks into no
object at all. -/

namespace Lkm.Shm

open Scan Runs

variable {P : Type}

/-- Every access so far was to an allocated object or page, and nothing was freed that was not
allocated. -/
def Respected (x : State P) : Prop := x.violations = []

instance (x : State P) : Decidable (Respected x) := inferInstanceAs (Decidable (x.violations = []))

/-- The operations that look into an `mmap_info`: a `size_store` that passes the guard, a fault and a
`char_close`. -/
def LooksInto (x : State P) : Event P → Prop
  | .sizeStore buf junk _ => (sscanfInt buf).getD junk > x.size ∧ x.count = 0
  | .fault _ | .charClose _ => True
  | _ => False

/-- Nothing has been allocated yet, and all pointers are null. -/
structure Fresh (x : State P) : Prop where
  size : x.size = 0
  mpInfo : x.mpInfo = none
  pages : ∀ addr, x.pages addr = .never
  files : ∀ file privateData, x.files file = some privateData → privateData = none
  vmas : ∀ vma ∈ x.vmas, vma.vmPrivateData = none

theorem fresh_init (majorNo : Int) : Fresh (init P majorNo) where
  size := rfl
  mpInfo := rfl
  pages := fun _ => rfl
  files := fun _ _ h => (nomatch h)
  vmas := fun _ h => (nomatch h)

theorem not_respected_note (x : State P) (v : Violation) : ¬Respected (x.note v) :=
  List.append_ne_nil_of_right_ne_nil _ (List.cons_ne_nil v [])

theorem readData_null (x : State P) : x.readData none = .error (x.note .nullInfo) := rfl

theorem touchPage_never {x : State P} {addr : Addr} (h : x.pages addr = .never) :
    x.touchPage addr = x.note .badPage := by
  rw [State.touchPage, h]

/-- The first `size_store` that passes the guard writes through a pointer that was never set, or
through null. -/
theorem not_respected_sizeStore {x : State P} (hx : Fresh x) {buf : List Buffer.Byte} {junk : Int}
    (outcome : Option Addr) (hguard : (sscanfInt buf).getD junk > x.size ∧ x.count = 0) :
    ¬Respected (State.final (x.sizeStore buf junk outcome)) := by
  have hsize : ¬x.size > 0 := by
    rw [hx.size]
    decide
  have hrelease : x.releaseOld = .ok x := by
    rw [State.releaseOld, if_neg hsize]
    rfl
  have hstore : x.sizeStore buf junk outcome =
      (x.installNew ((sscanfInt buf).getD junk) outcome) >>= fun y => .ok ((buf.length : Int), y) := by
    simp only [State.sizeStore, if_pos hguard, hrelease]
    rfl
  cases outcome with
  | none =>
      rw [hstore, State.installNew_none]
      exact not_respected_note _ _
  | some garbage =>
      rw [hstore, State.installNew_some]
      let y : State P :=
        { x with
          size := (sscanfInt buf).getD junk
          mpInfo := some x.infos.length
          infos := x.infos ++ [⟨garbage, false⟩] }
      change ¬Respected (y.touchPage garbage)
      rw [touchPage_never (show y.pages garbage = .never from hx.pages garbage)]
      exact not_respected_note _ _

theorem not_respected_fault {x : State P} {vma : Vma P} (h : vma.vmPrivateData = none) :
    ¬Respected (State.final (x.mmapFault vma)) := by
  simp only [State.mmapFault, h, readData_null]
  exact not_respected_note _ _

theorem not_respected_charClose {x : State P} {privateData : Option Ptr} (h : privateData = none) :
    ¬Respected (State.final (x.charClose privateData)) := by
  simp only [State.charClose, h, readData_null]
  exact not_respected_note _ _

/-! ### One step -/

variable [DecidableEq P]

/-- The other operations leave the objects and the pages alone and copy null pointers only. -/
theorem quiet_step {x y : State P} {e : Event P} (hx : Fresh x) (h : step x e = some y)
    (he : ¬LooksInto x e) : Fresh y ∧ y.violations = x.violations := by
  cases e with
  | ioctl p cmd interrupted copyFails =>
      obtain ⟨locked, rfl⟩ := step_ioctl h
      exact ⟨⟨hx.size, hx.mpInfo, hx.pages, hx.files, hx.vmas⟩, rfl⟩
  | charOpen file =>
      obtain ⟨-, rfl⟩ := step_charOpen h
      refine ⟨⟨hx.size, hx.mpInfo, hx.pages, ?_, hx.vmas⟩, rfl⟩
      intro other privateData hother
      simp only [State.charOpen] at hother
      by_cases hfile : other = file
      · rw [hfile, Function.update_self, Option.some.injEq, hx.mpInfo] at hother
        exact hother.symm
      · rw [Function.update_of_ne hfile] at hother
        exact hx.files other privateData hother
  | mmap p file =>
      obtain ⟨privateData, hfile, rfl⟩ := step_mmap h
      refine ⟨⟨hx.size, hx.mpInfo, hx.pages, hx.files, ?_⟩, rfl⟩
      intro vma hvma
      rcases List.mem_cons.mp hvma with rfl | hvma
      · exact hx.files file privateData hfile
      · exact hx.vmas vma hvma
  | dup vma p =>
      obtain ⟨hmem, rfl⟩ := step_dup h
      refine ⟨⟨hx.size, hx.mpInfo, hx.pages, hx.files, ?_⟩, rfl⟩
      intro other hother
      rcases List.mem_cons.mp hother with rfl | hother
      · exact hx.vmas vma hmem
      · exact hx.vmas other hother
  | munmap vma =>
      obtain ⟨-, rfl⟩ := step_munmap h
      exact ⟨⟨hx.size, hx.mpInfo, hx.pages, hx.files, fun other hother =>
        hx.vmas other (List.mem_of_mem_erase hother)⟩, rfl⟩
  | exit p =>
      obtain rfl := step_exit h
      exact ⟨⟨hx.size, hx.mpInfo, hx.pages, hx.files, fun other hother =>
        hx.vmas other (List.mem_of_mem_filter hother)⟩, rfl⟩
  | flagStore buf junk =>
      obtain rfl := step_flagStore h
      exact ⟨⟨hx.size, hx.mpInfo, hx.pages, hx.files, hx.vmas⟩, rfl⟩
  | sizeStore buf junk outcome =>
      rw [step, State.sizeStore_of_not_guard outcome he] at h
      cases h
      exact ⟨hx, rfl⟩
  | fault vma => exact absurd trivial he
  | charClose file => exact absurd trivial he

/-- In a fresh state, the lifetimes are respected by a step exactly when it looks into no object. -/
theorem respected_step_iff {x y : State P} {e : Event P} (hx : Fresh x) (hrespected : Respected x)
    (h : step x e = some y) : Respected y ↔ ¬LooksInto x e := by
  by_cases he : LooksInto x e
  · refine iff_of_false ?_ (not_not_intro he)
    cases e with
    | sizeStore buf junk outcome =>
        cases h
        exact not_respected_sizeStore hx outcome he
    | fault vma =>
        obtain ⟨hmem, rfl⟩ := step_fault h
        exact not_respected_fault (hx.vmas vma hmem)
    | charClose file =>
        obtain ⟨privateData, hfile, rfl⟩ := step_charClose h
        exact not_respected_charClose (hx.files file privateData hfile)
    | _ => exact he.elim
  · refine iff_of_true ?_ he
    rw [Respected, (quiet_step hx h he).2]
    exact hrespected

/-- Throughout a run, every `mmap_info` and every page is allocated when it is accessed and freed at
most once, exactly when no step of the run looks into an object. -/
theorem lifetimes_iff (majorNo : Int) (es : List (Event P)) :
    Always step Respected (init P majorNo) es ↔
      Each step (fun x e _ => ¬LooksInto x e) (init P majorNo) es :=
  always_exact Fresh (fun _ _ _ hx hrespected h => respected_step_iff hx hrespected h)
    (fun _ _ _ hx _ h he => (quiet_step hx h he).1) (fresh_init majorNo) rfl es

/-- The first store of a size, where `kmalloc` returns memory with 0x1234 in it: the text is copied to
that address. -/
theorem lifetimes_first_store :
    ¬Always step Respected (init Nat 250) [.sizeStore [0x31] 0 (some 0x1234)] := by
  intro h
  exact absurd (h.last rfl : Respected _) (by decide)

end Lkm.Shm
