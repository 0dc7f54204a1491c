import Lkm.AreaModel
import Lkm.BaseRuns
import Mathlib.Data.List.GetD

/-! The module `ex7.c`. Its `init` is that of `new_st.c` without the `memset`, and it keeps the end of the
area in a global; when a file is closed and when the module is unloaded, the texts of all pages are
printed. The places at which the loops write or start to read are recorded here; the printed texts and
the registration of the device, apart from its number, are left out. -/

namespace Lkm.Remap

open Buffer Format PageTable Mem Area

/-- The globals, with `end` as `areaEnd`, the memory and the `PG_reserved` flags. -/
structure State extends Area.State where
  areaEnd : Addr

/-- The globals of a module that has just been loaded. -/
def start (mem : Memory) (reserved : BitVec 64 → Bool) : State := ⟨⟨0, 0, 0, mem, reserved⟩, 0⟩

/-- The body of the loop of `init` that fills the pages, with the places and sizes of the writes. -/
def fillPage (x : Filling × List (Addr × Nat)) (ptr : Addr) : Option (Filling × List (Addr × Nat)) :=
  (Area.fillPage false x.1 ptr).map fun filling => (filling, x.2 ++ [(ptr, 50)])

def fillPages (s : State) (buffer : Buf 50) : Option (Filling × List (Addr × Nat)) :=
  forRange fillPage s.areaEnd 17 s.kmallocArea (⟨s.mem, buffer, 1⟩, [])

/-- `init()`: its result, the state, and the writes to the area. The parameters are those of the `init` of
`new_st.c`. -/
def init (kmalloc : Option Allocation) (major : Int) (buffer : Buf 50) (s : State) :
    Option (Int × State × List (Addr × Nat)) :=
  match kmalloc with
  | none => some (-12, { s with kmallocPtr := 0 }, [])
  | some a => do
      let s := { s with kmallocPtr := a.ptr, kmallocArea := pageAlign a.ptr, majorNumber := major }
      if major = 0 then return (0, s, [])
      else
        let area ← reservePages s.toState
        let s := { s with toState := area }
        let s := { s with areaEnd := s.kmallocArea + 16 * 4096 }
        let (filled, writes) ← fillPages s buffer
        return (0, { s with mem := filled.mem }, writes)

/-- The loop of `char_release` and `cleanup` that prints the texts: where `%s` starts to read. -/
def printPages (s : State) : Option (List Addr) :=
  forRange (fun reads ptr => some (reads ++ [ptr])) s.areaEnd 17 s.kmallocArea []

def charRelease (s : State) : Option (Int × List Addr) := do
  let reads ← printPages s
  return (0, reads)

/-- `cleanup()` up to `kfree(kmalloc_ptr)`: where it reads, and the state in which `kfree` is called. The
second loop calls `SetPageReserved`, as that of `init` does. -/
def cleanup (s : State) : Option (List Addr × State) := do
  let reads ← printPages s
  let area ← reservePages s.toState
  return (reads, { s with toState := area })

/-- What happens while the module is loaded. A process can store into memory through its mappings. -/
inductive Event where
  | charOpen
  | charMmap (vma : VmArea) (remap : Int)
  | store (a : Addr) (c : Byte)
  | charRelease

def step (s : State) : Event → Option State
  | .charOpen => some s
  | .charMmap _ _ => some s
  | .store a c => some { s with mem := Function.update s.mem a c }
  | .charRelease => (charRelease s).map fun _ => s

/-! ### The loops -/

theorem foldlM_reads (addrs reads : List Addr) :
    addrs.foldlM (fun reads ptr => some (reads ++ [ptr])) reads = some (reads ++ addrs) := by
  induction addrs generalizing reads with
  | nil => exact congrArg some (List.append_nil reads).symm
  | cons ptr rest ih =>
      refine (ih (reads ++ [ptr])).trans ?_
      rw [List.append_assoc, List.singleton_append]

/-- The texts of the 16 pages are printed one after the other, when the two globals fit together. -/
theorem printPages_eq {s : State} (h : s.kmallocArea.toNat + 4096 * 16 = s.areaEnd.toNat) :
    printPages s = some (pagesFrom 16 s.kmallocArea) := by
  rw [printPages, forRange_eq _ 16 17 _ (by decide) h, foldlM_reads, List.nil_append]

/-- Nothing is printed before `end` is set. -/
theorem printPages_unset {s : State} (h : s.areaEnd = 0) : printPages s = some [] := by
  have hout : ¬s.kmallocArea < 0 := by
    rw [BitVec.lt_def]
    exact Nat.not_lt_zero _
  rw [printPages, h, forRange, if_neg hout]

/-- `cleanup` marks the frames of the area once more. -/
theorem cleanup_eq {s : State} {reads : List Addr} (h : printPages s = some reads) :
    cleanup s = some (reads, { s with
      reserved := fun pfn => decide (pfn ∈ areaPfns s.kmallocArea) || s.reserved pfn }) := by
  simp only [cleanup, h, reservePages_eq, Option.bind_eq_bind, Option.bind_some]
  rfl

/-- The buffer when it is copied to page `k`: the texts from `count` on have been printed into it, one over
the other. -/
def pageBuffer : Nat → Nat → List Byte → List Byte
  | 0, count, cs => nextBuffer count cs
  | k + 1, count, cs => pageBuffer k (count + 1) (nextBuffer count cs)

theorem pageBuffer_eq (k count : Nat) (cs : List Byte) :
    ∃ rest, pageBuffer k count cs = pageLine (count + k) ++ 0 :: rest := by
  induction k generalizing count cs with
  | zero => exact ⟨_, rfl⟩
  | succ k ih =>
      obtain ⟨rest, hrest⟩ := ih (count + 1) (nextBuffer count cs)
      refine ⟨rest, ?_⟩
      rw [pageBuffer, hrest, Nat.add_right_comm count 1 k, Nat.add_assoc count k 1]

/-- The memory after 50 bytes of the buffer, which held `cs`, have been written to each of the `n` pages from
`addr` on. -/
structure Filled (n : Nat) (addr : Addr) (count : Nat) (cs : List Byte) (mem mem' : Memory) : Prop where
  bytes : ∀ k < n, ∀ j < 50, ∀ a : Addr, a.toNat = addr.toNat + 4096 * k + j →
    mem' a = (pageBuffer k count cs).getD j 0
  frame : ∀ a, (∀ ptr ∈ pagesFrom n addr, ¬Within ptr 50 a) → mem' a = mem a

/-- Every page starts with its text. -/
theorem Filled.text {n : Nat} {addr : Addr} {count : Nat} {cs : List Byte} {mem mem' : Memory}
    (h : Filled n addr count cs mem mem') {k : Nat} (hk : k < n) (hcount : count + k < 100) {j : Nat}
    (hj : j ≤ (pageLine (count + k)).length) {a : Addr} (ha : a.toNat = addr.toNat + 4096 * k + j) :
    mem' a = (pageLine (count + k) ++ [0]).getD j 0 := by
  have hline := length_pageLine hcount
  obtain ⟨rest, hbuffer⟩ := pageBuffer_eq k count cs
  have hsplit : pageBuffer k count cs = pageLine (count + k) ++ [0] ++ rest := by
    rw [hbuffer, List.append_assoc, List.singleton_append]
  have hlt : j < (pageLine (count + k) ++ [0]).length := by
    rw [List.length_append, List.length_singleton]
    omega
  rw [h.bytes k hk j (by omega) a ha, hsplit, List.getD_append _ _ _ _ hlt]

theorem memcpy_byte (mem : Memory) (ptr : Addr) (buffer : Buf 50) {j : Nat} (hj : j < 50) {a : Addr}
    (ha : a.toNat = ptr.toNat + j) : memcpy mem ptr buffer a = buffer.toList.getD j 0 := by
  have hin : Within ptr 50 a := ⟨by omega, by omega⟩
  have hoffset : a.toNat - ptr.toNat = j := by omega
  have hlt : j < buffer.toList.length := by
    rw [Vector.length_toList]
    exact hj
  rw [memcpy_of_within _ _ _ hin, List.getD_eq_getElem _ _ hlt]
  simp only [hoffset]
  rfl

theorem foldlM_fillPage (n : Nat) (addr : Addr) (haddr : addr.toNat + 4096 * n < 2 ^ 64) (x : Filling)
    (hcount : x.count + n ≤ 100) (writes : List (Addr × Nat)) :
    ∃ y, (pagesFrom n addr).foldlM fillPage (x, writes) =
        some (y, writes ++ (pagesFrom n addr).map fun ptr => (ptr, 50)) ∧
      Filled n addr x.count x.buffer.toList x.mem y.mem := by
  induction n generalizing addr x writes with
  | zero =>
      refine ⟨x, ?_, ?_, fun _ _ => rfl⟩
      · rw [pagesFrom, List.map_nil, List.append_nil]
        rfl
      · intro k hk
        exact absurd hk (Nat.not_lt_zero k)
  | succ n ih =>
      obtain ⟨hnext, hbound⟩ := toNat_next_of_lt haddr
      obtain ⟨buffer, hbuffer, hpage⟩ := fillPage_eq false x (by omega) addr
      obtain ⟨y, hrest, hbytes, hframe⟩ := ih (addr + 4096) hbound
        ⟨memcpy x.mem addr buffer, buffer, x.count + 1⟩ (by simp only; omega) (writes ++ [(addr, 50)])
      refine ⟨y, ?_, ?_, ?_⟩
      · have hhead : fillPage (x, writes) addr =
            some (⟨memcpy x.mem addr buffer, buffer, x.count + 1⟩, writes ++ [(addr, 50)]) := by
          rw [fillPage, hpage]
          rfl
        rw [pagesFrom, List.foldlM_cons, hhead, List.map_cons]
        refine hrest.trans ?_
        rw [List.append_assoc, List.singleton_append]
      · intro k hk j hj a ha
        cases k with
        | zero =>
            -- The pages behind this one are written after it, at other places.
            have hother : ∀ ptr ∈ pagesFrom n (addr + 4096), ¬Within ptr 50 a := by
              intro ptr hptr hin
              obtain ⟨i, -, hi⟩ := (mem_pagesFrom_iff hbound ptr).mp hptr
              have hle := hin.1
              omega
            rw [hframe a hother, pageBuffer, ← hbuffer]
            exact memcpy_byte x.mem addr buffer hj ha
        | succ k =>
            rw [hbytes k (by omega) j hj a (by omega), pageBuffer, hbuffer]
      · intro a ha
        rw [pagesFrom, List.forall_mem_cons] at ha
        rw [hframe a ha.2]
        exact memcpy_of_not_within x.mem addr buffer ha.1

/-! ### Loading and running -/

/-- What `init` leaves behind when `kmalloc` and `register_chrdev` succeed. -/
structure Loaded (a : Allocation) (buffer : Buf 50) (s t : State) : Prop where
  kmallocPtr : t.kmallocPtr = a.ptr
  kmallocArea : t.kmallocArea = pageAlign a.ptr
  areaEnd : t.areaEnd = pageAlign a.ptr + 16 * 4096
  reserved : ∀ pfn, t.reserved pfn = (decide (pfn ∈ areaPfns (pageAlign a.ptr)) || s.reserved pfn)
  filled : Filled 16 (pageAlign a.ptr) 1 buffer.toList s.mem t.mem

theorem init_loaded (a : Allocation) {major : Int} (hmajor : major ≠ 0) (buffer : Buf 50) (s : State) :
    ∃ t, init (some a) major buffer s =
        some (0, t, (pagesFrom 16 (pageAlign a.ptr)).map fun ptr => (ptr, 50)) ∧
      Loaded a buffer s t := by
  have hbound := a.bound
  have halign := pageAlign_spec a
  obtain ⟨y, hfill, hfilled⟩ := foldlM_fillPage 16 (pageAlign a.ptr) (by omega) ⟨s.mem, buffer, 1⟩
    (by decide : 1 + 16 ≤ 100) []
  let s₁ : State :=
    { s with kmallocPtr := a.ptr, kmallocArea := pageAlign a.ptr, majorNumber := major }
  let s₂ : State :=
    { s₁ with
      reserved := fun pfn => decide (pfn ∈ areaPfns (pageAlign a.ptr)) || s.reserved pfn
      areaEnd := pageAlign a.ptr + 16 * 4096 }
  have hpages : fillPages s₂ buffer =
      some (y, (pagesFrom 16 (pageAlign a.ptr)).map fun ptr => (ptr, 50)) :=
    (forRange_eq _ 16 17 _ (by decide) (toNat_area_end a) _).trans hfill
  refine ⟨{ s₂ with mem := y.mem }, ?_, rfl, rfl, rfl, fun _ => rfl, hfilled⟩
  change (if major = 0 then _ else (reservePages s₁.toState).bind _) = _
  rw [if_neg hmajor, reservePages_eq, Option.bind_some]
  change (fillPages s₂ buffer).bind _ = _
  rw [hpages, Option.bind_some]
  rfl

/-- The two globals fit together, or the second one is not set. -/
def Printable (s : State) : Prop :=
  s.kmallocArea.toNat + 4096 * 16 = s.areaEnd.toNat ∨ s.areaEnd = 0

theorem Loaded.printable {a : Allocation} {buffer : Buf 50} {s t : State} (h : Loaded a buffer s t) :
    Printable t := by
  rw [Printable, h.kmallocArea, h.areaEnd]
  exact Or.inl (toNat_area_end a)

theorem Printable.printPages {s : State} (h : Printable s) : ∃ reads, printPages s = some reads := by
  rcases h with h | h
  · exact ⟨_, printPages_eq h⟩
  · exact ⟨_, printPages_unset h⟩

/-- Whatever happens while the module is loaded, only the memory changes. -/
theorem run_loaded {t : State} (h : Printable t) (es : List Event) :
    ∃ mem, Runs.run step t es = some { t with mem := mem } := by
  have hstep : ∀ s e, (∃ mem, s = ({ t with mem := mem } : State)) →
      ∃ u, step s e = some u ∧ ∃ mem, u = ({ t with mem := mem } : State) := by
    rintro s e ⟨mem, rfl⟩
    cases e with
    | charOpen => exact ⟨_, rfl, mem, rfl⟩
    | charMmap vma remap => exact ⟨_, rfl, mem, rfl⟩
    | store a c => exact ⟨_, rfl, Function.update mem a c, rfl⟩
    | charRelease =>
        obtain ⟨reads, hreads⟩ := h.printPages
        have hsame : printPages ({ t with mem := mem } : State) = some reads := hreads
        refine ⟨_, ?_, mem, rfl⟩
        simp only [step, charRelease, hsame, Option.bind_eq_bind, Option.bind_some]
        rfl
  obtain ⟨u, hrun, mem, rfl⟩ := Runs.run_of_progress _ hstep ⟨t.mem, rfl⟩ es
  exact ⟨mem, hrun⟩

end Lkm.Remap
