import Lkm.BaseMemory
import Lkm.BaseFormat
import Lkm.BasePageLoop

/-! The area of 16 pages that `new_st.c` allocates, fills with a text in each page and lets user space
map. `ex7.c` has the same `init` without the `memset`, which is a parameter here, and the same
`char_mmap`. -/

namespace Lkm.Area

open Buffer Format PageTable Mem

/-- What `kmalloc((PAGES + 2) * PAGE_SIZE, GFP_KERNEL)` returns when it succeeds. -/
structure Allocation where
  ptr : Addr
  ptr_ne_null : ptr ≠ 0#64
  bound : ptr.toNat + 18 * 4096 ≤ 2 ^ 64

/-- The globals, the memory and the `PG_reserved` flag of every frame. -/
structure State where
  majorNumber : Int
  kmallocArea : Addr
  kmallocPtr : Addr
  mem : Memory
  reserved : BitVec 64 → Bool

/-- `(ptr + PAGE_SIZE - 1) & PAGE_MASK`. -/
def pageAlign (ptr : Addr) : Addr := (ptr + 4095) &&& ~~~4095#64

/-- `SetPageReserved(virt_to_page(a))`. -/
def setPageReserved (s : State) (a : Addr) : State :=
  { s with reserved := Function.update s.reserved (virtToPhys a >>> 12) true }

def pageLine (count : Nat) : List Byte :=
  ascii "This is kernel : writing on page " ++ formatInt count

/-- The memory, the text buffer on the stack and `count` in the loop of `init`. -/
structure Filling where
  mem : Memory
  buffer : Buf 50
  count : Nat

/-- The body of the loop: `clear` says whether the page is cleared first. -/
def fillPage (clear : Bool) (x : Filling) (ptr : Addr) : Option Filling := do
  let buffer ← sprintf x.buffer (pageLine x.count)
  let mem := if clear then memset x.mem ptr 0 4096 else x.mem
  return ⟨memcpy mem ptr buffer, buffer, x.count + 1⟩

/-- The loop of `init` that reserves the pages. -/
def reservePages (s : State) : Option State :=
  forRange (fun s i => some (setPageReserved s (s.kmallocArea + i))) (16 * 4096) 17 0 s

/-- The loop of `init` that fills them. -/
def fillPages (clear : Bool) (s : State) (buffer : Buf 50) : Option Filling :=
  forRange (fillPage clear) (s.kmallocArea + 16 * 4096) 17 s.kmallocArea ⟨s.mem, buffer, 1⟩

/-- `init()`: its result, and the state. `kmalloc` and `major` are what `kmalloc` and `register_chrdev`
return, and `buffer` is what the stack held before. It is `none` when a loop does not end, or a text
does not fit the buffer. -/
def init (clear : Bool) (kmalloc : Option Allocation) (major : Int) (buffer : Buf 50) (s : State) :
    Option (Int × State) :=
  match kmalloc with
  | none => some (-12, { s with kmallocPtr := 0 })
  | some a => do
      let s := { s with kmallocPtr := a.ptr, kmallocArea := pageAlign a.ptr, majorNumber := major }
      if major = 0 then return (0, s)
      else
        let s ← reservePages s
        let filled ← fillPages clear s buffer
        return (0, { s with mem := filled.mem })

/-- The user area of a call of `mmap`. -/
structure VmArea where
  vmStart : Addr
  vmEnd : Addr
  vmPgoff : BitVec 64
  startAligned : vmStart.toNat % 4096 = 0
  endAligned : vmEnd.toNat % 4096 = 0
  start_lt_end : vmStart.toNat < vmEnd.toNat

/-- `char_mmap(filp, vma)`: its result, and the physical addresses that the user addresses of the area
stand for. `remap` is what `remap_pfn_range` returns. The offset is not looked at. -/
def charMmap (s : State) (vma : VmArea) (remap : Int) : Int × Option (Addr → Addr) :=
  let size := vma.vmEnd - vma.vmStart
  if size > 16 * 4096 then (-5, none)
  else if remap < 0 then (remap, none)
  else (0, some (remapPfnRange vma.vmStart (virtToPhys s.kmallocArea >>> 12)))

/-! ### The area -/

/-- The area starts with a page and lies in the allocation. -/
theorem pageAlign_spec (a : Allocation) :
    (pageAlign a.ptr).toNat % 4096 = 0 ∧ a.ptr.toNat ≤ (pageAlign a.ptr).toNat ∧
      (pageAlign a.ptr).toNat < a.ptr.toNat + 4096 := by
  have hbound := a.bound
  have hadd : (a.ptr + 4095).toNat = a.ptr.toNat + 4095 := by
    rw [BitVec.toNat_add]
    exact Nat.mod_eq_of_lt (by simp only [BitVec.reduceToNat]; omega)
  rw [pageAlign, toNat_and_not_4095, hadd]
  omega

/-- The first address behind the area. -/
theorem toNat_area_end (a : Allocation) :
    (pageAlign a.ptr).toNat + 4096 * 16 = (pageAlign a.ptr + 16 * 4096).toNat := by
  have hbound := a.bound
  have halign := pageAlign_spec a
  have hsize : (16 * 4096 : Addr).toNat = 65536 := by decide
  rw [BitVec.toNat_add, hsize]
  omega

/-- An allocation that starts in the middle of a page. -/
def someArea : Allocation := ⟨0xffff880000100800, by decide, by decide⟩

/-- The frames of the 16 pages from `area` on, by their numbers. -/
def areaPfns (area : Addr) : List (BitVec 64) :=
  (pagesFrom 16 0).map fun i => virtToPhys (area + i) >>> 12

theorem foldlM_reserve (s : State) (addrs : List Addr) :
    addrs.foldlM (fun s i => some (setPageReserved s (s.kmallocArea + i))) s =
      some { s with
        reserved := fun pfn =>
          decide (pfn ∈ addrs.map fun i => virtToPhys (s.kmallocArea + i) >>> 12) || s.reserved pfn } := by
  induction addrs generalizing s with
  | nil => rfl
  | cons i rest ih =>
      refine (ih (setPageReserved s (s.kmallocArea + i))).trans (congrArg some ?_)
      simp only [setPageReserved, List.map_cons, List.mem_cons]
      congr 1
      funext pfn
      by_cases hpfn : pfn = virtToPhys (s.kmallocArea + i) >>> 12
      · simp [hpfn]
      · simp [hpfn]

/-- The loop marks the frames of the area and no others. -/
theorem reservePages_eq (s : State) :
    reservePages s = some { s with
      reserved := fun pfn => decide (pfn ∈ areaPfns s.kmallocArea) || s.reserved pfn } := by
  have hend : (0 : Addr).toNat + 4096 * 16 = (16 * 4096 : Addr).toNat := by decide
  exact (forRange_eq _ 16 17 0 (by decide) hend s).trans (foldlM_reserve s (pagesFrom 16 0))

theorem fillPages_eq (clear : Bool) (a : Allocation) {s : State} (hs : s.kmallocArea = pageAlign a.ptr)
    (buffer : Buf 50) :
    fillPages clear s buffer =
      (pagesFrom 16 (pageAlign a.ptr)).foldlM (fillPage clear) ⟨s.mem, buffer, 1⟩ := by
  rw [fillPages, hs]
  exact forRange_eq _ 16 17 _ (by decide) (toNat_area_end a) _

/-- `init` when `kmalloc` and `register_chrdev` succeed: the pages of the area are filled one after the
other. -/
theorem init_eq (clear : Bool) (a : Allocation) {major : Int} (hmajor : major ≠ 0) (buffer : Buf 50)
    (s : State) {filled : Filling}
    (hfill : (pagesFrom 16 (pageAlign a.ptr)).foldlM (fillPage clear) ⟨s.mem, buffer, 1⟩ = some filled) :
    ∃ t, init clear (some a) major buffer s = some (0, t) ∧ t.kmallocArea = pageAlign a.ptr ∧
      t.mem = filled.mem := by
  let s' : State := { s with kmallocPtr := a.ptr, kmallocArea := pageAlign a.ptr, majorNumber := major }
  have hreserve := reservePages_eq s'
  generalize (fun pfn => decide (pfn ∈ areaPfns s'.kmallocArea) || s'.reserved pfn) = reserved at hreserve
  have hfilled : fillPages clear { s' with reserved := reserved } buffer = some filled := by
    rw [fillPages_eq clear a rfl buffer]
    exact hfill
  refine ⟨{ s' with reserved := reserved, mem := filled.mem }, ?_, rfl, rfl⟩
  change (if major = 0 then _ else (reservePages s').bind _) = _
  rw [if_neg hmajor, hreserve, Option.bind_some]
  change (fillPages clear { s' with reserved := reserved } buffer).bind _ = _
  rw [hfilled, Option.bind_some]
  rfl

theorem size_gt_iff (vma : VmArea) :
    vma.vmEnd - vma.vmStart > 16 * 4096 ↔ 4096 * 16 < vma.vmEnd.toNat - vma.vmStart.toNat := by
  have hlt := vma.start_lt_end
  have hmax : (16 * 4096 : Addr).toNat = 4096 * 16 := by decide
  rw [gt_iff_lt, BitVec.lt_def, hmax, BitVec.toNat_sub_of_le (Nat.le_of_lt hlt)]

/-- A request that `char_mmap` accepts is not larger than the area, and its user addresses stand for the
frames from the start of the area on. -/
theorem charMmap_accepted {s : State} {vma : VmArea} {remap : Int} {f : Addr → Addr}
    (h : charMmap s vma remap = (0, some f)) :
    vma.vmEnd.toNat - vma.vmStart.toNat ≤ 4096 * 16 ∧
      f = remapPfnRange vma.vmStart (virtToPhys s.kmallocArea >>> 12) := by
  unfold charMmap at h
  dsimp only at h
  split_ifs at h with hsize hremap
  · cases h
  · cases h
  · rw [Prod.mk.injEq, Option.some.injEq] at h
    exact ⟨Nat.not_lt.mp (mt (size_gt_iff vma).mpr hsize), h.2.symm⟩

/-! ### The text of a page -/

/-- The buffer after the text for `count` has been written into it. -/
def nextBuffer (count : Nat) (cs : List Byte) : List Byte :=
  pageLine count ++ 0 :: cs.drop ((pageLine count).length + 1)

theorem length_pageLine {count : Nat} (h : count < 100) : (pageLine count).length ≤ 35 := by
  have hnumber : (formatInt count).length ≤ 2 :=
    length_formatInt_le (k := 1) (by decide) (by omega) (by omega)
  simp only [pageLine, List.length_append, length_ascii, String.reduceToList, List.length_cons,
    List.length_nil]
  omega

theorem fillPage_eq (clear : Bool) (x : Filling) (hcount : x.count < 100) (ptr : Addr) :
    ∃ buffer, buffer.toList = nextBuffer x.count x.buffer.toList ∧
      fillPage clear x ptr = some
        ⟨memcpy (if clear then memset x.mem ptr 0 4096 else x.mem) ptr buffer, buffer, x.count + 1⟩ := by
  have hlength := length_pageLine hcount
  obtain ⟨buffer, hbuffer, hlist⟩ := sprintf_eq_some x.buffer (Nat.lt_of_le_of_lt hlength (by decide))
  refine ⟨buffer, hlist, ?_⟩
  simp only [fillPage, hbuffer, Option.bind_eq_bind, Option.bind_some]
  rfl

end Lkm.Area
