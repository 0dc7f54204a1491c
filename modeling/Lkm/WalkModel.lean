import Lkm.BaseMemory

/-! The module `ex8_13.c`: it allocates a page with `kmalloc` and one with `vmalloc`, and prints for each of
them the physical address by a walk through the page tables of the current process, by `virt_to_phys` and
by `__pa`. The walk hands its result over in the global `pt`. -/

namespace Lkm.Walk

open PageTable (Addr Pte PteTable Entry ptePfnMask slotOf)
open Mem

/-! ### The tables -/

/-- A table of the last level, with the number of the frame that it is in. -/
structure PtePage where
  pfn : BitVec 34
  ptes : PteTable

abbrev Pmd := BitVec 9 → Entry PtePage
abbrev Pud := BitVec 9 → Entry Pmd
abbrev Pgd := BitVec 9 → Entry Pud

/-- Where an entry of the table is in the kernel's memory: what `pte_offset_kernel` returns. -/
def PtePage.entryAddr (page : PtePage) (index : BitVec 9) : Addr :=
  pageOffset + page.pfn.setWidth 64 <<< 12 + index.setWidth 64 <<< 3

/-- `page_walk(addr)`: its result and the new value of `pt`. `mm` is the table of the current process, if
it has one. -/
def pageWalk (mm : Option Pgd) (addr pt : Addr) : Int × Addr :=
  match mm with
  | none => (-4, pt)
  | some pgd =>
      match (pgd (slotOf addr).pgd).table? with
      | none => (-1, pt)
      | some pud =>
          match (pud (slotOf addr).pud).table? with
          | none => (-2, pt)
          | some pmd =>
              match (pmd (slotOf addr).pmd).table? with
              | none => (-3, pt)
              | some page =>
                  let pte := page.entryAddr (slotOf addr).pte
                  if pte ≠ 0 then (1, pte) else (-4, pt)

/-! ### The demonstrations -/

/-- The globals; a pointer that is 0 is null. -/
structure Globals where
  pt : Addr
  pointer : Addr
  pointer2 : Addr

def loaded : Globals := ⟨0, 0, 0⟩

/-- The numbers that are printed for an allocation: its address, and the physical address by the walk, by
`virt_to_phys` and by `__pa`. -/
structure Report where
  addr : Addr
  walked : Addr
  phys : Addr
  pa : Addr

/-- `allocate_kmalloc`, where `kmalloc` is what `kmalloc` returns. -/
def allocateKmalloc (kmalloc : Addr) (g : Globals) : Int × Globals :=
  let g := { g with pointer := kmalloc }
  if g.pointer = 0 then (-1, g) else (1, g)

def allocateVmalloc (vmalloc : Addr) (g : Globals) : Int × Globals :=
  let g := { g with pointer2 := vmalloc }
  if g.pointer2 = 0 then (-1, g) else (1, g)

/-- What both demonstrations do with an allocation. The result of `page_walk` is not looked at. -/
def printAddresses (mm : Option Pgd) (pointer : Addr) (g : Globals) : Option Report × Globals :=
  if pointer ≠ 0 then
    let (_, pt) := pageWalk mm pointer g.pt
    (some ⟨pointer, pt, virtToPhys pointer, virtToPhys pointer⟩, { g with pt := pt })
  else (none, g)

def kmallocDemo (mm : Option Pgd) (kmalloc : Addr) (g : Globals) : Option Report × Globals :=
  let (ret, g) := allocateKmalloc kmalloc g
  if ret = -1 then (none, g) else printAddresses mm g.pointer g

def vmallocDemo (mm : Option Pgd) (vmalloc : Addr) (g : Globals) : Option Report × Globals :=
  let (ret, g) := allocateVmalloc vmalloc g
  if ret = -1 then (none, g) else printAddresses mm g.pointer2 g

/-- `init`: both reports, and the globals. The tables may change between the demonstrations. -/
def init (mm mm2 : Option Pgd) (kmalloc vmalloc : Addr) :
    Option Report × Option Report × Globals :=
  let (first, g) := kmallocDemo mm kmalloc loaded
  let (second, g) := vmallocDemo mm2 vmalloc g
  (first, second, g)

/-! ### What they print -/

/-- The table of the last level that the walk reaches. -/
def reach (mm : Option Pgd) (addr : Addr) : Option PtePage := do
  let pgd ← mm
  let pud ← (pgd (slotOf addr).pgd).table?
  let pmd ← (pud (slotOf addr).pud).table?
  (pmd (slotOf addr).pmd).table?

theorem toNat_entryAddr (page : PtePage) (index : BitVec 9) :
    (page.entryAddr index).toNat = 0xffff880000000000 + page.pfn.toNat * 4096 + index.toNat * 8 := by
  have hpfn := page.pfn.isLt
  have hindex := index.isLt
  have hbase : pageOffset.toNat = 0xffff880000000000 := rfl
  rw [PtePage.entryAddr, BitVec.toNat_add, BitVec.toNat_add, BitVec.toNat_shiftLeft,
    BitVec.toNat_shiftLeft, BitVec.toNat_setWidth, BitVec.toNat_setWidth, hbase, Nat.shiftLeft_eq,
    Nat.shiftLeft_eq]
  omega

theorem entryAddr_ne_zero (page : PtePage) (index : BitVec 9) : page.entryAddr index ≠ 0 := by
  intro h
  have hzero := congrArg BitVec.toNat h
  rw [toNat_entryAddr, show (0 : Addr).toNat = 0 from rfl] at hzero
  omega

/-- The walk succeeds where it reaches a table, and then it leaves a pointer into it. -/
theorem pageWalk_some {mm : Option Pgd} {addr : Addr} {page : PtePage} (h : reach mm addr = some page)
    (pt : Addr) : pageWalk mm addr pt = (1, page.entryAddr (slotOf addr).pte) := by
  obtain ⟨pgd, rfl, h⟩ := Option.bind_eq_some_iff.mp h
  obtain ⟨pud, hpud, h⟩ := Option.bind_eq_some_iff.mp h
  obtain ⟨pmd, hpmd, hpage⟩ := Option.bind_eq_some_iff.mp h
  simp only [pageWalk, hpud, hpmd, hpage]
  rw [if_pos (entryAddr_ne_zero page _)]

/-- Elsewhere it fails, and `pt` keeps its value. -/
theorem pageWalk_none {mm : Option Pgd} {addr : Addr} (h : reach mm addr = none) (pt : Addr) :
    (pageWalk mm addr pt).1 ≠ 1 ∧ (pageWalk mm addr pt).2 = pt := by
  cases mm with
  | none => exact ⟨(by decide : (-4 : Int) ≠ 1), rfl⟩
  | some pgd =>
      simp only [reach, Option.bind_eq_bind, Option.bind_some] at h
      cases hpud : (pgd (slotOf addr).pgd).table? with
      | none =>
          simp only [pageWalk, hpud]
          exact ⟨by decide, trivial⟩
      | some pud =>
          rw [hpud, Option.bind_some] at h
          cases hpmd : (pud (slotOf addr).pud).table? with
          | none =>
              simp only [pageWalk, hpud, hpmd]
              exact ⟨by decide, trivial⟩
          | some pmd =>
              rw [hpmd, Option.bind_some] at h
              simp only [pageWalk, hpud, hpmd, h]
              exact ⟨by decide, trivial⟩

theorem kmallocDemo_eq (mm : Option Pgd) {kmalloc : Addr} (h : kmalloc ≠ 0) (g : Globals) :
    kmallocDemo mm kmalloc g =
      (some ⟨kmalloc, (pageWalk mm kmalloc g.pt).2, virtToPhys kmalloc, virtToPhys kmalloc⟩,
        { g with pointer := kmalloc, pt := (pageWalk mm kmalloc g.pt).2 }) := by
  simp only [kmallocDemo, allocateKmalloc, if_neg h, printAddresses]
  rw [if_neg (by decide), if_pos h]

theorem kmallocDemo_null (mm : Option Pgd) (g : Globals) :
    kmallocDemo mm 0 g = (none, { g with pointer := 0 }) := rfl

theorem vmallocDemo_eq (mm : Option Pgd) {vmalloc : Addr} (h : vmalloc ≠ 0) (g : Globals) :
    vmallocDemo mm vmalloc g =
      (some ⟨vmalloc, (pageWalk mm vmalloc g.pt).2, virtToPhys vmalloc, virtToPhys vmalloc⟩,
        { g with pointer2 := vmalloc, pt := (pageWalk mm vmalloc g.pt).2 }) := by
  simp only [vmallocDemo, allocateVmalloc, if_neg h, printAddresses]
  rw [if_neg (by decide), if_pos h]

theorem vmallocDemo_null (mm : Option Pgd) (g : Globals) :
    vmallocDemo mm 0 g = (none, { g with pointer2 := 0 }) := rfl

end Lkm.Walk
