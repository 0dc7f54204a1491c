import Lkm.BasePageLoop

/-! The resident-set counters of `rss3.c`: the walk over all pages of all areas, which looks up every
page and keeps two global counters. `rss.c` and `assi22.c` have the same `follow_pte`, `page_walk` and
`rss_assi2`. -/

namespace Lkm.Rss

open PageTable

structure Task where
  pid : Int
  /-- Kernel threads have none. -/
  mm : Option Mm

/-- The two `int` counters of the module. -/
structure Counters where
  virtPageCount : BitVec 32
  phyPageCount : BitVec 32
  deriving DecidableEq

def followPte (pgd : Pgd) (addr : Addr) : Int :=
  match lookup pgd (slotOf addr) with
  | none => -2
  | some pte => if ptePresent pte then 1 else -1

/-- The body of the loop of `page_walk`. The branches for -1 and -2 are empty. -/
def countPage (pgd : Pgd) (addr : Addr) (c : Counters) : Counters × Option Int :=
  let c := if followPte pgd addr = 1 then { c with phyPageCount := c.phyPageCount + 1 } else c
  ({ c with virtPageCount := c.virtPageCount + 1 }, none)

/-- `page_walk(mm, addr1, addr2)`; `none` when its loop does not end. -/
def pageWalk (mm : Mm) (addr1 addr2 : Addr) (c : Counters) : Option (Int × Counters) :=
  (forPages (countPage mm.pgd) addr2 maxRounds addr1 c).map fun r => (r.2.getD 0, r.1)

/-- The loop of `rss_assi2` over the areas. -/
def walkAreas (mm : Mm) : List Vma → Counters → Option Counters
  | [], c => some c
  | vma :: rest, c => do
      let (_, c) ← pageWalk mm vma.vmStart vma.vmEnd c
      walkAreas mm rest c

/-- `rss_assi2(ts)`: what it returns, the pair that it prints if there is a process, and the counters.
It is `none` when the process has no address space, whose areas are read nevertheless. -/
def rssAssi2 (ts : Option Task) (c : Counters) : Option (Int × Option Counters × Counters) :=
  match ts with
  | none => some (0, none, c)
  | some ts => do
      let mm ← ts.mm
      let c ← walkAreas mm mm.mmap c
      return (0, some c, c)

/-- The number of pages of a list for which `follow_pte` returns 1. -/
def mapped (pgd : Pgd) (addrs : List Addr) : Nat := addrs.countP (followPte pgd · = 1)

/-- The counters after one more look at each page of a list. -/
def Counters.count (c : Counters) (pgd : Pgd) (addrs : List Addr) : Counters where
  virtPageCount := c.virtPageCount + BitVec.ofNat 32 addrs.length
  phyPageCount := c.phyPageCount + BitVec.ofNat 32 (mapped pgd addrs)

theorem count_nil (c : Counters) (pgd : Pgd) : c.count pgd [] = c := by
  simp [Counters.count, mapped]

theorem count_append (c : Counters) (pgd : Pgd) (as bs : List Addr) :
    c.count pgd (as ++ bs) = (c.count pgd as).count pgd bs := by
  simp only [Counters.count, mapped, List.length_append, List.countP_append, BitVec.ofNat_add,
    BitVec.add_assoc]

theorem countPage_eq (pgd : Pgd) (addr : Addr) (c : Counters) :
    countPage pgd addr c = (c.count pgd [addr], none) := by
  by_cases h : followPte pgd addr = 1 <;> simp [countPage, Counters.count, mapped, h]

theorem foldUntil_countPage (pgd : Pgd) (addrs : List Addr) (c : Counters) :
    foldUntil (countPage pgd) addrs c = (c.count pgd addrs, none) := by
  induction addrs generalizing c with
  | nil => rw [foldUntil, count_nil]
  | cons addr rest ih =>
      rw [foldUntil, countPage_eq]
      change foldUntil (countPage pgd) rest (c.count pgd [addr]) = _
      rw [ih, ← count_append, List.singleton_append]

/-- A walk over an area ends, and it counts the pages up to the one at `vm_end`. -/
theorem pageWalk_eq (mm : Mm) (vma : Vma) (c : Counters) :
    pageWalk mm vma.vmStart vma.vmEnd c = some (0, c.count mm.pgd vma.pages) := by
  rw [pageWalk, vma.forPages_pages, foldUntil_countPage]
  rfl

theorem walkAreas_eq (mm : Mm) (mmap : List Vma) (c : Counters) :
    walkAreas mm mmap c = some (c.count mm.pgd (mmap.flatMap Vma.pages)) := by
  induction mmap generalizing c with
  | nil => rw [walkAreas, List.flatMap_nil, count_nil]
  | cons vma rest ih =>
      rw [walkAreas, pageWalk_eq, List.flatMap_cons, count_append]
      exact ih _

theorem rssAssi2_eq (pid : Int) (mm : Mm) (c : Counters) :
    rssAssi2 (some ⟨pid, some mm⟩) c =
      some (0, some (c.count mm.pgd mm.pages), c.count mm.pgd mm.pages) := by
  simp only [rssAssi2, walkAreas_eq]
  rfl

end Lkm.Rss
