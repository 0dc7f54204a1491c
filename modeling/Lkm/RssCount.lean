import Lkm.RssModel
import Mathlib.Data.Set.Card

/-! What the counters of `rss3.c` mean. The loop of `page_walk` goes on to the page at `vm_end`, so each
area adds one to the virtual pages, and one to the resident pages if that page is present. -/

namespace Lkm.Rss

open PageTable

def Sorted (mm : Mm) : Prop := mm.mmap.Pairwise fun a b => a.vmEnd ≤ b.vmStart

/-- The pages in the ranges `[vm_start, vm_end)` for which `follow_pte` returns 1. -/
def residentPages (mm : Mm) : Set Addr :=
  {addr | addr.toNat % 4096 = 0 ∧ (∃ vma ∈ mm.mmap, vma.vmStart ≤ addr ∧ addr < vma.vmEnd) ∧
    followPte mm.pgd addr = 1}

structure Exact (mm : Mm) (c : Counters) : Prop where
  virt : c.virtPageCount.toInt = (mm.mmap.map Vma.size).sum
  phy : c.phyPageCount.toInt = (residentPages mm).ncard

def zero : Counters := ⟨0, 0⟩

theorem count_zero (pgd : Pgd) (addrs : List Addr) :
    zero.count pgd addrs = ⟨BitVec.ofNat 32 addrs.length, BitVec.ofNat 32 (mapped pgd addrs)⟩ := by
  simp only [Counters.count, zero, BitVec.ofNat_eq_ofNat, BitVec.zero_add]

/-- The pages of all areas, without those at `vm_end`. -/
def insidePages (mm : Mm) : List Addr := mm.mmap.flatMap Vma.inside

/-- Every area adds a page to those of its range. -/
theorem length_pages (mmap : List Vma) :
    (mmap.flatMap Vma.pages).length = (mmap.map Vma.size).sum + mmap.length := by
  induction mmap with
  | nil => rfl
  | cons vma rest ih =>
      rw [List.flatMap_cons, List.length_append, ih, vma.pages_eq, List.length_append,
        vma.length_inside, List.length_singleton, List.map_cons, List.sum_cons, List.length_cons]
      omega

theorem mapped_pages (pgd : Pgd) (mmap : List Vma) :
    mapped pgd (mmap.flatMap Vma.pages) =
      mapped pgd (mmap.flatMap Vma.inside) + mapped pgd (mmap.map Vma.vmEnd) := by
  induction mmap with
  | nil => rfl
  | cons vma rest ih =>
      have hsplit (as bs : List Addr) : mapped pgd (as ++ bs) = mapped pgd as + mapped pgd bs :=
        List.countP_append
      have hends := hsplit [vma.vmEnd] (rest.map Vma.vmEnd)
      rw [List.singleton_append] at hends
      rw [List.flatMap_cons, List.flatMap_cons, List.map_cons, vma.pages_eq, hsplit, hsplit, hsplit,
        ih, hends]
      omega

theorem mem_insidePages_iff (mm : Mm) (addr : Addr) :
    addr ∈ insidePages mm ↔
      addr.toNat % 4096 = 0 ∧ ∃ vma ∈ mm.mmap, vma.vmStart ≤ addr ∧ addr < vma.vmEnd := by
  rw [insidePages, List.mem_flatMap]
  constructor
  · intro h
    obtain ⟨vma, hvma, haddr⟩ := h
    obtain ⟨haligned, hrange⟩ := (vma.mem_inside_iff addr).mp haddr
    exact ⟨haligned, vma, hvma, hrange⟩
  · intro h
    obtain ⟨haligned, vma, hvma, hrange⟩ := h
    exact ⟨vma, hvma, (vma.mem_inside_iff addr).mpr ⟨haligned, hrange⟩⟩

/-- The ranges of sorted areas have no page in common. -/
theorem insidePages_nodup {mm : Mm} (h : Sorted mm) : (insidePages mm).Nodup := by
  have hincreasing : (insidePages mm).Pairwise (· < ·) := by
    refine List.pairwise_flatMap.mpr ⟨fun vma _ => vma.inside_increasing, h.imp ?_⟩
    intro a b hab x hx y hy
    have hxa := ((a.mem_inside_iff x).mp hx).2.2
    have hyb := ((b.mem_inside_iff y).mp hy).2.1
    rw [BitVec.lt_def] at hxa ⊢
    rw [BitVec.le_def] at hab hyb
    omega
  exact hincreasing.imp BitVec.ne_of_lt

theorem ncard_residentPages {mm : Mm} (h : Sorted mm) :
    (residentPages mm).ncard = mapped mm.pgd (insidePages mm) := by
  let resident := (insidePages mm).filter (followPte mm.pgd · = 1)
  have hset : residentPages mm = (resident.toFinset : Set Addr) := by
    ext addr
    rw [Finset.mem_coe, List.mem_toFinset, List.mem_filter, mem_insidePages_iff, decide_eq_true_iff,
      and_assoc]
    rfl
  rw [hset, Set.ncard_coe_finset, List.toFinset_card_of_nodup ((insidePages_nodup h).filter _),
    mapped, List.countP_eq_length_filter]

/-- What one call counts: the pages of the ranges and one for each area, and the resident pages and
one for each area whose page at `vm_end` is present. -/
theorem rssAssi2_counts (pid : Int) {mm : Mm} (h : Sorted mm) :
    ∃ c, rssAssi2 (some ⟨pid, some mm⟩) zero = some (0, some c, c) ∧
      c.virtPageCount = BitVec.ofNat 32 ((mm.mmap.map Vma.size).sum + mm.mmap.length) ∧
      c.phyPageCount =
        BitVec.ofNat 32 ((residentPages mm).ncard + mapped mm.pgd (mm.mmap.map Vma.vmEnd)) := by
  refine ⟨_, rssAssi2_eq pid mm zero, ?_, ?_⟩
  · rw [count_zero, Mm.pages, length_pages]
  · rw [count_zero, ncard_residentPages h, insidePages, ← mapped_pages, Mm.pages]

/-- A counter of 32 bits does not come out right by wrapping around: there are fewer areas than
pages. -/
theorem virt_ne {size areas : Nat} (hpos : 0 < areas) (hle : areas ≤ size) :
    (BitVec.ofNat 32 (size + areas)).toInt ≠ size := by
  intro h
  rw [BitVec.toInt_eq_toNat_cond, BitVec.toNat_ofNat] at h
  split_ifs at h <;> omega

theorem length_le_size (mmap : List Vma) : mmap.length ≤ (mmap.map Vma.size).sum := by
  induction mmap with
  | nil => exact Nat.le_refl 0
  | cons vma rest ih =>
      have hsize := vma.start_add_size
      have hlt := vma.start_lt_end
      rw [List.length_cons, List.map_cons, List.sum_cons]
      omega

/-- One call of `rss_assi2` from zeroed counters ends, and it counts the virtual and the resident
pages of the areas exactly when there are no areas. -/
theorem exact_iff (pid : Int) (mm : Mm) :
    ∃ c, rssAssi2 (some ⟨pid, some mm⟩) zero = some (0, some c, c) ∧
      (Exact mm c ↔ mm.mmap = []) := by
  refine ⟨_, rssAssi2_eq pid mm zero, ?_⟩
  constructor
  · intro hexact
    by_contra hne
    have hvirt := hexact.virt
    rw [count_zero, Mm.pages, length_pages] at hvirt
    exact virt_ne (List.length_pos_of_ne_nil hne) (length_le_size mm.mmap) hvirt
  · intro hnil
    have hpages : mm.pages = [] := by rw [Mm.pages, hnil, List.flatMap_nil]
    have hresident : residentPages mm = ∅ := by
      ext addr
      simp [residentPages, hnil]
    rw [hpages, count_nil]
    constructor
    · rw [hnil]
      rfl
    · rw [hresident, Set.ncard_empty]
      rfl

/-- One area of one page, which is present. The page at `vm_end` is not. -/
def onePage : Mm where
  mmap := [⟨0x200000, 0x201000, by decide, by decide, by decide, by decide⟩]
  pgd := fun _ => .table fun _ => .table fun _ => .table fun i => if i = 0 then 0x25 else 0

/-- The page at `vm_end` is counted as a second virtual page. -/
theorem exact_onePage :
    ¬∀ pid mm c, Sorted mm → rssAssi2 (some ⟨pid, some mm⟩) zero = some (0, some c, c) →
      Exact mm c := by
  intro h
  have hsorted : Sorted onePage := List.pairwise_singleton _ _
  have hvirt := (h 7 onePage _ hsorted (rssAssi2_eq 7 onePage zero)).virt
  rw [count_zero, Mm.pages, length_pages] at hvirt
  exact absurd hvirt (by decide)

end Lkm.Rss
