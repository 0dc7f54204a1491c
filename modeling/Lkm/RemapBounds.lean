import Lkm.RemapModel

/-! Where `ex7.c` works: its area lies in the allocation, its loops write and read at the starts of the 16
pages, and what it maps to user space is in the area. -/

namespace Lkm.Remap

open Buffer Format PageTable Mem Area Runs

/-- The area is page-aligned and lies in the allocation, and all that `char_mmap` maps is in the area. -/
structure Contained (a : Allocation) (t : State) : Prop where
  aligned : t.kmallocArea.toNat % 4096 = 0
  low : a.ptr.toNat ≤ t.kmallocArea.toNat
  size : t.kmallocArea.toNat + 16 * 4096 = t.areaEnd.toNat
  high : t.areaEnd.toNat ≤ a.ptr.toNat + 18 * 4096
  mapped : ∀ vma remap f, charMmap t.toState vma remap = (0, some f) →
    ∀ u, vma.vmStart ≤ u → u < vma.vmEnd →
      ∃ x, Within t.kmallocArea (16 * 4096) x ∧ f u = virtToPhys x

theorem contained_of_globals {a : Allocation} {t : State} (harea : t.kmallocArea = pageAlign a.ptr)
    (hend : t.areaEnd = pageAlign a.ptr + 16 * 4096) : Contained a t := by
  have hbound := a.bound
  obtain ⟨haligned, hlow, hhigh⟩ := pageAlign_spec a
  have hsize := toNat_area_end a
  constructor
  · rw [harea]
    exact haligned
  · rw [harea]
    exact hlow
  · rw [harea, hend]
    exact hsize
  · rw [hend]
    omega
  · intro vma remap f hf u hstart hlast
    obtain ⟨hfits, rfl⟩ := charMmap_accepted hf
    rw [BitVec.le_def] at hstart
    rw [BitVec.lt_def] at hlast
    have hoffset := BitVec.toNat_sub_of_le hstart
    refine ⟨t.kmallocArea + (u - vma.vmStart), ?_, ?_⟩
    · rw [harea, Within, BitVec.toNat_add, hoffset]
      omega
    · rw [harea]
      exact remapPfnRange_eq haligned vma.startAligned u

/-- `init` writes the 50 bytes of its buffer at the start of each of the 16 pages and nothing else, and
whatever happens while the module is loaded, the area is contained in the allocation and the loops of
`char_release` and `cleanup` end after reading from the 16 page starts. -/
theorem contained (a : Allocation) {major : Int} (hmajor : major ≠ 0) (buffer : Buf 50) (s : State) :
    ∃ t, init (some a) major buffer s =
        some (0, t, (pagesFrom 16 (pageAlign a.ptr)).map fun ptr => (ptr, 50)) ∧
      Filled 16 (pageAlign a.ptr) 1 buffer.toList s.mem t.mem ∧
      ∀ es, ∃ u, run step t es = some u ∧ Contained a u ∧ u.kmallocArea = pageAlign a.ptr ∧
        charRelease u = some (0, pagesFrom 16 u.kmallocArea) ∧
        ∃ v, cleanup u = some (pagesFrom 16 u.kmallocArea, v) := by
  obtain ⟨t, hinit, hloaded⟩ := init_loaded a hmajor buffer s
  refine ⟨t, hinit, hloaded.filled, fun es => ?_⟩
  obtain ⟨mem, hrun⟩ := run_loaded hloaded.printable es
  let u : State := { t with mem := mem }
  have hcontained : Contained a u := contained_of_globals hloaded.kmallocArea hloaded.areaEnd
  have hprint : printPages u = some (pagesFrom 16 u.kmallocArea) := printPages_eq hcontained.size
  refine ⟨u, hrun, hcontained, hloaded.kmallocArea, ?_, _, cleanup_eq hprint⟩
  rw [charRelease, hprint]
  rfl

/-- An allocation from the middle of one page to the middle of another one. The text of the second page ends
with its number. -/
theorem contained_someArea :
    ∃ t, init (some someArea) 250 (zeroed 50) (start (fun _ => 0) fun _ => false) =
        some (0, t, (pagesFrom 16 0xffff880000101000).map fun ptr => (ptr, 50)) ∧
      t.mem 0xffff880000102021 = 0x32 ∧ Contained someArea t := by
  have harea : pageAlign someArea.ptr = 0xffff880000101000 := by decide
  have h250 : (250 : Int) ≠ 0 := by decide
  obtain ⟨t, hinit, hfilled, hruns⟩ :=
    contained someArea h250 (zeroed 50) (start (fun _ => 0) fun _ => false)
  obtain ⟨u, hrun, hcontained, -⟩ := hruns []
  cases hrun
  rw [harea] at hinit hfilled
  have hnumber := hfilled.text (k := 1) (by decide) (by decide) (j := 33) (by decide)
    (a := 0xffff880000102021) (by decide)
  exact ⟨t, hinit, hnumber.trans (by decide), hcontained⟩

end Lkm.Remap
