import Lkm.RemapModel

/-! Mappings with an offset in `ex7.c`. `char_mmap` compares the size of a request with that of the area and
maps the area from its first page on; the offset of the request plays no part in either. -/

namespace Lkm.Remap

open Buffer Format PageTable Mem Area Runs

def pageCount (vma : VmArea) : Nat := (vma.vmEnd.toNat - vma.vmStart.toNat) / 4096

/-- Page `i` of a mapping is page `k` of the area, the one whose text after loading, in the state `t`, has
the number `k + 1`. -/
structure ShowsPage (t : State) (vma : VmArea) (f : Addr → Addr) (i k : Nat) : Prop where
  inside : k < 16
  place : ∀ o < 4096, ∀ u x : Addr, u.toNat = vma.vmStart.toNat + 4096 * i + o →
    x.toNat = t.kmallocArea.toNat + 4096 * k + o → f u = virtToPhys x
  text : ∀ j ≤ (pageLine (k + 1)).length, ∀ u : Addr, u.toNat = vma.vmStart.toNat + 4096 * i + j →
    readPhys t.mem (f u) = (pageLine (k + 1) ++ [0]).getD j 0

/-- A request that is accepted in the state `u` maps the pages from its offset on, and a request for pages
behind the area is refused. -/
structure OffsetFaithful (t u : State) (vma : VmArea) (remap : Int) : Prop where
  accepted : ∀ f, charMmap u.toState vma remap = (0, some f) →
    ∀ i < pageCount vma, ShowsPage t vma f i (vma.vmPgoff.toNat + i)
  refused : 16 < vma.vmPgoff.toNat + pageCount vma → (charMmap u.toState vma remap).1 ≠ 0

theorem start_add_pageCount (vma : VmArea) :
    vma.vmStart.toNat + 4096 * pageCount vma = vma.vmEnd.toNat := by
  have hstart := vma.startAligned
  have hend := vma.endAligned
  have hlt := vma.start_lt_end
  unfold pageCount
  omega

/-- Which requests are accepted. -/
theorem charMmap_iff (s : Area.State) (vma : VmArea) (remap : Int) :
    (charMmap s vma remap).1 = 0 ↔ pageCount vma ≤ 16 ∧ 0 ≤ remap := by
  have hcount := start_add_pageCount vma
  have hsize := size_gt_iff vma
  unfold charMmap
  dsimp only
  split_ifs with hlarge hremap
  · refine iff_of_false (by decide) ?_
    rintro ⟨hle, -⟩
    have := hsize.mp hlarge
    omega
  · refine iff_of_false (Int.ne_of_lt hremap) ?_
    rintro ⟨-, hle⟩
    omega
  · have := mt hsize.mpr hlarge
    exact iff_of_true rfl ⟨by omega, by omega⟩

theorem charMmap_some {s : Area.State} {vma : VmArea} {remap : Int}
    (h : (charMmap s vma remap).1 = 0) : ∃ f, charMmap s vma remap = (0, some f) := by
  unfold charMmap at h ⊢
  dsimp only at h ⊢
  split_ifs at h ⊢ with hlarge hremap
  · exact absurd h (by decide)
  · exact absurd h (Int.ne_of_lt hremap)
  · exact ⟨_, rfl⟩

/-- Where an accepted mapping leads to. -/
theorem charMmap_maps {a : Allocation} {buffer : Buf 50} {s t u : State} (hloaded : Loaded a buffer s t)
    (hu : u.kmallocArea = t.kmallocArea) {vma : VmArea} {remap : Int} {f : Addr → Addr}
    (hf : charMmap u.toState vma remap = (0, some f)) (x : Addr) :
    f x = virtToPhys (t.kmallocArea + (x - vma.vmStart)) := by
  obtain ⟨haligned, -, -⟩ := pageAlign_spec a
  obtain ⟨-, rfl⟩ := charMmap_accepted hf
  rw [hu, hloaded.kmallocArea]
  exact remapPfnRange_eq haligned vma.startAligned x

/-- The byte `o` of page `i`, as an address of the area. -/
theorem toNat_shown {a : Allocation} {buffer : Buf 50} {s t : State} (hloaded : Loaded a buffer s t)
    {vma : VmArea} {i o : Nat} (hi : i < 16) (ho : o < 4096) {y : Addr}
    (hy : y.toNat = vma.vmStart.toNat + 4096 * i + o) :
    (t.kmallocArea + (y - vma.vmStart)).toNat = t.kmallocArea.toNat + 4096 * i + o := by
  have hbound := a.bound
  obtain ⟨-, -, hhigh⟩ := pageAlign_spec a
  have hle : vma.vmStart ≤ y := by
    rw [BitVec.le_def]
    omega
  rw [BitVec.toNat_add, BitVec.toNat_sub_of_le hle, hloaded.kmallocArea]
  omega

/-- An accepted mapping shows each page of the area at its own place and nowhere else. -/
theorem showsPage_iff {a : Allocation} {buffer : Buf 50} {s t u : State} (hloaded : Loaded a buffer s t)
    (hu : u.kmallocArea = t.kmallocArea) {vma : VmArea} {remap : Int} {f : Addr → Addr}
    (hf : charMmap u.toState vma remap = (0, some f)) {i : Nat} (hi : i < 16)
    (hcount : i < pageCount vma) (k : Nat) : ShowsPage t vma f i k ↔ k = i := by
  have hbound := a.bound
  have harea := hloaded.kmallocArea
  obtain ⟨-, -, hhigh⟩ := pageAlign_spec a
  constructor
  · intro h
    have hinside := h.inside
    have hlast := vma.vmEnd.isLt
    have hend := start_add_pageCount vma
    let y : Addr := vma.vmStart + BitVec.ofNat 64 (4096 * i)
    let x : Addr := t.kmallocArea + BitVec.ofNat 64 (4096 * k)
    have hy : y.toNat = vma.vmStart.toNat + 4096 * i + 0 := by
      rw [BitVec.toNat_add, BitVec.toNat_ofNat]
      omega
    have hx : x.toNat = t.kmallocArea.toNat + 4096 * k + 0 := by
      rw [BitVec.toNat_add, BitVec.toNat_ofNat, harea]
      omega
    have hplace := h.place 0 (by decide) y x hy hx
    rw [charMmap_maps hloaded hu hf] at hplace
    have hsame := congrArg BitVec.toNat (virtToPhys_inj hplace)
    rw [toNat_shown hloaded hi (by decide) hy, hx] at hsame
    omega
  · rintro rfl
    constructor
    · exact hi
    · intro o ho y x hy hx
      rw [charMmap_maps hloaded hu hf]
      apply congrArg virtToPhys
      apply BitVec.eq_of_toNat_eq
      rw [toNat_shown hloaded hi ho hy, hx]
    · intro j hj y hy
      have hline := length_pageLine (by omega : 1 + k < 100)
      rw [Nat.add_comm k 1] at hj ⊢
      have hplace := toNat_shown hloaded hi (by omega : j < 4096) hy
      rw [harea] at hplace
      rw [charMmap_maps hloaded hu hf, readPhys_virtToPhys, harea]
      exact hloaded.filled.text hi (by omega) hj hplace

theorem offsetFaithful_iff {a : Allocation} {buffer : Buf 50} {s t : State}
    (hloaded : Loaded a buffer s t) {u : State} (hu : u.kmallocArea = t.kmallocArea) (vma : VmArea) (remap : Int) :
    OffsetFaithful t u vma remap ↔ vma.vmPgoff = 0 ∨ 16 < pageCount vma ∨ remap < 0 := by
  have hzero : vma.vmPgoff = 0 ↔ vma.vmPgoff.toNat = 0 := BitVec.toNat_inj.symm
  constructor
  · intro h
    by_contra hnot
    simp only [not_or, Nat.not_lt, Int.not_lt] at hnot
    obtain ⟨hpgoff, hfits, hremap⟩ := hnot
    have hcount := start_add_pageCount vma
    have hlt := vma.start_lt_end
    have hpos : 0 < pageCount vma := by omega
    obtain ⟨f, hf⟩ := charMmap_some ((charMmap_iff u.toState vma remap).mpr ⟨hfits, hremap⟩)
    have hfirst := (showsPage_iff hloaded hu hf (by decide) hpos _).mp (h.accepted f hf 0 hpos)
    exact hpgoff (hzero.mpr hfirst)
  · intro h
    have hpgoff (haccepted : (charMmap u.toState vma remap).1 = 0) :
        pageCount vma ≤ 16 ∧ vma.vmPgoff.toNat = 0 := by
      obtain ⟨hfits, hremap⟩ := (charMmap_iff u.toState vma remap).mp haccepted
      rw [hzero] at h
      omega
    constructor
    · intro f hf i hi
      obtain ⟨hfits, hoffset⟩ := hpgoff (by rw [hf])
      rw [hoffset, Nat.zero_add]
      exact (showsPage_iff hloaded hu hf (by omega) hi i).mpr rfl
    · intro hbehind haccepted
      obtain ⟨hfits, hoffset⟩ := hpgoff haccepted
      omega

/-- After `init`, whatever has happened since, `char_mmap` treats a request as its offset demands exactly
if the offset is 0 or the request is refused anyway. -/
theorem mapping_faithful_iff (a : Allocation) {major : Int} (hmajor : major ≠ 0) (buffer : Buf 50)
    (s : State) :
    ∃ t writes, init (some a) major buffer s = some (0, t, writes) ∧
      ∀ es, ∃ u, run step t es = some u ∧ ∀ vma remap,
        OffsetFaithful t u vma remap ↔ vma.vmPgoff = 0 ∨ 16 < pageCount vma ∨ remap < 0 := by
  obtain ⟨t, hinit, hloaded⟩ := init_loaded a hmajor buffer s
  refine ⟨t, _, hinit, fun es => ?_⟩
  obtain ⟨mem, hrun⟩ := run_loaded hloaded.printable es
  exact ⟨{ t with mem := mem }, hrun, offsetFaithful_iff hloaded rfl⟩

/-- A request for the second page of the area. -/
def secondPage : VmArea := ⟨0x700000, 0x701000, 1, by decide, by decide, by decide⟩

theorem mapping_faithful_secondPage :
    ∃ t writes, init (some someArea) 250 (zeroed 50) (start (fun _ => 0) fun _ => false) =
        some (0, t, writes) ∧ (OffsetFaithful t t secondPage 0 ↔ secondPage.vmPgoff = 0) := by
  have h250 : (250 : Int) ≠ 0 := by decide
  obtain ⟨t, writes, hinit, hruns⟩ :=
    mapping_faithful_iff someArea h250 (zeroed 50) (start (fun _ => 0) fun _ => false)
  obtain ⟨u, hrun, hiff⟩ := hruns []
  cases hrun
  refine ⟨t, writes, hinit, (hiff secondPage 0).trans ?_⟩
  have hfits : ¬16 < pageCount secondPage := by decide
  have hremap : ¬(0 : Int) < 0 := by decide
  rw [or_iff_left (not_or.mpr ⟨hfits, hremap⟩)]

/-- It gets the first page. -/
theorem mapping_unfaithful_secondPage :
    ¬∀ a major buffer s t writes, init (some a) major buffer s = some (0, t, writes) →
      ∀ vma remap, OffsetFaithful t t vma remap := by
  intro h
  have h250 : (250 : Int) ≠ 0 := by decide
  obtain ⟨t, hinit, hloaded⟩ :=
    init_loaded someArea h250 (zeroed 50) (start (fun _ => 0) fun _ => false)
  have hfaithful := h _ _ _ _ t _ hinit secondPage 0
  exact absurd ((offsetFaithful_iff hloaded rfl secondPage 0).mp hfaithful) (by decide)

end Lkm.Remap
