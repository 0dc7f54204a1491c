import Lkm.AreaModel
import Mathlib.Data.List.GetD

/-! What user space can read of the area of `new_st.c`. Every page is cleared, but then it gets all 50
bytes of the text buffer, of which the text fills at most 36; the bytes behind it are what the stack
held before `init`. -/

namespace Lkm.Area

open Buffer Format PageTable Mem

/-- The contents of `n` pages that are cleared and filled with the texts from `count` on, when the buffer
holds `cs`. -/
def filledBytes : Nat → Nat → List Byte → List Byte
  | 0, _, _ => []
  | n + 1, count, cs =>
      nextBuffer count cs ++ List.replicate 4046 0 ++ filledBytes n (count + 1) (nextBuffer count cs)

theorem filledBytes_succ (n count : Nat) (cs : List Byte) :
    filledBytes (n + 1) count cs =
      nextBuffer count cs ++ List.replicate 4046 0 ++ filledBytes n (count + 1) (nextBuffer count cs) :=
  rfl

theorem length_nextBuffer {count : Nat} (hcount : count < 100) {cs : List Byte} (hcs : cs.length = 50) :
    (nextBuffer count cs).length = 50 := by
  have hline := length_pageLine hcount
  rw [nextBuffer, List.length_append, List.length_cons, List.length_drop]
  omega

theorem length_filledBytes (n : Nat) {count : Nat} (hcount : count + n ≤ 100) {cs : List Byte}
    (hcs : cs.length = 50) : (filledBytes n count cs).length = 4096 * n := by
  induction n generalizing count cs with
  | zero => rfl
  | succ n ih =>
      have hnext := length_nextBuffer (by omega : count < 100) hcs
      rw [filledBytes, List.length_append, List.length_append, hnext, List.length_replicate,
        ih (by omega) hnext]
      omega

/-- A cleared page with the buffer copied to its start. -/
theorem memcpy_memset (mem : Memory) (p : Addr) (buffer : Buf 50) (a : Addr) :
    memcpy (memset mem p 0 4096) p buffer a =
      if Within p 4096 a then (buffer.toList ++ List.replicate 4046 0).getD (a.toNat - p.toNat) 0
      else mem a := by
  have hlength : buffer.toList.length = 50 := Vector.length_toList
  by_cases htext : Within p 50 a
  · have hpage : Within p 4096 a := ⟨htext.1, by have := htext.2; omega⟩
    have hlt : a.toNat - p.toNat < buffer.toList.length := by
      rw [hlength]
      exact htext.offset_lt
    rw [memcpy_of_within _ _ _ htext, if_pos hpage, List.getD_append _ _ _ _ hlt,
      List.getD_eq_getElem _ _ hlt]
    rfl
  · rw [memcpy_of_not_within _ _ _ htext]
    by_cases hpage : Within p 4096 a
    · have hge : buffer.toList.length ≤ a.toNat - p.toNat := by
        rw [hlength]
        by_contra hlt
        exact htext ⟨hpage.1, by omega⟩
      have hlt : a.toNat - p.toNat - buffer.toList.length < 4046 := by
        have := hpage.offset_lt
        omega
      rw [memset_of_within _ _ _ hpage, if_pos hpage, List.getD_append_right _ _ _ _ hge,
        List.getD_replicate _ hlt]
    · rw [memset_of_not_within _ _ _ hpage, if_neg hpage]

/-- The loop over the pages writes these contents and changes nothing outside. -/
theorem foldlM_fillPage (n : Nat) (addr : Addr) (haddr : addr.toNat + 4096 * n < 2 ^ 64) {x : Filling}
    (hcount : x.count + n ≤ 100) :
    ∃ y, (pagesFrom n addr).foldlM (fillPage true) x = some y ∧ ∀ a, y.mem a =
      if Within addr (4096 * n) a then
        (filledBytes n x.count x.buffer.toList).getD (a.toNat - addr.toNat) 0
      else x.mem a := by
  induction n generalizing addr x with
  | zero =>
      refine ⟨x, rfl, fun a => ?_⟩
      have hout : ¬Within addr (4096 * 0) a := by
        intro h
        exact absurd h.offset_lt (Nat.not_lt_zero _)
      rw [if_neg hout]
  | succ n ih =>
      obtain ⟨hnext, hbound⟩ := toNat_next_of_lt haddr
      have hcs : x.buffer.toList.length = 50 := Vector.length_toList
      have hlength := length_nextBuffer (by omega : x.count < 100) hcs
      obtain ⟨buffer, hbuffer, hpage⟩ := fillPage_eq true x (by omega) addr
      obtain ⟨y, hrest, hy⟩ := ih (addr + 4096) hbound
        (x := ⟨memcpy (memset x.mem addr 0 4096) addr buffer, buffer, x.count + 1⟩)
        (by simp only; omega)
      refine ⟨y, ?_, fun a => ?_⟩
      · rw [pagesFrom, List.foldlM_cons, hpage]
        exact hrest
      · have hhead : (nextBuffer x.count x.buffer.toList ++ List.replicate 4046 0).length = 4096 := by
          rw [List.length_append, hlength, List.length_replicate]
        rw [hy a]
        simp only [memcpy_memset, hbuffer]
        rw [filledBytes_succ, Nat.mul_succ, Nat.add_comm (4096 * n) 4096]
        have hsplit := within_add_iff hnext (4096 * n) a
        generalize nextBuffer x.count x.buffer.toList ++ List.replicate 4046 0 = page at hhead ⊢
        by_cases hlow : Within addr 4096 a
        · have hlt : a.toNat - addr.toNat < page.length := hhead.symm ▸ hlow.offset_lt
          rw [if_neg (hlow.not_within hnext (4096 * n)), if_pos hlow, if_pos (hsplit.mpr (Or.inl hlow)),
            List.getD_append _ _ _ _ hlt]
        · have hiff : Within (addr + 4096) (4096 * n) a ↔ Within addr (4096 + 4096 * n) a := by
            rw [hsplit, or_iff_right hlow]
          rw [if_neg hlow, if_congr hiff rfl rfl]
          by_cases hin : Within addr (4096 + 4096 * n) a
          · have hge : page.length ≤ a.toNat - addr.toNat := by
              have hhigh := (hiff.mpr hin).1
              rw [hhead]
              omega
            rw [if_pos hin, if_pos hin, List.getD_append_right _ _ _ _ hge, hhead, hnext, Nat.sub_sub]
          · rw [if_neg hin, if_neg hin]

/-- The texts cover the buffer up to its last 15 bytes. -/
theorem nextBuffer_one_iff (cs ds : List Byte) :
    nextBuffer 1 cs = nextBuffer 1 ds ↔ cs.drop 35 = ds.drop 35 := by
  have hline : (pageLine 1).length + 1 = 35 := by decide
  rw [nextBuffer, nextBuffer, hline, List.append_cancel_left_eq, List.cons.injEq]
  exact and_iff_right rfl

/-- Two runs fill the area with the same bytes exactly when the buffers have the same last 15 bytes. -/
theorem filledBytes_eq_iff {cs ds : List Byte} (hcs : cs.length = 50) (hds : ds.length = 50) :
    filledBytes 16 1 cs = filledBytes 16 1 ds ↔ cs.drop 35 = ds.drop 35 := by
  rw [← nextBuffer_one_iff, filledBytes_succ 15 1 cs, filledBytes_succ 15 1 ds]
  constructor
  · intro h
    have hone : 1 < 100 := by decide
    have hlength := (length_nextBuffer hone hcs).trans (length_nextBuffer hone hds).symm
    have hpage := (List.append_inj h (by rw [List.length_append, List.length_append, hlength])).1
    exact List.append_cancel_right hpage
  · intro h
    rw [h]

/-! ### What a mapping shows -/

/-- Whatever user space maps, it reads the same bytes in both states. -/
def NoLeak (s t : State) : Prop :=
  ∀ vma remap f g, charMmap s vma remap = (0, some f) → charMmap t vma remap = (0, some g) →
    ∀ u, vma.vmStart ≤ u → u < vma.vmEnd → readPhys s.mem (f u) = readPhys t.mem (g u)

theorem noLeak_iff {s t : State} {a : Allocation} (hs : s.kmallocArea = pageAlign a.ptr)
    (ht : t.kmallocArea = pageAlign a.ptr) :
    NoLeak s t ↔ ∀ x, Within (pageAlign a.ptr) (4096 * 16) x → s.mem x = t.mem x := by
  obtain ⟨haligned, -, hhigh⟩ := pageAlign_spec a
  have hbound := a.bound
  have hshown (mem : Memory) {vma : VmArea} (u : Addr) :=
    readPhys_remapPfnRange mem haligned vma.startAligned u
  constructor
  · intro h x hx
    -- A request for all 16 pages shows the byte at `x` at this user address.
    let vma : VmArea := ⟨0x400000, 0x410000, 0, by decide, by decide, by decide⟩
    let u : Addr := 0x400000 + (x - pageAlign a.ptr)
    let shown (s : State) : Addr → Addr := remapPfnRange vma.vmStart (virtToPhys s.kmallocArea >>> 12)
    have haccepted (s : State) : charMmap s vma 0 = (0, some (shown s)) := by
      have hsize : ¬(0x410000 - 0x400000 : Addr) > 16 * 4096 := by decide
      rw [charMmap, if_neg hsize, if_neg (by decide)]
    have hoffset : (x - pageAlign a.ptr).toNat < 65536 := by
      rw [BitVec.toNat_sub_of_le hx.1]
      exact hx.offset_lt
    have hu : u.toNat = 0x400000 + (x - pageAlign a.ptr).toNat := by
      rw [BitVec.toNat_add]
      exact Nat.mod_eq_of_lt (by simp only [BitVec.reduceToNat]; omega)
    have hlow : vma.vmStart ≤ u := by
      rw [BitVec.le_def, hu]
      exact Nat.le_add_right _ _
    have hhigh : u < vma.vmEnd := by
      rw [BitVec.lt_def, hu]
      exact Nat.add_lt_add_left hoffset _
    have hread := h vma 0 _ _ (haccepted s) (haccepted t) u hlow hhigh
    have hx' : pageAlign a.ptr + (u - vma.vmStart) = x := by
      change pageAlign a.ptr + (0x400000 + (x - pageAlign a.ptr) - 0x400000) = x
      rw [BitVec.add_comm 0x400000, BitVec.add_sub_cancel, BitVec.add_comm, BitVec.sub_add_cancel]
    simp only [shown] at hread
    rwa [hs, ht, hshown, hshown, hx'] at hread
  · intro h vma remap f g hf hg u hlow hhigh'
    obtain ⟨hsize, rfl⟩ := charMmap_accepted hf
    obtain ⟨-, rfl⟩ := charMmap_accepted hg
    rw [hs, ht, hshown, hshown]
    apply h
    rw [BitVec.le_def] at hlow
    rw [BitVec.lt_def] at hhigh'
    have hoffset := BitVec.toNat_sub_of_le hlow
    rw [Within, BitVec.toNat_add, hoffset]
    omega

/-- Memories that hold two lists agree exactly if the lists do. -/
theorem getD_eq_iff {p : Addr} {n : Nat} (hp : p.toNat + n < 2 ^ 64) {cs ds : List Byte}
    (hcs : cs.length = n) (hds : ds.length = n) :
    (∀ x, Within p n x → cs.getD (x.toNat - p.toNat) 0 = ds.getD (x.toNat - p.toNat) 0) ↔ cs = ds := by
  constructor
  · intro h
    apply List.ext_getElem (hcs.trans hds.symm)
    intro i hi hi'
    have hx : (p + BitVec.ofNat 64 i).toNat = p.toNat + i := by
      rw [BitVec.toNat_add, BitVec.toNat_ofNat]
      omega
    have hi'' := h (p + BitVec.ofNat 64 i) ⟨by omega, by omega⟩
    rwa [hx, Nat.add_sub_cancel_left, List.getD_eq_getElem _ _ hi, List.getD_eq_getElem _ _ hi'] at hi''
  · intro h x _
    rw [h]

/-- Two runs that fill the area. -/
theorem noLeak_filled_iff (a : Allocation) {major : Int} (hmajor : major ≠ 0) (b1 b2 : Buf 50)
    (s1 s2 : State) :
    ∃ t1 t2, init true (some a) major b1 s1 = some (0, t1) ∧
      init true (some a) major b2 s2 = some (0, t2) ∧
      (NoLeak t1 t2 ↔ b1.toList.drop 35 = b2.toList.drop 35) := by
  have hbound := a.bound
  have haligned := pageAlign_spec a
  have hfill (b : Buf 50) (s : State) := foldlM_fillPage 16 (pageAlign a.ptr) (by omega)
    (x := ⟨s.mem, b, 1⟩) (by simp)
  obtain ⟨y1, hy1, hmem1⟩ := hfill b1 s1
  obtain ⟨y2, hy2, hmem2⟩ := hfill b2 s2
  obtain ⟨t1, hinit1, harea1, ht1⟩ := init_eq true a hmajor b1 s1 hy1
  obtain ⟨t2, hinit2, harea2, ht2⟩ := init_eq true a hmajor b2 s2 hy2
  refine ⟨t1, t2, hinit1, hinit2, ?_⟩
  have hb1 : b1.toList.length = 50 := Vector.length_toList
  have hb2 : b2.toList.length = 50 := Vector.length_toList
  have hone : 1 + 16 ≤ 100 := by decide
  have hlist := getD_eq_iff (p := pageAlign a.ptr) (by omega) (length_filledBytes 16 hone hb1)
    (length_filledBytes 16 hone hb2)
  rw [noLeak_iff harea1 harea2, ← filledBytes_eq_iff hb1 hb2, ← hlist]
  refine forall_congr' fun x => imp_congr_right fun hx => ?_
  rw [ht1, hmem1, if_pos hx, ht2, hmem2, if_pos hx]

/-- The two runs get the same contents where `init` takes them from what was there before. -/
def SameRemains (kmalloc : Option Allocation) (major : Int) (b1 b2 : Buf 50) (m1 m2 : Memory) : Prop :=
  match kmalloc with
  | none => True
  | some a =>
      if major = 0 then ∀ x, Within (pageAlign a.ptr) (4096 * 16) x → m1 x = m2 x
      else b1.toList.drop 35 = b2.toList.drop 35

/-- If `init` loads the module, user space reads the same bytes after two runs exactly when the last 15
bytes of the stack buffer were the same; when `register_chrdev` returns 0, exactly when the area was. -/
theorem noLeak_init_iff (kmalloc : Option Allocation) (major : Int) (b1 b2 : Buf 50) (s1 s2 : State) :
    ∃ ret t1 t2, init true kmalloc major b1 s1 = some (ret, t1) ∧
      init true kmalloc major b2 s2 = some (ret, t2) ∧
      ((ret = 0 → NoLeak t1 t2) ↔ SameRemains kmalloc major b1 b2 s1.mem s2.mem) := by
  cases kmalloc with
  | none => exact ⟨-12, _, _, rfl, rfl, iff_of_true (fun h => absurd h (by decide)) trivial⟩
  | some a =>
      by_cases hmajor : major = 0
      · let t (s : State) : State :=
          { s with kmallocPtr := a.ptr, kmallocArea := pageAlign a.ptr, majorNumber := major }
        have hinit (b : Buf 50) (s : State) : init true (some a) major b s = some (0, t s) := if_pos hmajor
        refine ⟨0, t s1, t s2, hinit b1 s1, hinit b2 s2, ?_⟩
        rw [SameRemains, if_pos hmajor, noLeak_iff rfl rfl]
        exact forall_prop_of_true rfl
      · obtain ⟨t1, t2, hinit1, hinit2, hfilled⟩ := noLeak_filled_iff a hmajor b1 b2 s1 s2
        refine ⟨0, t1, t2, hinit1, hinit2, ?_⟩
        rw [SameRemains, if_neg hmajor, forall_prop_of_true rfl, hfilled]

/-- With a stack of zeros and one of letters, byte 35 of the first page is 0 after one run and a letter
after the other. -/
theorem noLeak_stack :
    ¬∀ kmalloc major b1 b2 s1 s2 ret t1 t2, init true kmalloc major b1 s1 = some (ret, t1) →
      init true kmalloc major b2 s2 = some (ret, t2) → ret = 0 → NoLeak t1 t2 := by
  intro h
  let s : State := ⟨0, 0, 0, fun _ => 0, fun _ => false⟩
  have h250 : (250 : Int) ≠ 0 := by decide
  obtain ⟨t1, t2, hinit1, hinit2, hfilled⟩ := noLeak_filled_iff someArea h250
    (zeroed 50) (Vector.replicate 50 0x41) s s
  have hsame := hfilled.mp (h _ _ _ _ _ _ 0 t1 t2 hinit1 hinit2 rfl)
  exact absurd hsame (by decide)

end Lkm.Area
