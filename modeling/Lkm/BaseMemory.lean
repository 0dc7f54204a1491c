import Lkm.BaseBuffer
import Lkm.BasePageTable

/-! The kernel's memory as bytes at 64-bit addresses, written by `memset` and `memcpy`, and the direct
map, in which physical addresses are virtual ones less a constant. -/

namespace Lkm.Mem

open Buffer PageTable

abbrev Memory := Addr → Byte

/-- `a` is one of the `n` bytes from `p` on. -/
def Within (p : Addr) (n : Nat) (a : Addr) : Prop := p.toNat ≤ a.toNat ∧ a.toNat < p.toNat + n

instance (p : Addr) (n : Nat) (a : Addr) : Decidable (Within p n a) :=
  inferInstanceAs (Decidable (_ ∧ _))

theorem Within.offset_lt {p : Addr} {n : Nat} {a : Addr} (h : Within p n a) :
    a.toNat - p.toNat < n := by
  obtain ⟨hle, hlt⟩ := h
  omega

/-- Two ranges, one right behind the other. -/
theorem within_add_iff {p q : Addr} {k : Nat} (h : q.toNat = p.toNat + k) (n : Nat) (a : Addr) :
    Within p (k + n) a ↔ Within p k a ∨ Within q n a := by
  unfold Within
  omega

theorem Within.not_within {p q : Addr} {k : Nat} {a : Addr} (ha : Within p k a)
    (h : q.toNat = p.toNat + k) (n : Nat) : ¬Within q n a := by
  unfold Within at ha ⊢
  omega

/-- `memset(p, c, n)`. -/
def memset (mem : Memory) (p : Addr) (c : Byte) (n : Nat) : Memory :=
  fun a => if Within p n a then c else mem a

/-- `memcpy(p, buf, n)` for a whole buffer. -/
def memcpy {n : Nat} (mem : Memory) (p : Addr) (buf : Buf n) : Memory :=
  fun a => if h : Within p n a then buf.get ⟨a.toNat - p.toNat, h.offset_lt⟩ else mem a

variable {n : Nat} (mem : Memory) (p : Addr) {a : Addr}

theorem memset_of_within (c : Byte) (h : Within p n a) : memset mem p c n a = c := if_pos h

theorem memset_of_not_within (c : Byte) (h : ¬Within p n a) : memset mem p c n a = mem a := if_neg h

theorem memcpy_of_within (buf : Buf n) (h : Within p n a) :
    memcpy mem p buf a = buf.get ⟨a.toNat - p.toNat, h.offset_lt⟩ := dif_pos h

theorem memcpy_of_not_within (buf : Buf n) (h : ¬Within p n a) : memcpy mem p buf a = mem a :=
  dif_neg h

/-! ### Physical addresses -/

def pageOffset : Addr := 0xffff880000000000

def virtToPhys (a : Addr) : Addr := a - pageOffset

/-- The direct map is linear. -/
theorem virtToPhys_add (a d : Addr) : virtToPhys (a + d) = virtToPhys a + d := by
  rw [virtToPhys, virtToPhys, BitVec.sub_eq_add_neg, BitVec.sub_eq_add_neg, BitVec.add_assoc,
    BitVec.add_comm d, BitVec.add_assoc]

/-- Different addresses have different physical addresses. -/
theorem virtToPhys_inj {x y : Addr} (h : virtToPhys x = virtToPhys y) : x = y := by
  have hadd := congrArg (· + pageOffset) h
  simpa only [virtToPhys, BitVec.sub_add_cancel] using hadd

/-- The memory at a physical address. -/
def readPhys (mem : Memory) (pa : Addr) : Byte := mem (pa + pageOffset)

/-- `remap_pfn_range(vma, start, pfn, ...)`: the physical address that a user address of the mapping
stands for. The frames are consecutive. -/
def remapPfnRange (start pfn : BitVec 64) (u : Addr) : Addr :=
  (pfn + ((u - start) >>> 12)) <<< 12 + (u &&& 4095)

theorem toNat_and_4095 (x : Addr) : (x &&& 4095).toNat = x.toNat % 4096 := by
  rw [BitVec.toNat_and]
  exact Nat.and_two_pow_sub_one_eq_mod x.toNat 12

/-- An address is the start of its frame and an offset in it. -/
theorem frame_add_offset (x : Addr) : (x >>> 12) <<< 12 + (x &&& 4095) = x := by
  apply BitVec.eq_of_toNat_eq
  have hlt := x.isLt
  rw [BitVec.toNat_add, toNat_and_4095, BitVec.toNat_shiftLeft, BitVec.toNat_ushiftRight,
    Nat.shiftRight_eq_div_pow, Nat.shiftLeft_eq]
  omega

theorem frame_of_aligned {x : Addr} (h : x.toNat % 4096 = 0) : (x >>> 12) <<< 12 = x := by
  have hoffset : x &&& 4095 = 0#64 := BitVec.eq_of_toNat_eq (by rw [toNat_and_4095, h]; rfl)
  have hsplit := frame_add_offset x
  rwa [hoffset, BitVec.add_zero] at hsplit

theorem getLsbD_4095 (i : Nat) : (4095#64).getLsbD i = decide (i < 12) := by
  have hbits : (4095 : Nat).testBit i = decide (i < 12) := Nat.testBit_two_pow_sub_one 12 i
  rw [BitVec.getLsbD_ofNat, hbits]
  by_cases hi : i < 12
  · rw [decide_eq_true hi, decide_eq_true (by omega : i < 64)]
    rfl
  · rw [decide_eq_false hi, Bool.and_false]

/-- `x & PAGE_MASK` is the start of the frame. -/
theorem and_not_4095 (x : Addr) : x &&& ~~~4095#64 = (x >>> 12) <<< 12 := by
  apply BitVec.eq_of_getLsbD_eq
  intro i hi
  rw [BitVec.getLsbD_and, BitVec.getLsbD_not, BitVec.getLsbD_shiftLeft, BitVec.getLsbD_ushiftRight,
    getLsbD_4095]
  by_cases h12 : i < 12
  · simp [h12]
  · rw [show 12 + (i - 12) = i by omega]
    simp [hi, h12]

theorem toNat_and_not_4095 (x : Addr) : (x &&& ~~~4095#64).toNat = x.toNat - x.toNat % 4096 := by
  have hlt := x.isLt
  rw [and_not_4095, BitVec.toNat_shiftLeft, BitVec.toNat_ushiftRight, Nat.shiftRight_eq_div_pow,
    Nat.shiftLeft_eq]
  omega

/-- A mapping of the frames from that of `area` on stands for the physical addresses from `area` on. -/
theorem remapPfnRange_eq {area start : Addr} (harea : area.toNat % 4096 = 0)
    (hstart : start.toNat % 4096 = 0) (u : Addr) :
    remapPfnRange start (virtToPhys area >>> 12) u = virtToPhys (area + (u - start)) := by
  have hphys : (virtToPhys area).toNat % 4096 = 0 := by
    have hlt := area.isLt
    rw [virtToPhys, pageOffset, BitVec.toNat_sub]
    simp only [BitVec.reduceToNat]
    omega
  have hoffset : u &&& 4095 = (u - start) &&& 4095 := by
    have hlt := u.isLt
    have hlt' := start.isLt
    apply BitVec.eq_of_toNat_eq
    rw [toNat_and_4095, toNat_and_4095, BitVec.toNat_sub]
    omega
  calc remapPfnRange start (virtToPhys area >>> 12) u
      = virtToPhys area + (u - start) := by
        rw [remapPfnRange, BitVec.shiftLeft_add_distrib, frame_of_aligned hphys, hoffset,
          BitVec.add_assoc, frame_add_offset]
    _ = virtToPhys (area + (u - start)) := (virtToPhys_add area (u - start)).symm

@[simp] theorem readPhys_virtToPhys (a : Addr) : readPhys mem (virtToPhys a) = mem a := by
  rw [readPhys, virtToPhys, BitVec.sub_add_cancel]

/-- Such a mapping shows the memory from `area` on. -/
theorem readPhys_remapPfnRange {area start : Addr} (harea : area.toNat % 4096 = 0)
    (hstart : start.toNat % 4096 = 0) (u : Addr) :
    readPhys mem (remapPfnRange start (virtToPhys area >>> 12) u) = mem (area + (u - start)) := by
  rw [remapPfnRange_eq harea hstart, readPhys_virtToPhys]

end Lkm.Mem
