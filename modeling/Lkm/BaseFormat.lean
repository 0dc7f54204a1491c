import Lkm.BaseBuffer

/-! What `sprintf` makes of `%d`, `%ld` and `%p`, and how it stores a text in a character buffer. A text
that does not fit with its terminator is `none`. -/

namespace Lkm.Format

open Buffer

def byteOf (c : Char) : Byte := BitVec.ofNat 8 c.toNat

def ascii (s : String) : List Byte := s.toList.map byteOf

/-- The decimal digits of a number. -/
def formatNat (n : Nat) : List Byte := (Nat.toDigits 10 n).map byteOf

/-- `%d` and `%ld`. -/
def formatInt (v : Int) : List Byte :=
  if v < 0 then 0x2d :: formatNat v.natAbs else formatNat v.natAbs

def hexDigit (d : BitVec 4) : Byte :=
  if d.toNat < 10 then BitVec.ofNat 8 (0x30 + d.toNat) else BitVec.ofNat 8 (0x57 + d.toNat)

/-- `%p`: 16 digits, and for null a text of the same width. -/
def formatPtr (p : BitVec 64) : List Byte :=
  if p = 0#64 then ascii "          (null)"
  else (List.range 16).map fun i => hexDigit (p.extractLsb' (60 - 4 * i) 4)

/-- `sprintf(buf, ...)` for the text that the format makes. -/
def sprintf {n : Nat} (buf : Buf n) (text : List Byte) : Option (Buf n) := store buf 0 (text ++ [0])

theorem length_ascii (s : String) : (ascii s).length = s.toList.length := by
  rw [ascii, List.length_map]

/-! ### Numbers -/

theorem length_formatNat_le_iff (n : Nat) {k : Nat} (hk : 0 < k) :
    (formatNat n).length ≤ k ↔ n < 10 ^ k := by
  rw [formatNat, List.length_map]
  exact Nat.length_toDigits_le_iff (by decide) hk

theorem length_formatNat_pos (n : Nat) : 0 < (formatNat n).length := by
  rw [formatNat, List.length_map]
  exact Nat.length_toDigits_pos

theorem formatNat_digit {n : Nat} {c : Byte} (hc : c ∈ formatNat n) : 0x30 ≤ c ∧ c ≤ 0x39 := by
  obtain ⟨d, hd, rfl⟩ := List.mem_map.mp hc
  have hdigit := Nat.isDigit_of_mem_toDigits (by decide) (by decide) hd
  have hle : 48 ≤ d.toNat ∧ d.toNat ≤ 57 := by
    simp only [Char.isDigit, Bool.and_eq_true, decide_eq_true_eq] at hdigit
    exact hdigit
  obtain ⟨hlow, hhigh⟩ := hle
  unfold byteOf
  constructor
  · rw [BitVec.le_def, BitVec.toNat_ofNat, Nat.mod_eq_of_lt (by omega)]
    exact hlow
  · rw [BitVec.le_def, BitVec.toNat_ofNat, Nat.mod_eq_of_lt (by omega)]
    exact hhigh

/-- A number is written with digits and a sign. -/
theorem notMem_formatInt {c : Byte} (hsign : c ≠ 0x2d) (hdigit : ¬(0x30 ≤ c ∧ c ≤ 0x39)) (v : Int) :
    c ∉ formatInt v := by
  intro hc
  unfold formatInt at hc
  split_ifs at hc
  · cases List.mem_cons.mp hc with
    | inl h => exact hsign h
    | inr h => exact hdigit (formatNat_digit h)
  · exact hdigit (formatNat_digit hc)

theorem nul_notMem_formatInt (v : Int) : 0 ∉ formatInt v :=
  notMem_formatInt (by decide) (by decide) v

theorem length_formatInt_pos (v : Int) : 0 < (formatInt v).length := by
  unfold formatInt
  split_ifs
  · exact Nat.zero_lt_succ _
  · exact length_formatNat_pos _

/-- The one-digit numbers. -/
theorem length_formatInt_eq_one_iff (v : Int) : (formatInt v).length = 1 ↔ 0 ≤ v ∧ v ≤ 9 := by
  have hpos := length_formatNat_pos v.natAbs
  have hle := length_formatNat_le_iff v.natAbs (k := 1) (by decide)
  unfold formatInt
  split_ifs with hneg
  · rw [List.length_cons]
    omega
  · omega

theorem length_formatInt_le {v : Int} {k : Nat} (hk : 0 < k) (hlow : -10 ^ k < v)
    (hhigh : v < 10 ^ (k + 1)) : (formatInt v).length ≤ k + 1 := by
  have hcast (j : Nat) : ((10 ^ j : Nat) : Int) = 10 ^ j := by norm_cast
  have hlow' := hcast k
  have hhigh' := hcast (k + 1)
  unfold formatInt
  split_ifs with hneg
  · have hlength := (length_formatNat_le_iff v.natAbs hk).mpr (by omega)
    rw [List.length_cons]
    omega
  · exact (length_formatNat_le_iff v.natAbs (Nat.succ_pos k)).mpr (by omega)

/-! ### Pointers -/

theorem hexDigit_ne_zero (d : BitVec 4) : hexDigit d ≠ 0 := by
  revert d
  decide

theorem length_formatPtr (p : BitVec 64) : (formatPtr p).length = 16 := by
  unfold formatPtr
  split_ifs
  · decide
  · rw [List.length_map, List.length_range]

theorem nul_notMem_formatPtr (p : BitVec 64) : 0 ∉ formatPtr p := by
  unfold formatPtr
  split_ifs
  · decide
  · intro h
    obtain ⟨i, -, hi⟩ := List.mem_map.mp h
    exact hexDigit_ne_zero _ hi

/-! ### Storing -/

theorem sprintf_eq_some {n : Nat} (buf : Buf n) {cs : List Byte} (hlength : cs.length < n) :
    ∃ buf', sprintf buf cs = some buf' ∧ buf'.toList = cs ++ 0 :: buf.toList.drop (cs.length + 1) := by
  have hfits : 0 + (cs ++ [0]).length ≤ n := by
    rw [List.length_append, List.length_singleton]
    omega
  obtain ⟨buf', hstore, hlist⟩ := store_eq_some buf 0 (cs ++ [0]) hfits
  refine ⟨buf', hstore, ?_⟩
  rw [hlist, List.take_zero, List.nil_append, Nat.zero_add, List.length_append,
    List.length_singleton, List.append_assoc, List.singleton_append]

theorem sprintf_eq_none {n : Nat} (buf : Buf n) {cs : List Byte} (hlength : n ≤ cs.length) :
    sprintf buf cs = none := by
  refine store_eq_none buf 0 _ (Nat.zero_le n) ?_
  rw [List.length_append, List.length_singleton]
  omega

/-- A text without terminators is read back as it was stored. -/
theorem text_sprintf {n : Nat} (buf : Buf n) {cs : List Byte} (hcs : 0 ∉ cs) (hlength : cs.length < n) :
    (sprintf buf cs).bind text = some cs := by
  obtain ⟨buf', hstore, hlist⟩ := sprintf_eq_some buf hlength
  rw [hstore, Option.bind_some]
  exact text_of_terminated hcs hlist

end Lkm.Format
