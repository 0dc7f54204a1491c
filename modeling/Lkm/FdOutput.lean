import Lkm.FdSearch

/-! The output of `fs_details` of `ex9/exer9_ver3.c`. The description of any file fits its 500 bytes
with the terminator, with five bytes to spare for the widest one, so `fs_details` fails only for want
of a path buffer or of an end of the search. -/

namespace Lkm.Fd

open Buffer Format

/-- The bytes of the output that the description takes, with its terminator. -/
def occupied (i : Nat) (f : File) : Nat := (describe i f).length + 1

theorem occupied_le {i : Nat} (hi : i < 2 ^ 31) (f : File) : occupied i f ≤ 495 :=
  Nat.succ_le_succ (length_describe_le hi f)

/-- A file whose path and numbers are as wide as they can be. -/
def widest : File where
  path := ⟨List.replicate 99 0x61, by decide, by decide⟩
  inode := ⟨BitVec.intMin 64, BitVec.intMin 64, BitVec.intMin 64, BitVec.intMin 64, BitVec.intMin 64,
    BitVec.intMin 64⟩
  count := BitVec.intMin 64
  pos := BitVec.intMin 64
  opOpen := 0xffffffff81200000
  opRelease := 0xffffffff81200040

/-- The bound is reached. -/
theorem occupied_widest : occupied (2 ^ 31 - 1) widest = 495 := by
  rw [occupied, length_describe]
  decide

/-- The description of any file as any descriptor fits the output with its terminator, and is stored
there. -/
theorem output_fits {i : Nat} (hi : i < 2 ^ 31) (f : File) (output : Buf 500) :
    occupied i f ≤ 500 ∧ ∃ output', sprintf output (describe i f) = some output' ∧
      text output' = some (describe i f) := by
  constructor
  · exact (occupied_le hi f).trans (by decide)
  · exact Option.bind_eq_some_iff.mp
      (text_sprintf output (nul_notMem_describe i f) (length_describe_lt hi f))

theorem output_fits_widest : occupied (2 ^ 31 - 1) widest ≤ 500 ∧
    ∃ output', sprintf (zeroed 500) (describe (2 ^ 31 - 1) widest) = some output' ∧
      text output' = some (describe (2 ^ 31 - 1) widest) :=
  output_fits (by decide) widest (zeroed 500)

/-- The search fails only by reading behind the table, whose descriptors it has all passed. -/
theorem searchLoop_eq_none_iff (table : FdTable) (filename : List Byte) (s : State) :
    searchLoop filename 0 table.fd s = none ↔ ∀ slot ∈ table.fd, passes filename slot = true := by
  obtain ⟨skipped, hskipped, hends⟩ := searchLoop_ends table filename s
  generalize searchLoop filename 0 table.fd s = result at hends
  cases hends with
  | behind hfd => exact iff_of_true rfl (hfd ▸ hskipped)
  | @closed rest u hfd _ =>
      apply iff_of_false (Option.some_ne_none u)
      intro hall
      cases hall none (hfd ▸ List.mem_append_right _ List.mem_cons_self)
  | @found f rest u hfd hf _ =>
      apply iff_of_false (Option.some_ne_none u)
      intro hall
      have hpasses := hall (some f) (hfd ▸ List.mem_append_right _ List.mem_cons_self)
      simp [passes, hf] at hpasses

/-- The output never overflows: `fs_details` fails exactly when `kmalloc` has failed, or when no
descriptor is closed and none matches. -/
theorem fsDetails_eq_none_iff (allocated : Bool) (table : FdTable) (filename : List Byte) (s : State) :
    fsDetails allocated table filename s = none ↔
      allocated = false ∨ ∀ slot ∈ table.fd, passes filename slot = true := by
  cases allocated with
  | false => exact iff_of_true rfl (Or.inl rfl)
  | true =>
      rw [fsDetails, if_pos rfl, Option.map_eq_none_iff, searchLoop_eq_none_iff]
      exact (or_iff_right (by decide)).symm

end Lkm.Fd
