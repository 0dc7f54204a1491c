import Lkm.BaseFormat
import Mathlib.Algebra.Order.BigOperators.Group.List
import Mathlib.Algebra.Order.Group.Nat
import Mathlib.Data.List.DropRight

/-! The search of `fs_details` in `ex9/exer9_ver3.c`: it goes through the descriptors of a process until
it comes to one that is closed, and writes a description of the first one it finds whose path ends in
the name. The table is the array of pointers that `files_fdtable` gives; reading behind it is `none`. -/

namespace Lkm.Fd

open Buffer Format

/-- A path that `d_path` can return in a buffer of 100 bytes. -/
structure Path where
  bytes : List Byte
  nulFree : 0 ∉ bytes
  length_lt : bytes.length < 100

structure Inode where
  atimeNsec : BitVec 64
  mtimeNsec : BitVec 64
  blocks : BitVec 64
  size : BitVec 64
  bytes : BitVec 64
  ino : BitVec 64

structure File where
  path : Path
  inode : Inode
  count : BitVec 64
  pos : BitVec 64
  opOpen : BitVec 64
  opRelease : BitVec 64

/-- The descriptors, of which the kernel allows fewer than `2 ^ 31`; `none` is a closed one. -/
structure FdTable where
  fd : List (Option File)
  bound : fd.length < 2 ^ 31

/-- `strrchr(s, c)`: where the last `c` is. -/
def strrchr (c : Byte) : List Byte → Option Nat
  | [] => none
  | x :: xs =>
      match strrchr c xs with
      | some i => some (i + 1)
      | none => if x = c then some 0 else none

def kbasename (path : List Byte) : List Byte :=
  match strrchr 0x2f path with
  | some tail => path.drop (tail + 1)
  | none => path

/-- `%ld`. -/
def formatLong (v : BitVec 64) : List Byte := formatInt v.toInt

/-- The text for the descriptor `i`. -/
def describe (i : Nat) (f : File) : List Byte :=
  ascii "file fd: " ++ formatInt i ++ ascii "\n Path : " ++ f.path.bytes ++
    ascii " \n Acess time " ++ formatLong f.inode.atimeNsec ++
    ascii " \n Modified Time " ++ formatLong f.inode.mtimeNsec ++
    ascii " \n blocks " ++ formatLong f.inode.blocks ++
    ascii " \n Size in bytes " ++ formatLong f.inode.size ++
    ascii " \n Consumed bytes " ++ formatLong f.inode.bytes ++
    ascii " \n No ofopen instances " ++ formatLong f.count ++
    ascii " \n inode no " ++ formatLong f.inode.ino ++
    ascii " \n offset " ++ formatLong f.pos ++
    ascii " \n open function address " ++ formatPtr f.opOpen ++
    ascii " \n relese function address " ++ formatPtr f.opRelease ++ ascii " \n"

/-- The line in the kernel log for every descriptor that the search looks at. -/
def pathLine (f : File) : List Byte :=
  ascii "path " ++ f.path.bytes ++ ascii ", filename " ++ kbasename f.path.bytes

/-- The lines in the kernel log for the descriptor that it finds. -/
def foundLines (i : Nat) (f : File) : List (List Byte) :=
  [ascii "file fd " ++ formatInt i ++ ascii " " ++ f.path.bytes ++ ascii "\n",
    ascii "Acess time " ++ formatLong f.inode.atimeNsec ++ ascii "\n",
    ascii "MOdified time " ++ formatLong f.inode.mtimeNsec ++ ascii "\n",
    ascii "blocks " ++ formatLong f.inode.blocks ++ ascii "\n",
    ascii "size in bytes " ++ formatLong f.inode.size ++ ascii "\n",
    ascii "consumed bytes " ++ formatLong f.inode.bytes ++ ascii "\n",
    ascii "NO of open instances " ++ formatLong f.count ++ ascii "\n",
    ascii "inode no: " ++ formatLong f.inode.ino ++ ascii "\n",
    ascii "offset " ++ formatLong f.pos ++ ascii "\n",
    ascii "open function address " ++ formatPtr f.opOpen ++ ascii "\n",
    ascii "release function address " ++ formatPtr f.opRelease ++ ascii "\n"]

/-- The output of the module and the kernel log. -/
structure State where
  output : Buf 500
  log : List (List Byte)

/-- The loop of `fs_details` from the descriptor `i` on, over the rest of the table. -/
def searchLoop (filename : List Byte) : Nat → List (Option File) → State → Option State
  | _, [], _ => none
  | _, none :: _, s => some s
  | i, some f :: rest, s => do
      let s := { s with log := s.log ++ [pathLine f] }
      if kbasename f.path.bytes = filename then
        let output ← sprintf s.output (describe i f)
        return { s with output := output, log := s.log ++ foundLines i f }
      else searchLoop filename (i + 1) rest s

/-- `fs_details(filename, pid)` for a process with this table. `allocated` says whether `kmalloc` returns
a path buffer, which is cleared without looking. -/
def fsDetails (allocated : Bool) (table : FdTable) (filename : List Byte) (s : State) : Option State :=
  if allocated then
    (searchLoop filename 0 table.fd { s with output := zeroed 500 }).map fun s =>
      { s with log := s.log ++ [ascii "inside the fs_details function\n"] }
  else none

/-! ### The last component of a path -/

theorem strrchr_concat (c x : Byte) (xs : List Byte) :
    strrchr c (xs ++ [x]) = if x = c then some xs.length else strrchr c xs := by
  induction xs with
  | nil => rfl
  | cons y ys ih =>
      rw [List.cons_append, strrchr, ih]
      by_cases hx : x = c
      · rw [if_pos hx, if_pos hx, List.length_cons]
      · rw [if_neg hx, if_neg hx, strrchr]

theorem strrchr_lt {c : Byte} {xs : List Byte} {i : Nat} (h : strrchr c xs = some i) : i < xs.length := by
  induction xs using List.reverseRecOn with
  | nil => cases h
  | append_singleton xs x ih =>
      rw [strrchr_concat] at h
      rw [List.length_append, List.length_singleton]
      by_cases hx : x = c
      · rw [if_pos hx, Option.some.injEq] at h
        omega
      · rw [if_neg hx] at h
        exact Nat.lt_succ_of_lt (ih h)

/-- What is behind the last slash, or the whole path if there is none. -/
theorem kbasename_eq (path : List Byte) : kbasename path = path.rtakeWhile (· ≠ 0x2f) := by
  induction path using List.reverseRecOn with
  | nil => rfl
  | append_singleton xs x ih =>
      rw [kbasename] at ih ⊢
      rw [strrchr_concat]
      by_cases hx : x = 0x2f
      · rw [if_pos hx, List.rtakeWhile_concat_neg _ _ x (by simpa using hx)]
        exact List.drop_of_length_le (by rw [List.length_append, List.length_singleton])
      · rw [if_neg hx, List.rtakeWhile_concat_pos _ _ x (by simpa using hx), ← ih]
        cases hlast : strrchr 0x2f xs with
        | none => rfl
        | some i => exact List.drop_append_of_le_length (strrchr_lt hlast)

/-! ### The description -/

theorem length_formatLong_le (v : BitVec 64) : (formatLong v).length ≤ 20 := by
  have hlow := BitVec.le_toInt v
  have hhigh := BitVec.toInt_lt (x := v)
  exact length_formatInt_le (k := 19) (by decide) (by omega) (by omega)

theorem nul_notMem_formatLong (v : BitVec 64) : 0 ∉ formatLong v := nul_notMem_formatInt v.toInt

/-- The values that the description prints with `%ld`. -/
def numbers (f : File) : List (BitVec 64) :=
  [f.inode.atimeNsec, f.inode.mtimeNsec, f.inode.blocks, f.inode.size, f.inode.bytes, f.count,
    f.inode.ino, f.pos]

/-- How many bytes they take. -/
def numbersWidth (f : File) : Nat := ((numbers f).map fun v => (formatLong v).length).sum

theorem numbersWidth_le (f : File) : numbersWidth f ≤ 160 := by
  have hwidth : ∀ w ∈ (numbers f).map (fun v => (formatLong v).length), w ≤ 20 := by
    intro w hw
    obtain ⟨v, -, rfl⟩ := List.mem_map.mp hw
    exact length_formatLong_le v
  exact List.sum_le_card_nsmul _ 20 hwidth

/-- The literals take 193 bytes and the two pointers 32. -/
theorem length_describe (i : Nat) (f : File) :
    (describe i f).length = 225 + (formatInt i).length + f.path.bytes.length + numbersWidth f := by
  unfold describe
  simp only [numbersWidth, numbers, List.map_cons, List.map_nil, List.sum_cons, List.sum_nil,
    List.length_append, length_ascii, String.reduceToList, List.length_cons, List.length_nil,
    length_formatPtr]
  omega

theorem length_describe_le {i : Nat} (hi : i < 2 ^ 31) (f : File) : (describe i f).length ≤ 494 := by
  have hindex : (formatInt i).length ≤ 10 :=
    length_formatInt_le (v := i) (k := 9) (by decide) (by omega) (by omega)
  have hpath := f.path.length_lt
  have hnumbers := numbersWidth_le f
  rw [length_describe]
  omega

/-- The description fits the output with its terminator. -/
theorem length_describe_lt {i : Nat} (hi : i < 2 ^ 31) (f : File) : (describe i f).length < 500 :=
  (length_describe_le hi f).trans_lt (by decide)

theorem nul_notMem_describe (i : Nat) (f : File) : 0 ∉ describe i f := by
  unfold describe
  simp only [List.mem_append, nul_notMem_formatInt, nul_notMem_formatLong,
    nul_notMem_formatPtr, f.path.nulFree, or_false]
  decide

end Lkm.Fd
