import Lkm.BaseBuffer

/-! The conversion `%d` of the kernel's `sscanf` into an `int`. -/

namespace Lkm.Scan

open Buffer

def isSpace (c : Byte) : Bool := c = 0x20 || (0x09 ≤ c && c ≤ 0x0d) || c = 0xa0

def isDigit (c : Byte) : Bool := 0x30 ≤ c && c ≤ 0x39

def decimal (digits : List Byte) : Nat := digits.foldl (fun v c => 10 * v + (c.toNat - 0x30)) 0

/-- What is stored in an `int`. -/
def toInt32 (v : Int) : Int := (BitVec.ofInt 32 v).toInt

/-- `sscanf(buf, "%d", &v)`; `none` when `v` is not assigned. -/
def sscanfInt (buf : List Byte) : Option Int :=
  let str := buf.dropWhile isSpace
  let negative := str.head? = some 0x2d
  let digits := (if negative then str.tail else str).takeWhile isDigit
  if digits = [] then none
  else some (toInt32 (if negative then -(decimal digits : Int) else decimal digits))

theorem toInt32_eq_self {v : Int} (hlow : -2 ^ 31 ≤ v) (hhigh : v < 2 ^ 31) : toInt32 v = v := by
  rw [toInt32, BitVec.toInt_ofInt]
  exact Int.bmod_eq_of_le (by omega) (by omega)

/-- "1", " -7 x", a number of 32 bits that is taken for a negative one, and no number. -/
example : sscanfInt [0x31] = some 1 ∧ sscanfInt [0x20, 0x2d, 0x37, 0x20, 0x78] = some (-7) ∧
    toInt32 (2 ^ 32 - 1) = -1 ∧ sscanfInt [0x2b, 0x31] = none := by
  decide

end Lkm.Scan
