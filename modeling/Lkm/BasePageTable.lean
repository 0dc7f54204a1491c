import Mathlib.Logic.Function.Basic
import Mathlib.Data.BitVec

/-! Page-table entries and four-level page tables as x86-64 has them. An entry is a 64-bit word of
flags and a frame number; a table maps nine bits of an address to the entries of the next level.
Tables are only read and written through `lookup` and `modify`, and `lookup_modify` is all that the
developments over them need to know. -/

namespace Lkm.PageTable

abbrev Addr := BitVec 64
abbrev Pte := BitVec 64

/-! ### Entries -/

def pagePresent : Pte := BitVec.twoPow 64 0

/-- The bit that means "global" in a present entry and "protection none" in another one. -/
def pageProtnone : Pte := BitVec.twoPow 64 8

/-- The frame number: bits 12 to 45 of an entry. -/
def ptePfnMask : Pte := 0x3ffffffff000

def pteFlags (pte : Pte) : BitVec 64 := pte &&& ~~~ptePfnMask

def pteSetFlags (pte set : BitVec 64) : Pte := pte ||| set

def pteClearFlags (pte clear : BitVec 64) : Pte := pte &&& ~~~clear

def ptePresent (pte : Pte) : Bool := pteFlags pte &&& (pagePresent ||| pageProtnone) ≠ 0#64

/-- The hardware bit: an access through the entry does not fault. -/
def isPresent (pte : Pte) : Bool := pte.getLsbD 0

def isProtnone (pte : Pte) : Bool := pte.getLsbD 8

theorem ptePfnMask_flag {i : Nat} (hi : i = 0 ∨ i = 8) : ptePfnMask.getLsbD i = false := by
  rcases hi with rfl | rfl <;> decide

theorem getLsbD_pteFlags {i : Nat} (hi : i = 0 ∨ i = 8) (pte : Pte) :
    (pteFlags pte).getLsbD i = pte.getLsbD i := by
  have hlt : i < 64 := by omega
  simp only [pteFlags, BitVec.getLsbD_and, BitVec.getLsbD_not, ptePfnMask_flag hi, hlt, decide_true,
    Bool.not_false, Bool.and_true]

@[simp] theorem isPresent_pteFlags (pte : Pte) : isPresent (pteFlags pte) = isPresent pte :=
  getLsbD_pteFlags (Or.inl rfl) pte

@[simp] theorem isProtnone_pteFlags (pte : Pte) : isProtnone (pteFlags pte) = isProtnone pte :=
  getLsbD_pteFlags (Or.inr rfl) pte

theorem ptePresent_iff (pte : Pte) :
    ptePresent pte = true ↔ isPresent pte = true ∨ isProtnone pte = true := by
  have hbit : ∀ i, (pteFlags pte &&& (pagePresent ||| pageProtnone)).getLsbD i =
      ((pteFlags pte).getLsbD i && (decide (0 = i) || decide (8 = i))) := by
    intro i
    simp only [pagePresent, pageProtnone, BitVec.getLsbD_and, BitVec.getLsbD_or,
      BitVec.getLsbD_twoPow, Nat.zero_lt_succ, Nat.reduceLT, decide_true, Bool.true_and]
  simp only [ptePresent, ne_eq, decide_eq_true_eq]
  constructor
  · intro h
    by_contra hnone
    simp only [not_or, Bool.not_eq_true] at hnone
    obtain ⟨hpresent, hprotnone⟩ := hnone
    rw [← isPresent_pteFlags] at hpresent
    rw [← isProtnone_pteFlags] at hprotnone
    apply h
    apply BitVec.eq_of_getLsbD_eq
    intro i _
    rw [hbit, BitVec.getLsbD_zero]
    by_cases h0 : 0 = i
    · subst h0
      rw [show (pteFlags pte).getLsbD 0 = false from hpresent, Bool.false_and]
    · by_cases h8 : 8 = i
      · subst h8
        rw [show (pteFlags pte).getLsbD 8 = false from hprotnone, Bool.false_and]
      · simp only [h0, h8, decide_false, Bool.or_self, Bool.and_false]
  · rintro h hzero
    have hclear : ∀ i, ((pteFlags pte).getLsbD i && (decide (0 = i) || decide (8 = i))) = false := by
      intro i
      rw [← hbit, hzero, BitVec.getLsbD_zero]
    rcases h with h | h
    · rw [← isPresent_pteFlags] at h
      have := hclear 0
      rw [show (pteFlags pte).getLsbD 0 = true from h] at this
      cases this
    · rw [← isProtnone_pteFlags] at h
      have := hclear 8
      rw [show (pteFlags pte).getLsbD 8 = true from h] at this
      cases this

/-- Setting one flag and clearing another one leaves the rest of the entry alone. -/
theorem getLsbD_clear_set {set clear : Nat} (hset : set < 64) (hclear : clear < 64) (pte : Pte)
    (i : Nat) :
    (pteClearFlags (pteSetFlags pte (BitVec.twoPow 64 set)) (BitVec.twoPow 64 clear)).getLsbD i =
      if i = clear then false else if i = set then true else pte.getLsbD i := by
  simp only [pteClearFlags, pteSetFlags, BitVec.getLsbD_and, BitVec.getLsbD_or, BitVec.getLsbD_not,
    BitVec.getLsbD_twoPow, hset, hclear, decide_true, Bool.true_and]
  by_cases hi : i < 64
  · by_cases hc : i = clear
    · simp [hc]
    · by_cases hs : i = set
      · simp [hs, hset, hs ▸ hc, Ne.symm (hs ▸ hc)]
      · simp [hi, hc, hs, Ne.symm hc, Ne.symm hs]
  · have hpte : pte.getLsbD i = false := BitVec.getLsbD_of_ge _ _ (Nat.le_of_not_lt hi)
    have hs : i ≠ set := by omega
    simp only [hi, hpte, hs, decide_false, Bool.false_and, Bool.and_false, if_false, ite_self]

/-! ### Tables -/

/-- An entry of one of the upper levels. A bad one does not point to a table, for example because
it maps a huge page. -/
inductive Entry (α : Type) where
  | none
  | bad
  | table (next : α)

namespace Entry

variable {α : Type}

/-- `none` where the callers of `pgd_none` and `pgd_bad` give up. -/
def table? : Entry α → Option α
  | .table next => some next
  | _ => Option.none

def modify (f : α → α) : Entry α → Entry α
  | .table next => .table (f next)
  | e => e

@[simp] theorem table?_modify (f : α → α) (e : Entry α) : (e.modify f).table? = e.table?.map f := by
  cases e <;> rfl

/-- A change that keeps the table behind an entry keeps the entry. -/
theorem modify_eq_self {f : α → α} {e : Entry α} (h : ∀ next, e.table? = some next → f next = next) :
    e.modify f = e := by
  cases e with
  | none => rfl
  | bad => rfl
  | table next => exact congrArg Entry.table (h next rfl)

end Entry

abbrev PteTable := BitVec 9 → Pte
abbrev Pmd := BitVec 9 → Entry PteTable
abbrev Pud := BitVec 9 → Entry Pmd
abbrev Pgd := BitVec 9 → Entry Pud

/-- The place of a page's entry: its index on each of the four levels. -/
structure Slot where
  pgd : BitVec 9
  pud : BitVec 9
  pmd : BitVec 9
  pte : BitVec 9
  deriving DecidableEq

def slotOf (addr : Addr) : Slot where
  pgd := addr.extractLsb' 39 9
  pud := addr.extractLsb' 30 9
  pmd := addr.extractLsb' 21 9
  pte := addr.extractLsb' 12 9

/-- The walk through `pgd_offset`, `pud_offset`, `pmd_offset` and `pte_offset_kernel`. -/
def lookup (pgd : Pgd) (slot : Slot) : Option Pte := do
  let pud ← (pgd slot.pgd).table?
  let pmd ← (pud slot.pud).table?
  let pte ← (pmd slot.pmd).table?
  return pte slot.pte

/-- `set_pte(pte, f(*pte))` at a slot that the walk reaches. -/
def modify (pgd : Pgd) (slot : Slot) (f : Pte → Pte) : Pgd :=
  Function.update pgd slot.pgd <| (pgd slot.pgd).modify fun pud =>
    Function.update pud slot.pud <| (pud slot.pud).modify fun pmd =>
      Function.update pmd slot.pmd <| (pmd slot.pmd).modify fun pte =>
        Function.update pte slot.pte (f (pte slot.pte))

theorem lookup_modify (pgd : Pgd) (slot : Slot) (f : Pte → Pte) (other : Slot) :
    lookup (modify pgd slot f) other =
      if other = slot then (lookup pgd slot).map f else lookup pgd other := by
  obtain ⟨i, j, k, l⟩ := slot
  obtain ⟨i', j', k', l'⟩ := other
  simp only [lookup, modify, Slot.mk.injEq, Option.pure_def, Option.bind_eq_bind]
  by_cases hi : i' = i
  swap
  · simp [hi]
  subst hi
  rw [Function.update_self, Entry.table?_modify]
  cases hpud : (pgd i').table? with
  | none => simp
  | some pud =>
      by_cases hj : j' = j
      swap
      · simp [hj]
      subst hj
      simp only [Option.map_some, Option.bind_some, Function.update_self, Entry.table?_modify]
      cases hpmd : (pud j').table? with
      | none => simp
      | some pmd =>
          by_cases hk : k' = k
          swap
          · simp [hk]
          subst hk
          simp only [Option.map_some, Option.bind_some, Function.update_self, Entry.table?_modify]
          cases hpte : (pmd k').table? with
          | none => simp
          | some pte =>
              by_cases hl : l' = l
              · simp [hl]
              · simp [hl]

/-- Storing into an entry what it holds leaves the tables as they are. -/
theorem modify_eq_self {pgd : Pgd} {slot : Slot} {f : Pte → Pte}
    (h : ∀ pte, lookup pgd slot = some pte → f pte = pte) : modify pgd slot f = pgd := by
  rw [modify, Function.update_eq_self_iff]
  apply Entry.modify_eq_self
  intro pud hpud
  rw [Function.update_eq_self_iff]
  apply Entry.modify_eq_self
  intro pmd hpmd
  rw [Function.update_eq_self_iff]
  apply Entry.modify_eq_self
  intro pte hpte
  rw [Function.update_eq_self_iff]
  apply h
  simp only [lookup, hpud, hpmd, hpte, Option.bind_eq_bind, Option.bind_some, Option.pure_def]

end Lkm.PageTable
