import Lkm.BasePageTable

/-! The loop over all pages of all memory areas of a process: a linked list of areas outside, and
inside `for (addr = vm_start; addr <= vm_end; addr += PAGE_SIZE)` on 64-bit addresses. The body can
leave both loops with `return`. The address takes at most `2 ^ 52` values before it repeats, so an
inner loop that has not ended after that many rounds never does. `forVmas_eq` replaces the loops by
a fold over the list of the addresses that they visit. -/

namespace Lkm.PageTable

/-- An area as the kernel keeps it: page-aligned, not empty, and away from the end of the address
space. -/
structure Vma where
  vmStart : Addr
  vmEnd : Addr
  startAligned : vmStart.toNat % 4096 = 0
  endAligned : vmEnd.toNat % 4096 = 0
  start_lt_end : vmStart.toNat < vmEnd.toNat
  end_le : vmEnd.toNat ≤ 2 ^ 64 - 8192

structure Mm where
  mmap : List Vma
  pgd : Pgd

variable {α σ ρ : Type}

/-- A fold that stops when the body returns a value. -/
def foldUntil (body : α → σ → σ × Option ρ) : List α → σ → σ × Option ρ
  | [], s => (s, none)
  | a :: as, s =>
      match body a s with
      | (s, some r) => (s, some r)
      | (s, none) => foldUntil body as s

theorem foldUntil_append (body : α → σ → σ × Option ρ) (as bs : List α) (s : σ) :
    foldUntil body (as ++ bs) s =
      match foldUntil body as s with
      | (s, some r) => (s, some r)
      | (s, none) => foldUntil body bs s := by
  induction as generalizing s with
  | nil => rfl
  | cons a as ih =>
      simp only [List.cons_append, foldUntil]
      rcases body a s with ⟨t, _ | r⟩
      · exact ih t
      · rfl

/-- The inner loop; `none` when the rounds run out. -/
def forPages (body : Addr → σ → σ × Option ρ) (last : Addr) :
    Nat → Addr → σ → Option (σ × Option ρ)
  | 0, _, _ => none
  | rounds + 1, addr, s =>
      if addr ≤ last then
        match body addr s with
        | (s, some r) => some (s, some r)
        | (s, none) => forPages body last rounds (addr + 4096) s
      else some (s, none)

def maxRounds : Nat := 2 ^ 52 + 1

def forVmas (body : Addr → σ → σ × Option ρ) : List Vma → σ → Option (σ × Option ρ)
  | [], s => some (s, none)
  | vma :: rest, s =>
      match forPages body vma.vmEnd maxRounds vma.vmStart s with
      | some (s, none) => forVmas body rest s
      | result => result

/-! ### The addresses that the loops visit -/

def pagesFrom : Nat → Addr → List Addr
  | 0, _ => []
  | n + 1, addr => addr :: pagesFrom n (addr + 4096)

/-- How often the inner loop still runs. -/
def pagesLeft (last addr : Addr) : Nat :=
  if addr ≤ last then (last.toNat - addr.toNat) / 4096 + 1 else 0

theorem length_pagesFrom (n : Nat) (addr : Addr) : (pagesFrom n addr).length = n := by
  induction n generalizing addr with
  | zero => rfl
  | succ n ih => rw [pagesFrom, List.length_cons, ih]

theorem toNat_next (addr : Addr) (h : addr.toNat + 4096 < 2 ^ 64) :
    (addr + 4096).toNat = addr.toNat + 4096 := by
  rw [BitVec.toNat_add]
  exact Nat.mod_eq_of_lt (by simp only [BitVec.reduceToNat]; omega)

/-- One page further, with one page less to come. -/
theorem toNat_next_of_lt {n : Nat} {addr : Addr} (h : addr.toNat + 4096 * (n + 1) < 2 ^ 64) :
    (addr + 4096).toNat = addr.toNat + 4096 ∧ (addr + 4096).toNat + 4096 * n < 2 ^ 64 := by
  rw [Nat.mul_succ, ← Nat.add_assoc] at h
  have hnext := toNat_next addr (by omega)
  exact ⟨hnext, by omega⟩

theorem mem_pagesFrom_iff {n : Nat} {addr : Addr} (h : addr.toNat + 4096 * n < 2 ^ 64) (a : Addr) :
    a ∈ pagesFrom n addr ↔ ∃ i < n, a.toNat = addr.toNat + 4096 * i := by
  induction n generalizing addr with
  | zero => simp [pagesFrom]
  | succ n ih =>
      obtain ⟨hnext, hbound⟩ := toNat_next_of_lt h
      rw [pagesFrom, List.mem_cons, ih hbound, hnext]
      constructor
      · rintro (rfl | ⟨i, hi, ha⟩)
        · exact ⟨0, Nat.zero_lt_succ n, rfl⟩
        · exact ⟨i + 1, by omega, by omega⟩
      · rintro ⟨i, hi, ha⟩
        cases i with
        | zero => exact Or.inl (BitVec.eq_of_toNat_eq ha)
        | succ i => exact Or.inr ⟨i, by omega, by omega⟩

/-- The addresses increase as long as they do not wrap. -/
theorem pagesFrom_increasing {n : Nat} {addr : Addr} (h : addr.toNat + 4096 * n < 2 ^ 64) :
    (pagesFrom n addr).Pairwise (· < ·) := by
  induction n generalizing addr with
  | zero => exact List.Pairwise.nil
  | succ n ih =>
      obtain ⟨hnext, hbound⟩ := toNat_next_of_lt h
      rw [pagesFrom, List.pairwise_cons]
      refine ⟨fun a ha => ?_, ih hbound⟩
      obtain ⟨i, -, ha⟩ := (mem_pagesFrom_iff hbound a).mp ha
      rw [BitVec.lt_def]
      omega

theorem pagesFrom_concat {n : Nat} {addr last : Addr} (h : addr.toNat + 4096 * n = last.toNat) :
    pagesFrom (n + 1) addr = pagesFrom n addr ++ [last] := by
  induction n generalizing addr with
  | zero =>
      rw [BitVec.eq_of_toNat_eq h]
      rfl
  | succ n ih =>
      have hlt := last.isLt
      have hnext := toNat_next addr (by omega)
      have hrest : (addr + 4096).toNat + 4096 * n = last.toNat := by omega
      rw [pagesFrom, ih hrest]
      rfl

theorem forPages_eq (body : Addr → σ → σ × Option ρ) {last : Addr}
    (hlast : last.toNat + 4096 < 2 ^ 64) (n : Nat) :
    ∀ (rounds : Nat) (addr : Addr) (s : σ), n < rounds → pagesLeft last addr = n →
      forPages body last rounds addr s = some (foldUntil body (pagesFrom n addr) s) := by
  induction n with
  | zero =>
      intro rounds addr s hrounds hleft
      obtain ⟨rounds, rfl⟩ := Nat.exists_eq_succ_of_ne_zero (Nat.ne_of_gt hrounds)
      have hout : ¬addr ≤ last := by
        intro hle
        simp [pagesLeft, hle] at hleft
      simp only [forPages, if_neg hout, pagesFrom, foldUntil]
  | succ n ih =>
      intro rounds addr s hrounds hleft
      obtain ⟨rounds, rfl⟩ := Nat.exists_eq_succ_of_ne_zero (Nat.ne_zero_of_lt hrounds)
      have hin : addr ≤ last := by
        by_contra hout
        simp [pagesLeft, hout] at hleft
      simp only [pagesLeft, if_pos hin] at hleft
      have hle : addr.toNat ≤ last.toNat := hin
      -- The bound on `last` is used here: the increment after the last round does not wrap.
      have hnext := toNat_next addr (by omega)
      have hleft' : pagesLeft last (addr + 4096) = n := by
        unfold pagesLeft
        split_ifs with hle'
        · have : (addr + 4096).toNat ≤ last.toNat := hle'
          omega
        · have : ¬(addr + 4096).toNat ≤ last.toNat := hle'
          omega
      simp only [forPages, if_pos hin, pagesFrom, foldUntil]
      rcases body addr s with ⟨t, _ | r⟩
      · exact ih rounds (addr + 4096) t (by omega) hleft'
      · rfl

/-! ### Ranges

`for (i = addr; i < last; i += PAGE_SIZE)`, with a body that can fail. -/

def forRange (body : σ → Addr → Option σ) (last : Addr) : Nat → Addr → σ → Option σ
  | 0, _, _ => none
  | rounds + 1, addr, s =>
      if addr < last then (body s addr).bind fun s => forRange body last rounds (addr + 4096) s
      else some s

/-- A loop over `n` pages that ends at the last byte of the address space or before it. -/
theorem forRange_eq (body : σ → Addr → Option σ) (n rounds : Nat) (addr : Addr) {last : Addr}
    (hrounds : n < rounds) (hlast : addr.toNat + 4096 * n = last.toNat) (s : σ) :
    forRange body last rounds addr s = (pagesFrom n addr).foldlM body s := by
  induction n generalizing rounds addr s with
  | zero =>
      obtain ⟨rounds, rfl⟩ := Nat.exists_eq_succ_of_ne_zero (Nat.ne_of_gt hrounds)
      have hout : ¬addr < last := by
        rw [BitVec.lt_def]
        omega
      rw [forRange, if_neg hout]
      rfl
  | succ n ih =>
      obtain ⟨rounds, rfl⟩ := Nat.exists_eq_succ_of_ne_zero (Nat.ne_zero_of_lt hrounds)
      have hlt := last.isLt
      have hin : addr < last := by
        rw [BitVec.lt_def]
        omega
      have hnext := toNat_next addr (by omega)
      have hrest : (addr + 4096).toNat + 4096 * n = last.toNat := by omega
      rw [forRange, if_pos hin, pagesFrom, List.foldlM_cons]
      apply Option.bind_congr
      intro t _
      exact ih rounds (addr + 4096) (Nat.lt_of_succ_lt_succ hrounds) hrest t

namespace Vma

def pages (vma : Vma) : List Addr := pagesFrom (pagesLeft vma.vmEnd vma.vmStart) vma.vmStart

theorem pagesLeft_lt (vma : Vma) : pagesLeft vma.vmEnd vma.vmStart < maxRounds := by
  have := vma.vmEnd.isLt
  unfold pagesLeft maxRounds
  split_ifs <;> omega

/-- The loop over one area ends, and these are the pages that it visits. -/
theorem forPages_pages (body : Addr → σ → σ × Option ρ) (vma : Vma) (s : σ) :
    forPages body vma.vmEnd maxRounds vma.vmStart s = some (foldUntil body vma.pages s) := by
  have hend := vma.end_le
  exact forPages_eq body (by omega) _ _ _ _ vma.pagesLeft_lt rfl

/-- How many pages the range `[vm_start, vm_end)` has. -/
def size (vma : Vma) : Nat := (vma.vmEnd.toNat - vma.vmStart.toNat) / 4096

/-- The pages of the range `[vm_start, vm_end)`. -/
def inside (vma : Vma) : List Addr := pagesFrom vma.size vma.vmStart

theorem start_add_size (vma : Vma) : vma.vmStart.toNat + 4096 * vma.size = vma.vmEnd.toNat := by
  have hstart := vma.startAligned
  have hend := vma.endAligned
  have hlt := vma.start_lt_end
  unfold size
  omega

theorem mem_inside_iff (vma : Vma) (a : Addr) :
    a ∈ vma.inside ↔ a.toNat % 4096 = 0 ∧ vma.vmStart ≤ a ∧ a < vma.vmEnd := by
  have hsize := vma.start_add_size
  have hstart := vma.startAligned
  rw [inside, mem_pagesFrom_iff (hsize ▸ vma.vmEnd.isLt), BitVec.le_def, BitVec.lt_def]
  constructor
  · rintro ⟨i, hi, ha⟩
    omega
  · rintro ⟨haligned, hle, hlt⟩
    exact ⟨(a.toNat - vma.vmStart.toNat) / 4096, by omega, by omega⟩

theorem inside_increasing (vma : Vma) : vma.inside.Pairwise (· < ·) :=
  pagesFrom_increasing (vma.start_add_size ▸ vma.vmEnd.isLt)

theorem length_inside (vma : Vma) : vma.inside.length = vma.size := length_pagesFrom _ _

/-- The loop goes one page further than the range. -/
theorem pages_eq (vma : Vma) : vma.pages = vma.inside ++ [vma.vmEnd] := by
  have hsize := vma.start_add_size
  have hle : vma.vmStart ≤ vma.vmEnd := by
    rw [BitVec.le_def]
    omega
  rw [pages, pagesLeft, if_pos hle]
  exact pagesFrom_concat hsize

end Vma

/-- The page addresses that the loops visit when the body never returns. -/
def Mm.pages (mm : Mm) : List Addr := mm.mmap.flatMap Vma.pages

theorem forVmas_eq (body : Addr → σ → σ × Option ρ) (mmap : List Vma) (s : σ) :
    forVmas body mmap s = some (foldUntil body (mmap.flatMap Vma.pages) s) := by
  induction mmap generalizing s with
  | nil => rfl
  | cons vma rest ih =>
      rw [forVmas, vma.forPages_pages, List.flatMap_cons, foldUntil_append]
      change (match some (foldUntil body vma.pages s) with | some (s, none) => _ | result => result) = _
      rcases foldUntil body vma.pages s with ⟨t, _ | r⟩
      · exact ih t
      · rfl

/-! ### Areas of any shape

The same loops over areas of which nothing is known. An inner loop need not end; what can be said is
that the addresses it comes to, and whether it ends after them, do not depend on the body. -/

structure Span where
  vmStart : Addr
  vmEnd : Addr

def Vma.span (vma : Vma) : Span := ⟨vma.vmStart, vma.vmEnd⟩

def forSpans (body : Addr → σ → σ × Option ρ) : List Span → σ → Option (σ × Option ρ)
  | [], s => some (s, none)
  | span :: rest, s =>
      match forPages body span.vmEnd maxRounds span.vmStart s with
      | some (s, none) => forSpans body rest s
      | result => result

theorem forVmas_eq_forSpans (body : Addr → σ → σ × Option ρ) (mmap : List Vma) (s : σ) :
    forVmas body mmap s = forSpans body (mmap.map Vma.span) s := by
  induction mmap generalizing s with
  | nil => rfl
  | cons vma rest ih =>
      rw [List.map_cons, forVmas, forSpans]
      change _ = match forPages body vma.vmEnd maxRounds vma.vmStart s with
        | some (s, none) => forSpans body (rest.map Vma.span) s
        | result => result
      split
      · exact ih _
      · rfl

/-- The result of a loop that has gone through its addresses: if it does not end there, it needs a
`return` of the body. -/
def finish (ended : Bool) (r : σ × Option ρ) : Option (σ × Option ρ) :=
  if ended || r.2.isSome then some r else none

theorem forPages_eq_finish (last : Addr) (rounds : Nat) (addr : Addr) :
    ∃ addrs ended, ∀ (body : Addr → σ → σ × Option ρ) s,
      forPages body last rounds addr s = finish ended (foldUntil body addrs s) := by
  induction rounds generalizing addr with
  | zero => exact ⟨[], false, fun _ _ => rfl⟩
  | succ rounds ih =>
      by_cases hin : addr ≤ last
      · obtain ⟨addrs, ended, hloop⟩ := ih (addr + 4096)
        refine ⟨addr :: addrs, ended, fun body s => ?_⟩
        rw [forPages, if_pos hin, foldUntil]
        rcases body addr s with ⟨t, _ | r⟩
        · exact hloop body t
        · rw [finish, Option.isSome_some, Bool.or_true, if_pos rfl]
      · refine ⟨[], true, fun body s => ?_⟩
        rw [forPages, if_neg hin]
        rfl

theorem forSpans_eq_finish (spans : List Span) :
    ∃ addrs ended, ∀ (body : Addr → σ → σ × Option ρ) s,
      forSpans body spans s = finish ended (foldUntil body addrs s) := by
  induction spans with
  | nil => exact ⟨[], true, fun _ _ => rfl⟩
  | cons span rest ih =>
      obtain ⟨as, ended, hspan⟩ := forPages_eq_finish (σ := σ) (ρ := ρ) span.vmEnd maxRounds span.vmStart
      obtain ⟨bs, ended', hrest⟩ := ih
      cases ended with
      | true =>
          refine ⟨as ++ bs, ended', fun body s => ?_⟩
          rw [forSpans, hspan, foldUntil_append, finish, Bool.true_or, if_pos rfl]
          rcases foldUntil body as s with ⟨t, _ | r⟩
          · exact hrest body t
          · rw [finish, Option.isSome_some, Bool.or_true, if_pos rfl]
      | false =>
          -- The loop over this area only ends with a `return`, and so does the whole walk.
          refine ⟨as, false, fun body s => ?_⟩
          rw [forSpans, hspan, finish, Bool.false_or]
          rcases foldUntil body as s with ⟨t, _ | r⟩ <;> rfl

end Lkm.PageTable
