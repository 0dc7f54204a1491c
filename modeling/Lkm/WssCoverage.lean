import Lkm.WssModel

/-! What one call of `wss_marking` reaches in an address space. The walk ends at the first address
that has no table on one of the levels, so the pages behind it are not marked, and the loop over an
area goes on to the page at `vm_end`, which may belong to no area. -/

namespace Lkm.Wss.Demo3

open PageTable

/-- The page lies in the range `[vm_start, vm_end)` of an area. -/
def InArea (mm : Mm) (slot : Slot) : Prop :=
  ∃ vma ∈ mm.mmap, ∃ addr, vma.vmStart ≤ addr ∧ addr < vma.vmEnd ∧ slotOf addr = slot

/-- `now` is what marking should make of `pte`: `_PAGE_PROTNONE` is set, `_PAGE_PRESENT` is clear, and
the other bits are the same. -/
structure Marked (pte now : Pte) : Prop where
  present : isPresent now = false
  protnone : isProtnone now = true
  others : ∀ i, i ≠ 0 → i ≠ 8 → now.getLsbD i = pte.getLsbD i

/-- Every present page of an area is marked, and the entries of the pages outside all areas are
unchanged. -/
structure Covers (mm mm' : Mm) : Prop where
  marked : ∀ slot pte, InArea mm slot → lookup mm.pgd slot = some pte → ptePresent pte = true →
    ∃ now, lookup mm'.pgd slot = some now ∧ Marked pte now
  frame : ∀ slot, ¬InArea mm slot → lookup mm'.pgd slot = lookup mm.pgd slot

/-- The addresses that the loops come to before the first one that lacks a table. -/
def reached (mm : Mm) : List Addr :=
  mm.pages.takeWhile fun addr => (lookup mm.pgd (slotOf addr)).isSome

/-- The page has an entry with `_PAGE_PRESENT`. -/
def HasPresent (mm : Mm) (slot : Slot) : Prop :=
  ∃ pte, lookup mm.pgd slot = some pte ∧ isPresent pte = true

/-- Every page of an area with `_PAGE_PRESENT` comes before the first address that lacks a table, and
no page outside all areas with `_PAGE_PRESENT` does. -/
def WalkComplete (mm : Mm) : Prop :=
  (∀ slot, InArea mm slot → HasPresent mm slot → ∃ addr ∈ reached mm, slotOf addr = slot) ∧
    ∀ addr ∈ reached mm, HasPresent mm (slotOf addr) → InArea mm (slotOf addr)

theorem marked_iff {pte now : Pte} : Marked pte now ↔ now = markPte pte := by
  constructor
  · rintro ⟨hpresent, hprotnone, hothers⟩
    apply BitVec.eq_of_getLsbD_eq
    intro i _
    rw [getLsbD_markPte]
    split_ifs with h0 h8
    · rw [h0]
      exact hpresent
    · rw [h8]
      exact hprotnone
    · exact hothers i h0 h8
  · rintro rfl
    refine ⟨isPresent_markPte pte, isProtnone_markPte pte, fun i h0 h8 => ?_⟩
    rw [getLsbD_markPte, if_neg h0, if_neg h8]

/-- Marking a page of which `pte_present` holds changes its entry exactly if the entry has
`_PAGE_PRESENT`. -/
theorem markPte_eq_self_iff {pte : Pte} (h : ptePresent pte = true) :
    markPte pte = pte ↔ isPresent pte = false := by
  constructor
  · intro heq
    rw [← heq, isPresent_markPte]
  · intro hpresent
    have hprotnone : isProtnone pte = true := by
      rcases (ptePresent_iff pte).mp h with hp | hp
      · rw [hpresent] at hp
        cases hp
      · exact hp
    exact (marked_iff.mp ⟨hpresent, hprotnone, fun _ _ _ => rfl⟩).symm

/-- The pages that a pass marks are those for which `pte_present` holds among the addresses before the
first hole. -/
theorem mem_marks_iff (view : Slot → Option Bool) (addrs : List Addr) (slot : Slot) :
    slot ∈ marks view addrs ↔ view slot = some true ∧
      ∃ addr ∈ addrs.takeWhile (fun addr => (view (slotOf addr)).isSome), slotOf addr = slot := by
  induction addrs with
  | nil => simp [marks]
  | cons addr rest ih =>
      rw [marks, List.takeWhile_cons]
      cases hview : view (slotOf addr) with
      | none => simp
      | some present =>
          simp only [Option.isSome_some, if_true, List.exists_mem_cons_iff]
          cases present with
          | true =>
              simp only [List.mem_cons, ih]
              constructor
              · rintro (rfl | ⟨hslot, hmem⟩)
                · exact ⟨hview, Or.inl rfl⟩
                · exact ⟨hslot, Or.inr hmem⟩
              · rintro ⟨hslot, rfl | hmem⟩
                · exact Or.inl rfl
                · exact Or.inr ⟨hslot, hmem⟩
          | false =>
              simp only [ih]
              constructor
              · rintro ⟨hslot, hmem⟩
                exact ⟨hslot, Or.inr hmem⟩
              · rintro ⟨hslot, rfl | hmem⟩
                · rw [hview] at hslot
                  cases hslot
                · exact ⟨hslot, hmem⟩

theorem mem_markedSlots_iff (mm : Mm) (slot : Slot) :
    slot ∈ markedSlots mm ↔
      (∃ pte, lookup mm.pgd slot = some pte ∧ ptePresent pte = true) ∧
        ∃ addr ∈ reached mm, slotOf addr = slot := by
  rw [markedSlots, mem_marks_iff, presentAt, Option.map_eq_some_iff]
  simp only [reached, presentAt, Option.isSome_map]

theorem covers_iff (mm : Mm) : Covers mm { mm with pgd := markPgd mm } ↔ WalkComplete mm := by
  have hpresent {slot : Slot} (h : HasPresent mm slot) :
      ∃ pte, lookup mm.pgd slot = some pte ∧ ptePresent pte = true := by
    obtain ⟨pte, hpte, hbit⟩ := h
    exact ⟨pte, hpte, (ptePresent_iff pte).mpr (Or.inl hbit)⟩
  constructor
  · rintro ⟨hmarked, hframe⟩
    constructor
    · rintro slot harea ⟨pte, hpte, hbit⟩
      have hpte' := (ptePresent_iff pte).mpr (Or.inl hbit)
      obtain ⟨now, hnow, hmark⟩ := hmarked slot pte harea hpte hpte'
      by_contra hnot
      have hout : slot ∉ markedSlots mm := fun hmem => hnot ((mem_markedSlots_iff mm slot).mp hmem).2
      rw [lookup_markPgd, if_neg hout, hpte, Option.some.injEq] at hnow
      rw [hnow, hmark.present] at hbit
      cases hbit
    · rintro addr haddr ⟨pte, hpte, hbit⟩
      by_contra hout
      have hmem := (mem_markedSlots_iff mm _).mpr ⟨hpresent ⟨pte, hpte, hbit⟩, addr, haddr, rfl⟩
      have hsame := hframe (slotOf addr) hout
      rw [lookup_markPgd, if_pos hmem, hpte, Option.map_some, Option.some.injEq] at hsame
      rw [← hsame, isPresent_markPte] at hbit
      cases hbit
  · rintro ⟨hreach, hinside⟩
    constructor
    · intro slot pte harea hpte hpte'
      refine ⟨markPte pte, ?_, marked_iff.mpr rfl⟩
      rw [lookup_markPgd]
      by_cases hmem : slot ∈ markedSlots mm
      · rw [if_pos hmem, hpte, Option.map_some]
      · have hbit : isPresent pte = false := by
          rw [← Bool.not_eq_true]
          intro hbit
          exact hmem ((mem_markedSlots_iff mm slot).mpr
            ⟨⟨pte, hpte, hpte'⟩, hreach slot harea ⟨pte, hpte, hbit⟩⟩)
        rw [if_neg hmem, hpte, (markPte_eq_self_iff hpte').mpr hbit]
    · intro slot hout
      rw [lookup_markPgd]
      by_cases hmem : slot ∈ markedSlots mm
      · obtain ⟨⟨pte, hpte, hpte'⟩, addr, haddr, rfl⟩ := (mem_markedSlots_iff mm slot).mp hmem
        have hbit : isPresent pte = false := by
          rw [← Bool.not_eq_true]
          intro hbit
          exact hout (hinside addr haddr ⟨pte, hpte, hbit⟩)
        rw [if_pos hmem, hpte, Option.map_some, (markPte_eq_self_iff hpte').mpr hbit]
      · rw [if_neg hmem]

/-- `wss_marking` ends, and it marks the present pages of all areas and touches no entry outside them
exactly when these pages come before the first address without a table and no page outside the areas
that comes before it has `_PAGE_PRESENT`. -/
theorem coverage_iff (ts : Task) :
    ∃ t code, wssMarking (some ts) = some (some t, code) ∧
      (Covers ts.mm t.mm ↔ WalkComplete ts.mm) := by
  obtain ⟨code, h⟩ := wssMarking_some ts
  exact ⟨_, code, h, covers_iff ts.mm⟩

/-- Two areas of one page each. The first one has no table on the last level, the page of the second
is present. -/
def holeFirst : Mm where
  mmap := [oneArea, ⟨0x600000, 0x601000, by decide, by decide, by decide, by decide⟩]
  pgd := fun _ => .table fun _ => .table fun i => if i = 2 then .none else .table fun _ => 0x25

/-- The walk ends in the first area, and the page of the second one stays present. -/
theorem coverage_holeFirst :
    ¬∀ ts t code, wssMarking (some ts) = some (some t, code) → Covers ts.mm t.mm := by
  intro h
  obtain ⟨code, hmark⟩ := wssMarking_some ⟨7, holeFirst⟩
  have hcovers := h _ _ code hmark
  have hslot : InArea holeFirst (slotOf 0x600000) :=
    ⟨_, List.mem_cons_of_mem _ List.mem_cons_self, 0x600000, by decide, by decide, rfl⟩
  obtain ⟨now, hnow, hmarked⟩ := hcovers.marked (slotOf 0x600000) 0x25 hslot rfl (by decide)
  have hsame : lookup (markPgd holeFirst) (slotOf 0x600000) = some 0x25 := by decide
  have heq : now = 0x25 := Option.some.inj (hnow.symm.trans hsame)
  have hpresent := hmarked.present
  rw [heq] at hpresent
  exact absurd hpresent (by decide)

end Lkm.Wss.Demo3
