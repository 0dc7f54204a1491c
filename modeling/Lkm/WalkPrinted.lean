import Lkm.WalkModel

/-! The physical addresses that `ex8_13.c` prints by its page walk. They are the value of `pt`, which points
to a page-table entry, and the entry is not read; and a walk that fails leaves `pt` as the last one set
it. -/

namespace Lkm.Walk

open PageTable (Addr Pte ptePfnMask slotOf)
open Mem

/-- The frame number in an entry, times 4096, and the offset of the address in its page. -/
def translation (pte : Pte) (addr : Addr) : Addr := (pte &&& ptePfnMask) + (addr &&& 4095)

/-- The report of a demonstration that found `pt` as it is given: where `page_walk` succeeds it shows the
translation by the entry that is reached, and for an address that is said to be in the direct map also
what `virt_to_phys` gives; where it fails, it does not show what an earlier walk has left. -/
structure Translates (mm : Option Pgd) (pt : Addr) (direct : Prop) (r : Report) : Prop where
  succeeds : ∀ page, reach mm r.addr = some page →
    r.walked = translation (page.ptes (slotOf r.addr).pte) r.addr ∧
      (direct → r.walked = virtToPhys r.addr)
  fails : reach mm r.addr = none → ¬(pt ≠ 0 ∧ r.walked = pt)

/-- Both reports of `init` are right. -/
def BothTranslate (mm mm2 : Option Pgd) (kmalloc vmalloc : Addr) : Prop :=
  (∀ r, (init mm mm2 kmalloc vmalloc).1 = some r →
    Translates mm loaded.pt (pageOffset ≤ kmalloc) r) ∧
  (∀ r, (init mm mm2 kmalloc vmalloc).2.1 = some r →
    Translates mm2 (kmallocDemo mm kmalloc loaded).2.pt False r)

theorem translation_lt (pte : Pte) (addr : Addr) : (translation pte addr).toNat < 0xffff880000000000 := by
  have hframe : (pte &&& ptePfnMask).toNat ≤ 0x3ffffffff000 := by
    rw [BitVec.toNat_and]
    exact Nat.and_le_right
  have hoffset := toNat_and_4095 addr
  rw [translation, BitVec.toNat_add, hoffset]
  omega

/-- The place of an entry is in the upper half of the address space, a physical address is not. -/
theorem entryAddr_ne_translation (page : PtePage) (index : BitVec 9) (pte : Pte) (addr : Addr) :
    page.entryAddr index ≠ translation pte addr := by
  intro h
  have hlow := translation_lt pte addr
  rw [← h, toNat_entryAddr] at hlow
  omega

/-- What a demonstration prints by a walk is right exactly if the walk fails and no earlier one has
succeeded. -/
theorem translates_iff (mm : Option Pgd) (pt : Addr) (direct : Prop) (addr phys pa : Addr) :
    Translates mm pt direct ⟨addr, (pageWalk mm addr pt).2, phys, pa⟩ ↔
      reach mm addr = none ∧ pt = 0 := by
  cases hreach : reach mm addr with
  | none =>
      rw [(pageWalk_none hreach pt).2, and_iff_right rfl]
      constructor
      · intro h
        by_contra hpt
        exact h.fails hreach ⟨hpt, rfl⟩
      · intro hpt
        constructor
        · intro page hpage
          rw [hreach] at hpage
          cases hpage
        · rintro - ⟨hne, -⟩
          exact hne hpt
  | some page =>
      refine iff_of_false ?_ fun h => Option.some_ne_none page h.1
      intro h
      have htranslation := (h.succeeds page hreach).1
      rw [pageWalk_some hreach] at htranslation
      exact entryAddr_ne_translation page _ _ _ htranslation

/-- After the first demonstration `pt` is null exactly if its walk did not succeed. -/
theorem kmallocDemo_pt_iff (mm : Option Pgd) (kmalloc : Addr) :
    (kmallocDemo mm kmalloc loaded).2.pt = 0 ↔ kmalloc = 0 ∨ reach mm kmalloc = none := by
  by_cases hnull : kmalloc = 0
  · rw [hnull, kmallocDemo_null]
    exact iff_of_true rfl (Or.inl rfl)
  · rw [kmallocDemo_eq mm hnull, or_iff_right hnull]
    cases hreach : reach mm kmalloc with
    | none => exact iff_of_true (pageWalk_none hreach _).2 rfl
    | some page =>
        refine iff_of_false ?_ (Option.some_ne_none page)
        rw [pageWalk_some hreach]
        exact entryAddr_ne_zero page _

/-- Whatever the tables and the addresses of the two allocations, what `init` prints as physical addresses
by the page walk is right exactly if no walk that is made succeeds. -/
theorem translates_init_iff (mm mm2 : Option Pgd) (kmalloc vmalloc : Addr) :
    BothTranslate mm mm2 kmalloc vmalloc ↔
      (kmalloc = 0 ∨ reach mm kmalloc = none) ∧ (vmalloc = 0 ∨ reach mm2 vmalloc = none) := by
  have hfirst : (∀ r, (kmallocDemo mm kmalloc loaded).1 = some r →
      Translates mm loaded.pt (pageOffset ≤ kmalloc) r) ↔ kmalloc = 0 ∨ reach mm kmalloc = none := by
    by_cases hnull : kmalloc = 0
    · rw [hnull, kmallocDemo_null]
      refine iff_of_true ?_ (Or.inl rfl)
      intro r hr
      cases hr
    · rw [kmallocDemo_eq mm hnull, or_iff_right hnull]
      simp only [Option.some.injEq, forall_eq']
      rw [translates_iff]
      exact and_iff_left rfl
  have hsecond (g : Globals) : (∀ r, (vmallocDemo mm2 vmalloc g).1 = some r →
      Translates mm2 g.pt False r) ↔ vmalloc = 0 ∨ reach mm2 vmalloc = none ∧ g.pt = 0 := by
    by_cases hnull : vmalloc = 0
    · rw [hnull, vmallocDemo_null]
      refine iff_of_true ?_ (Or.inl rfl)
      intro r hr
      cases hr
    · rw [vmallocDemo_eq mm2 hnull, or_iff_right hnull]
      simp only [Option.some.injEq, forall_eq']
      exact translates_iff _ _ _ _ _ _
  have hboth : BothTranslate mm mm2 kmalloc vmalloc ↔ (kmalloc = 0 ∨ reach mm kmalloc = none) ∧
      (vmalloc = 0 ∨ reach mm2 vmalloc = none ∧ (kmallocDemo mm kmalloc loaded).2.pt = 0) :=
    and_congr hfirst (hsecond _)
  rw [hboth]
  refine and_congr_right fun hfailed => ?_
  rw [and_iff_left ((kmallocDemo_pt_iff mm kmalloc).mpr hfailed)]

/-- Tables in which every address is mapped. -/
def allMapped : Pgd := fun _ => .table fun _ => .table fun _ => .table ⟨5, fun _ => 0x163⟩

/-- The address of an entry is printed as the physical address of the allocation. -/
theorem translates_allMapped :
    ¬∀ mm mm2 kmalloc vmalloc, BothTranslate mm mm2 kmalloc vmalloc := by
  intro h
  have hnull : (0xffff880000100000 : Addr) ≠ 0 := by decide
  have hfirst := (h (some allMapped) none 0xffff880000100000 0).1 _
    (congrArg Prod.fst (kmallocDemo_eq (some allMapped) hnull loaded))
  exact Option.some_ne_none _ ((translates_iff _ _ _ _ _ _).mp hfirst).1

end Lkm.Walk
