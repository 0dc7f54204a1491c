import Lkm.WssModel

/-! Marking twice. `start` of `wssdemo3.c` marks in every round, whatever happened since the last one.
A pass changes the flags of marked entries only, so the next pass goes the same way; and an entry that
is marked already is still seen as present, and marking it again does not change it. -/

namespace Lkm.Wss

open PageTable

/-- What a pass over `addrs` returns early: -2 at the first address without a table. -/
def exits (view : Slot → Option Bool) : List Addr → Option Int
  | [] => none
  | addr :: rest =>
      match view (slotOf addr) with
      | none => some (-2)
      | some _ => exits view rest

section Marking

variable {σ : Type} (onMark : Pte → σ → σ)

theorem foldUntil_markPage_exit (addrs : List Addr) (pgd : Pgd) (x : σ) :
    (foldUntil (markPage onMark) addrs (pgd, x)).2 = exits (presentAt pgd) addrs := by
  induction addrs generalizing pgd x with
  | nil => rfl
  | cons addr addrs ih =>
      cases hpte : lookup pgd (slotOf addr) with
      | none =>
          have hview : presentAt pgd (slotOf addr) = none := by rw [presentAt, hpte, Option.map_none]
          simp only [foldUntil, markPage_none onMark hpte, exits, hview]
      | some pte =>
          have hview : presentAt pgd (slotOf addr) = some (ptePresent pte) := by
            rw [presentAt, hpte, Option.map_some]
          cases hpresent : ptePresent pte with
          | false =>
              simp only [foldUntil, markPage_absent onMark hpte hpresent, exits, hview]
              exact ih pgd x
          | true =>
              rw [hpresent] at hview
              simp only [foldUntil, markPage_present onMark hpte hpresent, exits, hview]
              rw [ih, presentAt_markSlot hview]

/-- Marking an entry that is marked changes nothing. -/
theorem markSlot_eq_self {pgd : Pgd} {slot : Slot} {pte : Pte} (hpte : lookup pgd slot = some pte)
    (hmarked : markPte pte = pte) : markSlot pgd slot = pgd := by
  have hset : pteSetFlags pte pageProtnone = pte := by
    have hbit : pte.getLsbD 8 = true := by rw [← hmarked, getLsbD_markPte pte 8]; rfl
    apply BitVec.eq_of_getLsbD_eq
    intro i hi
    rw [pteSetFlags, pageProtnone, BitVec.getLsbD_or, BitVec.getLsbD_twoPow]
    by_cases h8 : 8 = i
    · rw [← h8, hbit, Bool.true_or]
    · rw [decide_eq_false h8, Bool.and_false, Bool.or_false]
  have hclear : pteClearFlags pte pagePresent = pte := by
    rw [markPte, hset] at hmarked
    exact hmarked
  have hsame : modify pgd slot (pteSetFlags · pageProtnone) = pgd := by
    apply modify_eq_self
    intro other hother
    rw [hpte, Option.some.injEq] at hother
    rw [← hother, hset]
  rw [markSlot, hsame]
  apply modify_eq_self
  intro other hother
  rw [hpte, Option.some.injEq] at hother
  rw [← hother, hclear]

/-- A pass over a table in which every page that it would mark is marked already. -/
theorem foldUntil_markPage_marked (addrs : List Addr) (pgd : Pgd) (x : σ)
    (hmarked : ∀ slot ∈ marks (presentAt pgd) addrs, ∀ pte, lookup pgd slot = some pte →
      markPte pte = pte) : (foldUntil (markPage onMark) addrs (pgd, x)).1.1 = pgd := by
  induction addrs generalizing x with
  | nil => rfl
  | cons addr addrs ih =>
      cases hpte : lookup pgd (slotOf addr) with
      | none => simp only [foldUntil, markPage_none onMark hpte]
      | some pte =>
          have hview : presentAt pgd (slotOf addr) = some (ptePresent pte) := by
            rw [presentAt, hpte, Option.map_some]
          cases hpresent : ptePresent pte with
          | false =>
              rw [hpresent] at hview
              simp only [marks, hview] at hmarked
              simp only [foldUntil, markPage_absent onMark hpte hpresent]
              exact ih x hmarked
          | true =>
              rw [hpresent] at hview
              simp only [marks, hview] at hmarked
              have hself := markSlot_eq_self hpte (hmarked _ List.mem_cons_self pte hpte)
              simp only [foldUntil, markPage_present onMark hpte hpresent, hself]
              exact ih _ fun slot hslot => hmarked slot (List.mem_cons_of_mem _ hslot)

/-- A pass does not change for which pages `pte_present` holds. -/
theorem presentAt_foldUntil_markPage (addrs : List Addr) (pgd : Pgd) (x : σ) :
    presentAt (foldUntil (markPage onMark) addrs (pgd, x)).1.1 = presentAt pgd := by
  funext slot
  rw [presentAt, (foldUntil_markPage onMark addrs pgd x).1]
  by_cases hmem : slot ∈ marks (presentAt pgd) addrs
  · have hview := view_of_mem_marks hmem
    obtain ⟨pte, hpte, -⟩ := Option.map_eq_some_iff.mp hview
    rw [if_pos hmem, hview, hpte, Option.map_some, Option.map_some, ptePresent_markPte]
  · rw [if_neg hmem, presentAt]

/-- A second pass finds the table as it will leave it, and ends where the first one did. -/
theorem foldUntil_markPage_twice (addrs : List Addr) (pgd : Pgd) (x y : σ) :
    (foldUntil (markPage onMark) addrs ((foldUntil (markPage onMark) addrs (pgd, x)).1.1, y)).1.1 =
        (foldUntil (markPage onMark) addrs (pgd, x)).1.1 ∧
      (foldUntil (markPage onMark) addrs ((foldUntil (markPage onMark) addrs (pgd, x)).1.1, y)).2 =
        (foldUntil (markPage onMark) addrs (pgd, x)).2 := by
  have hview := presentAt_foldUntil_markPage onMark addrs pgd x
  constructor
  · apply foldUntil_markPage_marked
    rw [hview]
    intro slot hslot pte hpte
    rw [(foldUntil_markPage onMark addrs pgd x).1, if_pos hslot] at hpte
    obtain ⟨old, -, rfl⟩ := Option.map_eq_some_iff.mp hpte
    exact markPte_markPte old
  · rw [foldUntil_markPage_exit, foldUntil_markPage_exit, hview]

end Marking

namespace Demo3

/-- The loops of `wss_marking` of `wssdemo3.c` over areas of any shape: the table and the result; `none`
when they do not end. -/
def markSpans (spans : List Span) (pgd : Pgd) : Option (Pgd × Int) :=
  (forSpans (markPage fun _ (x : Unit) => x) spans (pgd, ())).map fun r => (r.1.1, r.2.getD 0)

/-- On areas as the kernel keeps them these are the loops of `wss_marking`. -/
theorem wssMarking_eq_markSpans (ts : Task) :
    wssMarking (some ts) = (markSpans (ts.mm.mmap.map Vma.span) ts.mm.pgd).map fun r =>
      (some { ts with mm := { ts.mm with pgd := r.1 } }, r.2) := by
  simp only [wssMarking, markPages, markSpans, forVmas_eq_forSpans, Option.map_map]
  rfl

theorem markSpans_twice (spans : List Span) (pgd : Pgd) :
    ((markSpans spans pgd).bind fun r => markSpans spans r.1) = markSpans spans pgd := by
  obtain ⟨addrs, ended, hloops⟩ := forSpans_eq_finish (σ := Pgd × Unit) (ρ := Int) spans
  have hmark (pgd : Pgd) : markSpans spans pgd =
      (finish ended (foldUntil (markPage fun _ (x : Unit) => x) addrs (pgd, ()))).map fun r =>
        (r.1.1, r.2.getD 0) := by
    rw [markSpans, hloops]
  obtain ⟨htable, hexit⟩ := foldUntil_markPage_twice (fun _ (x : Unit) => x) addrs pgd () ()
  rw [hmark pgd, finish]
  split_ifs with hends
  · rw [Option.map_some, Option.bind_some, hmark]
    simp only [finish, hexit]
    rw [if_pos hends, Option.map_some, htable, hexit]
  · rfl

/-- Marking twice, with no fault in between, is the same as marking once: the table and the result are
the same, and if the loops do not end, they do not end at once. It holds of processes as the kernel
keeps them and of areas of any shape. -/
theorem wssMarking_twice :
    (∀ ts, ((wssMarking ts).bind fun r => wssMarking r.1) = wssMarking ts) ∧
    ∀ spans pgd, ((markSpans spans pgd).bind fun r => markSpans spans r.1) = markSpans spans pgd := by
  refine ⟨fun ts => ?_, markSpans_twice⟩
  cases ts with
  | none => rfl
  | some ts =>
      obtain ⟨code, hfirst⟩ := wssMarking_some ts
      have htwice := markSpans_twice (ts.mm.mmap.map Vma.span) ts.mm.pgd
      rw [wssMarking_eq_markSpans] at hfirst ⊢
      obtain ⟨r, hr, -⟩ := Option.map_eq_some_iff.mp hfirst
      rw [hr, Option.bind_some] at htwice
      rw [hr, Option.map_some, Option.bind_some, wssMarking_eq_markSpans]
      exact congrArg _ htwice

end Demo3

end Lkm.Wss
