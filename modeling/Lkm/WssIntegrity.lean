import Lkm.WssModel
import Lkm.BaseRuns

/-! The entries of the monitored process under `wssdemo3.c`. Marking and unmarking share their two
bits with entries that mean something else, so a fault does what it should exactly when it is on an
entry without flags or on a marked one that mapped its page for access before it was marked. -/

namespace Lkm.Wss.Demo3

open PageTable Runs

variable (pid : Int)

/-- For each page that is marked at the moment, its entry before it was marked. -/
abbrev Saved := Slot → Option Pte

/-- Observer: marking saves the entries that it marks, unless they are marked already; a fault that
`page_check` handles ends the mark. -/
def recordMarks (saved : Saved) (s : State) : Event → Saved
  | .mark => fun slot =>
      if slot ∈ markedSlots s.mm then (saved slot).or (lookup s.mm.pgd slot) else saved slot
  | .fault addr =>
      if faultHits s.mm.pgd (slotOf addr) then Function.update saved (slotOf addr) none else saved

def PresentIn (pgd : Pgd) (slot : Slot) : Prop :=
  ∃ pte, lookup pgd slot = some pte ∧ isPresent pte = true

/-- `page_check` changes an entry or counts a page only if the page is marked, and gives a marked
page back the flags it had. -/
structure FaultSound (saved : Saved) (s : State) (addr : Addr) (t : State) : Prop where
  change : ∀ slot, lookup t.mm.pgd slot ≠ lookup s.mm.pgd slot → saved slot ≠ none
  count : t.wss ≠ s.wss → saved (slotOf addr) ≠ none
  restore : ∀ pte, saved (slotOf addr) = some pte →
    (lookup t.mm.pgd (slotOf addr)).map pteFlags = some (pteFlags pte)

/-- Integrity of a step, in a run that starts with the table `pgd₀`: a fault is handled soundly, and
no entry has the present bit that did not have it at the start. -/
def StepSound (pgd₀ : Pgd) (sw : State × Saved) (e : Event) (tw : State × Saved) : Prop :=
  (∀ addr, e = .fault addr → FaultSound sw.2 sw.1 addr tw.1) ∧
    ∀ slot, PresentIn tw.1.mm.pgd slot → PresentIn pgd₀ slot

/-- The step is not a fault that `page_check` handles, or the page is marked and mapped its page for
access before. -/
def FaultOnAccessible (saved : Saved) (s : State) (e : Event) : Prop :=
  ∀ addr, e = .fault addr → faultHits s.mm.pgd (slotOf addr) = true →
    ∃ pte, saved (slotOf addr) = some pte ∧ isPresent pte = true ∧ isProtnone pte = false

/-- Every marked entry is the marked form of the entry that was saved, and nothing has gained the
present bit. -/
structure MarksInv (pgd₀ : Pgd) (sw : State × Saved) : Prop where
  marked : ∀ slot pte, sw.2 slot = some pte →
    lookup sw.1.mm.pgd slot = some (markPte pte) ∧ (isPresent pte = true → PresentIn pgd₀ slot)
  present : ∀ slot, PresentIn sw.1.mm.pgd slot → PresentIn pgd₀ slot

theorem marksInv_mark {pgd₀ : Pgd} {s : State} {saved : Saved} (hinv : MarksInv pgd₀ (s, saved)) :
    MarksInv pgd₀ ({ s with mm := { s.mm with pgd := markPgd s.mm } }, recordMarks saved s .mark) := by
  constructor
  · intro slot pte hsaved
    simp only [recordMarks] at hsaved
    simp only [lookup_markPgd]
    by_cases hmem : slot ∈ markedSlots s.mm
    · rw [if_pos hmem] at hsaved ⊢
      cases hold : saved slot with
      | none =>
          rw [hold, Option.none_or] at hsaved
          rw [hsaved]
          exact ⟨rfl, fun hpresent => hinv.present slot ⟨pte, hsaved, hpresent⟩⟩
      | some old =>
          rw [hold, Option.some_or] at hsaved
          cases hsaved
          obtain ⟨hlookup, hpresent⟩ := hinv.marked slot pte hold
          simp only at hlookup
          rw [hlookup, Option.map_some, markPte_markPte]
          exact ⟨rfl, hpresent⟩
    · rw [if_neg hmem] at hsaved ⊢
      exact hinv.marked slot pte hsaved
  · rintro slot ⟨pte, hlookup, hpresent⟩
    simp only [lookup_markPgd] at hlookup
    by_cases hmem : slot ∈ markedSlots s.mm
    · rw [if_pos hmem] at hlookup
      obtain ⟨old, -, rfl⟩ := Option.map_eq_some_iff.mp hlookup
      rw [isPresent_markPte] at hpresent
      cases hpresent
    · rw [if_neg hmem] at hlookup
      exact hinv.present slot ⟨pte, hlookup, hpresent⟩

/-- A sound fault that `page_check` handles is on a marked page, and unmarking it gives back its flags. -/
theorem faultOnAccessible_of_sound {pgd₀ : Pgd} {s t : State} {saved : Saved} {addr : Addr}
    (hinv : MarksInv pgd₀ (s, saved)) (h : step pid s (.fault addr) = some t)
    (hsound : FaultSound saved s addr t) : FaultOnAccessible saved s (.fault addr) := by
  rw [step_fault, Option.some.injEq] at h
  subst h
  intro addr' haddr hhits
  cases haddr
  obtain ⟨-, hcount, hrestore⟩ := hsound
  simp only [hhits, if_true] at hcount hrestore
  obtain ⟨pte, hsaved⟩ := Option.ne_none_iff_exists'.mp (hcount (by omega))
  have hlookup := (hinv.marked _ pte hsaved).1
  have hflags := hrestore pte hsaved
  simp only at hlookup
  rw [lookup_faultPgd, if_pos ⟨rfl, hhits⟩, hlookup, Option.map_some, Option.map_some,
    unmarkPte_markPte, Option.some.injEq] at hflags
  exact ⟨pte, hsaved, (pteFlags_unmarkPte pte).mp hflags⟩

/-- The fault is on a marked page that mapped its page for access before. -/
theorem stepSound_of_hit {pgd₀ : Pgd} {s t : State} {saved : Saved} (saved' : Saved) {addr : Addr}
    (hinv : MarksInv pgd₀ (s, saved)) (h : step pid s (.fault addr) = some t)
    (hhits : faultHits s.mm.pgd (slotOf addr) = true) {pte : Pte}
    (hsaved : saved (slotOf addr) = some pte)
    (haccess : isPresent pte = true ∧ isProtnone pte = false) :
    StepSound pgd₀ (s, saved) (.fault addr) (t, saved') := by
  rw [step_fault, Option.some.injEq] at h
  subst h
  obtain ⟨hlookup, hpresent⟩ := hinv.marked _ pte hsaved
  simp only at hlookup
  refine ⟨?_, ?_⟩
  · intro addr' haddr
    cases haddr
    refine ⟨?_, fun _ => by simp [hsaved], ?_⟩
    · intro slot hchange
      simp only [lookup_faultPgd] at hchange
      by_cases hslot : slot = slotOf addr
      · rw [hslot]
        simp [hsaved]
      · simp [hslot] at hchange
    · intro pte' hsaved'
      rw [show saved (slotOf addr) = some pte' from hsaved', Option.some.injEq] at hsaved
      subst hsaved
      rw [lookup_faultPgd, if_pos ⟨rfl, hhits⟩, hlookup, Option.map_some, Option.map_some,
        unmarkPte_markPte, (pteFlags_unmarkPte pte').mpr haccess]
  · rintro slot ⟨pte', hlookup', hpresent'⟩
    simp only [lookup_faultPgd] at hlookup'
    by_cases hslot : slot = slotOf addr
    · rw [hslot]
      exact hpresent haccess.1
    · simp only [hslot, false_and, if_false] at hlookup'
      exact hinv.present slot ⟨pte', hlookup', hpresent'⟩

/-- `page_check` does not handle the fault, so the page is not marked. -/
theorem stepSound_of_miss {pgd₀ : Pgd} {s t : State} {saved : Saved} (saved' : Saved) {addr : Addr}
    (hinv : MarksInv pgd₀ (s, saved)) (h : step pid s (.fault addr) = some t)
    (hhits : ¬faultHits s.mm.pgd (slotOf addr) = true) :
    StepSound pgd₀ (s, saved) (.fault addr) (t, saved') := by
  rw [step_fault, Option.some.injEq] at h
  subst h
  have hpgd : faultPgd s.mm.pgd (slotOf addr) = s.mm.pgd := if_neg hhits
  refine ⟨?_, ?_⟩
  · intro addr' haddr
    cases haddr
    refine ⟨fun slot hchange => ?_, fun hcount => ?_, fun pte hsaved => ?_⟩
    · simp [hpgd] at hchange
    · simp [hhits] at hcount
    · exact absurd (faultHits_of_marked (hinv.marked _ pte hsaved).1) hhits
  · simp only [hpgd]
    exact hinv.present

theorem stepSound_fault {pgd₀ : Pgd} {s t : State} {saved : Saved} (saved' : Saved) {addr : Addr}
    (hinv : MarksInv pgd₀ (s, saved)) (h : step pid s (.fault addr) = some t) :
    StepSound pgd₀ (s, saved) (.fault addr) (t, saved') ↔
      FaultOnAccessible saved s (.fault addr) := by
  constructor
  · intro hsound
    exact faultOnAccessible_of_sound pid hinv h (hsound.1 addr rfl)
  · intro hcond
    by_cases hhits : faultHits s.mm.pgd (slotOf addr) = true
    · obtain ⟨pte, hsaved, haccess⟩ := hcond addr rfl hhits
      exact stepSound_of_hit pid saved' hinv h hhits hsaved haccess
    · exact stepSound_of_miss pid saved' hinv h hhits

theorem marksInv_fault {pgd₀ : Pgd} {s t : State} {saved : Saved} {addr : Addr}
    (hinv : MarksInv pgd₀ (s, saved)) (h : step pid s (.fault addr) = some t)
    (hcond : FaultOnAccessible saved s (.fault addr)) :
    MarksInv pgd₀ (t, recordMarks saved s (.fault addr)) := by
  refine ⟨?_, ((stepSound_fault pid saved hinv h).mpr hcond).2⟩
  rw [step_fault, Option.some.injEq] at h
  subst h
  intro slot pte hsaved
  simp only [recordMarks] at hsaved
  simp only [lookup_faultPgd]
  by_cases hhits : faultHits s.mm.pgd (slotOf addr) = true
  · rw [if_pos hhits] at hsaved
    by_cases hslot : slot = slotOf addr
    · rw [hslot, Function.update_self] at hsaved
      cases hsaved
    · rw [Function.update_of_ne hslot] at hsaved
      rw [if_neg fun hc => hslot hc.1]
      exact hinv.marked slot pte hsaved
  · rw [if_neg hhits] at hsaved
    rw [if_neg fun hc => hhits hc.2]
    exact hinv.marked slot pte hsaved

/-- `page_check` respects the entries of the process throughout a run exactly when every fault that
it handles is on a marked page which was present, and not `PROT_NONE`, before it was marked. -/
theorem integrity_iff (mm : Mm) (es : List Event) :
    Each (watch (step pid) recordMarks) (StepSound mm.pgd) (⟨mm, 0⟩, fun _ => none) es ↔
      Each (watch (step pid) recordMarks) (fun sw e _ => FaultOnAccessible sw.2 sw.1 e)
        (⟨mm, 0⟩, fun _ => none) es := by
  have hstart : MarksInv mm.pgd (⟨mm, 0⟩, fun _ => none) :=
    ⟨fun _ _ hsaved => (nomatch hsaved), fun _ h => h⟩
  refine each_exact (MarksInv mm.pgd) ?_ ?_ hstart es
  · rintro ⟨s, saved⟩ e ⟨t, saved'⟩ hinv h
    obtain ⟨hstep, rfl⟩ := watch_eq_some.mp h
    cases e with
    | fault addr => exact stepSound_fault pid _ hinv hstep
    | mark =>
        rw [step_mark, Option.some.injEq] at hstep
        simp only at hstep
        subst hstep
        refine iff_of_true ⟨fun _ haddr => (nomatch haddr), (marksInv_mark hinv).present⟩ ?_
        intro addr haddr
        cases haddr
  · rintro ⟨s, saved⟩ e ⟨t, saved'⟩ hinv h hcond
    obtain ⟨hstep, rfl⟩ := watch_eq_some.mp h
    cases e with
    | fault addr => exact marksInv_fault pid hinv hstep hcond
    | mark =>
        rw [step_mark, Option.some.injEq] at hstep
        simp only at hstep
        subst hstep
        exact marksInv_mark hinv

/-- One area of one page, and entries that are swapped out: bits of a swap slot, neither present
nor `PROT_NONE`. -/
def swappedOut : Mm where
  mmap := [oneArea]
  pgd := fun _ => .table fun _ => .table fun _ => .table fun _ => 0x2

/-- A fault on a page that is swapped out is counted, and its entry becomes present. -/
theorem integrity_swappedOut :
    ¬Each (watch (step 7) recordMarks) (StepSound swappedOut.pgd) (⟨swappedOut, 0⟩, fun _ => none)
      [.mark, .fault 0x400000] := by
  intro h
  have hfault := (h _ rfl).2 _ rfl
  exact (hfault.1.1 0x400000 rfl).count (by decide) rfl

end Lkm.Wss.Demo3
