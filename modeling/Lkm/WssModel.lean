import Lkm.BasePageLoop

/-! The working-set estimators. `wssdemo3.c` and `workingwss.c` share `page_check`, and their
`wss_marking` differ only in what is recorded for a marked page, which is a parameter here. Marking
replaces the present bit of an entry by the protection-none bit, so that the next access faults;
`page_check`, called on every fault of the monitored process, puts the present bit back and counts
the page. -/

namespace Lkm.Wss

open PageTable

structure Task where
  pid : Int
  mm : Mm

/-- What the two `set_pte` calls of `wss_marking` make of an entry. -/
def markPte (pte : Pte) : Pte := pteClearFlags (pteSetFlags pte pageProtnone) pagePresent

/-- What the two `set_pte` calls of `page_check` make of an entry. -/
def unmarkPte (pte : Pte) : Pte := pteClearFlags (pteSetFlags pte pagePresent) pageProtnone

/-- `page_check(ts, addr, pidd)` of both modules, with the global `wss`. The last parameter of the
source is not used there. -/
def pageCheck (pid : Int) (ts : Option Task) (addr : Addr) (wss : Int) : Option Task × Int :=
  match ts with
  | none => (none, wss)
  | some ts =>
      if ts.pid = pid then
        match lookup ts.mm.pgd (slotOf addr) with
        | none => (some ts, wss)
        | some pte =>
            if pteFlags pte ≠ 0#64 then
              let pgd := modify ts.mm.pgd (slotOf addr) (pteSetFlags · pagePresent)
              let pgd := modify pgd (slotOf addr) (pteClearFlags · pageProtnone)
              (some { ts with mm := { ts.mm with pgd := pgd } }, wss + 1)
            else (some ts, wss)
      else (some ts, wss)

section Marking

variable {σ : Type} (onMark : Pte → σ → σ)

/-- The body of the loops of `wss_marking`. `onMark` is what the module does with the entry after
it is marked. -/
def markPage (addr : Addr) (s : Pgd × σ) : (Pgd × σ) × Option Int :=
  match lookup s.1 (slotOf addr) with
  | none => (s, some (-2))
  | some pte =>
      if ptePresent pte then
        let pgd := modify s.1 (slotOf addr) (pteSetFlags · pageProtnone)
        let pgd := modify pgd (slotOf addr) (pteClearFlags · pagePresent)
        ((pgd, onMark (markPte pte) s.2), none)
      else (s, none)

/-- `wss_marking(ts)`; `none` when its loops do not end. -/
def markPages (ts : Option Task) (x : σ) : Option ((Option Task × σ) × Int) :=
  match ts with
  | none => some ((none, x), 0)
  | some ts =>
      (forVmas (markPage onMark) ts.mm.mmap (ts.mm.pgd, x)).map fun r =>
        ((some { ts with mm := { ts.mm with pgd := r.1.1 } }, r.1.2), r.2.getD 0)

end Marking

/-! ### The bits of a marked entry -/

theorem getLsbD_markPte (pte : Pte) (i : Nat) :
    (markPte pte).getLsbD i = if i = 0 then false else if i = 8 then true else pte.getLsbD i :=
  getLsbD_clear_set (by decide) (by decide) pte i

theorem getLsbD_unmarkPte (pte : Pte) (i : Nat) :
    (unmarkPte pte).getLsbD i = if i = 8 then false else if i = 0 then true else pte.getLsbD i :=
  getLsbD_clear_set (by decide) (by decide) pte i

@[simp] theorem isPresent_markPte (pte : Pte) : isPresent (markPte pte) = false :=
  getLsbD_markPte pte 0

@[simp] theorem isProtnone_markPte (pte : Pte) : isProtnone (markPte pte) = true :=
  getLsbD_markPte pte 8

@[simp] theorem isPresent_unmarkPte (pte : Pte) : isPresent (unmarkPte pte) = true :=
  getLsbD_unmarkPte pte 0

@[simp] theorem isProtnone_unmarkPte (pte : Pte) : isProtnone (unmarkPte pte) = false :=
  getLsbD_unmarkPte pte 8

@[simp] theorem markPte_markPte (pte : Pte) : markPte (markPte pte) = markPte pte := by
  apply BitVec.eq_of_getLsbD_eq
  intro i _
  simp only [getLsbD_markPte]
  split_ifs <;> rfl

@[simp] theorem markPte_unmarkPte (pte : Pte) : markPte (unmarkPte pte) = markPte pte := by
  apply BitVec.eq_of_getLsbD_eq
  intro i _
  simp only [getLsbD_markPte, getLsbD_unmarkPte]
  split_ifs <;> rfl

@[simp] theorem unmarkPte_markPte (pte : Pte) : unmarkPte (markPte pte) = unmarkPte pte := by
  apply BitVec.eq_of_getLsbD_eq
  intro i _
  simp only [getLsbD_markPte, getLsbD_unmarkPte]
  split_ifs <;> rfl

@[simp] theorem unmarkPte_unmarkPte (pte : Pte) : unmarkPte (unmarkPte pte) = unmarkPte pte := by
  apply BitVec.eq_of_getLsbD_eq
  intro i _
  simp only [getLsbD_unmarkPte]
  split_ifs <;> rfl

@[simp] theorem ptePresent_markPte (pte : Pte) : ptePresent (markPte pte) = true :=
  (ptePresent_iff _).mpr (Or.inr (isProtnone_markPte pte))

/-- Unmarking gives back the flags of exactly the entries that map a page for access. -/
theorem pteFlags_unmarkPte (pte : Pte) :
    pteFlags (unmarkPte pte) = pteFlags pte ↔ isPresent pte = true ∧ isProtnone pte = false := by
  constructor
  · intro h
    constructor
    · rw [← isPresent_pteFlags, ← h, isPresent_pteFlags, isPresent_unmarkPte]
    · rw [← isProtnone_pteFlags, ← h, isProtnone_pteFlags, isProtnone_unmarkPte]
  · rintro ⟨hpresent, hprotnone⟩
    congr 1
    apply BitVec.eq_of_getLsbD_eq
    intro i _
    rw [getLsbD_unmarkPte]
    split_ifs with h8 h0
    · subst h8
      exact hprotnone.symm
    · subst h0
      exact hpresent.symm
    · rfl

theorem pteFlags_ne_zero {pte : Pte} (h : isProtnone pte = true) : pteFlags pte ≠ 0#64 := by
  intro hzero
  rw [← isProtnone_pteFlags, hzero] at h
  exact absurd h (by decide)

/-! ### What a fault and a marking pass do to the table -/

/-- `page_check` acts on an entry that it can reach and that has some flag set. -/
def faultHits (pgd : Pgd) (slot : Slot) : Bool :=
  (lookup pgd slot).any fun pte => pteFlags pte ≠ 0#64

theorem faultHits_of_marked {pgd : Pgd} {slot : Slot} {pte : Pte}
    (h : lookup pgd slot = some (markPte pte)) : faultHits pgd slot = true := by
  have hflags := pteFlags_ne_zero (isProtnone_markPte pte)
  simp only [faultHits, h, Option.any_some, ne_eq, decide_eq_true_eq]
  exact hflags

/-- The table after `page_check` for a fault of the monitored process. -/
def faultPgd (pgd : Pgd) (slot : Slot) : Pgd :=
  if faultHits pgd slot then
    modify (modify pgd slot (pteSetFlags · pagePresent)) slot (pteClearFlags · pageProtnone)
  else pgd

theorem pageCheck_monitored (pid : Int) (mm : Mm) (addr : Addr) (wss : Int) :
    pageCheck pid (some ⟨pid, mm⟩) addr wss =
      (some ⟨pid, { mm with pgd := faultPgd mm.pgd (slotOf addr) }⟩,
        if faultHits mm.pgd (slotOf addr) then wss + 1 else wss) := by
  unfold pageCheck faultPgd faultHits
  cases hpte : lookup mm.pgd (slotOf addr) with
  | none => simp [hpte]
  | some pte =>
      by_cases hflags : pteFlags pte = 0#64
      · simp [hpte, hflags]
      · simp [hpte, hflags]

theorem lookup_faultPgd (pgd : Pgd) (slot other : Slot) :
    lookup (faultPgd pgd slot) other =
      if other = slot ∧ faultHits pgd slot then (lookup pgd other).map unmarkPte
      else lookup pgd other := by
  unfold faultPgd
  by_cases hhits : faultHits pgd slot
  · rw [if_pos hhits, lookup_modify, lookup_modify, lookup_modify]
    by_cases hslot : other = slot
    · subst hslot
      rw [if_pos rfl, if_pos rfl, if_pos ⟨rfl, hhits⟩, Option.map_map]
      rfl
    · simp only [hslot, if_false, false_and]
  · rw [if_neg hhits, if_neg fun h => hhits h.2]

/-- Whether the walk reaches an entry in a slot, and whether `pte_present` holds of it. -/
def presentAt (pgd : Pgd) (slot : Slot) : Option Bool := (lookup pgd slot).map ptePresent

/-- The pages that a pass over `addrs` marks, in the order of the pass. It ends at the first address
at which the walk reaches no entry. -/
def marks (view : Slot → Option Bool) : List Addr → List Slot
  | [] => []
  | addr :: rest =>
      match view (slotOf addr) with
      | none => []
      | some true => slotOf addr :: marks view rest
      | some false => marks view rest

/-- The pages that `wss_marking` marks in an address space. -/
def markedSlots (mm : Mm) : List Slot := marks (presentAt mm.pgd) mm.pages

theorem view_of_mem_marks {view : Slot → Option Bool} {addrs : List Addr} {slot : Slot}
    (h : slot ∈ marks view addrs) : view slot = some true := by
  induction addrs with
  | nil => cases h
  | cons addr rest ih =>
      rw [marks] at h
      split at h
      · cases h
      · rename_i hview
        rcases List.mem_cons.mp h with rfl | h
        · exact hview
        · exact ih h
      · exact ih h

/-- A page that is marked has an entry, for which `pte_present` holds. -/
theorem lookup_of_marked {mm : Mm} {slot : Slot} (h : slot ∈ markedSlots mm) :
    ∃ pte, lookup mm.pgd slot = some pte ∧ ptePresent pte = true :=
  Option.map_eq_some_iff.mp (view_of_mem_marks h)

/-- The table after the two `set_pte` calls of `wss_marking` for one page. -/
def markSlot (pgd : Pgd) (slot : Slot) : Pgd :=
  modify (modify pgd slot (pteSetFlags · pageProtnone)) slot (pteClearFlags · pagePresent)

theorem lookup_markSlot (pgd : Pgd) (slot other : Slot) :
    lookup (markSlot pgd slot) other =
      if other = slot then (lookup pgd slot).map markPte else lookup pgd other := by
  rw [markSlot, lookup_modify, lookup_modify, lookup_modify]
  by_cases hslot : other = slot
  · simp only [hslot, if_true, Option.map_map]
    rfl
  · simp only [hslot, if_false]

/-- Marking a page does not change for which pages `pte_present` holds. -/
theorem presentAt_markSlot {pgd : Pgd} {slot : Slot} (h : presentAt pgd slot = some true) :
    presentAt (markSlot pgd slot) = presentAt pgd := by
  funext other
  rw [presentAt, lookup_markSlot]
  by_cases hslot : other = slot
  · obtain ⟨pte, hpte, -⟩ := Option.map_eq_some_iff.mp h
    rw [hslot, if_pos rfl, h, hpte, Option.map_some, Option.map_some, ptePresent_markPte]
  · rw [if_neg hslot, presentAt]

section Marking

variable {σ : Type} (onMark : Pte → σ → σ)

theorem markPage_none {pgd : Pgd} {addr : Addr} (hpte : lookup pgd (slotOf addr) = none) (x : σ) :
    markPage onMark addr (pgd, x) = ((pgd, x), some (-2)) := by
  simp only [markPage, hpte]

theorem markPage_absent {pgd : Pgd} {addr : Addr} {pte : Pte}
    (hpte : lookup pgd (slotOf addr) = some pte) (hpresent : ptePresent pte = false) (x : σ) :
    markPage onMark addr (pgd, x) = ((pgd, x), none) := by
  simp only [markPage, hpte, hpresent, Bool.false_eq_true, if_false]

theorem markPage_present {pgd : Pgd} {addr : Addr} {pte : Pte}
    (hpte : lookup pgd (slotOf addr) = some pte) (hpresent : ptePresent pte = true) (x : σ) :
    markPage onMark addr (pgd, x) =
      ((markSlot pgd (slotOf addr), onMark (markPte pte) x), none) := by
  simp only [markPage, hpte, hpresent, if_true]
  rfl

/-- A pass replaces the entries of the marked pages and no others, and hands each of the new entries
to `onMark`. -/
theorem foldUntil_markPage (addrs : List Addr) (pgd : Pgd) (x : σ) :
    (∀ slot, lookup (foldUntil (markPage onMark) addrs (pgd, x)).1.1 slot =
      if slot ∈ marks (presentAt pgd) addrs then (lookup pgd slot).map markPte
      else lookup pgd slot) ∧
    (foldUntil (markPage onMark) addrs (pgd, x)).1.2 =
      ((marks (presentAt pgd) addrs).map fun slot => markPte ((lookup pgd slot).getD 0)).foldl
        (fun x pte => onMark pte x) x := by
  induction addrs generalizing pgd x with
  | nil => exact ⟨fun slot => by simp [foldUntil, marks], rfl⟩
  | cons addr addrs ih =>
      cases hpte : lookup pgd (slotOf addr) with
      | none =>
          have hview : presentAt pgd (slotOf addr) = none := by rw [presentAt, hpte, Option.map_none]
          simp [foldUntil, markPage_none onMark hpte, marks, hview]
      | some pte =>
          have hview : presentAt pgd (slotOf addr) = some (ptePresent pte) := by
            rw [presentAt, hpte, Option.map_some]
          cases hpresent : ptePresent pte with
          | false =>
              rw [hpresent] at hview
              simp only [foldUntil, markPage_absent onMark hpte hpresent, marks, hview]
              exact ih pgd x
          | true =>
              rw [hpresent] at hview
              simp only [foldUntil, markPage_present onMark hpte hpresent, marks, hview]
              -- The rest of the pass sees the same pages as before the mark.
              obtain ⟨ihtable, ihlog⟩ := ih (markSlot pgd (slotOf addr)) (onMark (markPte pte) x)
              rw [presentAt_markSlot hview] at ihtable ihlog
              constructor
              · intro slot
                rw [ihtable, lookup_markSlot]
                by_cases hslot : slot = slotOf addr
                · subst hslot
                  simp [hpte]
                · simp [hslot]
              · rw [ihlog, List.map_cons, List.foldl_cons, hpte, Option.getD_some]
                congr 1
                apply List.map_congr_left
                intro slot _
                rw [lookup_markSlot]
                by_cases hslot : slot = slotOf addr
                · rw [if_pos hslot, hslot, hpte]
                  exact markPte_markPte pte
                · rw [if_neg hslot]

/-- The table after `wss_marking`. -/
def markPgd (mm : Mm) : Pgd := (foldUntil (markPage fun _ (x : Unit) => x) mm.pages (mm.pgd, ())).1.1

/-- What is recorded for the marked pages does not influence the table. -/
theorem foldUntil_markPage_pgd {τ : Type} (onMark' : Pte → τ → τ) (addrs : List Addr) (pgd : Pgd)
    (x : σ) (y : τ) :
    (foldUntil (markPage onMark) addrs (pgd, x)).1.1 =
      (foldUntil (markPage onMark') addrs (pgd, y)).1.1 := by
  induction addrs generalizing pgd x y with
  | nil => rfl
  | cons addr addrs ih =>
      cases hpte : lookup pgd (slotOf addr) with
      | none => simp only [foldUntil, markPage_none _ hpte]
      | some pte =>
          cases hpresent : ptePresent pte with
          | false =>
              simp only [foldUntil, markPage_absent _ hpte hpresent]
              exact ih pgd x y
          | true =>
              simp only [foldUntil, markPage_present _ hpte hpresent]
              exact ih _ _ _

theorem lookup_markPgd (mm : Mm) (slot : Slot) :
    lookup (markPgd mm) slot =
      if slot ∈ markedSlots mm then (lookup mm.pgd slot).map markPte else lookup mm.pgd slot :=
  (foldUntil_markPage _ mm.pages mm.pgd ()).1 slot

end Marking

/-- The area of one page that the concrete runs use. -/
def oneArea : Vma := ⟨0x400000, 0x401000, by decide, by decide, by decide, by decide⟩

/-! ### The functions of `wssdemo3.c` -/

namespace Demo3

/-- `wss_marking` of `wssdemo3.c`: nothing is recorded for a marked page. -/
def wssMarking (ts : Option Task) : Option (Option Task × Int) :=
  (markPages (fun _ (x : Unit) => x) ts ()).map fun r => (r.1.1, r.2)

theorem wssMarking_some (ts : Task) :
    ∃ code, wssMarking (some ts) =
      some (some { ts with mm := { ts.mm with pgd := markPgd ts.mm } }, code) := by
  refine ⟨(foldUntil (markPage fun _ (x : Unit) => x) ts.mm.pages (ts.mm.pgd, ())).2.getD 0, ?_⟩
  simp only [wssMarking, markPages, forVmas_eq, Option.map_some]
  rfl

/-- The address space of the monitored process and the counter of the module. -/
structure State where
  mm : Mm
  wss : Int

inductive Event where
  | mark
  | fault (addr : Addr)

/-- A marking round, or a fault of the monitored process. -/
def step (pid : Int) (s : State) : Event → Option State
  | .mark =>
      match wssMarking (some ⟨pid, s.mm⟩) with
      | some (some ts, _) => some { s with mm := ts.mm }
      | _ => none
  | .fault addr =>
      match pageCheck pid (some ⟨pid, s.mm⟩) addr s.wss with
      | (some ts, wss) => some { mm := ts.mm, wss := wss }
      | (none, _) => none

theorem step_mark (pid : Int) (s : State) :
    step pid s .mark = some { s with mm := { s.mm with pgd := markPgd s.mm } } := by
  obtain ⟨code, h⟩ := wssMarking_some ⟨pid, s.mm⟩
  simp only [step, h]

theorem step_fault (pid : Int) (s : State) (addr : Addr) :
    step pid s (.fault addr) =
      some { mm := { s.mm with pgd := faultPgd s.mm.pgd (slotOf addr) },
             wss := if faultHits s.mm.pgd (slotOf addr) then s.wss + 1 else s.wss } := by
  simp only [step, pageCheck_monitored]

/-- An access of the monitored process: the page-fault path calls the hook if the entry lacks the
present bit, and then the access is retried. -/
def access (pid : Int) (s : State) (addr : Addr) : State :=
  if (lookup s.mm.pgd (slotOf addr)).any isPresent then s
  else (step pid s (.fault addr)).getD s

/-- The loop `while (i++ < 10)` of `start` with `rounds` rounds to go. `accesses i` are the accesses
during the `msleep` of round `i`; the log holds the numbers that are printed. -/
def startLoop (pid : Int) (accesses : Nat → List Addr) :
    Nat → Nat → State → Option (List (Nat × Int) × State)
  | 0, _, s => some ([], s)
  | rounds + 1, i, s => do
      let i := i + 1
      let s ← step pid { s with wss := 0 } .mark
      let printed := (i, s.wss)
      let s := (accesses i).foldl (access pid) s
      let (log, s) ← startLoop pid accesses rounds i s
      return (printed :: log, s)

/-- `start`, where `ts` is the result of `pid_task`. -/
def start (pid : Int) (ts : Option Task) (accesses : Nat → List Addr) :
    Option (List (Nat × Int) × Option State) :=
  match ts with
  | some ts =>
      if ts.pid = pid then
        (startLoop pid accesses 10 0 ⟨ts.mm, 0⟩).map fun r => (r.1, some r.2)
      else some ([], none)
  | none => some ([], none)

end Demo3

end Lkm.Wss
