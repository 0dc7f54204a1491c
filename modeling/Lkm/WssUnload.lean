import Lkm.WssModel
import Lkm.BaseRuns
import Lkm.BaseHeapList

/-! Unloading `workingwss.c`. Its `wss_marking` appends a copy of every entry that it marks to a
list, and `cleanup` walks this list: it dereferences the head before it looks at it, and what it
computes from the copies is thrown away. The entries of the process are restored exactly when there
is a head and the faults have restored them all before. -/

namespace Lkm.Wss.Working

open PageTable Runs HeapList

/-! ### The list of marked entries -/

structure Node where
  addr : Pte
  next : Option Ptr

/-- The nodes that `malloc` has returned, and the global `head`. Nothing is ever freed. -/
structure Nodes where
  heap : List Node
  head : Option Ptr

/-- `append(address)`; `none` when the search for the last node dereferences null or does not end. `malloc`
succeeds here: `append` does not look at a null result before it stores through it, so an allocation that
fails stops `start` with an oops, and a module that has not been loaded is not unloaded. -/
def append (address : Pte) (l : Nodes) : Option Nodes :=
  let temp := l.heap.length
  let heap := l.heap ++ [⟨address, none⟩]
  match l.head with
  | none => some ⟨heap, some temp⟩
  | some right =>
      (lastNode Node.next heap heap.length (some right)).map fun right =>
        ⟨heap.modify right fun node => { node with next := some temp }, l.head⟩

/-- The nodes of the list are the nodes of the heap, in the order in which they were allocated. -/
def Nodes.Valid (l : Nodes) : Prop := Chain Node.next l.heap l.head (List.range l.heap.length)

theorem Nodes.Valid.head_eq {l : Nodes} (h : l.Valid) (hheap : l.heap ≠ []) : l.head = some 0 := by
  obtain ⟨n, hn⟩ := Nat.exists_eq_succ_of_ne_zero (mt List.length_eq_zero_iff.mp hheap)
  rw [Nodes.Valid, hn, List.range_succ_eq_map] at h
  exact h.1

theorem Nodes.Valid.head_eq_none {l : Nodes} (h : l.Valid) (hheap : l.heap = []) :
    l.head = none := by
  rw [Nodes.Valid, hheap] at h
  exact h

/-- The list of a heap that is not empty, with its last node. -/
theorem Nodes.Valid.chain {l : Nodes} (h : l.Valid) (hheap : l.heap ≠ []) :
    ∃ n, l.heap.length = n + 1 ∧ Chain Node.next l.heap l.head (List.range n ++ [n]) := by
  obtain ⟨n, hn⟩ := Nat.exists_eq_succ_of_ne_zero (mt List.length_eq_zero_iff.mp hheap)
  refine ⟨n, hn, ?_⟩
  rw [Nodes.Valid, hn, List.range_succ] at h
  exact h

theorem append_valid (address : Pte) {l : Nodes} (h : l.Valid) :
    ∃ l', append address l = some l' ∧ l'.Valid ∧ l'.heap.length = l.heap.length + 1 := by
  by_cases hheap : l.heap = []
  · refine ⟨⟨l.heap ++ [⟨address, none⟩], some l.heap.length⟩, ?_, ?_, by simp⟩
    · simp only [append, h.head_eq_none hheap]
    · simp [Nodes.Valid, hheap, Chain]
  · have hhead := h.head_eq hheap
    obtain ⟨n, hn, hchain⟩ := h.chain hheap
    generalize hnew : (⟨address, none⟩ : Node) = new
    let setNext (node : Node) : Node := { node with next := some l.heap.length }
    have hsearch : lastNode Node.next (l.heap ++ [new]) (l.heap ++ [new]).length l.head = some n := by
      apply lastNode_eq (hchain.grow new)
      simp only [List.length_range, List.length_append, List.length_singleton]
      omega
    have hend : new.next = none := by rw [← hnew]
    have hpushed : Chain Node.next ((l.heap ++ [new]).modify n setNext) l.head
        (List.range n ++ [n] ++ [l.heap.length]) :=
      hchain.push List.not_mem_range_self (fun _ => rfl) hend
    have hlength : ((l.heap ++ [new]).modify n setNext).length = l.heap.length + 1 := by simp
    refine ⟨⟨(l.heap ++ [new]).modify n setNext, l.head⟩, ?_, ?_, hlength⟩
    · rw [hhead] at hsearch
      simp only [append, hnew, hhead, hsearch, Option.map_some, setNext]
    · rw [Nodes.Valid, hlength, List.range_succ, hn, List.range_succ, ← hn]
      exact hpushed

/-- Appending the entries of one marking round. -/
theorem foldl_append_valid (ptes : List Pte) {l : Nodes} (h : l.Valid) :
    ∃ l', ptes.foldl (fun x pte => x.bind (append pte)) (some l) = some l' ∧ l'.Valid ∧
      l'.heap.length = l.heap.length + ptes.length := by
  induction ptes generalizing l with
  | nil => exact ⟨l, rfl, h, rfl⟩
  | cons pte ptes ih =>
      obtain ⟨l₁, happend, hvalid₁, hlength₁⟩ := append_valid pte h
      obtain ⟨l₂, hfold, hvalid₂, hlength₂⟩ := ih hvalid₁
      refine ⟨l₂, ?_, hvalid₂, ?_⟩
      · rw [List.foldl_cons, Option.bind_some, happend, hfold]
      · rw [hlength₂, hlength₁, List.length_cons]
        omega

/-! ### The functions of `workingwss.c` -/

/-- `wss_marking`: every marked entry is appended to the list. -/
def wssMarking (ts : Option Task) (nodes : Nodes) : Option ((Option Task × Nodes) × Int) :=
  (markPages (fun pte x => x.bind (append pte)) ts (some nodes)).bind fun r =>
    r.1.2.map fun nodes => ((r.1.1, nodes), r.2)

/-- The address space of the monitored process and the globals of the module. -/
structure State where
  mm : Mm
  wss : Int
  nodes : Nodes
  /-- Whether the kernel's hook is set to `page_check`. -/
  pageFaultCheck : Bool

inductive Event where
  | mark
  | fault (addr : Addr)

/-- A marking round of `start`, or a fault of the monitored process. -/
def step (pid : Int) (s : State) : Event → Option State
  | .mark =>
      match wssMarking (some ⟨pid, s.mm⟩) s.nodes with
      | some ((some ts, nodes), _) => some { s with mm := ts.mm, nodes := nodes }
      | _ => none
  | .fault addr =>
      if s.pageFaultCheck then
        match pageCheck pid (some ⟨pid, s.mm⟩) addr s.wss with
        | (some ts, wss) => some { s with mm := ts.mm, wss := wss }
        | (none, _) => none
      else some s

/-- The module when `start` has set the hook. -/
def loaded (mm : Mm) : State := ⟨mm, 0, ⟨[], none⟩, true⟩

/-- The loop `while (i++ < 10)` of `start` with `rounds` rounds to go, and the numbers it prints.
`faults i` are the faults during the `msleep` of round `i`. -/
def startLoop (pid : Int) (faults : Nat → List Addr) :
    Nat → Nat → State → Option (List (Nat × Int) × State)
  | 0, _, s => some ([], s)
  | rounds + 1, i, s => do
      let i := i + 1
      let s ← step pid s .mark
      let printed := (i, s.wss)
      let s ← run (step pid) s ((faults i).map .fault)
      let (log, s) ← startLoop pid faults rounds i s
      return (printed :: log, s)

/-- `start`, where `ts` is the result of `pid_task`. -/
def start (pid : Int) (ts : Option Task) (faults : Nat → List Addr) :
    Option (List (Nat × Int) × Option State) :=
  match ts with
  | some ts =>
      if ts.pid = pid then
        (startLoop pid faults 10 0 (loaded ts.mm)).map fun r => (r.1, some r.2)
      else some ([], none)
  | none => some ([], none)

/-- The loop `while (ptr->next != NULL)` of `cleanup`. The results of `pte_clear_flags` and
`pte_set_flags` are not used there. -/
def cleanupLoop (heap : List Node) : Nat → Option Ptr → Option Ptr
  | 0, _ => none
  | rounds + 1, ptr => do
      let p ← ptr
      let node ← heap[p]?
      match node.next with
      | none => some p
      | some next =>
          let _ := pteClearFlags node.addr pageProtnone
          let _ := pteSetFlags node.addr pagePresent
          cleanupLoop heap rounds (some next)

/-- `cleanup`; `none` when it dereferences null or does not end. -/
def cleanup (s : State) : Option State :=
  let s := { s with pageFaultCheck := false }
  (cleanupLoop s.nodes.heap (s.nodes.heap.length + 1) s.nodes.head).map fun _ => s

/-! ### What they do -/

/-- `cleanup` only looks for the last node. -/
theorem cleanupLoop_eq (heap : List Node) (rounds : Nat) (ptr : Option Ptr) :
    cleanupLoop heap rounds ptr = lastNode Node.next heap rounds ptr := by
  induction rounds generalizing ptr with
  | zero => rfl
  | succ rounds ih =>
      cases ptr with
      | none => rfl
      | some p =>
          simp only [cleanupLoop, lastNode, Option.bind_eq_bind, Option.bind_some]
          cases heap[p]? with
          | none => rfl
          | some node =>
              simp only [Option.bind_some]
              cases hnext : node.next with
              | none => rfl
              | some next => exact ih (some next)

theorem cleanup_of_valid {s : State} (h : s.nodes.Valid) :
    cleanup s = if s.nodes.heap = [] then none else some { s with pageFaultCheck := false } := by
  unfold cleanup
  simp only [cleanupLoop_eq]
  by_cases hheap : s.nodes.heap = []
  · rw [if_pos hheap, h.head_eq_none hheap]
    rfl
  · rw [if_neg hheap]
    obtain ⟨n, hn, hchain⟩ := h.chain hheap
    rw [lastNode_eq hchain (by rw [List.length_range]; omega), Option.map_some]

theorem wssMarking_some (ts : Task) {l : Nodes} (h : l.Valid) :
    ∃ nodes code, wssMarking (some ts) l =
        some ((some { ts with mm := { ts.mm with pgd := markPgd ts.mm } }, nodes), code) ∧
      nodes.Valid ∧ nodes.heap.length = l.heap.length + (markedSlots ts.mm).length := by
  obtain ⟨nodes, hnodes, hvalid, hlength⟩ := foldl_append_valid
    ((markedSlots ts.mm).map fun slot => markPte ((lookup ts.mm.pgd slot).getD 0)) h
  rw [List.length_map] at hlength
  have hlog := (foldUntil_markPage (fun pte x => x.bind (append pte)) ts.mm.pages ts.mm.pgd
    (some l)).2.trans hnodes
  have hpgd : (foldUntil (markPage fun pte x => x.bind (append pte)) ts.mm.pages
      (ts.mm.pgd, some l)).1.1 = markPgd ts.mm :=
    foldUntil_markPage_pgd _ _ ts.mm.pages ts.mm.pgd _ ()
  simp only [wssMarking, markPages, forVmas_eq, Option.map_some, Option.bind_some]
  rw [show ts.mm.mmap.flatMap Vma.pages = ts.mm.pages from rfl, hlog, hpgd, Option.map_some]
  exact ⟨nodes, _, rfl, hvalid, hlength⟩

/-- When no page was ever marked, `head` is null. -/
example (mm : Mm) : cleanup (loaded mm) = none := rfl

/-- A marking round changes the table as in `wssdemo3.c` and makes the list longer by the pages that
it marks. -/
theorem step_mark (pid : Int) {s : State} (h : s.nodes.Valid) :
    ∃ nodes, step pid s .mark =
        some { s with mm := { s.mm with pgd := markPgd s.mm }, nodes := nodes } ∧
      nodes.Valid ∧ nodes.heap.length = s.nodes.heap.length + (markedSlots s.mm).length := by
  obtain ⟨nodes, code, hmark, hvalid, hlength⟩ := wssMarking_some ⟨pid, s.mm⟩ h
  refine ⟨nodes, ?_, hvalid, hlength⟩
  simp only [step, hmark]

theorem step_fault (pid : Int) {s : State} (h : s.pageFaultCheck = true) (addr : Addr) :
    step pid s (.fault addr) =
      some { s with mm := { s.mm with pgd := faultPgd s.mm.pgd (slotOf addr) },
                    wss := if faultHits s.mm.pgd (slotOf addr) then s.wss + 1 else s.wss } := by
  simp only [step, h, if_true, pageCheck_monitored]

/-- The rounds of `start` are a run of marking rounds and faults. -/
theorem startLoop_run (pid : Int) (faults : Nat → List Addr) (rounds i : Nat) (s : State) :
    (startLoop pid faults rounds i s).map Prod.snd =
      run (step pid) s ((List.range' (i + 1) rounds).flatMap fun j => .mark :: (faults j).map .fault) := by
  induction rounds generalizing i s with
  | zero => rfl
  | succ rounds ih =>
      rw [List.range'_succ, List.flatMap_cons, List.cons_append, run]
      simp only [startLoop, Option.bind_eq_bind, Option.map_bind]
      congr 1
      funext t
      rw [run_append]
      simp only [Option.map_bind, Function.comp_def]
      congr 1
      funext u
      rw [← ih]
      cases startLoop pid faults rounds (i + 1) u <;> rfl

/-- `start` is a run of ten marking rounds, each with the faults that come after it. -/
theorem start_run (pid : Int) (mm : Mm) (faults : Nat → List Addr) :
    (start pid (some ⟨pid, mm⟩) faults).map Prod.snd =
      (run (step pid) (loaded mm)
        ((List.range' 1 10).flatMap fun j => .mark :: (faults j).map .fault)).map some := by
  rw [← startLoop_run]
  simp only [start, if_true, Option.map_map]
  rfl

/-! ### Unloading -/

/-- What happened to the pages: the entry of a page before its first mark, and whether the page is
marked with no fault on it since. -/
structure History where
  before : Slot → Option Pte
  pending : Slot → Bool

def recordHistory (h : History) (s : State) : Event → History
  | .mark =>
      { before := fun slot =>
          if slot ∈ markedSlots s.mm then (h.before slot).or (lookup s.mm.pgd slot) else h.before slot
        pending := fun slot => if slot ∈ markedSlots s.mm then true else h.pending slot }
  | .fault addr => { h with pending := Function.update h.pending (slotOf addr) false }

def noHistory : History := ⟨fun _ => none, fun _ => false⟩

/-- `cleanup` ends, and then every page that was ever marked is accessible, with the flags it had
before. -/
def Restored (h : History) (s : State) : Prop :=
  ∃ t, cleanup s = some t ∧ ∀ slot pte, h.before slot = some pte →
    ∃ now, lookup t.mm.pgd slot = some now ∧ isPresent now = true ∧ isProtnone now = false ∧
      pteFlags now = pteFlags pte

/-- Some page was marked, and every marked page was accessible before and had a fault since its last
mark. -/
def AllFaultedBack (h : History) : Prop :=
  (∃ slot, h.before slot ≠ none) ∧ ∀ slot pte, h.before slot = some pte →
    isPresent pte = true ∧ isProtnone pte = false ∧ h.pending slot = false

/-- The entry of a page that was ever marked, from what it was before. -/
def entryNow : Bool → Pte → Pte
  | true, pte => markPte pte
  | false, pte => unmarkPte pte

/-- The list is well formed and holds something if a page was marked, and the entries of the
marked pages are as `entryNow` says. -/
structure UnloadInv (sh : State × History) : Prop where
  hook : sh.1.pageFaultCheck = true
  valid : sh.1.nodes.Valid
  recorded : sh.1.nodes.heap = [] ↔ ∀ slot, sh.2.before slot = none
  entry : ∀ slot pte, sh.2.before slot = some pte →
    lookup sh.1.mm.pgd slot = some (entryNow (sh.2.pending slot) pte)

theorem unloadInv_loaded (mm : Mm) : UnloadInv (loaded mm, noHistory) where
  hook := rfl
  valid := rfl
  recorded := iff_of_true rfl fun _ => rfl
  entry := fun _ _ h => (nomatch h)

theorem unloadInv_mark (pid : Int) {s : State} {h : History} (hinv : UnloadInv (s, h)) :
    ∃ t, step pid s .mark = some t ∧ UnloadInv (t, recordHistory h s .mark) := by
  obtain ⟨nodes, hstep, hvalid, hlength⟩ := step_mark pid hinv.valid
  refine ⟨_, hstep, hinv.hook, hvalid, ?_, ?_⟩
  · have hempty : nodes.heap = [] ↔ s.nodes.heap = [] ∧ markedSlots s.mm = [] := by
      simp only [← List.length_eq_zero_iff, hlength]
      omega
    simp only [hempty, hinv.recorded, recordHistory]
    constructor
    · rintro ⟨hnone, hmarked⟩ slot
      rw [hmarked, if_neg List.not_mem_nil]
      exact hnone slot
    · intro hnone
      have hmarked : markedSlots s.mm = [] := by
        by_contra hne
        obtain ⟨slot, hmem⟩ := List.exists_mem_of_ne_nil _ hne
        obtain ⟨pte, hlookup, -⟩ := lookup_of_marked hmem
        have hslot := hnone slot
        rw [if_pos hmem, hlookup] at hslot
        cases hbefore : h.before slot <;> simp [hbefore] at hslot
      refine ⟨fun slot => ?_, hmarked⟩
      have hslot := hnone slot
      rwa [hmarked, if_neg List.not_mem_nil] at hslot
  · intro slot pte hbefore
    simp only [recordHistory] at hbefore ⊢
    rw [lookup_markPgd]
    by_cases hmem : slot ∈ markedSlots s.mm
    · rw [if_pos hmem] at hbefore ⊢
      rw [if_pos hmem]
      cases hold : h.before slot with
      | none =>
          rw [hold, Option.none_or] at hbefore
          rw [hbefore, Option.map_some]
          rfl
      | some old =>
          rw [hold, Option.some_or] at hbefore
          cases hbefore
          rw [hinv.entry slot pte hold, Option.map_some]
          cases h.pending slot <;> simp [entryNow]
    · rw [if_neg hmem] at hbefore ⊢
      rw [if_neg hmem]
      exact hinv.entry slot pte hbefore

theorem unloadInv_fault (pid : Int) {s : State} {h : History} (addr : Addr)
    (hinv : UnloadInv (s, h)) :
    ∃ t, step pid s (.fault addr) = some t ∧ UnloadInv (t, recordHistory h s (.fault addr)) := by
  refine ⟨_, step_fault pid hinv.hook addr, hinv.hook, hinv.valid, hinv.recorded, ?_⟩
  intro slot pte hbefore
  have hentry := hinv.entry slot pte hbefore
  simp only [recordHistory] at hentry ⊢
  rw [lookup_faultPgd]
  by_cases hslot : slot = slotOf addr
  · subst hslot
    rw [Function.update_self, hentry]
    by_cases hhits : faultHits s.mm.pgd (slotOf addr) = true
    · rw [if_pos ⟨rfl, hhits⟩]
      cases h.pending (slotOf addr) <;> simp [entryNow]
    · rw [if_neg fun hc => hhits hc.2]
      cases hpending : h.pending (slotOf addr) with
      | false => rfl
      | true =>
          rw [hpending] at hentry
          exact absurd (faultHits_of_marked hentry) hhits
  · rw [Function.update_of_ne hslot, if_neg fun hc => hslot hc.1]
    exact hentry

theorem restored_iff {s : State} {h : History} (hinv : UnloadInv (s, h)) :
    Restored h s ↔ AllFaultedBack h := by
  have hsome : s.nodes.heap ≠ [] ↔ ∃ slot, h.before slot ≠ none := by
    rw [ne_eq, hinv.recorded, not_forall]
  unfold Restored AllFaultedBack
  rw [← hsome, cleanup_of_valid hinv.valid]
  by_cases hheap : s.nodes.heap = []
  · simp [hheap]
  · rw [if_neg hheap]
    simp only [Option.some.injEq, exists_eq_left', ne_eq, hheap, not_false_eq_true, true_and]
    refine forall_congr' fun slot => forall_congr' fun pte => imp_congr_right fun hbefore => ?_
    have hentry := hinv.entry slot pte hbefore
    simp only at hentry
    rw [hentry]
    simp only [Option.some.injEq, exists_eq_left']
    cases h.pending slot with
    | true => simp [entryNow]
    | false => simp [entryNow, pteFlags_unmarkPte]

/-- Marking rounds and faults never get stuck, and unloading restores the process exactly when some
page was marked, and every marked page was accessible before and had a fault after its last mark. -/
theorem unload_restores_iff (pid : Int) (mm : Mm) (es : List Event) :
    ∃ s h, run (watch (step pid) recordHistory) (loaded mm, noHistory) es = some (s, h) ∧
      (Restored h s ↔ AllFaultedBack h) := by
  have hstep : ∀ sh e, UnloadInv sh → ∃ th, watch (step pid) recordHistory sh e = some th ∧
      UnloadInv th := by
    rintro ⟨s, h⟩ e hinv
    have : ∃ t, step pid s e = some t ∧ UnloadInv (t, recordHistory h s e) := by
      cases e with
      | mark => exact unloadInv_mark pid hinv
      | fault addr => exact unloadInv_fault pid addr hinv
    obtain ⟨t, ht, hinv'⟩ := this
    exact ⟨_, watch_eq_some.mpr ⟨ht, rfl⟩, hinv'⟩
  obtain ⟨⟨s, h⟩, hrun, hinv⟩ := run_of_progress UnloadInv hstep (unloadInv_loaded mm) es
  exact ⟨s, h, hrun, restored_iff hinv⟩

/-- One area of one page, which is present and accessible. -/
def onePage : Mm where
  mmap := [oneArea]
  pgd := fun _ => .table fun _ => .table fun _ => .table fun l => if l = 0 then 0x25 else 0

/-- The page is marked and the process does not touch it again: after unloading it is still
protected. -/
theorem unload_untouched :
    ¬∃ s h, run (watch (step 7) recordHistory) (loaded onePage, noHistory)
        (List.replicate 10 .mark) = some (s, h) ∧ Restored h s := by
  rintro ⟨s, h, hrun, t, hclean, hrestored⟩
  have hbefore : (run (watch (step 7) recordHistory) (loaded onePage, noHistory)
      (List.replicate 10 .mark)).map (fun sh => sh.2.before (slotOf 0x400000)) =
        some (some 0x25) := by
    decide
  have hafter : (run (watch (step 7) recordHistory) (loaded onePage, noHistory)
      (List.replicate 10 .mark)).bind (fun sh => (cleanup sh.1).bind fun t =>
        lookup t.mm.pgd (slotOf 0x400000)) = some 0x124 := by
    decide
  simp only [hrun, Option.map_some, Option.some.injEq] at hbefore
  simp only [hrun, Option.bind_some, hclean] at hafter
  obtain ⟨now, hnow, hpresent, -⟩ := hrestored _ _ hbefore
  rw [hafter, Option.some.injEq] at hnow
  subst hnow
  exact absurd hpresent (by decide)

end Lkm.Wss.Working
