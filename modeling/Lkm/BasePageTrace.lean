import Lkm.BasePageLoop

/-! The values of the address variable in the loops over all pages of all memory areas. The body is run
with a record of the addresses that it is called with, which changes nothing else, and the record is
kept apart for every area. The bound on `vm_end` is needed: where `vm_end` is in the last page of the
address space, the address wraps behind it and the test never fails. -/

namespace Lkm.PageTable

variable {σ ρ : Type}

/-- The body with a record of the addresses. -/
def recorded (body : Addr → σ → σ × Option ρ) (addr : Addr) (s : σ × List Addr) :
    (σ × List Addr) × Option ρ :=
  let r := body addr s.1
  ((r.1, s.2 ++ [addr]), r.2)

/-- What the loops leave, and the addresses that they have visited in each of the areas. -/
structure Trace (σ ρ : Type) where
  result : σ × Option ρ
  visits : List (List Addr)

/-- The loops of `forVmas` with the record of the addresses. -/
def traceVmas (body : Addr → σ → σ × Option ρ) : List Vma → σ → Option (Trace σ ρ)
  | [], s => some ⟨(s, none), []⟩
  | vma :: rest, s =>
      match forPages (recorded body) vma.vmEnd maxRounds vma.vmStart (s, []) with
      | some ((s, addrs), none) =>
          (traceVmas body rest s).map fun t => { t with visits := addrs :: t.visits }
      | some ((s, addrs), some r) => some ⟨(s, some r), [addrs]⟩
      | none => none

/-- The addresses visited in an area: page by page from `vm_start` on, and no step to the next one
wraps. -/
structure Walks (vma : Vma) (addrs : List Addr) : Prop where
  values : ∀ k (h : k < addrs.length), addrs[k].toNat = vma.vmStart.toNat + 4096 * k
  increasing : addrs.Pairwise (· < ·)
  noWrap : ∀ a ∈ addrs, (a + 4096).toNat = a.toNat + 4096

/-- The visits of a walk through these areas. It goes through each of them up to `vm_end`, or it
returns early, and then the area at which it does so is the last one. -/
inductive Walked : List Vma → Bool → List (List Addr) → Prop where
  | done : Walked [] false []
  | area {vma : Vma} {rest : List Vma} {early : Bool} {addrs : List Addr} {visits : List (List Addr)} :
      Walks vma addrs → addrs.getLast? = some vma.vmEnd → Walked rest early visits →
      Walked (vma :: rest) early (addrs :: visits)
  | early {vma : Vma} {rest : List Vma} {addrs : List Addr} :
      Walks vma addrs → addrs ≠ [] → Walked (vma :: rest) true [addrs]

/-! ### One area -/

theorem getElem_pagesFrom {n : Nat} {addr : Addr} (h : addr.toNat + 4096 * n < 2 ^ 64) {k : Nat}
    (hk : k < (pagesFrom n addr).length) :
    (pagesFrom n addr)[k].toNat = addr.toNat + 4096 * k := by
  induction n generalizing addr k with
  | zero => exact absurd hk (Nat.not_lt_zero k)
  | succ n ih =>
      obtain ⟨hnext, hbound⟩ := toNat_next_of_lt h
      cases k with
      | zero => rfl
      | succ k =>
          have hrest := ih hbound (Nat.lt_of_succ_lt_succ hk)
          rw [hnext] at hrest
          rw [Nat.mul_succ, Nat.add_comm (4096 * k), ← Nat.add_assoc]
          exact hrest

/-- The bound on `vm_end` keeps the step behind it from wrapping. -/
theorem Vma.lt_of_mem_pages {vma : Vma} {a : Addr} (h : a ∈ vma.pages) : a.toNat + 4096 < 2 ^ 64 := by
  have hend := vma.end_le
  have hle : a.toNat ≤ vma.vmEnd.toNat := by
    rw [vma.pages_eq, List.mem_append, List.mem_singleton] at h
    cases h with
    | inl h => exact Nat.le_of_lt ((vma.mem_inside_iff a).mp h).2.2
    | inr h => exact Nat.le_of_eq (congrArg BitVec.toNat h)
  omega

/-- The walk over a whole area. -/
theorem Vma.walks_pages (vma : Vma) : Walks vma vma.pages := by
  have hsize := vma.start_add_size
  have hbound : vma.vmStart.toNat + 4096 * (vma.size + 1) < 2 ^ 64 := by
    rw [Nat.mul_succ, ← Nat.add_assoc, hsize]
    exact (Nat.add_le_add_right vma.end_le 4096).trans_lt (by decide)
  have hpages : pagesFrom (vma.size + 1) vma.vmStart = vma.pages := by
    rw [vma.pages_eq]
    exact pagesFrom_concat hsize
  constructor
  · rw [← hpages]
    exact fun k hk => getElem_pagesFrom hbound hk
  · rw [← hpages]
    exact pagesFrom_increasing hbound
  · exact fun a ha => toNat_next a (Vma.lt_of_mem_pages ha)

theorem Walks.of_isPrefix {vma : Vma} {addrs all : List Addr} (h : Walks vma all)
    (haddrs : addrs <+: all) : Walks vma addrs where
  values k hk := by
    rw [haddrs.getElem hk]
    exact h.values k (haddrs.length_le.trans_lt' hk)
  increasing := h.increasing.sublist haddrs.sublist
  noWrap a ha := h.noWrap a (haddrs.subset ha)

/-- The record changes nothing, and it holds the addresses up to the one at which the body returns. -/
theorem foldUntil_recorded (body : Addr → σ → σ × Option ρ) (as : List Addr) (s : σ)
    (log : List Addr) :
    ∃ addrs, foldUntil (recorded body) as (s, log) =
        (((foldUntil body as s).1, log ++ addrs), (foldUntil body as s).2) ∧ addrs <+: as ∧
      ((foldUntil body as s).2 = none → addrs = as) ∧
      ((foldUntil body as s).2 ≠ none → addrs ≠ []) := by
  induction as generalizing s log with
  | nil =>
      refine ⟨[], ?_, List.nil_prefix, fun _ => rfl, fun h => absurd rfl h⟩
      rw [List.append_nil]
      rfl
  | cons a as ih =>
      simp only [foldUntil, recorded]
      rcases body a s with ⟨t, _ | r⟩
      · obtain ⟨addrs, hrun, hstart, hall, -⟩ := ih t (log ++ [a])
        refine ⟨a :: addrs, ?_, (List.prefix_cons_inj a).mpr hstart, ?_, fun _ => List.cons_ne_nil a _⟩
        · rw [List.append_assoc, List.singleton_append] at hrun
          exact hrun
        · intro hnone
          rw [hall hnone]
      · refine ⟨[a], rfl, List.prefix_append [a] as, ?_, fun _ => List.cons_ne_nil a _⟩
        intro hnone
        cases hnone

/-- The loop over one area ends, with the result of the loop without the record. -/
theorem Vma.forPages_recorded (body : Addr → σ → σ × Option ρ) (vma : Vma) (s : σ) :
    ∃ r addrs, forPages body vma.vmEnd maxRounds vma.vmStart s = some r ∧
      forPages (recorded body) vma.vmEnd maxRounds vma.vmStart (s, []) = some ((r.1, addrs), r.2) ∧
      Walks vma addrs ∧ (r.2 = none → addrs.getLast? = some vma.vmEnd) ∧ (r.2 ≠ none → addrs ≠ []) := by
  obtain ⟨addrs, hrun, hstart, hall, hsome⟩ := foldUntil_recorded body vma.pages s []
  refine ⟨foldUntil body vma.pages s, addrs, vma.forPages_pages body s, ?_,
    vma.walks_pages.of_isPrefix hstart, ?_, hsome⟩
  · rw [vma.forPages_pages, hrun, List.nil_append]
  · intro hnone
    rw [hall hnone, vma.pages_eq, List.getLast?_concat]

/-! ### All areas -/

/-- The loops end, with the result of the loops without the record, and the areas are visited page by
page. -/
theorem traceVmas_eq_some (body : Addr → σ → σ × Option ρ) (mmap : List Vma) (s : σ) :
    ∃ t, traceVmas body mmap s = some t ∧ forVmas body mmap s = some t.result ∧
      Walked mmap t.result.2.isSome t.visits := by
  induction mmap generalizing s with
  | nil => exact ⟨⟨(s, none), []⟩, rfl, rfl, Walked.done⟩
  | cons vma rest ih =>
      obtain ⟨⟨t, ret⟩, addrs, hloop, hrecorded, hwalks, hlast, hne⟩ := vma.forPages_recorded body s
      cases ret with
      | none =>
          obtain ⟨trace, htrace, hrest, hwalked⟩ := ih t
          refine ⟨{ trace with visits := addrs :: trace.visits }, ?_, ?_,
            Walked.area hwalks (hlast rfl) hwalked⟩
          · simp only [traceVmas, hrecorded, htrace, Option.map_some]
          · simp only [forVmas, hloop, hrest]
      | some r =>
          refine ⟨⟨(t, some r), [addrs]⟩, ?_, ?_, Walked.early hwalks (hne (Option.some_ne_none r))⟩
          · simp only [traceVmas, hrecorded]
          · simp only [forVmas, hloop]

/-- What the loops return is something that the body returns. -/
theorem forVmas_return {P : ρ → Prop} {body : Addr → σ → σ × Option ρ}
    (hbody : ∀ addr s r, (body addr s).2 = some r → P r) {mmap : List Vma} {s : σ} {t : σ × Option ρ}
    (h : forVmas body mmap s = some t) {r : ρ} (hr : t.2 = some r) : P r := by
  rw [forVmas_eq, Option.some.injEq] at h
  subst h
  generalize mmap.flatMap Vma.pages = addrs at hr
  induction addrs generalizing s with
  | nil => cases hr
  | cons addr addrs ih =>
      rw [foldUntil] at hr
      have hfirst := hbody addr s r
      rcases hrun : body addr s with ⟨t, _ | r'⟩
      · rw [hrun] at hr
        exact ih hr
      · rw [hrun] at hr hfirst
        exact hfirst hr

/-! ### The last page of the address space -/

/-- If the loop is to go up to the last page, the test never fails on page-aligned addresses, and only
the body can end it. -/
theorem forPages_eq_none {body : Addr → σ → σ × Option ρ} (hbody : ∀ addr s, (body addr s).2 = none)
    {last : Addr} (hlast : 2 ^ 64 - 4096 ≤ last.toNat) (rounds : Nat) {addr : Addr}
    (haligned : addr.toNat % 4096 = 0) (s : σ) : forPages body last rounds addr s = none := by
  induction rounds generalizing addr s with
  | zero => rfl
  | succ rounds ih =>
      have hin : addr ≤ last := by
        have hlt := addr.isLt
        rw [BitVec.le_def]
        omega
      have hnext : (addr + 4096).toNat % 4096 = 0 := by
        rw [BitVec.toNat_add]
        simp only [BitVec.reduceToNat]
        omega
      have hcontinue := hbody addr s
      rw [forPages, if_pos hin]
      rcases hrun : body addr s with ⟨t, _ | r⟩
      · exact ih hnext t
      · rw [hrun] at hcontinue
        cases hcontinue

end Lkm.PageTable
