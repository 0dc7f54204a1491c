import Lkm.RssCount

/-! The three samplers `rss.c`, `rss3.c` and `assi22.c`. They call the same `rss_assi2` again and again and
differ in what they do with the counters in between: `rss3.c` clears them before a sample, `assi22.c`
after it, `rss.c` never. -/

namespace Lkm.Rss

open PageTable

/-- The samples of a process whose address space is `snaps k` at sample `k`, with `rounds` samples to go:
the pairs that are printed. `before` and `after` are what the loop does with the counters before and after
a call of `rss_assi2`. -/
def sampleLoop (before after : Counters → Counters) (pid : Int) (snaps : Nat → Mm) :
    Nat → Nat → Counters → Option (List Counters)
  | 0, _, _ => some []
  | rounds + 1, k, c => do
      let (_, printed, c) ← rssAssi2 (some ⟨pid, some (snaps k)⟩) (before c)
      let rest ← sampleLoop before after pid snaps rounds (k + 1) (after c)
      return printed.toList ++ rest

/-- `phy_page_count = virt_page_count = 0`. -/
def reset (_ : Counters) : Counters := zero

/-- `start` of `rss.c` with the loop `while (i++ <= 20)`; `ts` is the pid of the task that `pid_task`
returns. -/
def rssStart (pid : Int) (ts : Option Int) (snaps : Nat → Mm) : Option (List Counters) :=
  if ts = some pid then sampleLoop id id pid snaps 21 0 zero else some []

/-- `start` of `rss3.c`, with the same loop. -/
def rss3Start (pid : Int) (ts : Option Int) (snaps : Nat → Mm) : Option (List Counters) :=
  if ts = some pid then sampleLoop reset id pid snaps 21 0 zero else some []

/-- `start` of `assi22.c` with the loop `for (i = 0; i <= 50; i++)`. -/
def assi22Start (pid : Int) (ts : Option Int) (snaps : Nat → Mm) : Option (List Counters) :=
  if ts = some pid then sampleLoop id reset pid snaps 51 0 zero else some []

/-- What `page_walk` counts in one address space. -/
def counted (mm : Mm) : Counters := zero.count mm.pgd mm.pages

/-- The three lists agree, as far as all three go, and their pairs are what a call of `rss_assi2` on the
snapshot alone counts. -/
def Agree (pid : Int) (snaps : Nat → Mm) (rss rss3 assi22 : List Counters) : Prop :=
  ∀ k, k < rss.length → k < rss3.length → k < assi22.length →
    ∃ c, rssAssi2 (some ⟨pid, some (snaps k)⟩) zero = some (0, some c, c) ∧
      rss[k]? = some c ∧ rss3[k]? = some c ∧ assi22[k]? = some c

/-- The pages that the walk counts in an address space, and the present ones among them, are multiples of
`2 ^ 32`; for example there is no area. -/
def CountsZero (mm : Mm) : Prop :=
  2 ^ 32 ∣ (mm.mmap.map Vma.size).sum + mm.mmap.length ∧ 2 ^ 32 ∣ mapped mm.pgd mm.pages

theorem counted_eq_zero_iff (mm : Mm) : counted mm = zero ↔ CountsZero mm := by
  have hzero (n : Nat) : BitVec.ofNat 32 n = 0 ↔ 2 ^ 32 ∣ n := by
    rw [← BitVec.toNat_inj, BitVec.toNat_ofNat]
    exact Nat.dvd_iff_mod_eq_zero.symm
  rw [counted, count_zero, zero, Counters.mk.injEq, hzero, hzero, CountsZero, ← length_pages]
  rfl

/-- The pairs that a loop prints. -/
def printed (before after : Counters → Counters) (snaps : Nat → Mm) : Nat → Nat → Counters → List Counters
  | 0, _, _ => []
  | rounds + 1, k, c =>
      let c := (before c).count (snaps k).pgd (snaps k).pages
      c :: printed before after snaps rounds (k + 1) (after c)

theorem sampleLoop_eq (before after : Counters → Counters) (pid : Int) (snaps : Nat → Mm)
    (rounds k : Nat) (c : Counters) :
    sampleLoop before after pid snaps rounds k c = some (printed before after snaps rounds k c) := by
  induction rounds generalizing k c with
  | zero => rfl
  | succ rounds ih =>
      simp only [sampleLoop, rssAssi2_eq, Option.bind_eq_bind, Option.bind_some, ih]
      rfl

theorem length_printed (before after : Counters → Counters) (snaps : Nat → Mm) (rounds k : Nat)
    (c : Counters) : (printed before after snaps rounds k c).length = rounds := by
  induction rounds generalizing k c with
  | zero => rfl
  | succ rounds ih => rw [printed, List.length_cons, ih]

/-- A loop that counts every sample from zero. -/
theorem printed_of_reset (before after : Counters → Counters)
    (hreset : ∀ c, before (after c) = zero) (snaps : Nat → Mm) (rounds k : Nat) {c : Counters}
    (hc : before c = zero) {i : Nat} (hi : i < rounds) :
    (printed before after snaps rounds k c)[i]? = some (counted (snaps (k + i))) := by
  induction rounds generalizing k c i with
  | zero => exact absurd hi (Nat.not_lt_zero i)
  | succ rounds ih =>
      rw [printed, hc]
      cases i with
      | zero => rfl
      | succ i =>
          rw [List.getElem?_cons_succ, ih (k + 1) (hreset _) (Nat.lt_of_succ_lt_succ hi),
            Nat.add_right_comm]
          rfl

theorem count_eq_counted_iff (c : Counters) (mm : Mm) :
    c.count mm.pgd mm.pages = counted mm ↔ c = zero := by
  obtain ⟨virt, phy⟩ := c
  simp only [counted, Counters.count, zero, Counters.mk.injEq, BitVec.add_left_inj]

/-- A loop that adds every sample to the last ones prints what the samples count exactly if all samples
but the last one count nothing. -/
theorem printed_sums_iff (snaps : Nat → Mm) (rounds k : Nat) (c : Counters) :
    (∀ i < rounds, (printed id id snaps rounds k c)[i]? = some (counted (snaps (k + i)))) ↔
      rounds = 0 ∨ c = zero ∧ ∀ i, i + 1 < rounds → CountsZero (snaps (k + i)) := by
  induction rounds generalizing k c with
  | zero => simp
  | succ rounds ih =>
      have hrest := ih (k + 1) (c.count (snaps k).pgd (snaps k).pages)
      have hsplit : (∀ i < rounds + 1,
          (printed id id snaps (rounds + 1) k c)[i]? = some (counted (snaps (k + i)))) ↔
          c.count (snaps k).pgd (snaps k).pages = counted (snaps k) ∧
            ∀ i < rounds, (printed id id snaps rounds (k + 1)
              (c.count (snaps k).pgd (snaps k).pages))[i]? = some (counted (snaps (k + 1 + i))) := by
        rw [Nat.forall_lt_succ_left]
        simp only [printed, id, List.getElem?_cons_zero, List.getElem?_cons_succ, Option.some.injEq,
          Nat.add_zero, Nat.add_assoc, Nat.add_comm 1]
      rw [hsplit, hrest, count_eq_counted_iff, or_iff_right (Nat.succ_ne_zero rounds)]
      refine and_congr_right fun hc => ?_
      have hfirst : c.count (snaps k).pgd (snaps k).pages = counted (snaps k) :=
        (count_eq_counted_iff c _).mpr hc
      rw [hfirst, counted_eq_zero_iff]
      constructor
      · intro h i hi
        rcases h with h | ⟨hzero, h⟩
        · omega
        · cases i with
          | zero => exact hzero
          | succ i =>
              have hnext := h i (by omega)
              rwa [show k + 1 + i = k + (i + 1) by omega] at hnext
      · intro h
        cases rounds with
        | zero => exact Or.inl rfl
        | succ rounds =>
            refine Or.inr ⟨h 0 (by omega), fun i hi => ?_⟩
            rw [show k + 1 + i = k + (i + 1) by omega]
            exact h (i + 1) (by omega)

/-- For every sequence of snapshots the three modules print the same pairs, those that each snapshot counts
alone, exactly if the first 20 snapshots count nothing (or there is no process to sample). -/
theorem samplers_agree_iff (pid : Int) (ts : Option Int) (snaps : Nat → Mm) :
    ∃ rss rss3 assi22, rssStart pid ts snaps = some rss ∧ rss3Start pid ts snaps = some rss3 ∧
      assi22Start pid ts snaps = some assi22 ∧
      (Agree pid snaps rss rss3 assi22 ↔ ts ≠ some pid ∨ ∀ k < 20, CountsZero (snaps k)) := by
  by_cases hfound : ts = some pid
  · refine ⟨printed id id snaps 21 0 zero, printed reset id snaps 21 0 zero,
      printed id reset snaps 51 0 zero, ?_, ?_, ?_, ?_⟩
    · rw [rssStart, if_pos hfound, sampleLoop_eq]
    · rw [rss3Start, if_pos hfound, sampleLoop_eq]
    · rw [assi22Start, if_pos hfound, sampleLoop_eq]
    · have hsums := printed_sums_iff snaps 21 0 zero
      have hrss3 {k : Nat} (hk : k < 21) :=
        printed_of_reset reset id (fun _ => rfl) snaps 21 0 (c := zero) rfl hk
      have hassi22 {k : Nat} (hk : k < 51) :=
        printed_of_reset id reset (fun _ => rfl) snaps 51 0 (c := zero) rfl hk
      have hcondition : (∀ k < 20, CountsZero (snaps k)) ↔
          ∀ k < 21, (printed id id snaps 21 0 zero)[k]? = some (counted (snaps k)) := by
        simp only [Nat.zero_add] at hsums
        rw [hsums, or_iff_right (by decide), true_and]
        exact ⟨fun h k hk => h k (by omega), fun h k hk => h k (by omega)⟩
      rw [or_iff_right (not_not.mpr hfound), hcondition, Agree]
      simp only [length_printed]
      constructor
      · intro h k hk
        obtain ⟨c, hc, hrss, -⟩ := h k hk hk (by omega)
        rw [rssAssi2_eq, Option.some.injEq, Prod.mk.injEq, Prod.mk.injEq] at hc
        rw [hrss, ← hc.2.2]
        rfl
      · intro h k hk _ hk'
        refine ⟨counted (snaps k), rssAssi2_eq pid (snaps k) zero, h k hk, ?_, ?_⟩
        · rw [hrss3 hk, Nat.zero_add]
        · rw [hassi22 hk', Nat.zero_add]
  · refine ⟨[], [], [], if_neg hfound, if_neg hfound, if_neg hfound, ?_⟩
    refine iff_of_true ?_ (Or.inl hfound)
    intro k hk
    exact absurd hk (Nat.not_lt_zero k)

/-- The second pair that `rss.c` prints for a process that does not change is the double of the first
one. -/
theorem samplers_disagree_onePage :
    ¬∀ pid ts snaps rss rss3 assi22, rssStart pid ts snaps = some rss →
      rss3Start pid ts snaps = some rss3 → assi22Start pid ts snaps = some assi22 →
        Agree pid snaps rss rss3 assi22 := by
  intro h
  let snaps : Nat → Mm := fun _ => onePage
  have hagree := h 7 (some 7) snaps _ _ _ (sampleLoop_eq id id 7 snaps 21 0 zero)
    (sampleLoop_eq reset id 7 snaps 21 0 zero) (sampleLoop_eq id reset 7 snaps 51 0 zero)
  have hlength (before after : Counters → Counters) {rounds : Nat} (hrounds : 1 < rounds) :
      1 < (printed before after snaps rounds 0 zero).length := by
    rw [length_printed]
    exact hrounds
  obtain ⟨c, hc, hrss, -⟩ := hagree 1 (hlength _ _ (by decide)) (hlength _ _ (by decide))
    (hlength _ _ (by decide))
  rw [rssAssi2_eq, Option.some.injEq, Prod.mk.injEq, Prod.mk.injEq] at hc
  have hsecond : (counted onePage).count onePage.pgd onePage.pages = counted onePage :=
    (Option.some.inj hrss).trans hc.2.2.symm
  have hzero := (counted_eq_zero_iff onePage).mp ((count_eq_counted_iff _ _).mp hsecond)
  exact absurd hzero.1 (by decide)

end Lkm.Rss
