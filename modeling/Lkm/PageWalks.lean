import Lkm.BasePageTrace
import Lkm.RssModel
import Lkm.WssModel

/-! The page loops of `rss3.c` and `wssdemo3.c`: `page_walk`, as `rss_assi2` calls it for every area, and
the inner loop of `wss_marking`. Both end for any page tables, and their address variables go through
the areas page by page; `page_walk` never returns early, and `wss_marking` does with -2 only. -/

namespace Lkm.PageWalks

open PageTable

/-- The loops of `rss_assi2` are those of `forVmas`, and nothing is returned from them. -/
theorem forVmas_countPage (mm : Mm) (c : Rss.Counters) :
    forVmas (Rss.countPage mm.pgd) mm.mmap c = some (c.count mm.pgd mm.pages, none) := by
  rw [forVmas_eq, Rss.foldUntil_countPage]
  rfl

theorem rssAssi2_walked (pid : Int) (mm : Mm) (c : Rss.Counters) :
    ∃ t, traceVmas (Rss.countPage mm.pgd) mm.mmap c = some t ∧
      Rss.rssAssi2 (some ⟨pid, some mm⟩) c = some (0, some t.result.1, t.result.1) ∧
      Walked mm.mmap false t.visits := by
  obtain ⟨t, htrace, hloops, hwalked⟩ := traceVmas_eq_some (Rss.countPage mm.pgd) mm.mmap c
  rw [forVmas_countPage, Option.some.injEq] at hloops
  rw [← hloops] at hwalked
  refine ⟨t, htrace, ?_, hwalked⟩
  rw [Rss.rssAssi2_eq, ← hloops]

/-- The loops of `wss_marking` are left with -2 only. -/
theorem markPage_return {σ : Type} (onMark : Pte → σ → σ) (addr : Addr) (s : Pgd × σ) (r : Int)
    (h : (Wss.markPage onMark addr s).2 = some r) : r = -2 := by
  unfold Wss.markPage at h
  cases hpte : lookup s.1 (slotOf addr) with
  | none =>
      rw [hpte] at h
      exact (Option.some.inj h).symm
  | some pte =>
      rw [hpte] at h
      dsimp only at h
      split_ifs at h

theorem wssMarking_walked (pid : Int) (mm : Mm) :
    ∃ t mm' code, traceVmas (Wss.markPage fun _ (x : Unit) => x) mm.mmap (mm.pgd, ()) = some t ∧
      Wss.Demo3.wssMarking (some ⟨pid, mm⟩) = some (some ⟨pid, mm'⟩, code) ∧
      mm' = { mm with pgd := t.result.1.1 } ∧ Walked mm.mmap (decide (code = -2)) t.visits := by
  obtain ⟨t, htrace, hloops, hwalked⟩ :=
    traceVmas_eq_some (Wss.markPage fun _ (x : Unit) => x) mm.mmap (mm.pgd, ())
  refine ⟨t, { mm with pgd := t.result.1.1 }, t.result.2.getD 0, htrace, ?_, rfl, ?_⟩
  · simp only [Wss.Demo3.wssMarking, Wss.markPages, hloops, Option.map_some]
  · have hreturn : ∀ r, t.result.2 = some r → r = -2 := fun r hr =>
      forVmas_return (markPage_return fun _ (x : Unit) => x) hloops hr
    have hearly : t.result.2.isSome = decide (t.result.2.getD 0 = -2) := by
      cases hr : t.result.2 with
      | none => rfl
      | some r =>
          rw [hreturn r hr]
          rfl
    rwa [hearly] at hwalked

/-- Both loops end, and in every area their address variable goes from `vm_start` page by page to
`vm_end` without a wrap; only `wss_marking` can return before that, with -2. -/
theorem loops_end (pid : Int) (mm : Mm) (c : Rss.Counters) :
    (∃ t, traceVmas (Rss.countPage mm.pgd) mm.mmap c = some t ∧
      Rss.rssAssi2 (some ⟨pid, some mm⟩) c = some (0, some t.result.1, t.result.1) ∧
      Walked mm.mmap false t.visits) ∧
    ∃ t mm' code, traceVmas (Wss.markPage fun _ (x : Unit) => x) mm.mmap (mm.pgd, ()) = some t ∧
      Wss.Demo3.wssMarking (some ⟨pid, mm⟩) = some (some ⟨pid, mm'⟩, code) ∧
      mm' = { mm with pgd := t.result.1.1 } ∧ Walked mm.mmap (decide (code = -2)) t.visits :=
  ⟨rssAssi2_walked pid mm c, wssMarking_walked pid mm⟩

/-! ### Without the bound -/

/-- If an area goes up to the last page of the address space, `page_walk` does not end. -/
theorem pageWalk_endless (mm : Mm) {addr1 addr2 : Addr} (haligned : addr1.toNat % 4096 = 0)
    (hlast : 2 ^ 64 - 4096 ≤ addr2.toNat) (c : Rss.Counters) : Rss.pageWalk mm addr1 addr2 c = none := by
  rw [Rss.pageWalk, forPages_eq_none (fun _ _ => rfl) hlast maxRounds haligned c]
  rfl

end Lkm.PageWalks
