import Lkm.HelloModel
import Lkm.BaseRuns

/-! Which page `global_var` of `ex6.c` points to when the module prints the text there. It is the page of
the file that was opened last, so the text is there as long as that file is open; at `cleanup` no file
is open any more. -/

namespace Lkm.Hello

open Runs

/-- The page has been obtained, and has not been freed. -/
def Allocated (s : State) (p : Nat) : Prop := p < s.opened ∧ s.freed p = 0

/-- A step that prints the text at `global_var` finds an allocated page there, or a null pointer; and at
`cleanup` every page has been freed exactly once. -/
def Live (s : State) (e : Event) (_ : State) : Prop :=
  match e with
  | .charClose _ => ∀ p ∈ s.globalVar, Allocated s p
  | .cleanup => (∀ p ∈ s.globalVar, Allocated s p) ∧ ∀ p < s.opened, s.freed p = 1
  | _ => True

/-- At a `char_close` the file that was opened last is still open, and at `cleanup` no file has ever been
opened. -/
def LastOpen (s : State) (e : Event) (_ : State) : Prop :=
  match e with
  | .charClose _ => (s.files (s.opened - 1)).isSome
  | .cleanup => s.opened = 0
  | _ => True

structure Inv (s : State) : Prop where
  globalVar : s.globalVar = if s.opened = 0 then none else some (s.opened - 1)
  isOpen : ∀ f file, s.files f = some file →
    f < s.opened ∧ file.privateData.data = f ∧ s.freed f = 0
  closed : ∀ f < s.opened, s.files f = none → s.freed f = 1
  fresh : ∀ p, s.opened ≤ p → s.freed p = 0

theorem inv_start : Inv start where
  globalVar := rfl
  isOpen := fun _ _ h => nomatch h
  closed := fun _ h => absurd h (Nat.not_lt_zero _)
  fresh := fun _ _ => rfl

theorem inv_samePage {s t : State} (hs : Inv s) (h : SamePage s t) : Inv t := by
  obtain ⟨hvar, hopened, hfreed, hfiles⟩ := h
  constructor
  · rw [hvar, hopened]
    exact hs.globalVar
  · intro f file hfile
    have hmap := hfiles f
    rw [hfile, Option.map_some] at hmap
    obtain ⟨file', hfile', hdata⟩ := Option.map_eq_some_iff.mp hmap.symm
    rw [hopened, hfreed, ← hdata]
    exact hs.isOpen f file' hfile'
  · intro f hf hnone
    have hmap := hfiles f
    rw [hnone, Option.map_none] at hmap
    rw [hopened] at hf
    rw [hfreed]
    exact hs.closed f hf (Option.map_eq_none_iff.mp hmap.symm)
  · rw [hopened, hfreed]
    exact hs.fresh

theorem inv_step {s t : State} {e : Event} (hs : Inv s) (h : step s e = some t) : Inv t := by
  obtain ⟨reference, -, rfl⟩ | ⟨-, hsame⟩ | ⟨f, file, -, hfile, rfl⟩ | ⟨-, -, rfl⟩ := step_cases h
  · constructor
    · rfl
    · intro g file hfile
      by_cases hg : g = s.opened
      · subst hg
        simp only [Function.update_self, Option.some.injEq] at hfile
        subst hfile
        exact ⟨Nat.lt_succ_self _, rfl, hs.fresh _ (Nat.le_refl _)⟩
      · simp only [Function.update_of_ne hg] at hfile
        obtain ⟨hlt, hrest⟩ := hs.isOpen g file hfile
        exact ⟨Nat.lt_succ_of_lt hlt, hrest⟩
    · intro g hg hnone
      by_cases hlast : g = s.opened
      · subst hlast
        simp only [Function.update_self] at hnone
        cases hnone
      · simp only [Function.update_of_ne hlast] at hnone
        exact hs.closed g (Nat.lt_of_le_of_ne (Nat.le_of_lt_succ hg) hlast) hnone
    · intro p hp
      exact hs.fresh p (Nat.le_of_succ_le hp)
  · exact inv_samePage hs hsame
  · obtain ⟨hlt, hdata, hfreed⟩ := hs.isOpen f file hfile
    rw [hdata]
    constructor
    · exact hs.globalVar
    · intro g file' hfile'
      by_cases hg : g = f
      · subst hg
        simp only [Function.update_self] at hfile'
        cases hfile'
      · simp only [Function.update_of_ne hg] at hfile' ⊢
        exact hs.isOpen g file' hfile'
    · intro g hg hnone
      by_cases hgf : g = f
      · subst hgf
        simp only [Function.update_self, hfreed]
      · simp only [Function.update_of_ne hgf] at hnone ⊢
        exact hs.closed g hg hnone
    · intro p hp
      have hne : p ≠ f := Nat.ne_of_gt (Nat.lt_of_lt_of_le hlt hp)
      simp only [Function.update_of_ne hne]
      exact hs.fresh p hp
  · exact ⟨hs.globalVar, hs.isOpen, hs.closed, hs.fresh⟩

/-- The page at `global_var` is allocated exactly as long as the file that was opened last is open. -/
theorem allocated_iff {s : State} (hs : Inv s) :
    (∀ p ∈ s.globalVar, Allocated s p) ↔ s.opened = 0 ∨ (s.files (s.opened - 1)).isSome := by
  rw [hs.globalVar]
  by_cases hzero : s.opened = 0
  · rw [if_pos hzero]
    exact iff_of_true (fun p hp => nomatch hp) (Or.inl hzero)
  · rw [if_neg hzero, or_iff_right hzero]
    have hlt : s.opened - 1 < s.opened := by omega
    cases hfile : s.files (s.opened - 1) with
    | none =>
        refine iff_of_false (fun h => ?_) Bool.false_ne_true
        have hfreed := (h _ rfl).2
        rw [hs.closed _ hlt hfile] at hfreed
        cases hfreed
    | some file =>
        refine iff_of_true (fun p hp => ?_) rfl
        cases hp
        exact ⟨hlt, (hs.isOpen _ file hfile).2.2⟩

theorem live_step_iff {s t : State} {e : Event} (hs : Inv s) (h : step s e = some t) :
    Live s e t ↔ LastOpen s e t := by
  have hallocated := allocated_iff hs
  obtain ⟨reference, rfl, -⟩ | ⟨⟨f, rfl | rfl | rfl⟩, -⟩ | ⟨f, file, rfl, hfile, -⟩ |
    ⟨rfl, hclosed, -⟩ := step_cases h
  · exact Iff.rfl
  · exact Iff.rfl
  · exact Iff.rfl
  · exact Iff.rfl
  · have hpos : ¬s.opened = 0 := Nat.ne_zero_of_lt (hs.isOpen f file hfile).1
    rw [or_iff_right hpos] at hallocated
    exact hallocated
  · have hfreed : ∀ p < s.opened, s.freed p = 1 := fun p hp => hs.closed p hp (hclosed p hp)
    have hlast : s.opened = 0 ∨ (s.files (s.opened - 1)).isSome ↔ s.opened = 0 := by
      refine or_iff_left_of_imp fun hsome => ?_
      by_contra hzero
      rw [hclosed (s.opened - 1) (by omega)] at hsome
      cases hsome
    rw [hlast] at hallocated
    exact (and_iff_left hfreed).trans hallocated

/-- In every run the module prints text of allocated pages only, and has freed every page exactly once at
its end, exactly when every `char_close` comes while the file that was opened last is open and `cleanup`
comes without any file opened before. -/
theorem live_iff (es : List Event) : Each step Live start es ↔ Each step LastOpen start es := by
  refine each_exact Inv ?_ ?_ inv_start es
  · intro s e t hs h
    exact live_step_iff hs h
  · intro s e t hs h _
    exact inv_step hs h

/-- A file is opened and closed: `cleanup` prints from its page. -/
theorem live_unload : ¬∀ es, Each step Live start es := by
  intro h
  have hopen := (h [.charOpen true 0, .charClose 0, .cleanup] _ rfl).2
  have hclose := (hopen _ rfl).2
  have hread := (hclose _ rfl).1.1 0 rfl
  exact absurd hread.2 (by decide)

end Lkm.Hello
