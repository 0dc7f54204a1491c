import Lkm.TimerModel

/-! Unloading `hrtimer.c` while its timer is in use. `del_timer` does not stop a callback that is running,
and this callback may arm the timer again. Once `cleanup_module` has returned nothing happens any more
exactly if by then the timer has made all the steps that it still had when it was deleted. -/

namespace Lkm.HrTimer

open Runs KernelTimer

/-- When `cleanup_module` has returned, the timer is not pending and its callback is not running. -/
def Unloaded (s : State) : Prop := s.cleanup = .returned → s.myTimer.Quiet

/-- The steps of the timer that are still to come since `del_timer`. -/
def debt (left : Nat) (s : State) : Event → Nat
  | .delTimer => callbackOwes s
  | .cleanupReturn => left
  | _ => left - 1

theorem debt_ofTimer {e : Event} (he : e.ofTimer = true) (left : Nat) (s : State) :
    debt left s e = left - 1 := by
  cases e with
  | delTimer => cases he
  | cleanupReturn => cases he
  | _ => rfl

/-- The steps that are left are counted right from `del_timer` on. -/
structure Counted (s : State) (left : Nat) : Prop where
  consistent : Consistent s
  left : s.cleanup ≠ .notCalled → left = owes s

theorem counted_step {s t : State} {left : Nat} {e : Event} (hs : Counted s left)
    (h : step s e = some t) : Counted t (debt left s e) := by
  rcases e.ofTimer_or with he | rfl | rfl
  · obtain ⟨howes, hconsistent, hcleanup⟩ := owes_step hs.consistent he h
    refine ⟨hconsistent, fun hcalled => ?_⟩
    have hleft : left = owes s := hs.left fun hnot => hcalled (hcleanup.trans hnot)
    rw [debt_ofTimer he, hleft, howes, Nat.add_sub_cancel]
  · obtain ⟨-, -, hcounter, hdeleted⟩ := delTimer_eq_some h
    have hpending : t.myTimer.pending = false := by rw [hdeleted]
    have hrunning : t.myTimer.running = s.myTimer.running := by rw [hdeleted]
    refine ⟨fun _ => hpending, fun _ => ?_⟩
    have hsame : callbackOwes t = callbackOwes s := by
      unfold callbackOwes
      rw [hrunning, hcounter]
    rw [owes, hpending, hsame]
    rfl
  · obtain ⟨hdeleted, rfl⟩ := cleanupReturn_eq_some h
    exact ⟨hs.consistent, fun _ => hs.left fun hnot => absurd (hdeleted.symm.trans hnot) (by decide)⟩

/-- Only the return of `cleanup_module` can fail to keep the property: before it there is nothing to keep,
and after it nothing happens. -/
theorem unloaded_step_iff {s t : State} {left : Nat} {e : Event} (hcounted : Counted s left)
    (hs : Unloaded s) (h : step s e = some t) : Unloaded t ↔ (e = .cleanupReturn → left = 0) := by
  rcases e.ofTimer_or with he | rfl | rfl
  · obtain ⟨howes, -, hcleanup⟩ := owes_step hcounted.consistent he h
    refine iff_of_true (fun hreturned => ?_) fun hreturn => ?_
    · have hquiet := (owes_eq_zero_iff s).mpr (hs (hcleanup.symm.trans hreturned))
      omega
    · rw [hreturn] at he
      cases he
  · obtain ⟨-, hdeleted, -⟩ := delTimer_eq_some h
    refine iff_of_true (fun hreturned => ?_) fun hreturn => absurd hreturn (by decide)
    rw [hdeleted] at hreturned
    cases hreturned
  · obtain ⟨hdeleted, rfl⟩ := cleanupReturn_eq_some h
    have hleft : left = owes s := hcounted.left fun hnot => absurd (hdeleted.symm.trans hnot) (by decide)
    rw [hleft, owes_eq_zero_iff]
    exact ⟨fun hquiet _ => hquiet rfl, fun hquiet _ => hquiet rfl⟩

/-- In every order of the steps, nothing happens after unloading exactly if whenever `cleanup_module`
returns, the timer has made all the steps that it had left when it was deleted. -/
theorem unloaded_iff (jiffies : Int) (es : List Event) :
    Always step Unloaded (initModule jiffies).2 es ↔
      Each (watch step debt) (fun sw e _ => e = .cleanupReturn → sw.2 = 0)
        ((initModule jiffies).2, 0) es := by
  rw [← always_watch debt Unloaded (initModule jiffies).2 0 es]
  refine always_exact (fun sw : State × Nat => Counted sw.1 sw.2) ?_ ?_ ?_ ?_ es
  · intro sw e tw hcounted hs h
    exact unloaded_step_iff hcounted hs (watch_eq_some.mp h).1
  · intro sw e tw hcounted _ h _
    obtain ⟨hstep, hdebt⟩ := watch_eq_some.mp h
    rw [← hdebt]
    exact counted_step hcounted hstep
  · exact ⟨consistent_initModule jiffies, fun hcalled => absurd rfl hcalled⟩
  · intro hreturned
    cases hreturned

/-- The deletion falls between the test of the counter and `mod_timer`. -/
theorem unloaded_rearmed : ¬∀ jiffies es, Always step Unloaded (initModule jiffies).2 es := by
  intro h
  let es : List Event :=
    [.expire 0, .test, .delTimer, .modTimer, .callbackReturn, .cleanupReturn]
  have hquiet := (h 0 es).last rfl rfl
  exact absurd hquiet.pending (by decide)

end Lkm.HrTimer
