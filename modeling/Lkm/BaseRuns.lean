import Mathlib.Tactic.TypeStar
import Mathlib.Logic.Function.Basic

/-! Runs of an event-driven machine. A machine is a partial step function: `none` means that the
event cannot happen in the state. Properties of a run are stated of all the states it visits
(`Always`) or of all the steps it takes (`Each`), and `each_exact` and `always_exact` turn a
one-step equivalence into an equivalence about whole runs. -/

namespace Lkm.Runs

variable {σ ε ω : Type*} (step : σ → ε → Option σ)

/-- The state after a list of events, when every one of them can happen in its turn. -/
def run : σ → List ε → Option σ
  | s, [] => some s
  | s, e :: es => (step s e).bind fun t => run t es

/-- `P` holds in every state the run visits, the first one included. -/
def Always (P : σ → Prop) : σ → List ε → Prop
  | s, [] => P s
  | s, e :: es => P s ∧ ∀ t, step s e = some t → Always P t es

/-- Every step the run takes satisfies `Q`. -/
def Each (Q : σ → ε → σ → Prop) : σ → List ε → Prop
  | _, [] => True
  | s, e :: es => ∀ t, step s e = some t → Q s e t ∧ Each Q t es

theorem run_append (s : σ) (es fs : List ε) :
    run step s (es ++ fs) = (run step s es).bind fun t => run step t fs := by
  induction es generalizing s with
  | nil => rfl
  | cons e es ih =>
      rw [List.cons_append, run, run, Option.bind_assoc]
      congr 1
      funext t
      exact ih t

variable {step}

theorem Each.nil {Q : σ → ε → σ → Prop} {s : σ} : Each step Q s [] := trivial

instance Each.decidable {Q : σ → ε → σ → Prop} [∀ s e t, Decidable (Q s e t)] :
    ∀ s es, Decidable (Each step Q s es)
  | _, [] => isTrue trivial
  | s, e :: es =>
      match h : step s e with
      | none => isTrue fun t ht => by cases h.symm.trans ht
      | some t =>
          have : Decidable (Each step Q t es) := Each.decidable t es
          decidable_of_iff (Q s e t ∧ Each step Q t es)
            ⟨fun hQ u hu => Option.some.inj (h.symm.trans hu) ▸ hQ, fun hall => hall t h⟩

theorem Each.cons {Q : σ → ε → σ → Prop} {s t : σ} {e : ε} {es : List ε} (h : step s e = some t)
    (hQ : Q s e t) (hes : Each step Q t es) : Each step Q s (e :: es) := by
  intro u hu
  rw [h, Option.some.injEq] at hu
  subst hu
  exact ⟨hQ, hes⟩

theorem Each.of_forall {Q : σ → ε → σ → Prop} {es : List ε} (h : ∀ e ∈ es, ∀ s t, Q s e t) (s : σ) :
    Each step Q s es := by
  induction es generalizing s with
  | nil => trivial
  | cons e es ih =>
      obtain ⟨he, hes⟩ := List.forall_mem_cons.mp h
      exact fun t _ => ⟨he s t, ih hes t⟩

/-- `Always` speaks of the state after every prefix of the run. -/
theorem always_iff_visited (P : σ → Prop) (s : σ) (es : List ε) :
    Always step P s es ↔ ∀ pre t, pre <+: es → run step s pre = some t → P t := by
  induction es generalizing s with
  | nil =>
      constructor
      · intro h pre t hpre hrun
        rw [List.prefix_nil.mp hpre] at hrun
        cases hrun
        exact h
      · intro h
        exact h [] s List.nil_prefix rfl
  | cons e es ih =>
      constructor
      · rintro ⟨hs, hnext⟩ pre t hpre hrun
        rcases List.prefix_cons_iff.mp hpre with rfl | ⟨pre', rfl, hpre'⟩
        · cases hrun
          exact hs
        · obtain ⟨u, hu, hrun⟩ := Option.bind_eq_some_iff.mp hrun
          exact (ih u).mp (hnext u hu) pre' t hpre' hrun
      · intro h
        refine ⟨h [] s List.nil_prefix rfl, fun u hu => (ih u).mpr fun pre t hpre hrun => ?_⟩
        refine h (e :: pre) t (List.prefix_cons_iff.mpr (Or.inr ⟨pre, rfl, hpre⟩)) ?_
        rw [run, hu]
        exact hrun

theorem Always.last {P : σ → Prop} {s t : σ} {es : List ε} (h : Always step P s es)
    (hrun : run step s es = some t) : P t :=
  (always_iff_visited P s es).mp h es t List.prefix_rfl hrun

theorem always_iff_each (P : σ → Prop) (s : σ) (es : List ε) :
    Always step P s es ↔ P s ∧ Each step (fun _ _ t => P t) s es := by
  induction es generalizing s with
  | nil => exact (and_iff_left trivial).symm
  | cons e es ih =>
      refine and_congr_right fun _ => forall_congr' fun t => imp_congr_right fun _ => ?_
      exact ih t

/-- Exactness of a condition on steps. `Inv` only has to survive the steps that meet the
condition, since both sides of the equivalence break at the first step that does not. -/
theorem each_exact (Inv : σ → Prop) {Q C : σ → ε → σ → Prop}
    (hexact : ∀ s e t, Inv s → step s e = some t → (Q s e t ↔ C s e t))
    (hinv : ∀ s e t, Inv s → step s e = some t → C s e t → Inv t)
    {s : σ} (hs : Inv s) (es : List ε) : Each step Q s es ↔ Each step C s es := by
  induction es generalizing s with
  | nil => exact Iff.rfl
  | cons e es ih =>
      refine forall_congr' fun t => imp_congr_right fun ht => ?_
      rw [hexact s e t hs ht]
      exact and_congr_right fun hc => ih (hinv s e t hs ht hc)

/-- The same for a property of states: when one step keeps `P` exactly if it meets `C`, a run
stays in `P` exactly if all its steps meet `C`. -/
theorem always_exact (Inv : σ → Prop) {P : σ → Prop} {C : σ → ε → σ → Prop}
    (hexact : ∀ s e t, Inv s → P s → step s e = some t → (P t ↔ C s e t))
    (hinv : ∀ s e t, Inv s → P s → step s e = some t → C s e t → Inv t)
    {s : σ} (hI : Inv s) (hs : P s) (es : List ε) : Always step P s es ↔ Each step C s es := by
  rw [always_iff_each, and_iff_right hs]
  refine each_exact (fun s => Inv s ∧ P s) ?_ ?_ ⟨hI, hs⟩ es
  · rintro s e t ⟨hI, hs⟩ ht
    exact hexact s e t hI hs ht
  · rintro s e t ⟨hI, hs⟩ ht hc
    exact ⟨hinv s e t hI hs ht hc, (hexact s e t hI hs ht).mpr hc⟩

/-- The invariant rule. -/
theorem always_of_step (Inv : σ → Prop)
    (hinv : ∀ s e t, Inv s → step s e = some t → Inv t) {s : σ} (hs : Inv s) (es : List ε) :
    Always step Inv s es := by
  induction es generalizing s with
  | nil => exact hs
  | cons e es ih => exact ⟨hs, fun t ht => ih (hinv s e t hs ht)⟩

/-- The invariant rule, for runs whose steps all meet a condition. -/
theorem always_of_each (Inv : σ → Prop) {C : σ → ε → σ → Prop}
    (hinv : ∀ s e t, Inv s → step s e = some t → C s e t → Inv t)
    {s : σ} (hs : Inv s) {es : List ε} (hes : Each step C s es) : Always step Inv s es := by
  induction es generalizing s with
  | nil => exact hs
  | cons e es ih => exact ⟨hs, fun t ht => ih (hinv s e t hs ht (hes t ht).1) (hes t ht).2⟩

/-- What the steps do in such a run. -/
theorem each_of_each (Inv : σ → Prop) {C Q : σ → ε → σ → Prop}
    (hinv : ∀ s e t, Inv s → step s e = some t → C s e t → Inv t)
    (hQ : ∀ s e t, Inv s → step s e = some t → C s e t → Q s e t)
    {s : σ} (hs : Inv s) {es : List ε} (hes : Each step C s es) : Each step Q s es := by
  induction es generalizing s with
  | nil => trivial
  | cons e es ih =>
      intro t ht
      obtain ⟨hc, hrest⟩ := hes t ht
      exact ⟨hQ s e t hs ht hc, ih (hinv s e t hs ht hc) hrest⟩

/-- The rule for machines that never get stuck. -/
theorem run_of_progress (Inv : σ → Prop)
    (hstep : ∀ s e, Inv s → ∃ t, step s e = some t ∧ Inv t) {s : σ} (hs : Inv s) (es : List ε) :
    ∃ t, run step s es = some t ∧ Inv t := by
  induction es generalizing s with
  | nil => exact ⟨s, rfl, hs⟩
  | cons e es ih =>
      obtain ⟨t, ht, hinv⟩ := hstep s e hs
      obtain ⟨u, hu, hinv'⟩ := ih hinv
      refine ⟨u, ?_, hinv'⟩
      rw [run, ht]
      exact hu

theorem Always.mono {P P' : σ → Prop} (h : ∀ s, P s → P' s) {s : σ} {es : List ε}
    (hP : Always step P s es) : Always step P' s es := by
  rw [always_iff_visited] at hP ⊢
  exact fun pre t hpre hrun => h t (hP pre t hpre hrun)

/-! ### Observers

An observer records what happened along a run, from the state before each step and the event. It
does not influence the machine. -/

/-- The machine with an observer beside it. -/
def watch (step : σ → ε → Option σ) (observe : ω → σ → ε → ω) (sw : σ × ω) (e : ε) :
    Option (σ × ω) :=
  (step sw.1 e).map fun t => (t, observe sw.2 sw.1 e)

theorem watch_eq_some {observe : ω → σ → ε → ω} {sw tw : σ × ω} {e : ε} :
    watch step observe sw e = some tw ↔ step sw.1 e = some tw.1 ∧ observe sw.2 sw.1 e = tw.2 := by
  obtain ⟨t, w⟩ := tw
  simp only [watch, Option.map_eq_some_iff, Prod.mk.injEq]
  constructor
  · rintro ⟨u, hu, rfl, hw⟩
    exact ⟨hu, hw⟩
  · rintro ⟨ht, hw⟩
    exact ⟨t, ht, rfl, hw⟩

/-- The observer does not influence the states. -/
theorem always_watch (observe : ω → σ → ε → ω) (P : σ → Prop) (s : σ) (w : ω) (es : List ε) :
    Always (watch step observe) (fun sw => P sw.1) (s, w) es ↔ Always step P s es := by
  induction es generalizing s w with
  | nil => exact Iff.rfl
  | cons e es ih =>
      refine and_congr_right fun _ => ?_
      constructor
      · intro h t ht
        exact (ih t (observe w s e)).mp (h _ (watch_eq_some.mpr ⟨ht, rfl⟩))
      · rintro h ⟨t, v⟩ htv
        obtain ⟨ht, -⟩ := watch_eq_some.mp htv
        exact (ih t v).mpr (h t ht)

end Lkm.Runs
