import Lkm.BaseTreeCheck
import Mathlib.Logic.Function.Basic
import Mathlib.Logic.Relation

/-! Labels that go down a tree: the label of a node follows from its own and its parent's by a rule
that may refuse. A walk that enters parents before children, storing the labels as it goes, ends
well exactly when the rule refuses no node. -/

namespace Lkm.TreeWalk

variable {α V : Type} {L : Links α}

/-- Every entry comes after its parent, and after the nodes `done`. -/
def ParentsFirst (L : Links α) : List α → List α → Prop
  | _, [] => True
  | done, a :: as =>
      a ∉ done ∧ (∀ p, L.parent a = some p → p ∈ done) ∧ ParentsFirst L (a :: done) as

theorem ParentsFirst.append {done as bs : List α} (has : ParentsFirst L done as)
    (hbs : ParentsFirst L (as.reverse ++ done) bs) : ParentsFirst L done (as ++ bs) := by
  induction as generalizing done with
  | nil => exact hbs
  | cons a as ih =>
      obtain ⟨hnot, hparent, hrest⟩ := has
      refine ⟨hnot, hparent, ih hrest ?_⟩
      rw [List.reverse_cons, List.append_assoc, List.singleton_append] at hbs
      exact hbs

mutual
theorem Tree.Linked.parentsFirst {t : Tree α} (h : t.Linked L) (hnodup : t.nodes.Nodup)
    {done : List α} (hdone : ∀ a ∈ t.nodes, a ∉ done)
    (hparent : ∀ p, L.parent t.root = some p → p ∈ done) : ParentsFirst L done t.nodes := by
  cases t with
  | node a kids =>
      obtain ⟨-, hkids⟩ := h
      obtain ⟨ha, hkidsNodup⟩ := List.nodup_cons.mp hnodup
      refine ⟨hdone a List.mem_cons_self, hparent, ?_⟩
      refine ForestLinked.parentsFirst hkids hkidsNodup (fun b hb => ?_) List.mem_cons_self
      rw [List.mem_cons, not_or]
      exact ⟨fun heq => ha (heq ▸ hb), hdone b (List.mem_cons_of_mem a hb)⟩
theorem ForestLinked.parentsFirst {b : α} {ts : List (Tree α)} (h : ForestLinked L b ts)
    (hnodup : (forestNodes ts).Nodup) {done : List α} (hdone : ∀ a ∈ forestNodes ts, a ∉ done)
    (hb : b ∈ done) : ParentsFirst L done (forestNodes ts) := by
  cases ts with
  | nil => trivial
  | cons t ts =>
      obtain ⟨⟨hparent, ht⟩, hts⟩ := h
      obtain ⟨htNodup, htsNodup, hdisj⟩ := List.nodup_append.mp hnodup
      refine ParentsFirst.append (ht.parentsFirst htNodup
        (fun a ha => hdone a (List.mem_append_left _ ha)) fun p hp => ?_)
        (ForestLinked.parentsFirst hts htsNodup (fun a ha => ?_) (List.mem_append_right _ hb))
      · rw [hparent, Option.some.injEq] at hp
        exact hp ▸ hb
      · rw [List.mem_append, List.mem_reverse, not_or]
        exact ⟨fun hmem => hdisj a hmem a ha rfl, hdone a (List.mem_append_right _ ha)⟩
end

/-- The label of `a` in `f` is the one that `top` or the rule gives. -/
def Labelled (L : Links α) (top : V) (rule : α → V → Option V) (f : α → V) (a : α) : Prop :=
  match L.parent a with
  | none => f a = top
  | some p => rule a (f p) = some (f a)

variable [DecidableEq α]

/-- The visitor that stores the labels; `err` is its answer for a node that is refused. -/
def labelDown (L : Links α) (top : V) (rule : α → V → Option V) (err : Int) : Visitor α (α → V) :=
  fun a f =>
    match L.parent a with
    | none => (0, Function.update f a top)
    | some p =>
        match rule a (f p) with
        | some v => (0, Function.update f a v)
        | none => (err, f)

variable {top : V} {rule : α → V → Option V} {err : Int} {P : α → V → Prop}

variable (err) in
/-- One node: it gets its label, which keeps `P`, or it is refused. -/
theorem labelDown_cases {done : List α} {a : α} {f : α → V} (hnot : a ∉ done)
    (hparent : ∀ p, L.parent a = some p → p ∈ done) (htop : L.parent a = none → P a top)
    (hrule : ∀ p v w, L.parent a = some p → P p v → rule a v = some w → P a w)
    (hdone : ∀ b ∈ done, P b (f b)) :
    (∃ v, labelDown L top rule err a f = (0, Function.update f a v) ∧ P a v ∧
      Labelled L top rule (Function.update f a v) a) ∨
    (labelDown L top rule err a f = (err, f) ∧
      ∃ p, L.parent a = some p ∧ P p (f p) ∧ rule a (f p) = none) := by
  unfold labelDown Labelled
  cases hpa : L.parent a with
  | none => exact Or.inl ⟨top, rfl, htop hpa, Function.update_self _ _ _⟩
  | some p =>
      have hp := hparent p hpa
      have hne : p ≠ a := fun heq => hnot (heq ▸ hp)
      cases hv : rule a (f p) with
      | none => exact Or.inr ⟨by simp [hv], p, rfl, hdone p hp, hv⟩
      | some v =>
          refine Or.inl ⟨v, by simp [hv], hrule p _ v hpa (hdone p hp) hv, ?_⟩
          simp only [Function.update_of_ne hne, Function.update_self, hv]

/-- A run over parents before children labels all nodes, or comes to one that the rule refuses. -/
theorem visitList_labelDown (herr : err ≠ 0) {done as : List α} {f : α → V}
    (hfirst : ParentsFirst L done as) (htop : ∀ a ∈ as, L.parent a = none → P a top)
    (hrule : ∀ a ∈ as, ∀ p v w, L.parent a = some p → P p v → rule a v = some w → P a w)
    (hdone : ∀ b ∈ done, P b (f b)) :
    ((visitList (labelDown L top rule err) as f).1 = 0 ∧
      (∀ b ∈ done, (visitList (labelDown L top rule err) as f).2 b = f b) ∧
      ∀ a ∈ as, Labelled L top rule (visitList (labelDown L top rule err) as f).2 a) ∨
    ((visitList (labelDown L top rule err) as f).1 = err ∧
      ∃ a ∈ as, ∃ p v, L.parent a = some p ∧ P p v ∧ rule a v = none) := by
  induction as generalizing done f with
  | nil => exact Or.inl ⟨rfl, fun _ _ => rfl, fun _ ha => absurd ha List.not_mem_nil⟩
  | cons a as ih =>
      obtain ⟨hnot, hparent, hrest⟩ := hfirst
      rcases labelDown_cases err hnot hparent (htop a List.mem_cons_self)
        (hrule a List.mem_cons_self) hdone with ⟨v, hrun, hv, hlabel⟩ | ⟨hrun, p, hp, hPp, hnone⟩
      swap
      · rw [visitList, hrun, andThen, if_neg herr]
        exact Or.inr ⟨rfl, a, List.mem_cons_self, p, f p, hp, hPp, hnone⟩
      have hdone' : ∀ b ∈ a :: done, P b (Function.update f a v b) := by
        intro b hb
        rcases List.mem_cons.mp hb with rfl | hb
        · rw [Function.update_self]
          exact hv
        · have hne : b ≠ a := fun heq => hnot (heq ▸ hb)
          rw [Function.update_of_ne hne]
          exact hdone b hb
      have hnext := ih hrest (fun b hb => htop b (List.mem_cons_of_mem a hb))
        (fun b hb => hrule b (List.mem_cons_of_mem a hb)) hdone'
      rw [visitList, hrun, andThen, if_pos rfl]
      dsimp only
      rcases hnext with ⟨hzero, hsame, hall⟩ | ⟨hfail, b, hb, hrefused⟩
      · refine Or.inl ⟨hzero, fun b hb => ?_, fun b hb => ?_⟩
        · have hne : b ≠ a := fun heq => hnot (heq ▸ hb)
          rw [hsame b (List.mem_cons_of_mem a hb), Function.update_of_ne hne]
        · rcases List.mem_cons.mp hb with rfl | hb
          · -- What the rest of the run does not touch is all that this label depends on.
            have hself := hsame b List.mem_cons_self
            unfold Labelled at hlabel ⊢
            cases hpb : L.parent b with
            | none =>
                rw [hpb] at hlabel
                exact hself.trans hlabel
            | some p =>
                rw [hpb] at hlabel
                dsimp only at hlabel ⊢
                rw [hself, hsame p (List.mem_cons_of_mem b (hparent p hpb))]
                exact hlabel
          · exact hall b hb
      · exact Or.inr ⟨hfail, b, List.mem_cons_of_mem a hb, hrefused⟩

variable (top rule) in
/-- The walk over a tree whose root has no parent. `P` is what is known of the labels on the way. -/
theorem Links.IsTree.walk_labelDown {root : α} {as : List α} (h : L.IsTree root as)
    (hroot : L.parent root = none) (herr : err ≠ 0) {fuel : Nat} (hfuel : 3 * as.length ≤ fuel)
    (htop : ∀ a ∈ as, L.parent a = none → P a top)
    (hrule : ∀ a ∈ as, ∀ p v w, L.parent a = some p → P p v → rule a v = some w → P a w)
    (f : α → V) :
    ∃ r, walk L (labelDown L top rule err) nop root fuel f = some r ∧
      ((r.1 = 0 ∧ ∀ a ∈ as, Labelled L top rule r.2 a) ∨
        (r.1 = err ∧ ∃ a ∈ as, ∃ p v, L.parent a = some p ∧ P p v ∧ rule a v = none)) := by
  obtain ⟨t, rfl, hlinked, hnodup, hperm⟩ := h
  have hmem {a : α} : a ∈ t.nodes ↔ a ∈ as := hperm.mem_iff
  have hfirst : ParentsFirst L [] t.nodes :=
    hlinked.parentsFirst hnodup (fun _ _ => List.not_mem_nil) fun p hp => by
      rw [hroot] at hp
      cases hp
  refine ⟨_, walk_eq_visit hlinked hnodup f (hperm.length_eq ▸ hfuel), ?_⟩
  rw [Tree.visit_nop]
  rcases visitList_labelDown herr hfirst (fun a ha => htop a (hmem.mp ha))
    (fun a ha => hrule a (hmem.mp ha)) (f := f) (fun b hb => absurd hb List.not_mem_nil) with
    ⟨hzero, -, hall⟩ | ⟨hfail, a, ha, hrefused⟩
  · exact Or.inl ⟨hzero, fun a ha => hall a (hmem.mpr ha)⟩
  · exact Or.inr ⟨hfail, a, hmem.mp ha, hrefused⟩

end Lkm.TreeWalk
