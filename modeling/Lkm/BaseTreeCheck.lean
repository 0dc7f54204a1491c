import Lkm.BaseTreeWalk
import Mathlib.Algebra.Order.BigOperators.Group.List
import Mathlib.Algebra.Order.Ring.Nat

/-! What a walk over a tree decides. A visitor that only looks gives an answer about all nodes; a
property of every node and its children is one of the whole tree. -/

namespace Lkm.TreeWalk

variable {α σ : Type} {L : Links α}

theorem roots_sublist_forestNodes (ts : List (Tree α)) :
    (ts.map Tree.root).Sublist (forestNodes ts) := by
  induction ts with
  | nil => exact List.Sublist.slnil
  | cons t ts ih =>
      cases t with
      | node a kids => exact (ih.trans (List.sublist_append_right _ _)).cons_cons a

theorem Links.IsTree.root_mem {root : α} {as : List α} (h : L.IsTree root as) : root ∈ as := by
  obtain ⟨t, rfl, -, -, hperm⟩ := h
  exact hperm.mem_iff.mp t.root_mem_nodes

theorem Links.IsTree.nodup {root : α} {as : List α} (h : L.IsTree root as) : as.Nodup := by
  obtain ⟨t, -, -, hnodup, hperm⟩ := h
  exact hperm.nodup_iff.mp hnodup

mutual
/-- The root is no child. -/
theorem Tree.Linked.children_sublist {t : Tree α} (h : t.Linked L) {a : α} (ha : a ∈ t.nodes) :
    (L.children a).Sublist t.nodes.tail := by
  cases t with
  | node b kids =>
      obtain ⟨hchildren, hkids⟩ := h
      rcases List.mem_cons.mp ha with rfl | ha
      · rw [hchildren]
        exact roots_sublist_forestNodes kids
      · exact ForestLinked.children_sublist hkids ha
theorem ForestLinked.children_sublist {b : α} {ts : List (Tree α)} (h : ForestLinked L b ts) {a : α}
    (ha : a ∈ forestNodes ts) : (L.children a).Sublist (forestNodes ts) := by
  cases ts with
  | nil => cases ha
  | cons t ts =>
      obtain ⟨⟨-, ht⟩, hts⟩ := h
      rcases List.mem_append.mp ha with ha | ha
      · exact ((ht.children_sublist ha).trans (List.tail_sublist _)).trans
          (List.sublist_append_left _ _)
      · exact (ForestLinked.children_sublist hts ha).trans (List.sublist_append_right _ _)
end

/-- The children of a node are nodes. -/
theorem Links.IsTree.children_subset {root a : α} {as : List α} (h : L.IsTree root as) (ha : a ∈ as) :
    L.children a ⊆ as := by
  obtain ⟨t, -, hlinked, -, hperm⟩ := h
  have hsub := hlinked.children_sublist (hperm.mem_iff.mpr ha)
  exact fun b hb => hperm.mem_iff.mp (List.mem_of_mem_tail (hsub.subset hb))

theorem Links.IsTree.length_children_lt {root a : α} {as : List α} (h : L.IsTree root as)
    (ha : a ∈ as) : (L.children a).length < as.length := by
  obtain ⟨t, -, hlinked, -, hperm⟩ := h
  have hle := (hlinked.children_sublist (hperm.mem_iff.mpr ha)).length_le
  have hpos := List.length_pos_of_mem ha
  rw [List.length_tail, hperm.length_eq] at hle
  omega

mutual
theorem Tree.Linked.parent_mem {t : Tree α} (h : t.Linked L) {a : α} (ha : a ∈ t.nodes)
    (hne : a ≠ t.root) : ∃ p ∈ t.nodes, L.parent a = some p := by
  cases t with
  | node b kids =>
      obtain ⟨-, hkids⟩ := h
      obtain ⟨p, hp, hparent⟩ := ForestLinked.parent_mem hkids ((List.mem_cons.mp ha).resolve_left hne)
      exact ⟨p, List.mem_cons.mpr hp, hparent⟩
theorem ForestLinked.parent_mem {b : α} {ts : List (Tree α)} (h : ForestLinked L b ts) {a : α}
    (ha : a ∈ forestNodes ts) : ∃ p, (p = b ∨ p ∈ forestNodes ts) ∧ L.parent a = some p := by
  cases ts with
  | nil => cases ha
  | cons t ts =>
      obtain ⟨⟨hparent, ht⟩, hts⟩ := h
      rcases List.mem_append.mp ha with ha | ha
      · by_cases hroot : a = t.root
        · exact ⟨b, Or.inl rfl, hroot ▸ hparent⟩
        · obtain ⟨p, hp, hpa⟩ := ht.parent_mem ha hroot
          exact ⟨p, Or.inr (List.mem_append_left _ hp), hpa⟩
      · obtain ⟨p, hp, hpa⟩ := ForestLinked.parent_mem hts ha
        exact ⟨p, hp.imp_right (List.mem_append_right _), hpa⟩
end

/-- Every node but the root has its parent among the nodes. -/
theorem Links.IsTree.parent_mem {root a : α} {as : List α} (h : L.IsTree root as) (ha : a ∈ as)
    (hne : a ≠ root) : ∃ p ∈ as, L.parent a = some p := by
  obtain ⟨t, rfl, hlinked, -, hperm⟩ := h
  obtain ⟨p, hp, hparent⟩ := hlinked.parent_mem (hperm.mem_iff.mpr ha) hne
  exact ⟨p, hperm.mem_iff.mp hp, hparent⟩

/-- A walk that only looks ends, with 0 if every node passes and otherwise with the answer of a node
that does not. -/
theorem Links.IsTree.walk_check [DecidableEq α] {root : α} {as : List α} (h : L.IsTree root as)
    (f : α → Int) {fuel : Nat} (hfuel : 3 * as.length ≤ fuel) (s : σ) :
    ∃ r, walk L (fun a s => (f a, s)) nop root fuel s = some r ∧
      (r.1 = 0 ↔ ∀ a ∈ as, f a = 0) ∧ (r.1 ≠ 0 → ∃ a ∈ as, r.1 = f a) := by
  obtain ⟨t, rfl, hlinked, hnodup, hperm⟩ := h
  refine ⟨_, walk_eq_visit hlinked hnodup s (hperm.length_eq ▸ hfuel), ?_, fun hne => ?_⟩
  · rw [Tree.visit_nop, visitList_check_eq_zero]
    exact forall_congr' fun a => imp_congr_left hperm.mem_iff
  · rw [Tree.visit_nop] at hne ⊢
    obtain ⟨a, ha, heq⟩ := visitList_check_mem hne
    exact ⟨a, hperm.mem_iff.mp ha, heq⟩

/-! ### Shares

When the children of every node together have no more than the node, the leaves together have no
more than the root. -/

def Links.leaves (L : Links α) (as : List α) : List α := as.filter fun a => (L.children a).isEmpty

mutual
theorem Tree.Linked.sum_leaves_le {f : α → Nat} {t : Tree α} (h : t.Linked L)
    (hshare : ∀ a ∈ t.nodes, ((L.children a).map f).sum ≤ f a) :
    ((L.leaves t.nodes).map f).sum ≤ f t.root := by
  cases t with
  | node a kids =>
      obtain ⟨hchildren, hkids⟩ := h
      have ha := hshare a List.mem_cons_self
      have hforest := ForestLinked.sum_leaves_le hkids fun b hb => hshare b (List.mem_cons_of_mem a hb)
      cases kids with
      | nil => simp [Tree.nodes, forestNodes, Links.leaves, hchildren, Tree.root]
      | cons t ts =>
          rw [hchildren] at ha
          have hinner : (L.children a).isEmpty = false := by
            rw [hchildren]
            rfl
          have hleaves : L.leaves (Tree.node a (t :: ts)).nodes = L.leaves (forestNodes (t :: ts)) := by
            rw [Tree.nodes, Links.leaves, List.filter_cons, hinner]
            rfl
          rw [hleaves]
          exact le_trans hforest ha
theorem ForestLinked.sum_leaves_le {f : α → Nat} {b : α} {ts : List (Tree α)}
    (h : ForestLinked L b ts)
    (hshare : ∀ a ∈ forestNodes ts, ((L.children a).map f).sum ≤ f a) :
    ((L.leaves (forestNodes ts)).map f).sum ≤ ((ts.map Tree.root).map f).sum := by
  cases ts with
  | nil => exact Nat.le_refl _
  | cons t ts =>
      obtain ⟨⟨-, ht⟩, hts⟩ := h
      have hfirst := ht.sum_leaves_le fun a ha => hshare a (List.mem_append_left _ ha)
      have hrest := ForestLinked.sum_leaves_le hts fun a ha => hshare a (List.mem_append_right _ ha)
      rw [forestNodes, Links.leaves, List.filter_append, List.map_append, List.sum_append,
        List.map_cons, List.map_cons, List.sum_cons]
      exact Nat.add_le_add hfirst hrest
end

theorem Links.IsTree.sum_leaves_le {root : α} {as : List α} (h : L.IsTree root as) {f : α → Nat}
    (hshare : ∀ a ∈ as, ((L.children a).map f).sum ≤ f a) :
    ((L.leaves as).map f).sum ≤ f root := by
  obtain ⟨t, rfl, hlinked, -, hperm⟩ := h
  have hle := hlinked.sum_leaves_le fun a ha => hshare a (hperm.mem_iff.mp ha)
  refine le_trans (le_of_eq ?_) hle
  exact ((hperm.filter _).map f).sum_eq.symm

end Lkm.TreeWalk
