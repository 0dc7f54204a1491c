import Mathlib.Data.List.Nodup
import Mathlib.Logic.Function.Iterate

/-! Walking a tree without a stack. A node has the list of its children and a link to its parent;
the walk goes down to a first child, on to the next sibling and back up through the parent link.
For visitors that carry a state and may stop the walk, it does what the recursion over the tree
does, and it takes at most three steps a node. -/

namespace Lkm.TreeWalk

variable {α σ : Type}

inductive Tree (α : Type) where
  | node (a : α) (kids : List (Tree α))

def Tree.root : Tree α → α
  | .node a _ => a

mutual
/-- The nodes of a tree, every node before its children. -/
def Tree.nodes : Tree α → List α
  | .node a kids => a :: forestNodes kids
def forestNodes : List (Tree α) → List α
  | [] => []
  | t :: ts => t.nodes ++ forestNodes ts
end

theorem Tree.root_mem_nodes (t : Tree α) : t.root ∈ t.nodes := by
  cases t with
  | node a kids => exact List.mem_cons_self

theorem mem_forestNodes {a : α} {ts : List (Tree α)} :
    a ∈ forestNodes ts ↔ ∃ t ∈ ts, a ∈ t.nodes := by
  induction ts with
  | nil => simp [forestNodes]
  | cons t ts ih => simp [forestNodes, ih]

theorem roots_subset_forestNodes (ts : List (Tree α)) : ts.map Tree.root ⊆ forestNodes ts := by
  intro a ha
  obtain ⟨t, ht, rfl⟩ := List.mem_map.mp ha
  exact mem_forestNodes.mpr ⟨t, ht, t.root_mem_nodes⟩

theorem nodup_roots {ts : List (Tree α)} (h : (forestNodes ts).Nodup) :
    (ts.map Tree.root).Nodup := by
  induction ts with
  | nil => exact List.nodup_nil
  | cons t ts ih =>
      obtain ⟨-, hts, hdisj⟩ := List.nodup_append.mp h
      refine List.nodup_cons.mpr ⟨fun hmem => ?_, ih hts⟩
      exact hdisj _ t.root_mem_nodes _ (roots_subset_forestNodes ts hmem) rfl

/-! ### The recursive visit -/

/-- A visitor answers 0 to let the walk go on; any other answer ends it. -/
abbrev Visitor (α σ : Type) := α → σ → Int × σ

def nop : Visitor α σ := fun _ s => (0, s)

def andThen (r : Int × σ) (k : σ → Int × σ) : Int × σ :=
  if r.1 = 0 then k r.2 else r

mutual
/-- `down` on entering a node, `up` on leaving it. -/
def Tree.visit (down up : Visitor α σ) : Tree α → σ → Int × σ
  | .node a kids, s =>
      andThen (andThen (down a s) fun s => visitForest down up kids s) fun s => up a s
def visitForest (down up : Visitor α σ) : List (Tree α) → σ → Int × σ
  | [], s => (0, s)
  | t :: ts, s => andThen (t.visit down up s) fun s => visitForest down up ts s
end

/-- A visitor run over a list. -/
def visitList (down : Visitor α σ) : List α → σ → Int × σ
  | [], s => (0, s)
  | a :: as, s => andThen (down a s) fun s => visitList down as s

theorem andThen_assoc (r : Int × σ) (k l : σ → Int × σ) :
    andThen (andThen r k) l = andThen r fun s => andThen (k s) l := by
  by_cases h : r.1 = 0
  · simp only [andThen, if_pos h]
  · simp only [andThen, if_neg h]

theorem andThen_nop (r : Int × σ) : (andThen r fun s => (0, s)) = r := by
  by_cases h : r.1 = 0
  · rw [andThen, if_pos h, ← h]
  · rw [andThen, if_neg h]

theorem visitList_append (down : Visitor α σ) (as bs : List α) (s : σ) :
    visitList down (as ++ bs) s = andThen (visitList down as s) fun s => visitList down bs s := by
  induction as generalizing s with
  | nil => simp [visitList, andThen]
  | cons a as ih =>
      rw [List.cons_append, visitList, visitList, andThen_assoc]
      congr 1
      funext t
      exact ih t

mutual
/-- With nothing to do on the way up, the nodes are visited in their order. -/
theorem Tree.visit_nop (down : Visitor α σ) (t : Tree α) (s : σ) :
    t.visit down nop s = visitList down t.nodes s := by
  cases t with
  | node a kids =>
      rw [Tree.visit, Tree.nodes, visitList]
      exact (andThen_nop _).trans (congrArg (andThen (down a s)) (funext fun s =>
        visitForest_nop down kids s))
theorem visitForest_nop (down : Visitor α σ) (ts : List (Tree α)) (s : σ) :
    visitForest down nop ts s = visitList down (forestNodes ts) s := by
  cases ts with
  | nil => rfl
  | cons t ts =>
      rw [visitForest, forestNodes, visitList_append, Tree.visit_nop down t]
      exact congrArg (andThen _) (funext fun s => visitForest_nop down ts s)
end

/-- A visitor that only looks answers 0 for the list if it does for every entry. -/
theorem visitList_check_eq_zero {f : α → Int} {as : List α} (s : σ) :
    (visitList (fun a s => (f a, s)) as s).1 = 0 ↔ ∀ a ∈ as, f a = 0 := by
  induction as with
  | nil => simp [visitList]
  | cons a as ih =>
      rw [visitList, andThen]
      by_cases h : f a = 0
      · rw [if_pos h, ih, List.forall_mem_cons, and_iff_right h]
      · rw [if_neg h, List.forall_mem_cons]
        exact iff_of_false h fun hall => h hall.1

/-- Otherwise the answer is that of one of the entries. -/
theorem visitList_check_mem {f : α → Int} {as : List α} {s : σ}
    (h : (visitList (fun a s => (f a, s)) as s).1 ≠ 0) :
    ∃ a ∈ as, (visitList (fun a s => (f a, s)) as s).1 = f a := by
  induction as with
  | nil => exact absurd rfl h
  | cons a as ih =>
      rw [visitList, andThen] at h ⊢
      by_cases ha : f a = 0
      · rw [if_pos ha] at h ⊢
        obtain ⟨b, hb, hfb⟩ := ih h
        exact ⟨b, List.mem_cons_of_mem a hb, hfb⟩
      · rw [if_neg ha]
        exact ⟨a, List.mem_cons_self, rfl⟩

/-! ### The walk along the links -/

structure Links (α : Type) where
  children : α → List α
  parent : α → Option α

/-- Where the walk stands: about to enter a node, in a node with a child (or the end of its list)
before it, or at its end with its answer. -/
inductive Pos (α : Type) where
  | down (node : α)
  | scan (node : α) (child : Option α)
  | done (ret : Int)

variable [DecidableEq α]

/-- The entry after the first `c`. -/
def after (c : α) : List α → Option α
  | [] => none
  | x :: xs => if x = c then xs.head? else after c xs

theorem after_append {c : α} {pre : List α} (h : c ∉ pre) (post : List α) :
    after c (pre ++ c :: post) = post.head? := by
  induction pre with
  | nil => simp [after]
  | cons x xs ih =>
      rw [List.mem_cons, not_or] at h
      obtain ⟨hne, hmem⟩ := h
      rw [List.cons_append, after, if_neg (Ne.symm hne), ih hmem]

/-- One step of the walk that started in `start`. -/
def step (L : Links α) (down up : Visitor α σ) (start : α) : Pos α × σ → Pos α × σ
  | (.down p, s) =>
      let r := down p s
      if r.1 ≠ 0 then (.done r.1, r.2) else (.scan p (L.children p).head?, r.2)
  | (.scan _ (some c), s) => (.down c, s)
  | (.scan p none, s) =>
      let r := up p s
      if r.1 ≠ 0 ∨ p = start then (.done r.1, r.2)
      else
        match L.parent p with
        | some q => (.scan q (after p (L.children q)), r.2)
        | none => (.done r.1, r.2)
  | (.done ret, s) => (.done ret, s)

/-- The walk, for as many steps as `fuel` allows; `none` means that it has not ended. -/
def walk (L : Links α) (down up : Visitor α σ) (start : α) (fuel : Nat) (s : σ) :
    Option (Int × σ) :=
  match (step L down up start)^[fuel] (.down start, s) with
  | (.done ret, s) => some (ret, s)
  | _ => none

mutual
/-- The links below and into the nodes of a tree, up to the link of its root. -/
def Tree.Linked (L : Links α) : Tree α → Prop
  | .node a kids => L.children a = kids.map Tree.root ∧ ForestLinked L a kids
def ForestLinked (L : Links α) (a : α) : List (Tree α) → Prop
  | [] => True
  | t :: ts => (L.parent t.root = some a ∧ t.Linked L) ∧ ForestLinked L a ts
end

variable {L : Links α} {down up : Visitor α σ} {start : α}

/-- Where the walk is after a visit with result `r`, if `next` is where it goes on. -/
def resume (r : Int × σ) (next : σ → Pos α × σ) : Pos α × σ :=
  if r.1 = 0 then next r.2 else (.done r.1, r.2)

omit [DecidableEq α] in
theorem resume_andThen (r : Int × σ) (k : σ → Int × σ) (next : σ → Pos α × σ) :
    resume (andThen r k) next = resume r fun s => resume (k s) next := by
  by_cases h : r.1 = 0
  · simp only [resume, andThen, if_pos h]
  · simp only [resume, andThen, if_neg h]

theorem step_done (ret : Int) (s : σ) (n : Nat) :
    (step L down up start)^[n] (.done ret, s) = (.done ret, s) :=
  Function.iterate_fixed rfl n

/-- Steps that lead from `next` to its resumption lead from the earlier visit's too. -/
theorem iterate_resume {n : Nat} (r : Int × σ) (next next' : σ → Pos α × σ)
    (h : r.1 = 0 → (step L down up start)^[n] (next r.2) = next' r.2) :
    (step L down up start)^[n] (resume r next) = resume r next' := by
  by_cases hr : r.1 = 0
  · rw [resume, resume, if_pos hr, if_pos hr, h hr]
  · rw [resume, resume, if_neg hr, if_neg hr, step_done]

theorem step_down (a : α) (s : σ) :
    step L down up start (.down a, s) =
      resume (down a s) fun s => (.scan a (L.children a).head?, s) := by
  by_cases h : (down a s).1 = 0 <;> simp [step, resume, h]

theorem step_up {a q : α} (hne : a ≠ start) (hparent : L.parent a = some q) (s : σ) :
    step L down up start (.scan a none, s) =
      resume (up a s) fun s => (.scan q (after a (L.children q)), s) := by
  by_cases h : (up a s).1 = 0 <;> simp [step, resume, h, hne, hparent]

theorem step_up_start (s : σ) :
    step L down up start (.scan start none, s) = resume (up start s) fun s => (.done 0, s) := by
  by_cases h : (up start s).1 = 0 <;> simp [step, resume, h]

/-- A node is entered, its children are visited, and it is left. -/
theorem iterate_node {a : α} {kids : List (Tree α)} {n : Nat} {next : σ → Pos α × σ} (s : σ)
    (hchildren : L.children a = kids.map Tree.root)
    (hkids : ∀ s, ∃ m, m ≤ n ∧
      (step L down up start)^[m] (.scan a (kids.map Tree.root).head?, s) =
        resume (visitForest down up kids s) fun s => (.scan a none, s))
    (hup : ∀ s, step L down up start (.scan a none, s) = resume (up a s) next) :
    ∃ m, m ≤ n + 2 ∧ (step L down up start)^[m] (.down a, s) =
      resume ((Tree.node a kids).visit down up s) next := by
  obtain ⟨m, hm, hrun⟩ := hkids (down a s).2
  refine ⟨m + 2, by omega, ?_⟩
  rw [Function.iterate_succ_apply', Function.iterate_succ_apply, step_down, hchildren,
    iterate_resume _ _ (fun s => resume (visitForest down up kids s) fun s => (.scan a none, s))
      fun _ => hrun, Tree.visit, resume_andThen, resume_andThen]
  exact iterate_resume (n := 1) _ _ _ fun _ => iterate_resume (n := 1) _ _ _ fun _ => hup _

mutual
/-- From the entry of a subtree the walk comes to where its parent goes on, as the recursive visit
says. `start` is above the subtree, so that the walk does not end in it. -/
theorem iterate_visit {t : Tree α} (hlinked : t.Linked L) (hnodup : t.nodes.Nodup)
    (hstart : start ∉ t.nodes) {q : α} (hparent : L.parent t.root = some q) (s : σ) :
    ∃ n, n + 1 ≤ 3 * t.nodes.length ∧
      (step L down up start)^[n] (.down t.root, s) =
        resume (t.visit down up s) fun s => (.scan q (after t.root (L.children q)), s) := by
  cases t with
  | node a kids =>
      obtain ⟨hchildren, hkids⟩ := hlinked
      obtain ⟨-, hkidsNodup⟩ := List.nodup_cons.mp hnodup
      rw [Tree.nodes, List.mem_cons, not_or] at hstart
      obtain ⟨n, hn, hrun⟩ := iterate_node s hchildren
        (fun s => iterate_visitForest [] hkids hkidsNodup hstart.2 hchildren (by simp) s)
        (step_up (Ne.symm hstart.1) hparent)
      exact ⟨n, by rw [Tree.nodes, List.length_cons]; omega, hrun⟩
theorem iterate_visitForest {a : α} (pre : List α) {ts : List (Tree α)}
    (hlinked : ForestLinked L a ts) (hnodup : (forestNodes ts).Nodup)
    (hstart : start ∉ forestNodes ts) (hchildren : L.children a = pre ++ ts.map Tree.root)
    (hpre : ∀ b ∈ pre, b ∉ ts.map Tree.root) (s : σ) :
    ∃ n, n ≤ 3 * (forestNodes ts).length ∧
      (step L down up start)^[n] (.scan a (ts.map Tree.root).head?, s) =
        resume (visitForest down up ts s) fun s => (.scan a none, s) := by
  cases ts with
  | nil => exact ⟨0, Nat.le_refl _, rfl⟩
  | cons t ts =>
      obtain ⟨⟨hparent, ht⟩, hts⟩ := hlinked
      obtain ⟨htNodup, htsNodup, hdisj⟩ := List.nodup_append.mp hnodup
      rw [forestNodes, List.mem_append, not_or] at hstart
      have hroot : t.root ∉ pre := fun hmem => hpre _ hmem (by simp)
      have hchildren' : L.children a = (pre ++ [t.root]) ++ ts.map Tree.root := by
        rw [hchildren, List.map_cons, List.append_assoc, List.singleton_append]
      have hafter : after t.root (L.children a) = (ts.map Tree.root).head? := by
        rw [hchildren, List.map_cons, after_append hroot]
      have hpre' : ∀ b ∈ pre ++ [t.root], b ∉ ts.map Tree.root := by
        intro b hb hmem
        rcases List.mem_append.mp hb with hb | hb
        · exact hpre b hb (List.mem_cons_of_mem _ hmem)
        · rw [List.mem_singleton.mp hb] at hmem
          exact hdisj _ t.root_mem_nodes _ (roots_subset_forestNodes ts hmem) rfl
      obtain ⟨n, hn, hrun⟩ := iterate_visit ht htNodup hstart.1 hparent s
      obtain ⟨m, hm, hrest⟩ := iterate_visitForest _ hts htsNodup hstart.2 hchildren' hpre'
        (t.visit down up s).2
      refine ⟨m + (n + 1), by rw [forestNodes, List.length_append]; omega, ?_⟩
      have henter : step L down up start (.scan a ((t :: ts).map Tree.root).head?, s) =
          (.down t.root, s) := rfl
      rw [Function.iterate_add_apply, Function.iterate_succ_apply, henter, hrun, hafter,
        visitForest, resume_andThen]
      exact iterate_resume _ _ _ fun _ => hrest
end

/-- The walk from the root of a tree ends with the answer and the state of the recursive visit. -/
theorem walk_eq_visit {t : Tree α} (hlinked : t.Linked L) (hnodup : t.nodes.Nodup) (s : σ)
    {fuel : Nat} (hfuel : 3 * t.nodes.length ≤ fuel) :
    walk L down up t.root fuel s = some (t.visit down up s) := by
  cases t with
  | node a kids =>
      obtain ⟨hchildren, hkids⟩ := hlinked
      obtain ⟨ha, hkidsNodup⟩ := List.nodup_cons.mp hnodup
      obtain ⟨n, hn, hrun⟩ := iterate_node s hchildren
        (fun s => iterate_visitForest [] hkids hkidsNodup ha hchildren (by simp) s) step_up_start
      obtain ⟨m, rfl⟩ : ∃ m, fuel = m + n := by
        rw [Tree.nodes, List.length_cons] at hfuel
        exact ⟨fuel - n, by omega⟩
      rw [walk, Tree.root, Function.iterate_add_apply, hrun]
      by_cases h : ((Tree.node a kids).visit down up s).1 = 0
      · rw [resume, if_pos h, step_done, ← h]
      · rw [resume, if_neg h, step_done]

/-! ### Growing and shrinking the tree -/

/-- `a` becomes the first child of `p`. -/
def Links.add (L : Links α) (p a : α) : Links α where
  children := Function.update (Function.update L.children a []) p (a :: L.children p)
  parent := Function.update L.parent a (some p)

/-- `a` leaves the list of its siblings. -/
def Links.del (L : Links α) (a : α) : Links α where
  children := fun b => if L.parent a = some b then (L.children b).erase a else L.children b
  parent := L.parent

theorem Links.add_children (L : Links α) (p a b : α) :
    (L.add p a).children b =
      if b = p then a :: L.children p else if b = a then [] else L.children b := by
  simp only [Links.add, Function.update_apply]

theorem Links.add_parent (L : Links α) (p a b : α) :
    (L.add p a).parent b = if b = a then some p else L.parent b :=
  Function.update_apply _ _ _ _

theorem Links.del_children (L : Links α) (a b : α) :
    (L.del a).children b = if L.parent a = some b then (L.children b).erase a else L.children b :=
  rfl

mutual
def Tree.graft (p a : α) : Tree α → Tree α
  | .node b kids =>
      .node b (if b = p then .node a [] :: graftForest p a kids else graftForest p a kids)
def graftForest (p a : α) : List (Tree α) → List (Tree α)
  | [] => []
  | t :: ts => t.graft p a :: graftForest p a ts
end

mutual
def Tree.prune (a : α) : Tree α → Tree α
  | .node b kids => .node b (pruneForest a kids)
def pruneForest (a : α) : List (Tree α) → List (Tree α)
  | [] => []
  | t :: ts => if t.root = a then pruneForest a ts else t.prune a :: pruneForest a ts
end

@[simp] theorem Tree.root_graft (p a : α) (t : Tree α) : (t.graft p a).root = t.root := by
  cases t with
  | node b kids => rfl

@[simp] theorem Tree.root_prune (a : α) (t : Tree α) : (t.prune a).root = t.root := by
  cases t with
  | node b kids => rfl

theorem roots_graftForest (p a : α) (ts : List (Tree α)) :
    (graftForest p a ts).map Tree.root = ts.map Tree.root := by
  induction ts with
  | nil => rfl
  | cons t ts ih => rw [graftForest, List.map_cons, List.map_cons, Tree.root_graft, ih]

theorem roots_pruneForest (a : α) (ts : List (Tree α)) :
    (pruneForest a ts).map Tree.root = (ts.map Tree.root).filter (· ≠ a) := by
  induction ts with
  | nil => rfl
  | cons t ts ih => by_cases h : t.root = a <;> simp [pruneForest, h, ih]

mutual
theorem Tree.graft_of_notMem {p a : α} {t : Tree α} (h : p ∉ t.nodes) : t.graft p a = t := by
  cases t with
  | node b kids =>
      rw [Tree.nodes, List.mem_cons, not_or] at h
      rw [Tree.graft, if_neg (Ne.symm h.1), graftForest_of_notMem h.2]
theorem graftForest_of_notMem {p a : α} {ts : List (Tree α)} (h : p ∉ forestNodes ts) :
    graftForest p a ts = ts := by
  cases ts with
  | nil => rfl
  | cons t ts =>
      rw [forestNodes, List.mem_append, not_or] at h
      rw [graftForest, Tree.graft_of_notMem h.1, graftForest_of_notMem h.2]
end

mutual
theorem Tree.nodes_graft {p a : α} {t : Tree α} (hp : p ∈ t.nodes) (hnodup : t.nodes.Nodup) :
    (t.graft p a).nodes.Perm (a :: t.nodes) := by
  cases t with
  | node b kids =>
      obtain ⟨hb, hkids⟩ := List.nodup_cons.mp hnodup
      by_cases hbp : b = p
      · subst hbp
        rw [Tree.graft, if_pos rfl, graftForest_of_notMem hb]
        exact List.Perm.swap a b _
      · have hmem : p ∈ forestNodes kids := List.mem_of_ne_of_mem (Ne.symm hbp) hp
        rw [Tree.graft, if_neg hbp]
        exact ((forestNodes_graft hmem hkids).cons b).trans (List.Perm.swap a b _)
theorem forestNodes_graft {p a : α} {ts : List (Tree α)} (hp : p ∈ forestNodes ts)
    (hnodup : (forestNodes ts).Nodup) :
    (forestNodes (graftForest p a ts)).Perm (a :: forestNodes ts) := by
  cases ts with
  | nil => cases hp
  | cons t ts =>
      obtain ⟨ht, hts, hdisj⟩ := List.nodup_append.mp hnodup
      rw [graftForest, forestNodes, forestNodes]
      by_cases hpt : p ∈ t.nodes
      · rw [graftForest_of_notMem fun hmem => hdisj p hpt p hmem rfl]
        exact (Tree.nodes_graft hpt ht).append_right _
      · have hmem : p ∈ forestNodes ts := (List.mem_append.mp hp).resolve_left hpt
        rw [Tree.graft_of_notMem hpt]
        exact ((forestNodes_graft hmem hts).append_left _).trans List.perm_middle
end

mutual
theorem Tree.Linked.add {p a : α} {t : Tree α} (h : t.Linked L) (ha : a ∉ t.nodes) :
    (t.graft p a).Linked (L.add p a) := by
  cases t with
  | node b kids =>
      obtain ⟨hchildren, hkids⟩ := h
      rw [Tree.nodes, List.mem_cons, not_or] at ha
      have hforest := ForestLinked.add (p := p) hkids ha.2
      by_cases hb : b = p
      · subst hb
        rw [Tree.graft, if_pos rfl]
        refine ⟨?_, ⟨⟨?_, ?_, trivial⟩, hforest⟩⟩
        · rw [Links.add_children, if_pos rfl, List.map_cons, roots_graftForest, hchildren]
          rfl
        · exact (Links.add_parent L b a a).trans (if_pos rfl)
        · rw [Links.add_children, if_neg ha.1, if_pos rfl, List.map_nil]
      · rw [Tree.graft, if_neg hb]
        refine ⟨?_, hforest⟩
        rw [Links.add_children, if_neg hb, if_neg (Ne.symm ha.1), hchildren, roots_graftForest]
theorem ForestLinked.add {p a b : α} {ts : List (Tree α)} (h : ForestLinked L b ts)
    (ha : a ∉ forestNodes ts) : ForestLinked (L.add p a) b (graftForest p a ts) := by
  cases ts with
  | nil => trivial
  | cons t ts =>
      obtain ⟨⟨hparent, ht⟩, hts⟩ := h
      rw [forestNodes, List.mem_append, not_or] at ha
      have hroot : t.root ≠ a := fun heq => ha.1 (heq ▸ t.root_mem_nodes)
      refine ⟨⟨?_, ht.add ha.1⟩, ForestLinked.add hts ha.2⟩
      rw [Tree.root_graft, Links.add_parent, if_neg hroot, hparent]
end

omit [DecidableEq α] in
theorem ForestLinked.parent_eq {b : α} {ts : List (Tree α)} (h : ForestLinked L b ts) {a : α}
    (ha : a ∈ ts.map Tree.root) : L.parent a = some b := by
  induction ts with
  | nil => cases ha
  | cons t ts ih =>
      rcases List.mem_cons.mp ha with rfl | ha
      · exact h.1.1
      · exact ih h.2 ha

mutual
theorem Tree.Linked.del {a : α} {t : Tree α} (h : t.Linked L) (hnodup : t.nodes.Nodup) :
    (t.prune a).Linked (L.del a) := by
  cases t with
  | node b kids =>
      obtain ⟨hchildren, hkids⟩ := h
      obtain ⟨-, hkidsNodup⟩ := List.nodup_cons.mp hnodup
      refine ⟨?_, ForestLinked.del hkids hkidsNodup⟩
      rw [roots_pruneForest, Links.del_children, hchildren]
      by_cases hparent : L.parent a = some b
      · rw [if_pos hparent, (nodup_roots hkidsNodup).erase_eq_filter]
        exact List.filter_congr fun c _ => by simp [bne, beq_eq_decide]
      · rw [if_neg hparent, List.filter_eq_self.mpr]
        intro c hc
        refine decide_eq_true fun heq => hparent ?_
        rw [← heq]
        exact hkids.parent_eq hc
theorem ForestLinked.del {a b : α} {ts : List (Tree α)} (h : ForestLinked L b ts)
    (hnodup : (forestNodes ts).Nodup) : ForestLinked (L.del a) b (pruneForest a ts) := by
  cases ts with
  | nil => trivial
  | cons t ts =>
      obtain ⟨⟨hparent, ht⟩, hts⟩ := h
      obtain ⟨htNodup, htsNodup, -⟩ := List.nodup_append.mp hnodup
      have hrest := ForestLinked.del (a := a) hts htsNodup
      by_cases hroot : t.root = a
      · rw [pruneForest, if_pos hroot]
        exact hrest
      · rw [pruneForest, if_neg hroot]
        exact ⟨⟨by rw [Tree.root_prune]; exact hparent, ht.del htNodup⟩, hrest⟩
end

mutual
/-- Pruning a leaf takes out that node and nothing else. -/
theorem Tree.nodes_prune {a : α} {t : Tree α} (h : t.Linked L) (hleaf : L.children a = [])
    (hroot : t.root ≠ a) : (t.prune a).nodes = t.nodes.filter (· ≠ a) := by
  cases t with
  | node b kids =>
      have hb : b ≠ a := hroot
      rw [Tree.prune, Tree.nodes, Tree.nodes, forestNodes_prune h.2 hleaf]
      simp [hb]
theorem forestNodes_prune {a b : α} {ts : List (Tree α)} (h : ForestLinked L b ts)
    (hleaf : L.children a = []) :
    forestNodes (pruneForest a ts) = (forestNodes ts).filter (· ≠ a) := by
  cases ts with
  | nil => rfl
  | cons t ts =>
      obtain ⟨⟨-, ht⟩, hts⟩ := h
      rw [forestNodes, List.filter_append, ← forestNodes_prune hts hleaf]
      by_cases hroot : t.root = a
      · have hnodes : t.nodes = [a] := by
          cases t with
          | node c kids =>
              have hkids : kids = [] := by
                rw [← List.map_eq_nil_iff, ← ht.1, ← hleaf]
                exact congrArg L.children hroot
              rw [hkids, ← hroot]
              rfl
        rw [pruneForest, if_pos hroot, hnodes]
        simp
      · rw [pruneForest, if_neg hroot, forestNodes, Tree.nodes_prune ht hleaf hroot]
end

/-! ### The links of a tree with a fixed root

What a system keeps of its links: some tree spells them out. -/

/-- The nodes `as`, with their links, are a tree under `root`. -/
def Links.IsTree (L : Links α) (root : α) (as : List α) : Prop :=
  ∃ t : Tree α, t.root = root ∧ t.Linked L ∧ t.nodes.Nodup ∧ t.nodes.Perm as

theorem Links.IsTree.add {root p a : α} {as : List α} (h : L.IsTree root as) (hp : p ∈ as)
    (ha : a ∉ as) : (L.add p a).IsTree root (a :: as) := by
  obtain ⟨t, hroot, hlinked, hnodup, hperm⟩ := h
  have ha' : a ∉ t.nodes := fun hmem => ha (hperm.mem_iff.mp hmem)
  have hnodes := Tree.nodes_graft (a := a) (hperm.mem_iff.mpr hp) hnodup
  refine ⟨t.graft p a, by rw [Tree.root_graft, hroot], hlinked.add ha', ?_, hnodes.trans (hperm.cons a)⟩
  exact hnodes.nodup_iff.mpr (List.nodup_cons.mpr ⟨ha', hnodup⟩)

theorem Links.IsTree.del {root a : α} {as : List α} (h : L.IsTree root as)
    (hleaf : L.children a = []) (hne : a ≠ root) : (L.del a).IsTree root (as.erase a) := by
  obtain ⟨t, hroot, hlinked, hnodup, hperm⟩ := h
  have hnodes : (t.prune a).nodes = t.nodes.erase a := by
    rw [Tree.nodes_prune hlinked hleaf (hroot ▸ Ne.symm hne), hnodup.erase_eq_filter]
    exact List.filter_congr fun c _ => by simp [bne, beq_eq_decide]
  refine ⟨t.prune a, by rw [Tree.root_prune, hroot], hlinked.del hnodup, ?_, ?_⟩
  · rw [hnodes]
    exact hnodup.erase a
  · rw [hnodes]
    exact hperm.erase a

end Lkm.TreeWalk
