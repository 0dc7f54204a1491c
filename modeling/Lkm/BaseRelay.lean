import Mathlib.Algebra.BigOperators.Ring.Finset
import Mathlib.Data.List.Nodup
import Mathlib.Logic.Function.Basic
import Mathlib.Logic.Relation

/-! Calling jobs through inboxes. A processor that calls a job has it in its hand, and then either
delivers the job itself or posts it to the inbox of the processor that is the job's home. A called
job is in exactly one hand or one inbox until it is delivered. -/

namespace Lkm.Relay

@[ext]
structure Board (P J : Type*) where
  called : J → Bool
  home : J → P
  inbox : P → List J
  hand : P → Option J

variable {P J : Type*} [DecidableEq P] [DecidableEq J]

namespace Board

/-- `c` calls `j`, which will be at home at `d`. -/
def call (b : Board P J) (c : P) (j : J) (d : P) : Board P J :=
  { b with
    called := Function.update b.called j true
    home := Function.update b.home j d
    hand := Function.update b.hand c (some j) }

def post (b : Board P J) (c : P) (j : J) (d : P) : Board P J :=
  { b with
    inbox := Function.update b.inbox d (j :: b.inbox d)
    hand := Function.update b.hand c none }

def deliver (b : Board P J) (c : P) (j : J) : Board P J :=
  { b with
    called := Function.update b.called j false
    hand := Function.update b.hand c none }

/-- A job of the inbox is delivered. -/
def receive (b : Board P J) (c : P) (j : J) : Board P J :=
  { b with
    called := Function.update b.called j false
    inbox := Function.update b.inbox c ((b.inbox c).erase j) }

def rehome (b : Board P J) (j : J) (d : P) : Board P J :=
  { b with home := Function.update b.home j d }

@[grind]
structure Sound (b : Board P J) : Prop where
  inbox : ∀ c j, j ∈ b.inbox c → b.called j = true ∧ b.home j = c ∧ ∀ d, b.hand d ≠ some j
  nodup : ∀ c, (b.inbox c).Nodup
  hand : ∀ c j, b.hand c = some j → b.called j = true
  one : ∀ c d j, b.hand c = some j → b.hand d = some j → c = d
  called : ∀ j, b.called j = true → j ∈ b.inbox (b.home j) ∨ ∃ c, b.hand c = some j

inductive Move : Board P J → Board P J → Prop
  | call {b : Board P J} {c : P} {j : J} {d : P} (hj : b.called j = false) (hc : b.hand c = none) :
      Move b (b.call c j d)
  | post {b : Board P J} {c : P} {j : J} {d : P} (hc : b.hand c = some j) (hd : b.home j = d) :
      Move b (b.post c j d)
  | deliver {b : Board P J} {c : P} {j : J} (hc : b.hand c = some j) : Move b (b.deliver c j)
  | receive {b : Board P J} {c : P} {j : J} (hj : j ∈ b.inbox c) : Move b (b.receive c j)
  | rehome {b : Board P J} {j : J} {d : P} (hj : b.called j = false) : Move b (b.rehome j d)

namespace Sound

variable {b b' : Board P J}

theorem move (h : b.Sound) (hm : Move b b') : b'.Sound := by
  cases hm with
  | call hj hc => constructor <;> simp only [Board.call, Function.update_apply] <;> grind -ring -linarith
  | post hc hd => constructor <;> simp only [Board.post, Function.update_apply] <;> grind -ring -linarith
  | deliver hc => constructor <;> simp only [Board.deliver, Function.update_apply] <;> grind -ring -linarith
  | receive hj =>
      have hmem (c : P) (i i' : J) : i ∈ (b.inbox c).erase i' ↔ i ≠ i' ∧ i ∈ b.inbox c :=
        (h.nodup c).mem_erase_iff
      have hnodup (c : P) (i : J) : ((b.inbox c).erase i).Nodup := (h.nodup c).erase i
      constructor <;> simp only [Board.receive, Function.update_apply] <;> grind -ring -linarith
  | rehome hj => constructor <;> simp only [Board.rehome, Function.update_apply] <;> grind -ring -linarith

theorem moves (h : b.Sound) (hm : Relation.ReflTransGen Move b b') : b'.Sound := by
  induction hm with
  | refl => exact h
  | tail _ hm ih => exact ih.move hm

omit [DecidableEq P] in
/-- A called job is in one place, once; a job that is not called is in none. -/
theorem total [Fintype P] (h : b.Sound) (j : J) :
    ∑ c, ((if b.hand c = some j then 1 else 0) + (b.inbox c).count j) = if b.called j then 1 else 0 := by
  have hcount {c : P} (hmem : j ∈ b.inbox c) : (b.inbox c).count j = 1 :=
    List.count_eq_one_of_mem (h.nodup c) hmem
  by_cases hcalled : b.called j = true
  · rw [if_pos hcalled]
    rcases h.called j hcalled with hmem | ⟨c, hc⟩
    · obtain ⟨-, -, hhand⟩ := h.inbox _ _ hmem
      rw [Finset.sum_eq_single (b.home j), if_neg (hhand _), hcount hmem]
      · intro d _ hd
        have hnot : j ∉ b.inbox d := fun hin => hd (h.inbox d j hin).2.1.symm
        rw [if_neg (hhand d), List.count_eq_zero_of_not_mem hnot, add_zero]
      · exact fun hno => absurd (Finset.mem_univ _) hno
    · have hnot (d : P) : j ∉ b.inbox d := fun hin => (h.inbox d j hin).2.2 c hc
      rw [Finset.sum_eq_single c, if_pos hc, List.count_eq_zero_of_not_mem (hnot c)]
      · intro d _ hd
        rw [if_neg fun hhand => hd (h.one d c j hhand hc), List.count_eq_zero_of_not_mem (hnot d),
          add_zero]
      · exact fun hno => absurd (Finset.mem_univ _) hno
  · rw [if_neg hcalled]
    refine Finset.sum_eq_zero fun c _ => ?_
    have hnot : j ∉ b.inbox c := fun hin => hcalled (h.inbox c j hin).1
    rw [if_neg fun hhand => hcalled (h.hand c j hhand), List.count_eq_zero_of_not_mem hnot, add_zero]

end Sound

end Board

end Lkm.Relay
