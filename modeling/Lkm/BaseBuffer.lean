import Mathlib.Data.BitVec
import Mathlib.Data.List.TakeWhile

/-! Character buffers of a fixed size, with the bounds that C does not check: a write or a read
outside the buffer is `none` here. -/

namespace Lkm.Buffer

abbrev Byte := BitVec 8

/-- `char buf[n]`. -/
abbrev Buf (n : Nat) := Vector Byte n

variable {n : Nat}

/-- `memset(buf, 0, n)`. -/
def zeroed (n : Nat) : Buf n := Vector.replicate n 0

/-- Writing bytes one by one from the index `i` on. -/
def store : Buf n → Nat → List Byte → Option (Buf n)
  | buf, _, [] => some buf
  | buf, i, c :: cs => if h : i < n then store (buf.set i c h) (i + 1) cs else none

/-- `strlen(buf)`. -/
def strlen (buf : Buf n) : Option Nat := buf.toList.findIdx? (· = 0)

/-- The bytes before the terminator. -/
def text (buf : Buf n) : Option (List Byte) := (strlen buf).map buf.toList.take

theorem store_eq_some (buf : Buf n) (i : Nat) (cs : List Byte) (h : i + cs.length ≤ n) :
    ∃ buf', store buf i cs = some buf' ∧
      buf'.toList = buf.toList.take i ++ cs ++ buf.toList.drop (i + cs.length) := by
  induction cs generalizing buf i with
  | nil => exact ⟨buf, rfl, by simp⟩
  | cons c cs ih =>
      rw [List.length_cons] at h
      have hi : i < n := by omega
      obtain ⟨buf', hstore, hlist⟩ := ih (buf.set i c hi) (i + 1) (by omega)
      refine ⟨buf', by rw [store, dif_pos hi, hstore], ?_⟩
      rw [hlist, Vector.toList_set, List.take_succ_eq_append_getElem (by simpa using hi),
        List.getElem_set_self, List.take_set_of_le (Nat.le_refl i),
        List.drop_set_of_lt (by omega), List.length_cons,
        show i + (cs.length + 1) = i + 1 + cs.length by omega]
      simp

theorem store_eq_none (buf : Buf n) (i : Nat) (cs : List Byte) (hi : i ≤ n)
    (h : n < i + cs.length) : store buf i cs = none := by
  induction cs generalizing buf i with
  | nil =>
      rw [List.length_nil] at h
      omega
  | cons c cs ih =>
      rw [List.length_cons] at h
      rw [store]
      split_ifs with hlt
      · exact ih _ (i + 1) hlt (by omega)
      · rfl

theorem text_eq (buf : Buf n) :
    text buf = if 0 ∈ buf.toList then some (buf.toList.takeWhile (· ≠ 0)) else none := by
  unfold text strlen
  generalize buf.toList = cs
  induction cs with
  | nil => rfl
  | cons c cs ih =>
      rw [List.findIdx?_cons, List.takeWhile_cons]
      by_cases hc : c = 0
      · simp [hc]
      · have hne : 0 ≠ c := Ne.symm hc
        have htake : (c :: cs).take ∘ (· + 1) = (c :: ·) ∘ cs.take := rfl
        simp only [hc, hne, decide_false, Bool.false_eq_true, if_false, ne_eq, not_false_eq_true,
          decide_true, if_true, List.mem_cons, false_or, Option.map_map, htake]
        rw [← Option.map_map, ih]
        split_ifs <;> rfl

/-- A text and its terminator, with anything behind. -/
theorem strlen_of_terminated {buf : Buf n} {cs rest : List Byte} (hcs : 0 ∉ cs)
    (hbuf : buf.toList = cs ++ 0 :: rest) : strlen buf = some cs.length := by
  have hnone : cs.findIdx? (· = 0) = none := by
    rw [List.findIdx?_eq_none_iff]
    intro c hc
    exact decide_eq_false fun h => hcs (h ▸ hc)
  rw [strlen, hbuf, List.findIdx?_append, hnone, List.findIdx?_cons]
  simp

theorem text_of_terminated {buf : Buf n} {cs rest : List Byte} (hcs : 0 ∉ cs)
    (hbuf : buf.toList = cs ++ 0 :: rest) : text buf = some cs := by
  rw [text, strlen_of_terminated hcs hbuf, Option.map_some, hbuf, List.take_left]

/-- Terminators behind a message do not change its text. -/
theorem takeWhile_padded (cs : List Byte) (k : Nat) :
    (cs ++ List.replicate k 0).takeWhile (· ≠ 0) = cs.takeWhile (· ≠ 0) := by
  induction cs with
  | nil => cases k <;> rfl
  | cons c cs ih => rw [List.cons_append, List.takeWhile_cons, List.takeWhile_cons, ih]

/-- A message that is copied into a cleared buffer and read back as a string: what a terminator
within the buffer leaves of it. -/
theorem text_store_zeroed (n : Nat) (cs : List Byte) :
    (store (zeroed n) 0 cs).bind text =
      if cs.length < n ∨ cs.length = n ∧ 0 ∈ cs then some (cs.takeWhile (· ≠ 0)) else none := by
  by_cases hlength : cs.length ≤ n
  · obtain ⟨buf, hstore, hlist⟩ := store_eq_some (zeroed n) 0 cs (by omega)
    have hbuf : buf.toList = cs ++ List.replicate (n - cs.length) 0 := by
      rw [hlist]
      simp [zeroed]
    have hnul : 0 ∈ buf.toList ↔ cs.length < n ∨ cs.length = n ∧ 0 ∈ cs := by
      rw [hbuf, List.mem_append, List.mem_replicate]
      constructor
      · rintro (hmem | ⟨hpad, -⟩)
        · rcases Nat.lt_or_eq_of_le hlength with hlt | heq
          · exact Or.inl hlt
          · exact Or.inr ⟨heq, hmem⟩
        · exact Or.inl (by omega)
      · rintro (hlt | ⟨-, hmem⟩)
        · exact Or.inr ⟨by omega, rfl⟩
        · exact Or.inl hmem
    rw [hstore, Option.bind_some, text_eq, if_congr hnul rfl rfl, hbuf, takeWhile_padded]
  · rw [store_eq_none _ _ _ (Nat.zero_le n) (by omega), Option.bind_none, if_neg (by omega)]

theorem takeWhile_eq_self {cs : List Byte} (h : 0 ∉ cs) : cs.takeWhile (· ≠ 0) = cs := by
  rw [List.takeWhile_eq_self_iff]
  intro c hc
  have : c ≠ 0 := fun heq => h (heq ▸ hc)
  simpa using this

/-- A message survives the terminator and a limit of `k` bytes exactly when it has no terminator and
is not longer. -/
theorem take_text_eq_iff (cs : List Byte) (k : Nat) :
    (cs.takeWhile (· ≠ 0)).take k = cs ↔ 0 ∉ cs ∧ cs.length ≤ k := by
  constructor
  · intro h
    constructor
    · intro hmem
      rw [← h] at hmem
      have hzero := List.mem_takeWhile_imp (List.mem_of_mem_take hmem)
      exact absurd hzero (by decide)
    · have hle := List.length_take_le k (cs.takeWhile (· ≠ 0))
      rwa [h] at hle
  · rintro ⟨hnul, hlength⟩
    rw [takeWhile_eq_self hnul, List.take_of_length_le hlength]

/-! ### The memory of the caller -/

/-- The memory of a caller of `read`: the length that it asks for, and where `put_user` succeeds,
relative to the start of its buffer. -/
structure UserBuf where
  length : Nat
  writable : Nat → Bool

/-- `put_user(c, buf + offset)`: what is stored. -/
def putUser (user : UserBuf) (offset : Nat) (c : Byte) : List (Nat × Byte) :=
  if user.writable offset then [(offset, c)] else []

/-- Storing `cs` from an offset on. -/
def putAll (user : UserBuf) : Nat → List Byte → List (Nat × Byte)
  | _, [] => []
  | offset, c :: cs => putUser user offset c ++ putAll user (offset + 1) cs

theorem map_putAll_length (user : UserBuf) (offset : Nat) (cs : List Byte) :
    ((putAll user offset cs).map Prod.snd).length ≤ cs.length := by
  induction cs generalizing offset with
  | nil => exact Nat.le_refl 0
  | cons c cs ih =>
      have hrest := ih (offset + 1)
      rw [putAll, List.map_append, List.length_append, List.length_cons]
      have hput : ((putUser user offset c).map Prod.snd).length ≤ 1 := by
        unfold putUser
        split_ifs <;> simp
      omega

/-- Nothing is stored exactly when no byte can be. -/
theorem putAll_eq_nil_iff (user : UserBuf) (offset : Nat) (cs : List Byte) :
    putAll user offset cs = [] ↔ ∀ i < cs.length, user.writable (offset + i) = false := by
  induction cs generalizing offset with
  | nil => simp [putAll]
  | cons c cs ih =>
      have hput : putUser user offset c = [] ↔ user.writable offset = false := by
        unfold putUser
        split_ifs with hwritable <;> simp [hwritable]
      rw [putAll, List.append_eq_nil_iff, hput, ih, List.length_cons]
      constructor
      · rintro ⟨hfirst, hrest⟩ i hi
        cases i with
        | zero => exact hfirst
        | succ i =>
            rw [show offset + (i + 1) = offset + 1 + i by omega]
            exact hrest i (Nat.lt_of_succ_lt_succ hi)
      · intro h
        refine ⟨h 0 (Nat.zero_lt_succ _), fun i hi => ?_⟩
        rw [show offset + 1 + i = offset + (i + 1) by omega]
        exact h (i + 1) (Nat.succ_lt_succ hi)

/-- Everything is stored exactly when every byte can be. -/
theorem map_putAll_eq_iff (user : UserBuf) (offset : Nat) (cs : List Byte) :
    (putAll user offset cs).map Prod.snd = cs ↔
      ∀ i < cs.length, user.writable (offset + i) = true := by
  induction cs generalizing offset with
  | nil => simp [putAll]
  | cons c cs ih =>
      rw [putAll, List.map_append]
      constructor
      · intro h i hi
        have hput : user.writable offset = true := by
          by_contra hnot
          have hlength := map_putAll_length user (offset + 1) cs
          simp only [putUser, hnot, if_false, List.map_nil, List.nil_append] at h
          rw [h, List.length_cons] at hlength
          omega
        simp only [putUser, hput, if_true, List.map_cons, List.map_nil, List.singleton_append,
          List.cons.injEq, true_and] at h
        cases i with
        | zero => exact hput
        | succ i =>
            have hi : i < cs.length := Nat.lt_of_succ_lt_succ hi
            have := (ih (offset + 1)).mp h i hi
            rwa [show offset + (i + 1) = offset + 1 + i by omega]
      · intro h
        have hput : user.writable offset = true := h 0 (Nat.zero_lt_succ _)
        have hrest : (putAll user (offset + 1) cs).map Prod.snd = cs := by
          refine (ih (offset + 1)).mpr fun i hi => ?_
          rw [show offset + 1 + i = offset + (i + 1) by omega]
          exact h (i + 1) (Nat.succ_lt_succ hi)
        rw [hrest, putUser, if_pos hput]
        rfl

end Lkm.Buffer
