import Lkm.FdModel

/-! What `fs_details` of `ex9/exer9_ver3.c` finds. The search ends at the first closed descriptor, so it
misses the open ones behind it, and only a closed descriptor keeps it from reading behind the table. -/

namespace Lkm.Fd

open Buffer Format

/-- The last component of a path. -/
def lastComponent (path : Path) : List Byte := path.bytes.rtakeWhile (· ≠ 0x2f)

/-- The descriptor `i` is open, and the last component of its path is the name. -/
def IsMatch (table : FdTable) (filename : List Byte) (i : Nat) (f : File) : Prop :=
  table.fd[i]? = some (some f) ∧ lastComponent f.path = filename

/-- The output is the description of the first match, and it is empty if there is none. -/
structure Finds (table : FdTable) (filename : List Byte) (s : State) : Prop where
  found : ∀ i f, IsMatch table filename i f → (∀ j < i, ∀ g, ¬IsMatch table filename j g) →
    text s.output = some (describe i f)
  empty : (∀ i f, ¬IsMatch table filename i f) → text s.output = some []

/-- There is a match with no closed descriptor before it, or there is no match, but a closed
descriptor. -/
def Compact (table : FdTable) (filename : List Byte) : Prop :=
  (∃ i f, IsMatch table filename i f ∧ ∀ j < i, table.fd[j]? ≠ some none) ∨
    (∀ i f, ¬IsMatch table filename i f) ∧ none ∈ table.fd

/-- The search goes on behind this descriptor. -/
def passes (filename : List Byte) (slot : Option File) : Bool :=
  slot.any fun f => lastComponent f.path ≠ filename

theorem kbasename_path (f : File) : kbasename f.path.bytes = lastComponent f.path := kbasename_eq _

/-! ### The search -/

theorem searchLoop_skip (filename : List Byte) (skipped rest : List (Option File)) (i : Nat) (s : State)
    (h : ∀ slot ∈ skipped, passes filename slot = true) :
    ∃ log, searchLoop filename i (skipped ++ rest) s =
      searchLoop filename (i + skipped.length) rest { s with log := log } := by
  induction skipped generalizing i s with
  | nil => exact ⟨s.log, rfl⟩
  | cons slot skipped ih =>
      have hslot := h slot List.mem_cons_self
      cases slot with
      | none => cases hslot
      | some f =>
          have hne : lastComponent f.path ≠ filename := by simpa [passes] using hslot
          obtain ⟨log, hrest⟩ := ih (i + 1) { s with log := s.log ++ [pathLine f] }
            fun other hother => h other (List.mem_cons_of_mem _ hother)
          refine ⟨log, ?_⟩
          rw [List.cons_append, searchLoop]
          simp only [kbasename_path, hne, if_false]
          rw [hrest, List.length_cons, Nat.add_assoc, Nat.add_comm 1]

theorem searchLoop_match {filename : List Byte} {i : Nat} (hi : i < 2 ^ 31) {f : File}
    (hf : lastComponent f.path = filename) (rest : List (Option File)) (s : State) :
    ∃ t, searchLoop filename i (some f :: rest) s = some t ∧ text t.output = some (describe i f) := by
  obtain ⟨output, houtput, htext⟩ := Option.bind_eq_some_iff.mp
    (text_sprintf s.output (nul_notMem_describe i f) (length_describe_lt hi f))
  refine ⟨{ s with output := output, log := s.log ++ [pathLine f] ++ foundLines i f }, ?_, htext⟩
  rw [searchLoop]
  simp only [kbasename_path, hf, if_true, houtput, Option.bind_eq_bind, Option.bind_some]
  rfl

/-- The descriptors of a table up to the one at which the search ends, and that one with all behind
it. -/
theorem table_split (table : FdTable) (filename : List Byte) :
    ∃ skipped rest, table.fd = skipped ++ rest ∧ (∀ slot ∈ skipped, passes filename slot = true) ∧
      ∀ slot ∈ rest.head?, passes filename slot = false := by
  refine ⟨table.fd.takeWhile (passes filename), table.fd.dropWhile (passes filename),
    List.takeWhile_append_dropWhile.symm, fun slot hslot => List.mem_takeWhile_imp hslot, ?_⟩
  intro slot hslot
  have hhead := List.head?_dropWhile_not (passes filename) table.fd
  rw [Option.mem_def] at hslot
  rw [hslot] at hhead
  exact hhead

section Split

variable {table : FdTable} {filename : List Byte} {skipped rest : List (Option File)}
  (hfd : table.fd = skipped ++ rest) (hskipped : ∀ slot ∈ skipped, passes filename slot = true)

include hfd hskipped

/-- A match is not among the descriptors that the search passes. -/
theorem length_le_of_match {i : Nat} {f : File} (h : IsMatch table filename i f) :
    skipped.length ≤ i := by
  obtain ⟨hslot, hf⟩ := h
  by_contra hlt
  rw [hfd, List.getElem?_append_left (Nat.not_le.mp hlt)] at hslot
  have hpasses := hskipped _ (List.mem_of_getElem? hslot)
  simp [passes, hf] at hpasses

/-- The descriptors that it passes are open. -/
theorem open_of_lt {j : Nat} (hj : j < skipped.length) : table.fd[j]? ≠ some none := by
  intro hslot
  rw [hfd, List.getElem?_append_left hj] at hslot
  cases hskipped _ (List.mem_of_getElem? hslot)

end Split

theorem describe_ne_nil (i : Nat) (f : File) : describe i f ≠ [] := by
  unfold describe
  exact List.append_ne_nil_of_right_ne_nil _ (by decide)

/-- The search ends at a match: it is the first one, and no closed descriptor comes before it. -/
theorem finds_of_match {table : FdTable} {filename : List Byte} {i : Nat} {f : File} {s : State}
    (hmatch : IsMatch table filename i f) (hfirst : ∀ j < i, ∀ g, ¬IsMatch table filename j g)
    (hs : text s.output = some (describe i f)) : Finds table filename s := by
  constructor
  · intro j g hg hbefore
    have hij : i = j := by
      apply Nat.le_antisymm
      · exact Nat.not_lt.mp fun h => hfirst j h g hg
      · exact Nat.not_lt.mp fun h => hbefore i h f hmatch
    subst hij
    have hsame := hmatch.1.symm.trans hg.1
    rw [Option.some.injEq, Option.some.injEq] at hsame
    rw [← hsame]
    exact hs
  · intro hnone
    exact absurd hmatch (hnone i f)

/-- The search ends with an empty output: this is right if there is no match at all. -/
theorem finds_empty_iff (table : FdTable) (filename : List Byte) {s : State}
    (hs : text s.output = some []) :
    Finds table filename s ↔ ∀ i f, ¬IsMatch table filename i f := by
  classical
  constructor
  · intro h i f hf
    let someMatch (j : Nat) : Prop := ∃ g, IsMatch table filename j g
    have hex : ∃ j, someMatch j := ⟨i, f, hf⟩
    obtain ⟨g, hg⟩ := Nat.find_spec hex
    have htext := h.found (Nat.find hex) g hg fun j hj k hk => Nat.find_min hex hj ⟨k, hk⟩
    rw [hs, Option.some.injEq] at htext
    exact describe_ne_nil _ _ htext.symm
  · intro h
    exact ⟨fun i f hf => absurd hf (h i f), fun _ => hs⟩

theorem text_zeroed (n : Nat) : text (zeroed (n + 1)) = some [] := by
  have hlist : (zeroed (n + 1)).toList = [] ++ 0 :: List.replicate n 0 := by
    simp [zeroed, List.replicate_succ]
  exact text_of_terminated List.not_mem_nil hlist

/-- How the search ends, behind the descriptors `skipped` that it passes: at the end of the table, at a
closed descriptor, or at a match, whose description it leaves in the output. -/
inductive Ends (table : FdTable) (filename : List Byte) (s : State) (skipped : List (Option File)) :
    Option State → Prop where
  | behind : table.fd = skipped → Ends table filename s skipped none
  | closed {rest : List (Option File)} {t : State} : table.fd = skipped ++ none :: rest →
      t.output = s.output → Ends table filename s skipped (some t)
  | found {f : File} {rest : List (Option File)} {t : State} : table.fd = skipped ++ some f :: rest →
      lastComponent f.path = filename → text t.output = some (describe skipped.length f) →
      Ends table filename s skipped (some t)

theorem searchLoop_ends (table : FdTable) (filename : List Byte) (s : State) :
    ∃ skipped, (∀ slot ∈ skipped, passes filename slot = true) ∧
      Ends table filename s skipped (searchLoop filename 0 table.fd s) := by
  obtain ⟨skipped, rest, hfd, hskipped, hstop⟩ := table_split table filename
  obtain ⟨log, hloop⟩ := searchLoop_skip filename skipped rest 0 s hskipped
  refine ⟨skipped, hskipped, ?_⟩
  have hsearch : searchLoop filename 0 table.fd s =
      searchLoop filename skipped.length rest { s with log := log } := by
    rw [hfd, hloop, Nat.zero_add]
  rw [hsearch]
  cases rest with
  | nil => exact Ends.behind (hfd.trans (List.append_nil skipped))
  | cons slot rest =>
      cases slot with
      | none => exact Ends.closed hfd rfl
      | some f =>
          have hf : lastComponent f.path = filename := by
            simpa [passes] using hstop (some f) rfl
          have hlt : skipped.length < 2 ^ 31 := by
            have hbound := table.bound
            rw [hfd, List.length_append, List.length_cons] at hbound
            omega
          obtain ⟨t, ht, htext⟩ := searchLoop_match hlt hf rest { s with log := log }
          rw [ht]
          exact Ends.found hfd hf htext

/-- The descriptor behind those that the search passes. -/
theorem getElem?_stop {table : FdTable} {skipped rest : List (Option File)} {slot : Option File}
    (hfd : table.fd = skipped ++ slot :: rest) : table.fd[skipped.length]? = some slot := by
  rw [hfd, List.getElem?_append_right (Nat.le_refl _), Nat.sub_self, List.getElem?_cons_zero]

/-- All descriptors are open and none matches: the loop reads behind the table. -/
theorem not_compact_of_behind {table : FdTable} {filename : List Byte}
    (hall : ∀ slot ∈ table.fd, passes filename slot = true) : ¬Compact table filename := by
  intro h
  cases h with
  | inl h =>
      obtain ⟨i, f, hmatch, -⟩ := h
      have hle := length_le_of_match (List.append_nil table.fd).symm hall hmatch
      have hslot := hmatch.1
      rw [List.getElem?_eq_none hle] at hslot
      cases hslot
  | inr h => cases hall none h.2

/-- The search has come to a closed descriptor: no match comes before it. -/
theorem compact_iff_of_closed {table : FdTable} {filename : List Byte}
    {skipped rest : List (Option File)} (hfd : table.fd = skipped ++ none :: rest)
    (hskipped : ∀ slot ∈ skipped, passes filename slot = true) :
    Compact table filename ↔ ∀ i f, ¬IsMatch table filename i f := by
  constructor
  · intro h
    cases h with
    | inl h =>
        obtain ⟨i, f, hmatch, hopen⟩ := h
        have hend := getElem?_stop hfd
        cases Nat.lt_or_eq_of_le (length_le_of_match hfd hskipped hmatch) with
        | inl hlt => exact absurd hend (hopen _ hlt)
        | inr heq =>
            have hslot := hmatch.1
            rw [← heq, hend] at hslot
            cases hslot
    | inr h => exact h.1
  · exact fun h => Or.inr ⟨h, hfd ▸ List.mem_append_right _ List.mem_cons_self⟩

/-- The loop from the first descriptor on. -/
theorem searchLoop_iff (table : FdTable) (filename : List Byte) (s : State)
    (hs : text s.output = some []) :
    (∃ t, searchLoop filename 0 table.fd s = some t ∧ Finds table filename t) ↔
      Compact table filename := by
  obtain ⟨skipped, hskipped, hends⟩ := searchLoop_ends table filename s
  generalize searchLoop filename 0 table.fd s = result at hends
  cases hends with
  | behind hfd =>
      apply iff_of_false
      · intro h
        obtain ⟨t, ht, -⟩ := h
        cases ht
      · exact not_compact_of_behind (hfd ▸ hskipped)
  | @closed rest u hfd hu =>
      rw [compact_iff_of_closed hfd hskipped, ← finds_empty_iff table filename (hu ▸ hs)]
      constructor
      · intro h
        obtain ⟨t, ht, hfinds⟩ := h
        cases ht
        exact hfinds
      · exact fun hfinds => ⟨u, rfl, hfinds⟩
  | @found f rest u hfd hf htext =>
      have hmatch : IsMatch table filename skipped.length f := ⟨getElem?_stop hfd, hf⟩
      refine iff_of_true ⟨u, rfl, finds_of_match hmatch ?_ htext⟩ ?_
      · intro j hj g hg
        exact absurd (length_le_of_match hfd hskipped hg) (Nat.not_le.mpr hj)
      · exact Or.inl ⟨skipped.length, f, hmatch, fun j hj => open_of_lt hfd hskipped hj⟩

/-- `fs_details` leaves the description of the first match, or an empty output if there is none, and
stays within the table, exactly when there is room for the path, and a match comes before every
closed descriptor or there is none but a closed descriptor. -/
theorem finds_iff (allocated : Bool) (table : FdTable) (filename : List Byte) (s : State) :
    (∃ t, fsDetails allocated table filename s = some t ∧ Finds table filename t) ↔
      allocated = true ∧ Compact table filename := by
  have hloop := searchLoop_iff table filename { s with output := zeroed 500 } (text_zeroed 499)
  cases allocated with
  | false =>
      apply iff_of_false
      · intro h
        obtain ⟨t, ht, -⟩ := h
        cases ht
      · intro h
        cases h.1
  | true =>
      rw [fsDetails, if_pos rfl, and_iff_right rfl, ← hloop]
      constructor
      · intro h
        obtain ⟨t, ht, hfinds⟩ := h
        obtain ⟨u, hu, rfl⟩ := Option.map_eq_some_iff.mp ht
        exact ⟨u, hu, hfinds.found, hfinds.empty⟩
      · intro h
        obtain ⟨t, ht, hfinds⟩ := h
        refine ⟨_, Option.map_eq_some_iff.mpr ⟨t, ht, rfl⟩, hfinds.found, hfinds.empty⟩

/-- Descriptor 0 is closed, and descriptor 1 is the file "/a". -/
def holeBefore : FdTable where
  fd := [none, some {
    path := ⟨ascii "/a", by decide, by decide⟩, inode := ⟨0, 0, 0, 0, 0, 0⟩, count := 1, pos := 0,
    opOpen := 0, opRelease := 0 }]
  bound := by decide

/-- The search for "a" ends at the closed descriptor. -/
theorem finds_holeBefore :
    ¬∀ table filename s, ∃ t, fsDetails true table filename s = some t ∧ Finds table filename t := by
  intro h
  obtain ⟨t, ht, hfinds⟩ := h holeBefore (ascii "a") ⟨zeroed 500, []⟩
  cases ht
  have hfound := hfinds.found 1 _ ⟨rfl, by decide⟩ ?_
  · rw [text_zeroed, Option.some.injEq] at hfound
    exact describe_ne_nil _ _ hfound.symm
  · intro j hj g hg
    obtain rfl : j = 0 := by omega
    cases hg.1

end Lkm.Fd
