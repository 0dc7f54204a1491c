import Mathlib.Logic.Function.Basic

/-! The module `ex6.c`: every open file has a page of its own, which user space can map, and a global
pointer that is set by `char_open` and read by `char_close` and by `cleanup`. Allocations are numbered in
the order in which they are made, and an open file has the number of its page. What the pages hold is
left out, with the copies that `char_open` makes behind the end of its page. -/

namespace Lkm.Hello

structure MmapInfo where
  data : Nat
  reference : Int

/-- An open file, with the number of its mappings. -/
structure File where
  privateData : MmapInfo
  mappings : Nat

/-- `freed p` counts the calls of `free_page` for the page `p`. -/
structure State where
  globalVar : Option Nat
  opened : Nat
  freed : Nat → Nat
  files : Nat → Option File
  loaded : Bool

def start : State := ⟨none, 0, fun _ => 0, fun _ => none, true⟩

inductive Event where
  | charOpen (allocated : Bool) (reference : Int)
  | charMmap (f : Nat)
  | mmapOpen (f : Nat)
  | mmapClose (f : Nat)
  | charClose (f : Nat)
  | cleanup
  deriving DecidableEq

def MmapInfo.mmapOpen (info : MmapInfo) : MmapInfo := { info with reference := info.reference + 1 }

def MmapInfo.mmapClose (info : MmapInfo) : MmapInfo := { info with reference := info.reference - 1 }

/-- `char_open`. When `kmalloc` or `get_zeroed_page` fails it writes through null, and the run ends. The
`reference` of the new `mmap_info` is what `kmalloc` left there. -/
def charOpen (allocated : Bool) (reference : Int) (s : State) : Option State :=
  if allocated then
    let info : MmapInfo := ⟨s.opened, reference⟩
    some { s with
      globalVar := some info.data
      opened := s.opened + 1
      files := Function.update s.files s.opened (some ⟨info, 0⟩) }
  else none

def updateFile (s : State) (f : Nat) (file : File) : State :=
  { s with files := Function.update s.files f (some file) }

/-- `char_mmap`, which calls `mmap_open`. -/
def charMmap (f : Nat) (s : State) : Option State :=
  (s.files f).map fun file =>
    updateFile s f { privateData := file.privateData.mmapOpen, mappings := file.mappings + 1 }

/-- A mapping is copied or split. -/
def mmapOpen (f : Nat) (s : State) : Option State := do
  let file ← s.files f
  if file.mappings = 0 then none
  else some (updateFile s f { privateData := file.privateData.mmapOpen, mappings := file.mappings + 1 })

def mmapClose (f : Nat) (s : State) : Option State := do
  let file ← s.files f
  if file.mappings = 0 then none
  else some (updateFile s f { privateData := file.privateData.mmapClose, mappings := file.mappings - 1 })

def freePage (s : State) (p : Nat) : State :=
  { s with freed := Function.update s.freed p (s.freed p + 1) }

/-- `char_close`, which runs when the last mapping is gone. -/
def charClose (f : Nat) (s : State) : Option State := do
  let file ← s.files f
  if file.mappings = 0 then
    let s := freePage s file.privateData.data
    some { s with files := Function.update s.files f none }
  else none

/-- `cleanup`, which the kernel calls when no file is open. -/
def cleanup (s : State) : Option State :=
  if ∀ f < s.opened, s.files f = none then some { s with loaded := false } else none

def step (s : State) (e : Event) : Option State :=
  if s.loaded then
    match e with
    | .charOpen allocated reference => charOpen allocated reference s
    | .charMmap f => charMmap f s
    | .mmapOpen f => mmapOpen f s
    | .mmapClose f => mmapClose f s
    | .charClose f => charClose f s
    | .cleanup => cleanup s
  else none

/-! ### What one step does -/

/-- A file keeps its page while it is open; only its mappings change. -/
def SamePage (s t : State) : Prop :=
  t.globalVar = s.globalVar ∧ t.opened = s.opened ∧ t.freed = s.freed ∧
    ∀ f, (t.files f).map (fun file => file.privateData.data) =
      (s.files f).map fun file => file.privateData.data

theorem samePage_updateFile {s : State} {f : Nat} {file file' : File} (hfile : s.files f = some file)
    (hdata : file'.privateData.data = file.privateData.data) : SamePage s (updateFile s f file') := by
  refine ⟨rfl, rfl, rfl, fun g => ?_⟩
  by_cases hg : g = f
  · simp only [hg, updateFile, Function.update_self, hfile, Option.map_some, hdata]
  · simp only [updateFile, Function.update_of_ne hg]

/-- An operation on a mapping needs a file that is mapped. -/
theorem samePage_of_mapped {s t : State} {f : Nat} (change : File → File)
    (hdata : ∀ file, (change file).privateData.data = file.privateData.data)
    (h : ((s.files f).bind fun file =>
      if file.mappings = 0 then none else some (updateFile s f (change file))) = some t) :
    SamePage s t := by
  obtain ⟨file, hfile, h⟩ := Option.bind_eq_some_iff.mp h
  by_cases hmapped : file.mappings = 0
  · rw [if_pos hmapped] at h
    cases h
  · rw [if_neg hmapped] at h
    cases h
    exact samePage_updateFile hfile (hdata file)

/-- The steps: a new page, changed mappings, a page freed, or the end. -/
theorem step_cases {s t : State} {e : Event} (h : step s e = some t) :
    (∃ reference, e = .charOpen true reference ∧ t = { s with
      globalVar := some s.opened
      opened := s.opened + 1
      files := Function.update s.files s.opened (some ⟨⟨s.opened, reference⟩, 0⟩) }) ∨
    ((∃ f, e = .charMmap f ∨ e = .mmapOpen f ∨ e = .mmapClose f) ∧ SamePage s t) ∨
    (∃ f file, e = .charClose f ∧ s.files f = some file ∧ t = { s with
      freed := Function.update s.freed file.privateData.data (s.freed file.privateData.data + 1)
      files := Function.update s.files f none }) ∨
    (e = .cleanup ∧ (∀ f < s.opened, s.files f = none) ∧ t = { s with loaded := false }) := by
  unfold step at h
  have hloaded : s.loaded = true := by
    by_contra hnot
    rw [if_neg hnot] at h
    cases h
  rw [if_pos hloaded] at h
  cases e with
  | charOpen allocated reference =>
      cases allocated with
      | false => cases h
      | true =>
          cases h
          exact Or.inl ⟨reference, rfl, rfl⟩
  | charMmap f =>
      obtain ⟨file, hfile, rfl⟩ := Option.map_eq_some_iff.mp h
      exact Or.inr (Or.inl ⟨⟨f, Or.inl rfl⟩, samePage_updateFile hfile rfl⟩)
  | mmapOpen f =>
      have hsame := samePage_of_mapped
        (fun file => ⟨file.privateData.mmapOpen, file.mappings + 1⟩) (fun _ => rfl) h
      exact Or.inr (Or.inl ⟨⟨f, Or.inr (Or.inl rfl)⟩, hsame⟩)
  | mmapClose f =>
      have hsame := samePage_of_mapped
        (fun file => ⟨file.privateData.mmapClose, file.mappings - 1⟩) (fun _ => rfl) h
      exact Or.inr (Or.inl ⟨⟨f, Or.inr (Or.inr rfl)⟩, hsame⟩)
  | charClose f =>
      obtain ⟨file, hfile, h⟩ := Option.bind_eq_some_iff.mp h
      by_cases hmapped : file.mappings = 0
      · rw [if_pos hmapped] at h
        cases h
        exact Or.inr (Or.inr (Or.inl ⟨f, file, rfl, hfile, rfl⟩))
      · rw [if_neg hmapped] at h
        cases h
  | cleanup =>
      by_cases hclosed : ∀ f < s.opened, s.files f = none
      · have hcleanup : cleanup s = some { s with loaded := false } := if_pos hclosed
        rw [hcleanup, Option.some.injEq] at h
        exact Or.inr (Or.inr (Or.inr ⟨rfl, hclosed, h.symm⟩))
      · have hcleanup : cleanup s = none := if_neg hclosed
        rw [hcleanup] at h
        cases h

end Lkm.Hello
