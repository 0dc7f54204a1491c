import Lkm.RemapModel

/-! The `PG_reserved` flags of `ex7.c`. Under the comment "unreserve the pages" the second loop of `cleanup`
calls `SetPageReserved` like the loop of `init`, so the pages of the area go back to the allocator as
reserved ones. -/

namespace Lkm.Remap

open Buffer Format PageTable Mem Area Runs

/-- `init` has changed the flags of the frames of the area and no others, and when `kfree` is called, the
frames of the allocation have the flags that they had before `init`. -/
structure Undone (before loaded freed : State) : Prop where
  changed : ∀ pfn, loaded.reserved pfn ≠ before.reserved pfn ↔ pfn ∈ areaPfns loaded.kmallocArea
  restored : ∀ x, Within loaded.kmallocPtr (18 * 4096) x →
    freed.reserved (virtToPhys x >>> 12) = before.reserved (virtToPhys x >>> 12)

theorem first_mem_areaPfns (area : Addr) : virtToPhys area >>> 12 ∈ areaPfns area := by
  refine List.mem_map.mpr ⟨0, List.mem_cons_self, ?_⟩
  exact congrArg (fun a => virtToPhys a >>> 12) (BitVec.add_zero area)

/-- The first page of the area is reserved by `cleanup`, so its flag cannot be both as it was and one
that `init` changed. -/
theorem not_undone (a : Allocation) {before loaded freed : State}
    (hptr : loaded.kmallocPtr = a.ptr) (harea : loaded.kmallocArea = pageAlign a.ptr)
    (hsame : loaded.reserved = before.reserved ∨
      loaded.reserved (virtToPhys (pageAlign a.ptr) >>> 12) = true)
    (hfreed : freed.reserved (virtToPhys (pageAlign a.ptr) >>> 12) = true) :
    ¬Undone before loaded freed := by
  rintro ⟨hchanged, hrestored⟩
  obtain ⟨-, hlow, hhigh⟩ := pageAlign_spec a
  have hne := (hchanged (virtToPhys (pageAlign a.ptr) >>> 12)).mpr (by
    rw [harea]
    exact first_mem_areaPfns _)
  have hbefore := hrestored (pageAlign a.ptr) (by
    rw [hptr]
    exact ⟨hlow, by omega⟩)
  rw [hfreed] at hbefore
  rcases hsame with hsame | hset
  · rw [hsame] at hne
    exact hne rfl
  · rw [hset, ← hbefore] at hne
    exact hne rfl

/-- If `init` loads the module, then whatever happens while it is loaded, the flags are not as they should
be when `kfree` is called. -/
theorem undone_iff (kmalloc : Option Allocation) (major : Int) (buffer : Buf 50) (mem : Memory)
    (reserved : BitVec 64 → Bool) (es : List Event) :
    ∃ ret t writes, init kmalloc major buffer (start mem reserved) = some (ret, t, writes) ∧
      ((ret = 0 → ∃ u reads v, run step t es = some u ∧ cleanup u = some (reads, v) ∧
        Undone (start mem reserved) t v) ↔ kmalloc = none) := by
  cases kmalloc with
  | none =>
      refine ⟨-12, _, [], rfl, iff_of_true ?_ rfl⟩
      intro hret
      exact absurd hret (by decide)
  | some a =>
      -- The state after `init`, which has the flags of the area or those from before.
      have hinit : ∃ t writes, init (some a) major buffer (start mem reserved) = some (0, t, writes) ∧
          t.kmallocPtr = a.ptr ∧ t.kmallocArea = pageAlign a.ptr ∧ Printable t ∧
          (t.reserved = reserved ∨ t.reserved (virtToPhys (pageAlign a.ptr) >>> 12) = true) := by
        by_cases hmajor : major = 0
        · exact ⟨_, [], if_pos hmajor, rfl, rfl, Or.inr rfl, Or.inl rfl⟩
        · obtain ⟨t, ht, hloaded⟩ := init_loaded a hmajor buffer (start mem reserved)
          refine ⟨t, _, ht, hloaded.kmallocPtr, hloaded.kmallocArea, hloaded.printable, Or.inr ?_⟩
          rw [hloaded.reserved, decide_eq_true (first_mem_areaPfns _), Bool.true_or]
      obtain ⟨t, writes, ht, hptr, harea, hprintable, hflags⟩ := hinit
      refine ⟨0, t, writes, ht, iff_of_false ?_ (Option.some_ne_none a)⟩
      intro h
      obtain ⟨u, reads, v, hrun, hcleanup, hundone⟩ := h rfl
      obtain ⟨mem', hrun'⟩ := run_loaded hprintable es
      rw [hrun', Option.some.injEq] at hrun
      subst hrun
      obtain ⟨reads', hreads⟩ := hprintable.printPages
      have hreads' : printPages ({ t with mem := mem' } : State) = some reads' := hreads
      rw [cleanup_eq hreads', Option.some.injEq, Prod.mk.injEq] at hcleanup
      obtain ⟨-, rfl⟩ := hcleanup
      refine not_undone a hptr harea hflags ?_ hundone
      simp only [harea]
      rw [decide_eq_true (first_mem_areaPfns _), Bool.true_or]

/-- Loading and unloading, with nothing in between. -/
theorem undone_someArea :
    ¬∀ a major buffer mem reserved t writes reads v,
      init (some a) major buffer (start mem reserved) = some (0, t, writes) →
        cleanup t = some (reads, v) → Undone (start mem reserved) t v := by
  intro h
  have h250 : (250 : Int) ≠ 0 := by decide
  obtain ⟨t, hinit, hloaded⟩ :=
    init_loaded someArea h250 (zeroed 50) (start (fun _ => 0) fun _ => false)
  obtain ⟨reads, hreads⟩ := hloaded.printable.printPages
  have hfirst : t.reserved (virtToPhys (pageAlign someArea.ptr) >>> 12) = true := by
    rw [hloaded.reserved, decide_eq_true (first_mem_areaPfns _), Bool.true_or]
  refine not_undone someArea hloaded.kmallocPtr hloaded.kmallocArea (Or.inr hfirst) ?_
    (h _ _ _ _ _ t _ _ _ hinit (cleanup_eq hreads))
  simp only [hfirst, Bool.or_true]

end Lkm.Remap
