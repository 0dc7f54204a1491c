import Lkm.ShmModel
import Lkm.BaseRuns

/-! The stores of `ex77.c`. Neither looks at the result of `sscanf`, so a text without a number stores
what the local variable happens to hold, and `size_store` frees the old object and stores the new size
before it asks for memory. -/

namespace Lkm.Shm

open Buffer Scan Runs

variable {P : Type}

/-- A store to one of the two attributes: the text, what the local variable holds before `sscanf`, and
for `size` the outcome of `kmalloc`. -/
inductive Store where
  | flag (buf : List Byte) (junk : Int)
  | size (buf : List Byte) (junk : Int) (outcome : Option Addr)

/-- The state in which the store ends. -/
def Store.apply (x : State P) : Store → State P
  | .flag buf junk => (x.flagStore buf junk).2
  | .size buf junk outcome => State.final (x.sizeStore buf junk outcome)

/-- The store is done: `flag` is the number in the text, or `size` is and `mp_info` is an object that
was not there before. -/
def Committed (x y : State P) : Store → Prop
  | .flag buf _ => sscanfInt buf = some y.flag
  | .size buf _ _ => sscanfInt buf = some y.size ∧
      ∃ p data, y.mpInfo = some p ∧ x.infos[p]? = none ∧ y.infos[p]? = some ⟨data, false⟩

/-- Nothing has changed: neither the variables nor the object and its page. -/
structure Untouched (x y : State P) : Prop where
  flag : y.flag = x.flag
  size : y.size = x.size
  mpInfo : y.mpInfo = x.mpInfo
  infos : y.infos = x.infos
  pages : y.pages = x.pages

def AllOrNothing (x : State P) (store : Store) : Prop :=
  Committed x (store.apply x) store ∨ Untouched x (store.apply x)

/-- The old object of a `size_store` that has to be released is missing. -/
def OldMissing (x : State P) : Prop := x.size > 0 ∧ x.mpInfo.bind (x.infos[·]?) = none

/-- The text holds a number, or what is stored instead makes no difference; and memory for a new
object is there when it is asked for. -/
def Safe (x : State P) : Store → Prop
  | .flag buf junk => sscanfInt buf ≠ none ∨ junk = x.flag ∨ junk = 0 ∧ x.count ≠ 0
  | .size buf junk outcome => ¬((sscanfInt buf).getD junk > x.size ∧ x.count = 0) ∨
      OldMissing x ∨ sscanfInt buf ≠ none ∧ outcome ≠ none

theorem untouched_self (x : State P) : Untouched x x := ⟨rfl, rfl, rfl, rfl, rfl⟩

theorem flagStore_allOrNothing_iff (x : State P) (buf : List Byte) (junk : Int) :
    AllOrNothing x (.flag buf junk) ↔ Safe x (.flag buf junk) := by
  simp only [AllOrNothing, Safe, Store.apply, Committed]
  by_cases hkept : (sscanfInt buf).getD junk = 0 ∧ x.count ≠ 0
  · have hstore : (x.flagStore buf junk).2 = x := by
      simp only [State.flagStore, hkept.1, if_true, if_pos hkept.2]
    rw [hstore]
    refine iff_of_true (Or.inr (untouched_self x)) ?_
    cases hscan : sscanfInt buf with
    | none =>
        rw [hscan, Option.getD_none] at hkept
        exact Or.inr (Or.inr hkept)
    | some v => exact Or.inl (Option.some_ne_none v)
  · have hstore : (x.flagStore buf junk).2 = { x with flag := (sscanfInt buf).getD junk } := by
      unfold State.flagStore
      dsimp only
      split_ifs with hzero hcount
      · exact absurd ⟨hzero, hcount⟩ hkept
      · rfl
      · rfl
    rw [hstore]
    cases hscan : sscanfInt buf with
    | some v => exact iff_of_true (Or.inl rfl) (Or.inl (Option.some_ne_none v))
    | none =>
        rw [hscan, Option.getD_none] at hkept
        constructor
        · rintro (hcommit | huntouched)
          · cases hcommit
          · exact Or.inr (Or.inl huntouched.flag)
        · rintro (hne | hflag | hzero)
          · exact absurd rfl hne
          · exact Or.inr ⟨hflag, rfl, rfl, rfl, rfl⟩
          · exact absurd hzero hkept

theorem releaseOld_missing {x : State P} (h : OldMissing x) :
    x.releaseOld = .error (x.note .nullInfo) := by
  obtain ⟨hsize, hinfo⟩ := h
  rw [State.releaseOld, if_pos hsize]
  simp only [State.readData, hinfo]
  rfl

theorem length_infos_kfree (x : State P) (info : Option Ptr) :
    (x.kfree info).infos.length = x.infos.length := by
  unfold State.kfree
  split
  · rfl
  · split
    · exact List.length_set
    · rfl

theorem infos_freePage (x : State P) (addr : Addr) : (x.freePage addr).infos = x.infos := by
  unfold State.freePage
  split_ifs
  · rfl
  · split <;> rfl

theorem releaseOld_ok {x : State P} (h : ¬OldMissing x) :
    ∃ old, x.releaseOld = .ok old ∧ old.infos.length = x.infos.length := by
  rw [State.releaseOld]
  by_cases hsize : x.size > 0
  · rw [if_pos hsize]
    cases hinfo : x.mpInfo.bind (x.infos[·]?) with
    | none => exact absurd ⟨hsize, hinfo⟩ h
    | some object =>
        let y := if object.freed then x.note .freedInfo else x
        have hinfos : y.infos = x.infos := by
          by_cases hfreed : object.freed
          · simp only [y, if_pos hfreed, State.note]
          · simp only [y, if_neg hfreed]
        have hread : x.readData x.mpInfo = .ok (object.data, y) := by
          simp only [State.readData, hinfo, y]
        refine ⟨(y.freePage object.data).kfree (y.freePage object.data).mpInfo, ?_, ?_⟩
        · rw [hread]
          rfl
        · rw [length_infos_kfree, infos_freePage, hinfos]
  · rw [if_neg hsize]
    exact ⟨x, rfl, rfl⟩

/-- With memory, the new size and the new object are there. -/
theorem installNew_ok (old : State P) (v : Int) (garbage : Addr) :
    ∃ y : State P, old.installNew v (some garbage) = .ok y ∧ y.size = v ∧
      y.mpInfo = some old.infos.length ∧ y.infos = old.infos ++ [⟨garbage, false⟩] := by
  refine ⟨_, State.installNew_some old v garbage, ?_⟩
  unfold State.touchPage
  split <;> exact ⟨rfl, rfl, rfl⟩

/-- A number in the text is stored with the new object. -/
theorem committed_of_scan {x y : State P} {buf : List Byte} (junk : Int) {v : Int} {garbage : Addr}
    {old : List MmapInfo} (hscan : sscanfInt buf = some v) (hsize : y.size = v)
    (hlength : old.length = x.infos.length) (hinfo : y.mpInfo = some old.length)
    (hinfos : y.infos = old ++ [⟨garbage, false⟩]) :
    Committed x y (.size buf junk (some garbage)) := by
  refine ⟨by rw [hscan, hsize], old.length, garbage, hinfo, ?_, ?_⟩
  · rw [hlength]
    exact List.getElem?_eq_none (Nat.le_refl _)
  · rw [hinfos, List.getElem?_append_right (Nat.le_refl _), Nat.sub_self]
    rfl

theorem sizeStore_allOrNothing_iff (x : State P) (buf : List Byte) (junk : Int)
    (outcome : Option Addr) :
    AllOrNothing x (.size buf junk outcome) ↔ Safe x (.size buf junk outcome) := by
  simp only [AllOrNothing, Safe, Store.apply, Committed]
  by_cases hguard : (sscanfInt buf).getD junk > x.size ∧ x.count = 0
  swap
  · rw [State.sizeStore_of_not_guard outcome hguard]
    exact iff_of_true (Or.inr (untouched_self x)) (Or.inl hguard)
  by_cases hmissing : OldMissing x
  · have hstore : State.final (x.sizeStore buf junk outcome) = x.note .nullInfo := by
      simp only [State.sizeStore, if_pos hguard, releaseOld_missing hmissing]
      rfl
    rw [hstore]
    exact iff_of_true (Or.inr ⟨rfl, rfl, rfl, rfl, rfl⟩) (Or.inr (Or.inl hmissing))
  obtain ⟨old, hrelease, hlength⟩ := releaseOld_ok hmissing
  have hstore : x.sizeStore buf junk outcome =
      old.installNew ((sscanfInt buf).getD junk) outcome >>= fun y =>
        .ok ((buf.length : Int), y) := by
    simp only [State.sizeStore, if_pos hguard, hrelease]
    rfl
  -- The new size is stored before the outcome of `kmalloc` is known.
  cases outcome with
  | none =>
      rw [hstore, State.installNew_none]
      refine iff_of_false ?_ ?_
      · rintro (⟨-, p, data, hinfo, -⟩ | huntouched)
        · cases hinfo
        · have hsize : (sscanfInt buf).getD junk = x.size := huntouched.size
          omega
      · rintro (hnot | hold | ⟨-, hout⟩)
        · exact hnot hguard
        · exact hmissing hold
        · exact hout rfl
  | some garbage =>
      obtain ⟨y, hinstall, hsize, hinfo, hinfos⟩ :=
        installNew_ok old ((sscanfInt buf).getD junk) garbage
      have hfinal : State.final (x.sizeStore buf junk (some garbage)) = y := by
        rw [hstore, hinstall]
        rfl
      rw [hfinal]
      constructor
      · rintro (⟨hscan, -⟩ | huntouched)
        · rw [hscan]
          exact Or.inr (Or.inr ⟨Option.some_ne_none _, Option.some_ne_none _⟩)
        · have := huntouched.size
          omega
      · rintro (hnot | hold | ⟨hscan, -⟩)
        · exact absurd hguard hnot
        · exact absurd hold hmissing
        · obtain ⟨v, hv⟩ := Option.ne_none_iff_exists'.mp hscan
          rw [hv, Option.getD_some] at hsize
          exact Or.inl (committed_of_scan junk hv hsize hlength hinfo hinfos)

/-- A store commits or changes nothing exactly when the text holds a number or nothing depends on it,
and `kmalloc` succeeds if it is called. -/
theorem allOrNothing_iff (x : State P) (store : Store) : AllOrNothing x store ↔ Safe x store := by
  cases store with
  | flag buf junk => exact flagStore_allOrNothing_iff x buf junk
  | size buf junk outcome => exact sizeStore_allOrNothing_iff x buf junk outcome

/-- The first store of a size, when `kmalloc` fails: the size has changed, and there is no object. -/
theorem allOrNothing_failed_kmalloc :
    ¬∀ es (x : State Nat) store, run step (init Nat 250) es = some x → AllOrNothing x store := by
  intro h
  rcases h [] (init Nat 250) (.size [0x31] 0 none) rfl with ⟨-, p, data, hinfo, -⟩ | huntouched
  · cases hinfo
  · exact absurd huntouched.size (by decide)

end Lkm.Shm
