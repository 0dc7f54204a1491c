import Lkm.BaseTreeCheck
import Lkm.CoreCapacity

/-! Real-time bandwidth of the task groups. A request passes the walk over the tree of groups exactly
when every group, with the request in place, keeps to its period, to the global limit and to what
its children have. So in every state that the control plane reaches, no group has more than its
parent can give, and the groups without children have together no more than the global limit. All
this is about the ratios that `to_ratio` computes: they are rounded down to units of `1 / 2 ^ 20`, and
a runtime from `2 ^ 44` ns on loses its upper bits in the shift. -/

namespace Lkm.Core

open Runs TreeWalk

variable {n : Nat} {h : Hooks}

/-! ### What the check asks for -/

def globalRatio (c : Sysctl) : Nat := (toRatio (globalRtPeriod c) (globalRtRuntime c)).toNat

/-- The bandwidth `b` of a group keeps to its period, to the global limit and leaves enough for its
children. -/
structure RtShare (g : Groups n) (c : Sysctl) (b : TgPtr → RtBandwidth) (tg : TgPtr) : Prop where
  runtime : (b tg).rtRuntime = runtimeInf ∨ (b tg).rtRuntime.toNat ≤ (b tg).rtPeriod.toNat
  global : (b tg).ratio.toNat ≤ globalRatio c
  children : ((g.links.children tg).map fun child => (b child).ratio.toNat).sum ≤ (b tg).ratio.toNat

/-- Real-time tasks in the group can run. -/
def CanRun (s : State n) (b : RtBandwidth) (tg : TgPtr) : Prop :=
  rtBandwidthEnabled s.sysctl = true → b.rtRuntime = 0 → tgHasRtTasks s.tasks tg = false

/-- The groups are a tree, and there are not too many of them for sums of ratios. -/
structure Groups.Sound (g : Groups n) : Prop where
  isTree : g.links.IsTree rootTaskGroup g.taskGroups
  length_le : g.taskGroups.length ≤ 2 ^ 44

theorem toNat_foldl_add {ι : Type} (f : ι → BitVec 64) (l : List ι) (acc : BitVec 64)
    (hlt : acc.toNat + (l.map fun i => (f i).toNat).sum < 2 ^ 64) :
    (l.foldl (fun sum i => sum + f i) acc).toNat = acc.toNat + (l.map fun i => (f i).toNat).sum := by
  induction l generalizing acc with
  | nil => rfl
  | cons i l ih =>
      rw [List.map_cons, List.sum_cons, ← Nat.add_assoc] at hlt ⊢
      have hadd : (acc + f i).toNat = acc.toNat + (f i).toNat := by
        rw [BitVec.toNat_add]
        exact Nat.mod_eq_of_lt (by omega)
      rw [List.foldl_cons, ih _ (hadd ▸ hlt), hadd]

/-- The check of one group, before its sum is known not to wrap around. -/
theorem tgRtSchedulable_eq_zero {s : State n} {d : RtSchedulableData} {tg : TgPtr} :
    tgRtSchedulable s d tg = 0 ↔
      ((d.bandwidth s.groups tg).rtRuntime = runtimeInf ∨
        (d.bandwidth s.groups tg).rtRuntime.toNat ≤ (d.bandwidth s.groups tg).rtPeriod.toNat) ∧
      CanRun s (d.bandwidth s.groups tg) tg ∧
      (d.bandwidth s.groups tg).ratio.toNat ≤ globalRatio s.sysctl ∧
      ((s.groups.links.children tg).foldl
        (fun sum child => sum + (d.bandwidth s.groups child).ratio) 0).toNat ≤
          (d.bandwidth s.groups tg).ratio.toNat := by
  unfold tgRtSchedulable CanRun globalRatio
  dsimp only
  generalize d.bandwidth s.groups tg = b
  by_cases hruntime : b.rtPeriod < b.rtRuntime ∧ b.rtRuntime ≠ runtimeInf
  · rw [if_pos hruntime]
    refine iff_of_false neg_einval_ne fun hall => ?_
    exact hall.1.elim hruntime.2 fun hle => not_le.mpr (BitVec.lt_def.mp hruntime.1) hle
  rw [if_neg hruntime]
  have hruntime' : b.rtRuntime = runtimeInf ∨ b.rtRuntime.toNat ≤ b.rtPeriod.toNat := by
    by_contra hno
    rw [not_or, not_le] at hno
    exact hruntime ⟨BitVec.lt_def.mpr hno.2, hno.1⟩
  by_cases hstarved : rtBandwidthEnabled s.sysctl = true ∧ b.rtRuntime = 0 ∧
      tgHasRtTasks s.tasks tg = true
  · rw [if_pos hstarved]
    refine iff_of_false neg_ebusy_ne fun hall => ?_
    exact Bool.false_ne_true ((hall.2.1 hstarved.1 hstarved.2.1).symm.trans hstarved.2.2)
  rw [if_neg hstarved]
  have hcan : rtBandwidthEnabled s.sysctl = true → b.rtRuntime = 0 →
      tgHasRtTasks s.tasks tg = false := fun hen hzero =>
    Bool.eq_false_iff.mpr fun hhas => hstarved ⟨hen, hzero, hhas⟩
  by_cases hglobal : toRatio (globalRtPeriod s.sysctl) (globalRtRuntime s.sysctl) < b.ratio
  · rw [if_pos hglobal]
    exact iff_of_false neg_einval_ne fun hall => not_le.mpr (BitVec.lt_def.mp hglobal) hall.2.2.1
  rw [if_neg hglobal]
  rw [BitVec.lt_def, not_lt] at hglobal
  by_cases hsum : b.ratio < (s.groups.links.children tg).foldl
      (fun sum child => sum + (d.bandwidth s.groups child).ratio) 0
  · rw [if_pos hsum]
    exact iff_of_false neg_einval_ne fun hall => not_le.mpr (BitVec.lt_def.mp hsum) hall.2.2.2
  rw [if_neg hsum]
  rw [BitVec.lt_def, not_lt] at hsum
  exact iff_of_true rfl ⟨hruntime', hcan, hglobal, hsum⟩

/-- `-EBUSY` is for the group that would starve its tasks. -/
theorem tgRtSchedulable_cases (s : State n) (d : RtSchedulableData) (tg : TgPtr) :
    tgRtSchedulable s d tg = 0 ∨ tgRtSchedulable s d tg = -einval ∨
      (tgRtSchedulable s d tg = -ebusy ∧ rtBandwidthEnabled s.sysctl = true ∧
        (d.bandwidth s.groups tg).rtRuntime = 0 ∧ tgHasRtTasks s.tasks tg = true) := by
  unfold tgRtSchedulable
  dsimp only
  split_ifs with hruntime hstarved <;> simp [*]

/-- What the walk decides. The sums do not wrap around, since every child keeps to the global limit. -/
theorem rtSchedulable_spec {s : State n} (hg : s.groups.Sound)
    (hglobal : globalRatio s.sysctl ≤ 2 ^ 20) (tg : Option TgPtr) (period runtime : BitVec 64) :
    let b := RtSchedulableData.bandwidth ⟨tg, period, runtime⟩ s.groups
    ∃ err, rtSchedulable s tg period runtime = some err ∧
      (err = 0 ↔ ∀ a ∈ s.groups.taskGroups, RtShare s.groups s.sysctl b a ∧ CanRun s (b a) a) ∧
      (err ≠ 0 → ∃ a ∈ s.groups.taskGroups, err = tgRtSchedulable s ⟨tg, period, runtime⟩ a) := by
  intro b
  obtain ⟨r, hr, hzero, hmem⟩ := hg.isTree.walk_check
    (tgRtSchedulable s ⟨tg, period, runtime⟩) (Nat.le_refl _) ()
  refine ⟨r.1, congrArg (Option.map Prod.fst) hr, hzero.trans ?_, hmem⟩
  -- With every ratio below the global one the sum of the children is the sum of the numbers.
  have hsum (hall : ∀ a ∈ s.groups.taskGroups, (b a).ratio.toNat ≤ globalRatio s.sysctl) (a : TgPtr)
      (ha : a ∈ s.groups.taskGroups) :
      ((s.groups.links.children a).foldl (fun sum child => sum + (b child).ratio) 0).toNat =
        ((s.groups.links.children a).map fun child => (b child).ratio.toNat).sum := by
    have hle : ((s.groups.links.children a).map fun child => (b child).ratio.toNat).sum ≤
        (s.groups.links.children a).length * 2 ^ 20 :=
      Ledger.total_le (f := fun b : RtBandwidth => b.ratio.toNat) fun c hc =>
        (hall c (hg.isTree.children_subset ha hc)).trans hglobal
    have hlt := (hg.isTree.length_children_lt ha).trans_le hg.length_le
    have hzero : (0 : BitVec 64).toNat = 0 := rfl
    rw [toNat_foldl_add _ _ _ (by rw [hzero]; omega), hzero, Nat.zero_add]
  constructor
  · intro hall a ha
    have hall' (a : TgPtr) (ha : a ∈ s.groups.taskGroups) := tgRtSchedulable_eq_zero.mp (hall a ha)
    obtain ⟨hruntime, hcan, hratio, hchildren⟩ := hall' a ha
    rw [hsum (fun a ha => (hall' a ha).2.2.1) a ha] at hchildren
    exact ⟨⟨hruntime, hratio, hchildren⟩, hcan⟩
  · intro hall a ha
    obtain ⟨hshare, hcan⟩ := hall a ha
    refine tgRtSchedulable_eq_zero.mpr ⟨hshare.runtime, hcan, hshare.global, ?_⟩
    rw [hsum (fun a ha => (hall a ha).1.global) a ha]
    exact hshare.children

/-- The whole request: it is granted exactly when the groups fit with it, by the ratios that the code
computes, and then it is stored; when it is refused, nothing changes. -/
theorem tgSetRtBandwidth_spec {s : State n} (hg : s.groups.Sound)
    (hglobal : globalRatio s.sysctl ≤ 2 ^ 20) (tg : TgPtr) (rtPeriod rtRuntime : BitVec 64) :
    let b := RtSchedulableData.bandwidth ⟨some tg, rtPeriod, rtRuntime⟩ s.groups
    ∃ err t, tgSetRtBandwidth s tg rtPeriod rtRuntime = some (err, t) ∧
      (err = 0 ∨ err = -einval ∨ err = -ebusy) ∧
      (err = 0 ↔ ∀ a ∈ s.groups.taskGroups, RtShare s.groups s.sysctl b a ∧ CanRun s (b a) a) ∧
      (err = 0 → t = onGroups s (setRtBandwidth s.groups tg rtPeriod rtRuntime)) ∧
      (err ≠ 0 → t = s) := by
  intro b
  obtain ⟨err, hrun, hzero, hfailed⟩ := rtSchedulable_spec hg hglobal (some tg) rtPeriod rtRuntime
  have hmem : err = 0 ∨ err = -einval ∨ err = -ebusy := by
    by_cases herr : err = 0
    · exact Or.inl herr
    · obtain ⟨a, -, ha⟩ := hfailed herr
      rw [ha]
      exact (tgRtSchedulable_cases s _ a).imp_right (Or.imp_right And.left)
  have hset : tgSetRtBandwidth s tg rtPeriod rtRuntime =
      some (if err ≠ 0 then (err, s)
        else (err, onGroups s (setRtBandwidth s.groups tg rtPeriod rtRuntime))) := by
    unfold tgSetRtBandwidth
    rw [hrun]
    rfl
  by_cases herr : err = 0
  · rw [if_neg (not_not_intro herr)] at hset
    exact ⟨err, _, hset, hmem, hzero, fun _ => rfl, fun hne => absurd herr hne⟩
  · rw [if_pos herr] at hset
    exact ⟨err, _, hset, hmem, hzero, fun heq => absurd heq herr, fun _ => rfl⟩

/-! ### Steps -/

/-- CFS bandwidth and real-time bandwidth are apart. -/
structure SameRt (g g' : Groups n) : Prop where
  links : g'.links = g.links
  taskGroups : g'.taskGroups = g.taskGroups
  rt : ∀ tg, (g'.tg tg).rtBandwidth = (g.tg tg).rtBandwidth

theorem sameRt_tgSetCfsBandwidth {g : Groups n} {tg : TgPtr} {period quota : BitVec 64}
    {r : Int × Groups n} (hrun : tgSetCfsBandwidth g tg period quota = some r) : SameRt g r.2 := by
  unfold tgSetCfsBandwidth at hrun
  split_ifs at hrun
  · cases hrun
    exact ⟨rfl, rfl, fun _ => rfl⟩
  · cases hrun
    exact ⟨rfl, rfl, fun _ => rfl⟩
  · cases hrun
    exact ⟨rfl, rfl, fun _ => rfl⟩
  · obtain ⟨r', hr', rfl⟩ := Option.map_eq_some_iff.mp hrun
    obtain ⟨w, -, rfl⟩ := Option.map_eq_some_iff.mp hr'
    split_ifs
    · exact ⟨rfl, rfl, fun _ => rfl⟩
    · refine ⟨rfl, rfl, fun a => ?_⟩
      unfold Groups.set
      dsimp only
      rw [Function.update_apply]
      split_ifs with ha
      · rw [ha]
        rfl
      · rfl

theorem sound_step {s t : State n} {e : Event n} (hg : s.groups.Sound)
    (hstep : step h s e = some t) : t.groups.Sound := by
  have hmove := step_groups hstep
  generalize t.groups = g at hmove ⊢
  generalize t.sysctl = c at hmove
  generalize t.tasks = ts at hmove
  cases hmove with
  | tasks | globals | rt => exact ⟨hg.isTree, hg.length_le⟩
  | cfs tg period quota r htg hrun =>
      obtain ⟨hlinks, hgroups, -⟩ := sameRt_tgSetCfsBandwidth hrun
      refine ⟨?_, ?_⟩
      · rw [hlinks, hgroups]
        exact hg.isTree
      · rw [hgroups]
        exact hg.length_le
  | online tg parent v he htg hparent hlen => exact ⟨hg.isTree.add hparent htg, hlen⟩
  | offline tg hroot hleaf =>
      exact ⟨hg.isTree.del hleaf hroot, List.erase_sublist.length_le.trans hg.length_le⟩

/-! ### Shares in whole runs -/

/-- The bandwidth that the groups have. -/
def Groups.rt (g : Groups n) (tg : TgPtr) : RtBandwidth := (g.tg tg).rtBandwidth

/-- Every group keeps to its share, under global limits that are a ratio. -/
structure RtShared (s : State n) : Prop where
  sound : s.groups.Sound
  global : globalRatio s.sysctl ≤ 2 ^ 20
  share : ∀ tg ∈ s.groups.taskGroups, RtShare s.groups s.sysctl s.groups.rt tg

/-- The share of a group depends on the ratios of the group and of its children only. -/
theorem RtShare.congr {g g' : Groups n} {c : Sysctl} {b b' : TgPtr → RtBandwidth} {tg : TgPtr}
    (hshare : RtShare g c b tg) (htg : b' tg = b tg)
    (hchildren : ((g'.links.children tg).map fun child => (b' child).ratio.toNat).sum ≤
      ((g.links.children tg).map fun child => (b child).ratio.toNat).sum) :
    RtShare g' c b' tg := by
  refine ⟨?_, ?_, ?_⟩
  · rw [htg]
    exact hshare.runtime
  · rw [htg]
    exact hshare.global
  · rw [htg]
    exact hchildren.trans hshare.children

theorem rt_setRtBandwidth (g : Groups n) (tg : TgPtr) (rtPeriod rtRuntime : BitVec 64) :
    (setRtBandwidth g tg rtPeriod rtRuntime).rt =
      RtSchedulableData.bandwidth ⟨some tg, rtPeriod, rtRuntime⟩ g := by
  funext a
  unfold Groups.rt setRtBandwidth Groups.set RtSchedulableData.bandwidth
  dsimp only
  rw [Function.update_apply]
  by_cases ha : a = tg
  · rw [if_pos ha, if_pos (congrArg some ha.symm)]
  · rw [if_neg ha, if_neg fun heq => ha (Option.some.inj heq).symm]

theorem bandwidth_none (g : Groups n) :
    RtSchedulableData.bandwidth ⟨none, 0, 0⟩ g = g.rt := by
  funext a
  unfold RtSchedulableData.bandwidth
  exact if_neg (by simp)

theorem ratio_of_runtime_zero {b : RtBandwidth} (hzero : b.rtRuntime = 0) : b.ratio = 0 := by
  unfold RtBandwidth.ratio toRatio
  rw [hzero]
  split_ifs with hinf
  · exact absurd hinf (by decide)
  · rfl
  · exact BitVec.zero_udiv

/-- The requests that pass, whatever they were for. -/
theorem shares_of_rtSchedulable {s : State n} (hg : s.groups.Sound)
    (hglobal : globalRatio s.sysctl ≤ 2 ^ 20) {tg : Option TgPtr} {period runtime : BitVec 64}
    (hpass : rtSchedulable s tg period runtime = some 0) :
    ∀ a ∈ s.groups.taskGroups,
      RtShare s.groups s.sysctl (RtSchedulableData.bandwidth ⟨tg, period, runtime⟩ s.groups) a ∧
        CanRun s (RtSchedulableData.bandwidth ⟨tg, period, runtime⟩ s.groups a) a := by
  obtain ⟨err, hrun, hzero, -⟩ := rtSchedulable_spec hg hglobal tg period runtime
  rw [hpass] at hrun
  exact hzero.mp (Option.some.inj hrun).symm

theorem rtShared_step {s t : State n} {e : Event n} (hinv : RtShared s)
    (hstep : step h s e = some t) : RtShared t := by
  have hsound := sound_step hinv.sound hstep
  have hmove := step_groups hstep
  obtain ⟨hg, hglobal, hshare⟩ := hinv
  suffices hrest : globalRatio t.sysctl ≤ 2 ^ 20 ∧
      ∀ tg ∈ t.groups.taskGroups, RtShare t.groups t.sysctl t.groups.rt tg from
    ⟨hsound, hrest.1, hrest.2⟩
  generalize t.groups = g at hmove ⊢
  generalize t.sysctl = c at hmove ⊢
  generalize t.tasks = ts at hmove
  cases hmove with
  | tasks => exact ⟨hglobal, hshare⟩
  | rt tg rtPeriod rtRuntime htg hpass =>
      refine ⟨hglobal, fun a ha => ?_⟩
      rw [rt_setRtBandwidth]
      obtain ⟨hfits, -⟩ := shares_of_rtSchedulable hg hglobal hpass a ha
      exact ⟨hfits.runtime, hfits.global, hfits.children⟩
  | cfs tg period quota r htg hrun =>
      obtain ⟨hlinks, hgroups, hrt⟩ := sameRt_tgSetCfsBandwidth hrun
      have heq : r.2.rt = s.groups.rt := funext hrt
      refine ⟨hglobal, fun a ha => (hshare a (hgroups ▸ ha)).congr ?_ ?_⟩
      · rw [heq]
      · rw [heq, hlinks]
  | online tg parent v he htg hparent hlen hempty hrt =>
      refine ⟨hglobal, fun a ha => ?_⟩
      have hnew : (schedOnlineGroup (s.groups.set tg v) tg parent).rt tg = v.rtBandwidth :=
        congrArg TaskGroup.rtBandwidth (Function.update_self _ _ _)
      have hold {b : TgPtr} (hb : b ≠ tg) :
          (schedOnlineGroup (s.groups.set tg v) tg parent).rt b = s.groups.rt b :=
        congrArg TaskGroup.rtBandwidth (Function.update_of_ne hb _ _)
      have hsame {b : TgPtr} (hb : b ∈ s.groups.taskGroups) :
          ((s.groups.links.children b).map fun child =>
            ((schedOnlineGroup (s.groups.set tg v) tg parent).rt child).ratio.toNat) =
          (s.groups.links.children b).map fun child => (s.groups.rt child).ratio.toNat := by
        refine List.map_congr_left fun child hchild => ?_
        have hne : child ≠ tg := fun heq => htg (heq ▸ hg.isTree.children_subset hb hchild)
        rw [hold hne]
      have hratio : ((schedOnlineGroup (s.groups.set tg v) tg parent).rt tg).ratio = 0 := by
        rw [hnew]
        exact ratio_of_runtime_zero hrt
      have hchildren (b : TgPtr) :
          (schedOnlineGroup (s.groups.set tg v) tg parent).links.children b =
            if b = parent then tg :: s.groups.links.children parent
            else if b = tg then [] else s.groups.links.children b :=
        Links.add_children _ _ _ _
      by_cases hatg : a = tg
      · -- The new group has nothing, and no children.
        subst hatg
        have hne : a ≠ parent := fun heq => htg (heq ▸ hparent)
        refine ⟨Or.inr ?_, ?_, ?_⟩
        · rw [hnew, hrt]
          exact Nat.zero_le _
        · rw [hratio]
          exact Nat.zero_le _
        · rw [hchildren, if_neg hne, if_pos rfl]
          exact Nat.zero_le _
      · have ha' : a ∈ s.groups.taskGroups := (List.mem_cons.mp ha).resolve_left hatg
        refine (hshare a ha').congr (hold hatg) ?_
        rw [hchildren]
        by_cases hap : a = parent
        · subst hap
          rw [if_pos rfl, List.map_cons, List.sum_cons, hratio, hsame ha']
          exact (Nat.zero_add _).le
        · rw [if_neg hap, if_neg hatg, hsame ha']
  | offline tg hroot hleaf =>
      refine ⟨hglobal, fun a ha => (hshare a (List.mem_of_mem_erase ha)).congr rfl ?_⟩
      have hsub : ((s.groups.links.del tg).children a).Sublist (s.groups.links.children a) := by
        rw [Links.del_children]
        split_ifs
        · exact List.erase_sublist
        · exact List.Sublist.refl _
      exact (hsub.map _).sum_le_sum fun _ _ => Nat.zero_le _
  | globals c hpass =>
      have hratio : globalRatio c ≤ 2 ^ 20 := toRatio_globals_le hpass.valid
      refine ⟨hratio, fun a ha => ?_⟩
      have hall := shares_of_rtSchedulable (s := onSysctl s c) hg hratio hpass.rt a ha
      rw [bandwidth_none] at hall
      exact ⟨hall.1.runtime, hall.1.global, hall.1.children⟩

theorem boot_rtShared (cpu : Fin n) : RtShared (boot n cpu) := by
  have hlen : 1 ≤ 2 ^ 44 := by decide
  have hglobal : globalRatio initSysctl ≤ 2 ^ 20 := by decide
  have hruntime : initSysctl.defRtBandwidth.rtRuntime.toNat ≤
      initSysctl.defRtBandwidth.rtPeriod.toNat := by decide
  have hratio : initSysctl.defRtBandwidth.ratio.toNat ≤ globalRatio initSysctl := by decide
  refine ⟨⟨⟨.node rootTaskGroup [], rfl, ⟨rfl, trivial⟩, List.nodup_singleton _, .refl _⟩, hlen⟩,
    hglobal, fun tg _ => ?_⟩
  exact ⟨Or.inr hruntime, hratio, Nat.zero_le _⟩

/-- Two groups, one in the other, with a real-time task in the inner one. -/
def nestedRun : List (Event 2) :=
  [.online 3 0 newGroup, .online 4 3 newGroup, .rtRuntime 3 500000, .rtRuntime 4 200000,
    .cfsQuota 3 50000, .cfsQuota 4 20000, .fork 0 7 1 true false, .attach [7] 4,
    .setscheduler superuser 7 1 50 true]

def nested : State 2 := (run (step bootHooks) (boot 2 0) nestedRun).get (by decide)

theorem run_nested : run (step bootHooks) (boot 2 0) nestedRun = some nested :=
  (Option.some_get _).symm

theorem nested_rtShared : RtShared nested :=
  (always_of_step _ (fun _ _ _ hinv hstep => rtShared_step hinv hstep) (boot_rtShared 0)
    nestedRun).last run_nested

/-- More than the group above has. -/
theorem tgSetRtBandwidth_spec_nested :
    let b := RtSchedulableData.bandwidth ⟨some 4, 1000000000, 600000000⟩ nested.groups
    (tgSetRtBandwidth nested 4 1000000000 600000000).map Prod.fst = some (-einval) ∧
      ∃ err t, tgSetRtBandwidth nested 4 1000000000 600000000 = some (err, t) ∧
        (err = 0 ∨ err = -einval ∨ err = -ebusy) ∧
        (err = 0 ↔ ∀ a ∈ nested.groups.taskGroups,
          RtShare nested.groups nested.sysctl b a ∧ CanRun nested (b a) a) ∧
        (err = 0 → t = onGroups nested (setRtBandwidth nested.groups 4 1000000000 600000000)) ∧
        (err ≠ 0 → t = nested) :=
  ⟨by decide,
    tgSetRtBandwidth_spec nested_rtShared.sound nested_rtShared.global 4 1000000000 600000000⟩

end Lkm.Core
