import Lkm.BaseTreeLabel
import Lkm.CoreStarve

/-! CFS bandwidth of the task groups. The walk hands the quota of the nearest limited group down to
every group, so a request passes exactly when, with the request in place, no limited group has a
larger share than a limited group above it. This holds in every state that the control plane
reaches, for the ratios as the code computes them, in 64 bits. -/

namespace Lkm.Core

open Runs TreeWalk

variable {n : Nat} {h : Hooks}

/-! ### Limits -/

structure CfsLimit where
  period : BitVec 64
  quota : BitVec 64

/-- The limits that the groups have. -/
def Groups.cfs (g : Groups n) (tg : TgPtr) : CfsLimit :=
  ⟨(g.tg tg).cfsBandwidth.period, (g.tg tg).cfsBandwidth.quota⟩

/-- The limits with a request in place. -/
def Groups.cfsWith (g : Groups n) (tg : TgPtr) (b : CfsLimit) : TgPtr → CfsLimit :=
  Function.update g.cfs tg b

def CfsLimit.Limited (b : CfsLimit) : Prop := b.quota ≠ runtimeInf

/-- What `normalize_cfs_quota` makes of a limit. -/
def CfsLimit.normalized (b : CfsLimit) : BitVec 64 :=
  if b.quota = runtimeInf then runtimeInf else toRatio (b.period / nsecPerUsec) (b.quota / nsecPerUsec)

/-- The bounds that `tg_set_cfs_bandwidth` checks. -/
structure CfsLimit.InRange (b : CfsLimit) : Prop where
  quota : minCfsQuotaPeriod.toNat ≤ b.quota.toNat
  period : minCfsQuotaPeriod.toNat ≤ b.period.toNat
  period_le : b.period.toNat ≤ maxCfsQuotaPeriod.toNat

theorem quota_div_ne {quota : BitVec 64} : quota / nsecPerUsec ≠ runtimeInf := by
  intro heq
  have hnat := congrArg BitVec.toNat heq
  have hlt := quota.isLt
  have h1000 : nsecPerUsec.toNat = 1000 := rfl
  have hinf : runtimeInf.toNat = 2 ^ 64 - 1 := rfl
  rw [BitVec.toNat_udiv, h1000, hinf] at hnat
  omega

/-- The code reads the limit of a group in microseconds, and that of the request likewise. -/
theorem normalizeCfsQuota_eq (g : Groups n) (tg : TgPtr) (period quota : BitVec 64) (a : TgPtr) :
    normalizeCfsQuota g
        (if quota ≠ runtimeInf then ⟨tg, period / nsecPerUsec, quota / nsecPerUsec⟩
          else ⟨tg, period, quota⟩) a =
      (g.cfsWith tg ⟨period, quota⟩ a).normalized := by
  have hall : (-1 : BitVec 64) = runtimeInf := rfl
  unfold normalizeCfsQuota Groups.cfsWith CfsLimit.normalized
  dsimp only
  rw [Function.update_apply, hall]
  by_cases hatg : a = tg
  · subst hatg
    by_cases hquota : quota = runtimeInf
    · simp [hquota]
    · simp [hquota, quota_div_ne]
  · have htg : (if quota ≠ runtimeInf then
        (⟨tg, period / nsecPerUsec, quota / nsecPerUsec⟩ : CfsSchedulableData)
        else ⟨tg, period, quota⟩).tg = tg := by split_ifs <;> rfl
    rw [htg, if_neg hatg, if_neg hatg, if_neg hatg]
    unfold Groups.cfs tgGetCfsQuota tgGetCfsPeriod
    dsimp only
    rw [hall]
    by_cases hquota : (g.tg a).cfsBandwidth.quota = runtimeInf
    · simp [hquota]
    · simp [hquota, quota_div_ne]

/-- A limit in range has a ratio that is positive as an `s64`, so it is not taken for no limit. -/
theorem normalized_lt {b : CfsLimit} (hb : b.InRange) (hlimited : b.Limited) :
    b.normalized.toNat < 2 ^ 63 := by
  unfold CfsLimit.normalized toRatio
  rw [if_neg hlimited, if_neg quota_div_ne]
  split_ifs with hzero
  · decide
  have hperiod := hb.period
  have hmin : minCfsQuotaPeriod.toNat = 1000000 := rfl
  have h1000 : nsecPerUsec.toNat = 1000 := rfl
  have hlt : ((b.quota / nsecPerUsec) <<< 20).toNat < 2 ^ 64 := ((b.quota / nsecPerUsec) <<< 20).isLt
  rw [BitVec.toNat_udiv, BitVec.toNat_udiv, h1000]
  have hge : 2 ≤ b.period.toNat / 1000 := by omega
  refine Nat.div_lt_of_lt_mul ?_
  calc ((b.quota / nsecPerUsec) <<< 20).toNat < 2 ^ 64 := hlt
    _ = 2 * 2 ^ 63 := by norm_num
    _ ≤ b.period.toNat / 1000 * 2 ^ 63 := Nat.mul_le_mul_right _ hge

theorem normalized_ne {b : CfsLimit} (hb : b.InRange) (hlimited : b.Limited) :
    b.normalized ≠ runtimeInf := by
  intro heq
  have hlt := normalized_lt hb hlimited
  rw [heq] at hlt
  exact absurd hlt (by decide)

/-- The comparison of two of them as `s64` is that of the numbers. -/
theorem toInt_lt_iff {x y : BitVec 64} (hx : x.toNat < 2 ^ 63) (hy : y.toNat < 2 ^ 63) :
    x.toInt < y.toInt ↔ x.toNat < y.toNat := by
  rw [BitVec.toInt_eq_toNat_cond, BitVec.toInt_eq_toNat_cond, if_pos (by omega), if_pos (by omega)]
  exact Int.ofNat_lt

/-! ### What the check asks for -/

/-- `a` is above `c`. -/
def Groups.Above (g : Groups n) : TgPtr → TgPtr → Prop :=
  Relation.TransGen fun c a => g.links.parent c = some a

/-- No limited group has a larger ratio than a limited group above it. The limit of the root does not
count. -/
def CfsFits (g : Groups n) (b : TgPtr → CfsLimit) : Prop :=
  ∀ c ∈ g.taskGroups, ∀ a ∈ g.taskGroups, a ≠ rootTaskGroup → g.Above c a → (b c).Limited →
    (b a).Limited → (b c).normalized.toNat ≤ (b a).normalized.toNat

/-- The groups are a tree under a root without parent, with limits in range. -/
structure Groups.CfsSound (g : Groups n) : Prop extends g.Sound where
  root : g.links.parent rootTaskGroup = none
  range : ∀ tg ∈ g.taskGroups, (g.cfs tg).Limited → (g.cfs tg).InRange

/-- The rule of `tg_cfs_schedulable_down`: an unlimited group inherits, a limited one stays below. -/
def cfsRule (b : TgPtr → CfsLimit) (tg : TgPtr) (parentQuota : BitVec 64) : Option (BitVec 64) :=
  if (b tg).normalized = runtimeInf then some parentQuota
  else if parentQuota ≠ runtimeInf ∧ parentQuota.toInt < (b tg).normalized.toInt then none
  else some (b tg).normalized

theorem tgCfsSchedulableDown_eq (g : Groups n) (d : CfsSchedulableData) (b : TgPtr → CfsLimit)
    (hb : ∀ a, normalizeCfsQuota g d a = (b a).normalized) :
    tgCfsSchedulableDown g d = labelDown g.links runtimeInf (cfsRule b) (-einval) := by
  funext a f
  unfold tgCfsSchedulableDown labelDown cfsRule
  cases g.links.parent a with
  | none => rfl
  | some p =>
      dsimp only
      rw [hb]
      split_ifs <;> rfl

variable {g : Groups n} {b : TgPtr → CfsLimit}

/-- What the walk hands down comes from a limited group. -/
def Inherited (g : Groups n) (b : TgPtr → CfsLimit) (c : TgPtr) (v : BitVec 64) : Prop :=
  v = runtimeInf ∨ ∃ a ∈ g.taskGroups, a ≠ rootTaskGroup ∧ (b a).Limited ∧
    Relation.ReflTransGen (fun c a => g.links.parent c = some a) c a ∧ v = (b a).normalized

theorem normalized_inf_iff (hrange : ∀ tg ∈ g.taskGroups, (b tg).Limited → (b tg).InRange)
    {tg : TgPtr} (htg : tg ∈ g.taskGroups) : (b tg).normalized = runtimeInf ↔ ¬(b tg).Limited := by
  constructor
  · intro hinf hlimited
    exact normalized_ne (hrange tg htg hlimited) hlimited hinf
  · intro hnot
    exact if_pos (not_not.mp hnot)

theorem inherited_cfsRule (hroot : g.links.parent rootTaskGroup = none)
    (hrange : ∀ tg ∈ g.taskGroups, (b tg).Limited → (b tg).InRange) {c p : TgPtr}
    {v w : BitVec 64} (hc : c ∈ g.taskGroups) (hparent : g.links.parent c = some p)
    (hv : Inherited g b p v) (hrule : cfsRule b c v = some w) : Inherited g b c w := by
  unfold cfsRule at hrule
  by_cases hinf : (b c).normalized = runtimeInf
  · rw [if_pos hinf, Option.some.injEq] at hrule
    subst hrule
    refine hv.imp_right fun ⟨a, ha, hne, hlimited, hpath, heq⟩ => ?_
    exact ⟨a, ha, hne, hlimited, .head hparent hpath, heq⟩
  · rw [if_neg hinf, Option.ite_none_left_eq_some, Option.some.injEq] at hrule
    obtain ⟨-, rfl⟩ := hrule
    have hlimited := not_not.mp fun hnot => hinf ((normalized_inf_iff hrange hc).mpr hnot)
    refine Or.inr ⟨c, hc, fun heq => ?_, hlimited, .refl, rfl⟩
    rw [heq, hroot] at hparent
    cases hparent

/-- A group that the rule refuses has too large a share. -/
theorem not_cfsFits_of_refused (hrange : ∀ tg ∈ g.taskGroups, (b tg).Limited → (b tg).InRange)
    {c p : TgPtr} {v : BitVec 64} (hc : c ∈ g.taskGroups) (hparent : g.links.parent c = some p)
    (hv : Inherited g b p v) (hrule : cfsRule b c v = none) : ¬CfsFits g b := by
  intro hfits
  unfold cfsRule at hrule
  split_ifs at hrule with hinf hless
  have hlimited := not_not.mp fun hnot => hinf ((normalized_inf_iff hrange hc).mpr hnot)
  rcases hv with hvinf | ⟨a, ha, hne, halimited, hpath, rfl⟩
  · exact hless.1 hvinf
  · have hle := hfits c hc a ha hne (Relation.TransGen.head' hparent hpath) hlimited halimited
    have hlt := (toInt_lt_iff (normalized_lt (hrange a ha halimited) halimited)
      (normalized_lt (hrange c hc hlimited) hlimited)).mp hless.2
    omega

section Labels

variable (hg : g.Sound) (hroot : g.links.parent rootTaskGroup = none)
  (hrange : ∀ tg ∈ g.taskGroups, (b tg).Limited → (b tg).InRange) {f : TgPtr → BitVec 64}
  (hlabels : ∀ tg ∈ g.taskGroups, Labelled g.links runtimeInf (cfsRule b) f tg)

include hlabels in
theorem label_rule {c p : TgPtr} (hc : c ∈ g.taskGroups) (hparent : g.links.parent c = some p) :
    cfsRule b c (f p) = some (f c) := by
  have hlabel := hlabels c hc
  unfold Labelled at hlabel
  rw [hparent] at hlabel
  exact hlabel

include hrange hlabels in
/-- The label of a limited group is its own ratio, and at most the label of its parent. -/
theorem label_of_limited {c p : TgPtr} (hc : c ∈ g.taskGroups) (hparent : g.links.parent c = some p)
    (hlimited : (b c).Limited) :
    f c = (b c).normalized ∧
      (f p ≠ runtimeInf → (f p).toNat < 2 ^ 63 → (f c).toNat ≤ (f p).toNat) := by
  have hlabel := label_rule hlabels hc hparent
  have hinf := (normalized_inf_iff hrange hc).not.mpr (not_not_intro hlimited)
  have hlt := normalized_lt (hrange c hc hlimited) hlimited
  unfold cfsRule at hlabel
  rw [if_neg hinf, Option.ite_none_left_eq_some, Option.some.injEq] at hlabel
  obtain ⟨hnot, heq⟩ := hlabel
  rw [← heq]
  refine ⟨rfl, fun hinfp hltp => ?_⟩
  by_contra hgt
  exact hnot ⟨hinfp, (toInt_lt_iff hltp hlt).mpr (not_le.mp hgt)⟩

include hg hroot hrange hlabels in
/-- Up a chain of parents to a limited group, the labels do not fall. -/
theorem label_le {c a : TgPtr} (hc : c ∈ g.taskGroups) (hne : a ≠ rootTaskGroup)
    (hlimited : (b a).Limited)
    (hpath : Relation.ReflTransGen (fun c a => g.links.parent c = some a) c a) :
    f c ≠ runtimeInf ∧ (f c).toNat < 2 ^ 63 ∧ (f c).toNat ≤ (b a).normalized.toNat := by
  induction hpath using Relation.ReflTransGen.head_induction_on with
  | refl =>
      obtain ⟨p, -, hparent⟩ := hg.isTree.parent_mem hc hne
      rw [(label_of_limited hrange hlabels hc hparent hlimited).1]
      have hin := hrange a hc hlimited
      exact ⟨normalized_ne hin hlimited, normalized_lt hin hlimited, le_refl _⟩
  | head hparent hpath ih =>
      rename_i c p
      have hp : p ∈ g.taskGroups := by
        have hnotRoot : c ≠ rootTaskGroup := fun heq => by
          rw [heq, hroot] at hparent
          cases hparent
        obtain ⟨q, hq, hparent'⟩ := hg.isTree.parent_mem hc hnotRoot
        rw [hparent, Option.some.injEq] at hparent'
        exact hparent' ▸ hq
      obtain ⟨hinfp, hltp, hlep⟩ := ih hp
      by_cases hclimited : (b c).Limited
      · obtain ⟨heq, hle⟩ := label_of_limited hrange hlabels hc hparent hclimited
        have hin := hrange c hc hclimited
        refine ⟨?_, ?_, (hle hinfp hltp).trans hlep⟩
        · rw [heq]
          exact normalized_ne hin hclimited
        · rw [heq]
          exact normalized_lt hin hclimited
      · have hlabel := label_rule hlabels hc hparent
        unfold cfsRule at hlabel
        rw [if_pos ((normalized_inf_iff hrange hc).mpr hclimited), Option.some.injEq] at hlabel
        rw [← hlabel]
        exact ⟨hinfp, hltp, hlep⟩

include hg hroot hrange hlabels in
/-- A labelled tree fits. -/
theorem cfsFits_of_labelled : CfsFits g b := by
  intro c hc a ha hne habove hclimited halimited
  obtain ⟨p, hparent, hpath⟩ := Relation.TransGen.head'_iff.mp habove
  obtain ⟨-, -, hle⟩ := label_le hg hroot hrange hlabels hc hne halimited (.head hparent hpath)
  rw [(label_of_limited hrange hlabels hc hparent hclimited).1] at hle
  exact hle

end Labels

/-- What the walk decides. -/
theorem cfsSchedulable_spec (hg : g.Sound) (hroot : g.links.parent rootTaskGroup = none)
    (tg : TgPtr) (period quota : BitVec 64)
    (hrange : ∀ a ∈ g.taskGroups, (g.cfsWith tg ⟨period, quota⟩ a).Limited →
      (g.cfsWith tg ⟨period, quota⟩ a).InRange) :
    ∃ r, cfsSchedulable g tg period quota = some r ∧
      (r.1 = 0 ∨ r.1 = -einval) ∧ (r.1 = 0 ↔ CfsFits g (g.cfsWith tg ⟨period, quota⟩)) := by
  have hdown := tgCfsSchedulableDown_eq g _ _ (normalizeCfsQuota_eq g tg period quota)
  obtain ⟨r, hr, hcases⟩ := hg.isTree.walk_labelDown runtimeInf
    (cfsRule (g.cfsWith tg ⟨period, quota⟩)) (P := Inherited g (g.cfsWith tg ⟨period, quota⟩)) hroot
    neg_einval_ne (le_refl _) (fun _ _ _ => Or.inl rfl)
    (fun c hc p v w hparent hv hrule => inherited_cfsRule hroot hrange hc hparent hv hrule)
    g.hierarchicalQuota
  refine ⟨(r.1, g.setHierarchicalQuota r.2), ?_, ?_⟩
  · unfold cfsSchedulable walkTgTree walkTgTreeFrom
    dsimp only
    rw [hdown, hr]
    rfl
  dsimp only
  rcases hcases with ⟨hzero, hlabels⟩ | ⟨hfail, c, hc, p, v, hparent, hv, hrule⟩
  · exact ⟨Or.inl hzero, iff_of_true hzero (cfsFits_of_labelled hg hroot hrange hlabels)⟩
  · refine ⟨Or.inr hfail, iff_of_false ?_ (not_cfsFits_of_refused hrange hc hparent hv hrule)⟩
    rw [hfail]
    exact neg_einval_ne

theorem minCfs_eq : minCfsQuotaPeriod.toNat = 1000000 := by decide

theorem cfs_setHierarchicalQuota (g : Groups n) (f : TgPtr → BitVec 64) :
    (g.setHierarchicalQuota f).cfs = g.cfs := rfl

theorem cfs_set (g : Groups n) (tg : TgPtr) (v : TaskGroup n) :
    (g.set tg v).cfs = g.cfsWith tg ⟨v.cfsBandwidth.period, v.cfsBandwidth.quota⟩ := by
  funext a
  unfold Groups.cfs Groups.cfsWith Groups.set
  dsimp only
  rw [Function.update_apply, Function.update_apply]
  split_ifs <;> rfl

/-- The whole request: it is granted exactly for another group than the root, with a limit in range
and when the groups fit with it; the limits change only then. -/
theorem tgSetCfsBandwidth_spec (hg : g.CfsSound) (tg : TgPtr) (period quota : BitVec 64) :
    ∃ r, tgSetCfsBandwidth g tg period quota = some r ∧ (r.1 = 0 ∨ r.1 = -einval) ∧
      (r.1 = 0 ↔ tg ≠ rootTaskGroup ∧ (⟨period, quota⟩ : CfsLimit).InRange ∧
        CfsFits g (g.cfsWith tg ⟨period, quota⟩)) ∧
      r.2.cfs = if r.1 = 0 then g.cfsWith tg ⟨period, quota⟩ else g.cfs := by
  have hrefused (hno : ¬(tg ≠ rootTaskGroup ∧ (⟨period, quota⟩ : CfsLimit).InRange ∧
      CfsFits g (g.cfsWith tg ⟨period, quota⟩))) :
      (-einval = 0 ∨ -einval = -einval) ∧
        (-einval = 0 ↔ tg ≠ rootTaskGroup ∧ (⟨period, quota⟩ : CfsLimit).InRange ∧
          CfsFits g (g.cfsWith tg ⟨period, quota⟩)) ∧
        g.cfs = if -einval = 0 then g.cfsWith tg ⟨period, quota⟩ else g.cfs :=
    ⟨Or.inr rfl, iff_of_false neg_einval_ne hno, (if_neg neg_einval_ne).symm⟩
  unfold tgSetCfsBandwidth
  by_cases htg : tg = rootTaskGroup
  · rw [if_pos htg]
    exact ⟨_, rfl, hrefused fun hall => hall.1 htg⟩
  rw [if_neg htg]
  by_cases hmin : quota < minCfsQuotaPeriod ∨ period < minCfsQuotaPeriod
  · rw [if_pos hmin]
    refine ⟨_, rfl, hrefused fun hall => ?_⟩
    exact hmin.elim (not_lt.mpr hall.2.1.quota) (not_lt.mpr hall.2.1.period)
  rw [if_neg hmin]
  by_cases hmax : maxCfsQuotaPeriod < period
  · rw [if_pos hmax]
    exact ⟨_, rfl, hrefused fun hall => not_lt.mpr hall.2.1.period_le hmax⟩
  rw [if_neg hmax]
  rw [not_or] at hmin
  have hin : (⟨period, quota⟩ : CfsLimit).InRange :=
    ⟨not_lt.mp hmin.1, not_lt.mp hmin.2, not_lt.mp hmax⟩
  have hrange (a : TgPtr) (ha : a ∈ g.taskGroups)
      (hlimited : (g.cfsWith tg ⟨period, quota⟩ a).Limited) :
      (g.cfsWith tg ⟨period, quota⟩ a).InRange := by
    unfold Groups.cfsWith at hlimited ⊢
    rw [Function.update_apply] at hlimited ⊢
    split_ifs at hlimited ⊢
    · exact hin
    · exact hg.range a ha hlimited
  obtain ⟨r, hr, hmem, hzero⟩ := cfsSchedulable_spec hg.toSound hg.root tg period quota hrange
  have hkept : r.2.cfs = g.cfs := by
    obtain ⟨w, -, rfl⟩ := Option.map_eq_some_iff.mp hr
    exact cfs_setHierarchicalQuota g w.2
  rw [hr]
  by_cases herr : r.1 = 0
  · refine ⟨_, congrArg some (if_neg (not_not_intro herr)), ?_⟩
    dsimp only
    refine ⟨Or.inl herr, iff_of_true herr ⟨htg, hin, hzero.mp herr⟩, ?_⟩
    rw [if_pos herr, cfs_set]
    unfold Groups.cfsWith
    rw [hkept]
  · refine ⟨_, congrArg some (if_pos herr), ?_⟩
    rw [if_neg herr]
    exact ⟨hmem, iff_of_false herr fun hall => herr (hzero.mpr hall.2.2), hkept⟩

/-! ### Whole runs -/

/-- The limits are in range and fit. -/
structure CfsShared (g : Groups n) : Prop where
  sound : g.CfsSound
  fits : CfsFits g g.cfs

/-- A new leaf is above nothing, and what is above an old group stays. -/
theorem above_online {tg parent c a : TgPtr} {v : TaskGroup n} (hg : g.CfsSound)
    (htg : tg ∉ g.taskGroups) (hc : c ∈ g.taskGroups)
    (habove : (schedOnlineGroup (g.set tg v) tg parent).Above c a) : g.Above c a := by
  have hparent {c p : TgPtr} (hc : c ∈ g.taskGroups)
      (hp : (schedOnlineGroup (g.set tg v) tg parent).links.parent c = some p) :
      g.links.parent c = some p ∧ p ∈ g.taskGroups := by
    have hne : c ≠ tg := fun heq => htg (heq ▸ hc)
    have hp' : g.links.parent c = some p :=
      ((Links.add_parent g.links parent tg c).trans (if_neg hne)).symm.trans hp
    have hroot : c ≠ rootTaskGroup := fun heq => by
      rw [heq, hg.root] at hp'
      cases hp'
    obtain ⟨q, hq, hcq⟩ := hg.isTree.parent_mem hc hroot
    rw [hp', Option.some.injEq] at hcq
    exact ⟨hp', hcq ▸ hq⟩
  unfold Groups.Above at habove
  induction habove using Relation.TransGen.head_induction_on with
  | single hp => exact .single (hparent hc hp).1
  | head hp _ ih => exact .head (hparent hc hp).1 (ih (hparent hc hp).2)

theorem cfsShared_step {s t : State n} {e : Event n} (hinv : CfsShared s.groups)
    (hstep : step h s e = some t) : CfsShared t.groups := by
  have hsound := sound_step hinv.sound.toSound hstep
  have hmove := step_groups hstep
  obtain ⟨hg, hfits⟩ := hinv
  suffices hrest : t.groups.links.parent rootTaskGroup = none ∧
      (∀ tg ∈ t.groups.taskGroups, (t.groups.cfs tg).Limited → (t.groups.cfs tg).InRange) ∧
      CfsFits t.groups t.groups.cfs from ⟨⟨hsound, hrest.1, hrest.2.1⟩, hrest.2.2⟩
  generalize t.groups = g at hmove ⊢
  generalize t.sysctl = c at hmove
  generalize t.tasks = ts at hmove
  cases hmove with
  | tasks | globals => exact ⟨hg.root, hg.range, hfits⟩
  | rt tg rtPeriod rtRuntime =>
      have hcfs : (setRtBandwidth s.groups tg rtPeriod rtRuntime).cfs = s.groups.cfs :=
        (cfs_set _ _ _).trans (Function.update_eq_self tg _)
      rw [hcfs]
      exact ⟨hg.root, hg.range, hfits⟩
  | cfs tg period quota r htg hrun =>
      obtain ⟨r', hrun', -, hzero, hcfs⟩ := tgSetCfsBandwidth_spec hg tg period quota
      rw [hrun, Option.some.injEq] at hrun'
      subst hrun'
      obtain ⟨hlinks, hgroups, -⟩ := sameRt_tgSetCfsBandwidth hrun
      have hfits' (b : TgPtr → CfsLimit) : CfsFits r.2 b ↔ CfsFits s.groups b := by
        unfold CfsFits Groups.Above
        rw [hlinks, hgroups]
      rw [hfits', hlinks, hgroups, hcfs]
      by_cases herr : r.1 = 0
      · obtain ⟨-, hin, hpass⟩ := hzero.mp herr
        rw [if_pos herr]
        refine ⟨hg.root, fun a ha hlimited => ?_, hpass⟩
        unfold Groups.cfsWith at hlimited ⊢
        rw [Function.update_apply] at hlimited ⊢
        split_ifs at hlimited ⊢
        · exact hin
        · exact hg.range a ha hlimited
      · rw [if_neg herr]
        exact ⟨hg.root, hg.range, hfits⟩
  | online tg parent v he htg hparent hlen hempty hrt hcfs =>
      have hlimits : (schedOnlineGroup (s.groups.set tg v) tg parent).cfs =
          s.groups.cfsWith tg ⟨v.cfsBandwidth.period, v.cfsBandwidth.quota⟩ := cfs_set _ _ _
      -- The new group has no limit.
      have hold {a : TgPtr} (ha : a ∈ tg :: s.groups.taskGroups)
          (hlimited : (s.groups.cfsWith tg
            ⟨v.cfsBandwidth.period, v.cfsBandwidth.quota⟩ a).Limited) :
          a ∈ s.groups.taskGroups ∧ s.groups.cfsWith tg
            ⟨v.cfsBandwidth.period, v.cfsBandwidth.quota⟩ a = s.groups.cfs a := by
        by_cases hatg : a = tg
        · subst hatg
          unfold Groups.cfsWith at hlimited
          rw [Function.update_self] at hlimited
          exact absurd hcfs hlimited
        · exact ⟨(List.mem_cons.mp ha).resolve_left hatg, Function.update_of_ne hatg _ _⟩
      rw [hlimits]
      refine ⟨?_, fun a ha hlimited => ?_, ?_⟩
      · have hne : rootTaskGroup ≠ tg := fun heq => htg (heq ▸ hg.isTree.root_mem)
        exact (Links.add_parent s.groups.links parent tg _).trans ((if_neg hne).trans hg.root)
      · obtain ⟨ha', heq⟩ := hold ha hlimited
        rw [heq] at hlimited ⊢
        exact hg.range a ha' hlimited
      · intro c hc a ha hne habove hclimited halimited
        obtain ⟨hc', hceq⟩ := hold hc hclimited
        obtain ⟨ha', haeq⟩ := hold ha halimited
        rw [hceq] at hclimited ⊢
        rw [haeq] at halimited ⊢
        exact hfits c hc' a ha' hne (above_online hg htg hc' habove) hclimited halimited
  | offline tg hroot hleaf =>
      refine ⟨hg.root, fun a ha => hg.range a (List.mem_of_mem_erase ha), ?_⟩
      exact fun c hc a ha => hfits c (List.mem_of_mem_erase hc) a (List.mem_of_mem_erase ha)

/-- The ratio of a limit without wrap-around, rounded down to units of `1 / 2 ^ 20`. -/
def CfsLimit.ratio (b : CfsLimit) : Nat := b.quota.toNat / 1000 * 2 ^ 20 / (b.period.toNat / 1000)

/-- Up to `2 ^ 44` microseconds the shift does not wrap around. -/
theorem normalized_eq_ratio {b : CfsLimit} (hb : b.InRange) (hlimited : b.Limited)
    (hlt : b.quota.toNat / 1000 < 2 ^ 44) : b.normalized.toNat = b.ratio := by
  have hperiod := hb.period
  have h1000 : nsecPerUsec.toNat = 1000 := rfl
  rw [minCfs_eq] at hperiod
  unfold CfsLimit.normalized CfsLimit.ratio toRatio
  rw [if_neg hlimited, if_neg quota_div_ne, if_neg ?_, BitVec.toNat_udiv, BitVec.toNat_shiftLeft,
    BitVec.toNat_udiv, BitVec.toNat_udiv, h1000, Nat.shiftLeft_eq, Nat.mod_eq_of_lt (by omega)]
  intro hzero
  have hnat := congrArg BitVec.toNat hzero
  rw [BitVec.toNat_udiv, h1000] at hnat
  have hz : (0 : BitVec 64).toNat = 0 := rfl
  omega

/-- In every state of every run, no limited group has a larger ratio than a limited group above it,
rounded down to units of `1 / 2 ^ 20`, as long as their quotas are below `2 ^ 44` microseconds; larger
ones keep to the ratios that the code computes. -/
theorem cfsShared_run (s : State n) (hinv : CfsShared s.groups) (es : List (Event n)) :
    Always (step h)
      (fun s => CfsFits s.groups s.groups.cfs ∧
        ∀ c ∈ s.groups.taskGroups, ∀ a ∈ s.groups.taskGroups, a ≠ rootTaskGroup →
          s.groups.Above c a → (s.groups.cfs c).Limited → (s.groups.cfs a).Limited →
          (s.groups.cfs c).quota.toNat / 1000 < 2 ^ 44 →
          (s.groups.cfs a).quota.toNat / 1000 < 2 ^ 44 →
          (s.groups.cfs c).ratio ≤ (s.groups.cfs a).ratio) s es := by
  have hall : Always (step h) (fun s => CfsShared s.groups) s es :=
    always_of_step _ (fun _ _ _ hinv hstep => cfsShared_step hinv hstep) hinv es
  refine hall.mono fun s hinv => ⟨hinv.fits, ?_⟩
  intro c hc a ha hne habove hclimited halimited hclt halt
  have hle := hinv.fits c hc a ha hne habove hclimited halimited
  rw [normalized_eq_ratio (hinv.sound.range c hc hclimited) hclimited hclt,
    normalized_eq_ratio (hinv.sound.range a ha halimited) halimited halt] at hle
  exact hle

theorem boot_cfsShared (cpu : Fin n) : CfsShared (boot n cpu).groups := by
  have hunlimited (tg : TgPtr) : ¬((boot n cpu).groups.cfs tg).Limited := not_not_intro rfl
  refine ⟨⟨(boot_rtShared cpu).sound, rfl, fun tg _ hlimited => absurd hlimited (hunlimited tg)⟩, ?_⟩
  exact fun c _ _ _ _ _ hlimited => absurd hlimited (hunlimited c)

theorem nested_cfsShared : CfsShared nested.groups :=
  (always_of_step _ (fun _ _ _ hinv hstep => cfsShared_step hinv hstep) (boot_cfsShared 0)
    nestedRun).last run_nested

theorem cfsShared_run_nested :
    let es : List (Event 2) := nestedRun ++ [.cfsQuota 4 60000, .cfsPeriod 3 50000, .cfsQuota 4 60000]
    (run (step bootHooks) (boot 2 0) es).isSome = true ∧
      Always (step bootHooks)
        (fun s => CfsFits s.groups s.groups.cfs ∧
          ∀ c ∈ s.groups.taskGroups, ∀ a ∈ s.groups.taskGroups, a ≠ rootTaskGroup →
            s.groups.Above c a → (s.groups.cfs c).Limited → (s.groups.cfs a).Limited →
            (s.groups.cfs c).quota.toNat / 1000 < 2 ^ 44 →
            (s.groups.cfs a).quota.toNat / 1000 < 2 ^ 44 →
            (s.groups.cfs c).ratio ≤ (s.groups.cfs a).ratio) (boot 2 0) es :=
  ⟨by decide, cfsShared_run _ (boot_cfsShared 0) _⟩

/-- More than the group above has. -/
theorem tgSetCfsBandwidth_spec_nested :
    (tgSetCfsBandwidth nested.groups 4 100000000 60000000).map Prod.fst = some (-einval) ∧
      ∃ r, tgSetCfsBandwidth nested.groups 4 100000000 60000000 = some r ∧
        (r.1 = 0 ∨ r.1 = -einval) ∧
        (r.1 = 0 ↔ 4 ≠ rootTaskGroup ∧ (⟨100000000, 60000000⟩ : CfsLimit).InRange ∧
          CfsFits nested.groups (nested.groups.cfsWith 4 ⟨100000000, 60000000⟩)) ∧
        r.2.cfs = if r.1 = 0 then nested.groups.cfsWith 4 ⟨100000000, 60000000⟩
          else nested.groups.cfs :=
  ⟨by decide, tgSetCfsBandwidth_spec nested_cfsShared.sound 4 100000000 60000000⟩

end Lkm.Core
