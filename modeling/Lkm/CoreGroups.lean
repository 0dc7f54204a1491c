import Lkm.CoreModel

/-! The task groups of `core.c`: the walk of their tree, the checks of the real-time and of the CFS
bandwidth, and the writes that they guard. A walk takes as many steps as it needs when the links are
a tree, so the results are `some`; `none` would be a walk that has not ended. -/

namespace Lkm.Core

open TreeWalk

def eperm : Int := 1
def ebusy : Int := 16
def einval : Int := 22

variable {n : Nat}

/-! ### The tree -/

def walkTgTreeFrom {σ : Type} (g : Groups n) (start : TgPtr) (down up : Visitor TgPtr σ) (data : σ) :
    Option (Int × σ) :=
  walk g.links down up start (3 * g.taskGroups.length) data

def walkTgTree {σ : Type} (g : Groups n) (down up : Visitor TgPtr σ) (data : σ) :
    Option (Int × σ) :=
  walkTgTreeFrom g rootTaskGroup down up data

/-- `list_add_rcu` puts the new group in front of both lists. -/
def schedOnlineGroup (g : Groups n) (tg parent : TgPtr) : Groups n :=
  { g with
    taskGroups := tg :: g.taskGroups
    links := g.links.add parent tg }

def schedOfflineGroup (g : Groups n) (tg : TgPtr) : Groups n :=
  { g with
    taskGroups := g.taskGroups.erase tg
    links := g.links.del tg }

def Groups.set (g : Groups n) (tg : TgPtr) (v : TaskGroup n) : Groups n :=
  { g with tg := Function.update g.tg tg v }

/-! ### Real-time bandwidth -/

def tgHasRtTasks (ts : Tasks n) (tg : TgPtr) : Bool :=
  ts.threads.any fun p => (ts.task p).rtTask && (ts.task p).schedTaskGroup = tg

structure RtSchedulableData where
  tg : Option TgPtr
  rtPeriod : BitVec 64
  rtRuntime : BitVec 64

/-- The bandwidth that the check uses for a group: the requested one for the group of the request. -/
def RtSchedulableData.bandwidth (d : RtSchedulableData) (g : Groups n) (tg : TgPtr) : RtBandwidth :=
  if d.tg = some tg then ⟨d.rtPeriod, d.rtRuntime⟩ else (g.tg tg).rtBandwidth

def RtBandwidth.ratio (b : RtBandwidth) : BitVec 64 := toRatio b.rtPeriod b.rtRuntime

def tgRtSchedulable (s : State n) (d : RtSchedulableData) (tg : TgPtr) : Int :=
  let b := d.bandwidth s.groups tg
  if b.rtPeriod < b.rtRuntime ∧ b.rtRuntime ≠ runtimeInf then -einval
  else if rtBandwidthEnabled s.sysctl ∧ b.rtRuntime = 0 ∧ tgHasRtTasks s.tasks tg then -ebusy
  else
    let total := b.ratio
    if toRatio (globalRtPeriod s.sysctl) (globalRtRuntime s.sysctl) < total then -einval
    else
      let sum := (s.groups.links.children tg).foldl
        (fun sum child => sum + (d.bandwidth s.groups child).ratio) 0
      if total < sum then -einval else 0

/-- `__rt_schedulable`. -/
def rtSchedulable (s : State n) (tg : Option TgPtr) (period runtime : BitVec 64) : Option Int :=
  (walkTgTree s.groups (fun g u => (tgRtSchedulable s ⟨tg, period, runtime⟩ g, u)) nop ()).map
    Prod.fst

def tgSetRtBandwidth (s : State n) (tg : TgPtr) (rtPeriod rtRuntime : BitVec 64) :
    Option (Int × State n) :=
  (rtSchedulable s (some tg) rtPeriod rtRuntime).map fun err =>
    if err ≠ 0 then (err, s)
    else
      let v := { s.groups.tg tg with
        rtBandwidth := ⟨rtPeriod, rtRuntime⟩
        rtRqRuntime := fun _ => rtRuntime }
      (err, { s with groups := s.groups.set tg v })

/-- `rtRuntimeUs` is a `long`. -/
def schedGroupSetRtRuntime (s : State n) (tg : TgPtr) (rtRuntimeUs : BitVec 64) :
    Option (Int × State n) :=
  let rtPeriod := (s.groups.tg tg).rtBandwidth.rtPeriod
  let rtRuntime := if rtRuntimeUs.toInt < 0 then runtimeInf else rtRuntimeUs * nsecPerUsec
  tgSetRtBandwidth s tg rtPeriod rtRuntime

def schedGroupSetRtPeriod (s : State n) (tg : TgPtr) (rtPeriodUs : BitVec 64) :
    Option (Int × State n) :=
  let rtPeriod := rtPeriodUs * nsecPerUsec
  let rtRuntime := (s.groups.tg tg).rtBandwidth.rtRuntime
  if rtPeriod = 0 then some (-einval, s) else tgSetRtBandwidth s tg rtPeriod rtRuntime

def schedRtGlobalConstraints (s : State n) : Option Int := rtSchedulable s none 0 0

/-! ### CFS bandwidth -/

def maxCfsQuotaPeriod : BitVec 64 := 1000000000
def minCfsQuotaPeriod : BitVec 64 := 1000000

def tgGetCfsQuota (g : Groups n) (tg : TgPtr) : BitVec 64 :=
  if (g.tg tg).cfsBandwidth.quota = runtimeInf then -1
  else (g.tg tg).cfsBandwidth.quota / nsecPerUsec

def tgGetCfsPeriod (g : Groups n) (tg : TgPtr) : BitVec 64 :=
  (g.tg tg).cfsBandwidth.period / nsecPerUsec

structure CfsSchedulableData where
  tg : TgPtr
  period : BitVec 64
  quota : BitVec 64

def normalizeCfsQuota (g : Groups n) (d : CfsSchedulableData) (tg : TgPtr) : BitVec 64 :=
  let period := if tg = d.tg then d.period else tgGetCfsPeriod g tg
  let quota := if tg = d.tg then d.quota else tgGetCfsQuota g tg
  if quota = runtimeInf ∨ quota = -1 then runtimeInf else toRatio period quota

/-- The state of the walk is the `hierarchical_quota` of every group, an `s64`. -/
def tgCfsSchedulableDown (g : Groups n) (d : CfsSchedulableData) : Visitor TgPtr (TgPtr → BitVec 64) :=
  fun tg hierarchicalQuota =>
    match g.links.parent tg with
    | none => (0, Function.update hierarchicalQuota tg runtimeInf)
    | some parent =>
        let quota := normalizeCfsQuota g d tg
        let parentQuota := hierarchicalQuota parent
        if quota = runtimeInf then (0, Function.update hierarchicalQuota tg parentQuota)
        else if parentQuota ≠ runtimeInf ∧ parentQuota.toInt < quota.toInt then
          (-einval, hierarchicalQuota)
        else (0, Function.update hierarchicalQuota tg quota)

def Groups.hierarchicalQuota (g : Groups n) (tg : TgPtr) : BitVec 64 :=
  (g.tg tg).cfsBandwidth.hierarchicalQuota

def Groups.setHierarchicalQuota (g : Groups n) (hierarchicalQuota : TgPtr → BitVec 64) : Groups n :=
  { g with
    tg := fun tg =>
      { g.tg tg with
        cfsBandwidth :=
          { (g.tg tg).cfsBandwidth with hierarchicalQuota := hierarchicalQuota tg } } }

/-- `__cfs_schedulable`. What the visitor has stored stays, whatever the answer. -/
def cfsSchedulable (g : Groups n) (tg : TgPtr) (period quota : BitVec 64) :
    Option (Int × Groups n) :=
  let data : CfsSchedulableData :=
    if quota ≠ runtimeInf then ⟨tg, period / nsecPerUsec, quota / nsecPerUsec⟩
    else ⟨tg, period, quota⟩
  (walkTgTree g (tgCfsSchedulableDown g data) nop g.hierarchicalQuota).map fun r =>
    (r.1, g.setHierarchicalQuota r.2)

def tgSetCfsBandwidth (g : Groups n) (tg : TgPtr) (period quota : BitVec 64) :
    Option (Int × Groups n) :=
  if tg = rootTaskGroup then some (-einval, g)
  else if quota < minCfsQuotaPeriod ∨ period < minCfsQuotaPeriod then some (-einval, g)
  else if maxCfsQuotaPeriod < period then some (-einval, g)
  else
    (cfsSchedulable g tg period quota).map fun r =>
      if r.1 ≠ 0 then r
      else
        let b := { (r.2.tg tg).cfsBandwidth with period := period, quota := quota }
        (r.1, r.2.set tg { r.2.tg tg with cfsBandwidth := b })

def tgSetCfsQuota (g : Groups n) (tg : TgPtr) (cfsQuotaUs : BitVec 64) : Option (Int × Groups n) :=
  let period := (g.tg tg).cfsBandwidth.period
  let quota := if cfsQuotaUs.toInt < 0 then runtimeInf else cfsQuotaUs * nsecPerUsec
  tgSetCfsBandwidth g tg period quota

def tgSetCfsPeriod (g : Groups n) (tg : TgPtr) (cfsPeriodUs : BitVec 64) : Option (Int × Groups n) :=
  let period := cfsPeriodUs * nsecPerUsec
  let quota := (g.tg tg).cfsBandwidth.quota
  tgSetCfsBandwidth g tg period quota

end Lkm.Core
