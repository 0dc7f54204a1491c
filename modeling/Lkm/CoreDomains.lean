import Lkm.CorePolicy
import Mathlib.Data.List.FinRange

/-! Root domains. `partition_sched_domains` destroys the scheduling domains that the new partition does
not have, which leaves their CPUs to `def_root_domain`, and builds the ones that are new, each with a
root domain of its own that has admitted nothing. CPU hotplug leads there through the notifiers
behind `cpu_active_mask`. What the architecture, the allocator and `cpuset.c` answer is part of the
call. -/

namespace Lkm.Core

variable {n : Nat}

/-! ### Attaching CPUs -/

/-- `&def_root_domain`. -/
def defRootDomain : RdPtr := 0

def rqAttachRoot (d : Domains n) (cpu : Fin n) (rd : RdPtr) : Domains n :=
  { d with rd := Function.update d.rd cpu rd }

/-- The loop around `cpu_attach_domain`. -/
def attachDomains (d : Domains n) (cpuMap : CpuMask n) (rd : RdPtr) : Domains n :=
  ((List.finRange n).filter cpuMap).foldl (fun d cpu => rqAttachRoot d cpu rd) d

def detachDestroyDomains (d : Domains n) (cpuMap : CpuMask n) : Domains n :=
  attachDomains d cpuMap defRootDomain

def allocRootdomain (h : Hooks) (c : Sysctl) (d : Domains n) (rd : RdPtr) : Domains n :=
  d.setDlBw rd (h.initDlBw c)

/-- `build_sched_domains`, with the new root domain, or `none` when an allocation fails: then no CPU
has been attached yet. -/
def buildSchedDomains (h : Hooks) (c : Sysctl) (d : Domains n) (cpuMap : CpuMask n)
    (rd : Option RdPtr) : Domains n :=
  match rd with
  | none => d
  | some rd => attachDomains (allocRootdomain h c d rd) cpuMap rd

/-! ### The partition -/

/-- A call of `partition_sched_domains`, with the answer of `arch_update_cpu_topology` and what the
allocations for the new masks return: a build for which nothing is left fails. -/
structure Partition (n : Nat) where
  ndomsNew : Nat
  domsNew : Option (List (SchedDom n))
  newTopology : Bool
  alloc : List (Option RdPtr)

/-- The allocator returns objects that are not in use. -/
def Partition.allocates (call : Partition n) (d : Domains n) : Bool :=
  decide call.alloc.reduceOption.Nodup &&
    call.alloc.reduceOption.all fun rd => rd ≠ defRootDomain && decide (∀ cpu, d.rd cpu ≠ rd)

/-- `fallback_doms`. -/
def fallbackDoms (d : Domains n) : SchedDom n where
  cpuMap := fun cpu => d.active cpu && !d.isolated cpu
  relaxDomainLevel := -1

/-- The loop that destroys the current domains except `keep`. -/
def destroyDeleted (d : Domains n) (keep : List (SchedDom n)) : Domains n :=
  d.domsCur.foldl (fun d dom => if dom ∈ keep then d else detachDestroyDomains d dom.cpuMap) d

/-- The loop that builds the new domains except `keep`. -/
def buildNew (h : Hooks) (c : Sysctl) (d : Domains n) (keep : List (SchedDom n))
    (builds : List (SchedDom n × Option RdPtr)) : Domains n :=
  builds.foldl (fun d r => if r.1 ∈ keep then d else buildSchedDomains h c d r.1.cpuMap r.2) d

/-- Without `doms_new` nothing matches and the fallback is built. -/
def partitionSchedDomains (h : Hooks) (c : Sysctl) (d : Domains n) (call : Partition n) :
    Domains n :=
  let matchable (doms : List (SchedDom n)) :=
    if call.newTopology ∨ call.domsNew = none then [] else doms
  let domsNew := (call.domsNew.getD [fallbackDoms d]).take call.ndomsNew
  let alloc := call.alloc ++ List.replicate domsNew.length none
  let d' := destroyDeleted d (matchable domsNew)
  { buildNew h c d' (matchable d.domsCur) (domsNew.zip alloc) with domsCur := domsNew }

/-! ### The notifiers -/

def setCpuActive (d : Domains n) (cpu : Fin n) (active : Bool) : Domains n :=
  { d with active := Function.update d.active cpu active }

/-- The notifier for `CPU_DOWN_PREPARE`. -/
def schedCpuInactive (d : Domains n) (cpu : Fin n) (frozen : Bool) : Int × Domains n :=
  let d := setCpuActive d cpu false
  if ¬frozen ∧ dlOverflows (dlBwOf d cpu) (dlBwCpus d cpu) 0 0 then (-ebusy, d) else (0, d)

/-- `cpuset_update_active_cpus` calls `partition_sched_domains` now or leaves that to a work item. -/
def cpusetUpdateActiveCpus (h : Hooks) (c : Sysctl) (d : Domains n) (call : Partition n)
    (now : Bool) : Domains n :=
  if now then partitionSchedDomains h c d call else d

/-- A single scheduling domain. -/
def Partition.single (call : Partition n) : Partition n := { call with ndomsNew := 1, domsNew := none }

def cpusetCpuActive (h : Hooks) (c : Sysctl) (d : Domains n) (frozen : Bool) (call : Partition n)
    (now : Bool) : Domains n :=
  if frozen then
    let d := { d with numCpusFrozen := d.numCpusFrozen - 1 }
    if d.numCpusFrozen ≠ 0 then partitionSchedDomains h c d call.single
    else cpusetUpdateActiveCpus h c d call now
  else cpusetUpdateActiveCpus h c d call now

def cpusetCpuInactive (h : Hooks) (c : Sysctl) (d : Domains n) (frozen : Bool) (call : Partition n)
    (now : Bool) : Domains n :=
  if frozen then
    partitionSchedDomains h c { d with numCpusFrozen := d.numCpusFrozen + 1 } call.single
  else cpusetUpdateActiveCpus h c d call now

/-- `CPU_ONLINE` for a CPU that `cpu.c` has made active, and `CPU_DOWN_FAILED`, for which
`sched_cpu_active` does so. -/
def cpuUpNotifiers (h : Hooks) (c : Sysctl) (d : Domains n) (cpu : Fin n) (frozen : Bool)
    (call : Partition n) (now : Bool) : Domains n :=
  cpusetCpuActive h c (setCpuActive d cpu true) frozen call now

/-- `CPU_DOWN_PREPARE`. An error ends the chain, and `CPU_DOWN_FAILED` follows. -/
def cpuDownNotifiers (h : Hooks) (c : Sysctl) (d : Domains n) (cpu : Fin n) (frozen : Bool)
    (call : Partition n) (now : Bool) : Domains n :=
  let r := schedCpuInactive d cpu frozen
  if r.1 ≠ 0 then cpuUpNotifiers h c r.2 cpu frozen call now
  else cpusetCpuInactive h c r.2 frozen call now

/-! ### What a rebuild can do -/

/-- A root domain that is not in use. -/
def Unused (d : Domains n) (rd : RdPtr) : Prop := rd ≠ defRootDomain ∧ ∀ cpu, d.rd cpu ≠ rd

/-- Only accounts of new root domains are written, and a CPU that moves goes to `def_root_domain` or to
a new one. -/
structure Rebuilt (h : Hooks) (c : Sysctl) (d d' : Domains n) : Prop where
  active : d'.active = d.active
  dlBw : ∀ rd, d'.dlBw rd = d.dlBw rd ∨ Unused d rd ∧ d'.dlBw rd = h.initDlBw c
  rd : ∀ cpu, d'.rd cpu = d.rd cpu ∨ d'.rd cpu = defRootDomain ∨
    Unused d (d'.rd cpu) ∧ d'.dlBw (d'.rd cpu) = h.initDlBw c

variable {h : Hooks} {c : Sysctl} {d₀ d : Domains n}

theorem Rebuilt.refl (h : Hooks) (c : Sysctl) (d : Domains n) : Rebuilt h c d d :=
  ⟨rfl, fun _ => Or.inl rfl, fun _ => Or.inl rfl⟩

/-- Attaching CPUs to `def_root_domain` or to a domain that is new. -/
theorem Rebuilt.attach (hd : Rebuilt h c d₀ d) {rd : RdPtr}
    (hrd : rd = defRootDomain ∨ Unused d₀ rd ∧ d.dlBw rd = h.initDlBw c) (cpuMap : CpuMask n) :
    Rebuilt h c d₀ (attachDomains d cpuMap rd) := by
  let P (d' : Domains n) : Prop := Rebuilt h c d₀ d' ∧ d'.dlBw rd = d.dlBw rd
  have hattach (d' : Domains n) (hd' : P d') (cpu : Fin n) : P (rqAttachRoot d' cpu rd) := by
    obtain ⟨hd', hbw⟩ := hd'
    refine ⟨⟨hd'.active, hd'.dlBw, fun cpu' => ?_⟩, hbw⟩
    by_cases hcpu : cpu' = cpu
    · subst hcpu
      have hself : (rqAttachRoot d' cpu' rd).rd cpu' = rd := Function.update_self _ _ _
      have hsame : (rqAttachRoot d' cpu' rd).dlBw rd = d.dlBw rd := hbw
      rw [hself, hsame]
      exact Or.inr hrd
    · have hother : (rqAttachRoot d' cpu rd).rd cpu' = d'.rd cpu' := Function.update_of_ne hcpu _ _
      rw [hother]
      exact hd'.rd cpu'
  exact (List.foldlRecOn (motive := P) _ _ ⟨hd, rfl⟩ fun d' hd' cpu _ => hattach d' hd' cpu).1

theorem Rebuilt.alloc (hd : Rebuilt h c d₀ d) {rd : RdPtr} (hrd : Unused d₀ rd) :
    Rebuilt h c d₀ (allocRootdomain h c d rd) ∧ (allocRootdomain h c d rd).dlBw rd = h.initDlBw c := by
  have hself : (allocRootdomain h c d rd).dlBw rd = h.initDlBw c := Function.update_self _ _ _
  have hother {rd' : RdPtr} (hne : rd' ≠ rd) :
      (allocRootdomain h c d rd).dlBw rd' = d.dlBw rd' := Function.update_of_ne hne _ _
  refine ⟨⟨hd.active, fun rd' => ?_, fun cpu => ?_⟩, hself⟩
  · by_cases heq : rd' = rd
    · subst heq
      exact Or.inr ⟨hrd, hself⟩
    · rw [hother heq]
      exact hd.dlBw rd'
  · rcases hd.rd cpu with hsame | hdef | ⟨hunused, hbw⟩
    · exact Or.inl hsame
    · exact Or.inr (Or.inl hdef)
    · refine Or.inr (Or.inr ⟨hunused, ?_⟩)
      show (allocRootdomain h c d rd).dlBw (d.rd cpu) = _
      by_cases heq : d.rd cpu = rd
      · rw [heq]
        exact hself
      · rw [hother heq]
        exact hbw

theorem Rebuilt.build (hd : Rebuilt h c d₀ d) {rd : Option RdPtr} (hrd : ∀ r ∈ rd, Unused d₀ r)
    (cpuMap : CpuMask n) : Rebuilt h c d₀ (buildSchedDomains h c d cpuMap rd) := by
  cases rd with
  | none => exact hd
  | some rd =>
      have hunused := hrd rd rfl
      obtain ⟨halloc, hbw⟩ := hd.alloc hunused
      exact halloc.attach (Or.inr ⟨hunused, hbw⟩) cpuMap

theorem Partition.unused {call : Partition n} (halloc : call.allocates d₀ = true) {rd : RdPtr}
    (hrd : some rd ∈ call.alloc) : Unused d₀ rd := by
  unfold Partition.allocates at halloc
  rw [Bool.and_eq_true, List.all_eq_true] at halloc
  have hall := halloc.2 rd (List.mem_filterMap.mpr ⟨_, hrd, rfl⟩)
  rw [Bool.and_eq_true, decide_eq_true_eq, decide_eq_true_eq] at hall
  exact hall

theorem rebuilt_destroyDeleted (keep : List (SchedDom n)) :
    Rebuilt h c d (destroyDeleted d keep) := by
  refine List.foldlRecOn (motive := Rebuilt h c d) _ _ (.refl h c d) fun d' hd' dom _ => ?_
  split_ifs
  · exact hd'
  · exact hd'.attach (Or.inl rfl) dom.cpuMap

theorem Rebuilt.buildNew (hd : Rebuilt h c d₀ d) (keep : List (SchedDom n))
    {builds : List (SchedDom n × Option RdPtr)} (hbuilds : ∀ r ∈ builds, ∀ rd ∈ r.2, Unused d₀ rd) :
    Rebuilt h c d₀ (buildNew h c d keep builds) := by
  refine List.foldlRecOn (motive := Rebuilt h c d₀) _ _ hd fun d' hd' r hr => ?_
  split_ifs
  · exact hd'
  · exact hd'.build (hbuilds r hr) r.1.cpuMap

/-- A whole partition. -/
theorem rebuilt_partition {call : Partition n} (halloc : call.allocates d = true) :
    Rebuilt h c d (partitionSchedDomains h c d call) := by
  have hunused {doms : List (SchedDom n)} {k : Nat} :
      ∀ r ∈ doms.zip (call.alloc ++ List.replicate k none), ∀ rd ∈ r.2, Unused d rd := by
    intro r hr rd hrd
    have hmem := (List.of_mem_zip (a := r.1) (b := r.2) hr).2
    rw [Option.mem_def.mp hrd] at hmem
    refine Partition.unused halloc ((List.mem_append.mp hmem).resolve_right fun hpad => ?_)
    cases List.eq_of_mem_replicate hpad
  obtain ⟨hactive, hdlBw, hrd⟩ := (rebuilt_destroyDeleted (h := h) (c := c) _).buildNew _ hunused
  exact ⟨hactive, hdlBw, hrd⟩

theorem rebuilt_update {call : Partition n} (halloc : call.allocates d = true) (now : Bool) :
    Rebuilt h c d (cpusetUpdateActiveCpus h c d call now) := by
  cases now with
  | false => exact .refl h c d
  | true => exact rebuilt_partition halloc

/-- `num_cpus_frozen` is not part of what a rebuild can do. -/
theorem rebuilt_single {call : Partition n} (halloc : call.allocates d = true) (frozen : Int) :
    Rebuilt h c d (partitionSchedDomains h c { d with numCpusFrozen := frozen } call.single) := by
  have hsingle : call.single.allocates { d with numCpusFrozen := frozen } = true := halloc
  obtain ⟨hactive, hdlBw, hrd⟩ := rebuilt_partition (h := h) (c := c) hsingle
  exact ⟨hactive, hdlBw, hrd⟩

theorem rebuilt_cpusetCpuActive {call : Partition n} (halloc : call.allocates d = true)
    (frozen now : Bool) : Rebuilt h c d (cpusetCpuActive h c d frozen call now) := by
  unfold cpusetCpuActive
  dsimp only
  split_ifs
  · exact rebuilt_single halloc _
  · have hthawed : call.allocates { d with numCpusFrozen := d.numCpusFrozen - 1 } = true := halloc
    obtain ⟨hactive, hdlBw, hrd⟩ := rebuilt_update (h := h) (c := c) hthawed now
    exact ⟨hactive, hdlBw, hrd⟩
  · exact rebuilt_update halloc now

theorem rebuilt_cpusetCpuInactive {call : Partition n} (halloc : call.allocates d = true)
    (frozen now : Bool) : Rebuilt h c d (cpusetCpuInactive h c d frozen call now) := by
  unfold cpusetCpuInactive
  split_ifs
  · exact rebuilt_single halloc _
  · exact rebuilt_update halloc now

theorem rebuilt_cpuUp {call : Partition n} (halloc : call.allocates d = true) (cpu : Fin n)
    (frozen now : Bool) :
    Rebuilt h c (setCpuActive d cpu true) (cpuUpNotifiers h c d cpu frozen call now) :=
  rebuilt_cpusetCpuActive (d := setCpuActive d cpu true) halloc frozen now

/-- A CPU goes down with the consent of the scheduler, or frozen, or it comes back. -/
theorem rebuilt_cpuDown {call : Partition n} (halloc : call.allocates d = true) (cpu : Fin n)
    (frozen now : Bool) :
    (frozen = false → dlOverflows (dlBwOf (setCpuActive d cpu false) cpu)
        (dlBwCpus (setCpuActive d cpu false) cpu) 0 0 = false) ∧
      Rebuilt h c (setCpuActive d cpu false) (cpuDownNotifiers h c d cpu frozen call now) ∨
    Rebuilt h c (setCpuActive d cpu true) (cpuDownNotifiers h c d cpu frozen call now) := by
  have hback : setCpuActive (setCpuActive d cpu false) cpu true = setCpuActive d cpu true := by
    unfold setCpuActive
    dsimp only
    rw [Function.update_idem]
  unfold cpuDownNotifiers schedCpuInactive
  dsimp only
  by_cases hover : ¬frozen = true ∧ dlOverflows (dlBwOf (setCpuActive d cpu false) cpu)
      (dlBwCpus (setCpuActive d cpu false) cpu) 0 0 = true
  · rw [if_pos hover, if_pos (show -ebusy ≠ 0 by decide)]
    exact Or.inr (hback ▸ rebuilt_cpuUp (d := setCpuActive d cpu false) halloc cpu frozen now)
  · rw [if_neg hover, if_neg (not_not_intro rfl)]
    refine Or.inl ⟨fun hfrozen => ?_,
      rebuilt_cpusetCpuInactive (d := setCpuActive d cpu false) halloc frozen now⟩
    rw [not_and, hfrozen] at hover
    exact Bool.eq_false_iff.mpr (hover Bool.false_ne_true)

end Lkm.Core
