import Lkm.CoreBalance

/-! Admission of deadline tasks. As long as the accounts are right, the bandwidth that a root domain
has admitted fits its active CPUs, whatever the order of calls, hotplug and new global limits. Only
a suspend, which takes CPUs down without asking, and a rebuild that takes CPUs out of a domain with
deadline tasks may break this. A domain whose CPUs are all down counts as one with one CPU: the
handler of the global limits does not ask how many there are. -/

namespace Lkm.Core

open Runs Ledger

variable {n : Nat} {h : Hooks}

/-- The root domain of a CPU keeps to its limit, when there is one. -/
def AdmittedOn (d : Domains n) (cpu : Fin n) : Prop :=
  (dlBwOf d cpu).bw = -1 ∨
    (dlBwOf d cpu).totalBw.toNat ≤ (dlBwOf d cpu).bw.toNat * max 1 (dlBwCpus d cpu)

/-- Every limit is a ratio, and the root domains keep to theirs. -/
structure Admitted (d : Domains n) : Prop where
  limit : ∀ rd, (d.dlBw rd).bw = -1 ∨ (d.dlBw rd).bw.toNat ≤ 2 ^ 20
  on : ∀ cpu, AdmittedOn d cpu

/-! ### Counting the active CPUs -/

theorem dlBwCpus_le (d : Domains n) (cpu : Fin n) : dlBwCpus d cpu ≤ n := by
  unfold dlBwCpus
  exact List.countP_le_length.trans (List.length_finRange (n := n)).le

theorem dlBwCpus_of_rd {d : Domains n} {cpu cpu' : Fin n} (hrd : d.rd cpu = d.rd cpu') :
    dlBwCpus d cpu = dlBwCpus d cpu' := by
  unfold dlBwCpus
  rw [hrd]

theorem dlBwCpus_mono {d d' : Domains n} (hrd : d'.rd = d.rd)
    (hactive : ∀ cpu, d.active cpu = true → d'.active cpu = true) (cpu : Fin n) :
    dlBwCpus d cpu ≤ dlBwCpus d' cpu := by
  unfold dlBwCpus Domains.span
  rw [hrd]
  refine List.countP_mono_left fun c _ hc => ?_
  rw [Bool.and_eq_true] at hc ⊢
  exact ⟨hc.1, hactive c hc.2⟩

theorem dlBwCpus_le_up (d : Domains n) (cpu c : Fin n) :
    dlBwCpus d c ≤ dlBwCpus (setCpuActive d cpu true) c := by
  have hactive (x : Fin n) (hx : d.active x = true) : (setCpuActive d cpu true).active x = true := by
    unfold setCpuActive
    dsimp only
    rw [Function.update_apply]
    split_ifs
    · rfl
    · exact hx
  have hrd : (setCpuActive d cpu true).rd = d.rd := rfl
  exact dlBwCpus_mono hrd hactive c

/-- A CPU that goes down counts for its own domain only. -/
theorem dlBwCpus_other {d : Domains n} {cpu c : Fin n} (hrd : d.rd c ≠ d.rd cpu) (active : Bool) :
    dlBwCpus (setCpuActive d cpu active) c = dlBwCpus d c := by
  unfold dlBwCpus setCpuActive Domains.span
  dsimp only
  refine List.countP_congr fun x _ => ?_
  by_cases hx : x = cpu
  · subst hx
    simp [Ne.symm hrd]
  · rw [Function.update_of_ne hx]

theorem AdmittedOn.of_cpus_le {d d' : Domains n} {cpu cpu' : Fin n} (hcpu : AdmittedOn d cpu)
    (hbw : (dlBwOf d' cpu').bw = (dlBwOf d cpu).bw)
    (htotal : (dlBwOf d' cpu').totalBw.toNat ≤ (dlBwOf d cpu).totalBw.toNat)
    (hle : dlBwCpus d cpu ≤ dlBwCpus d' cpu') : AdmittedOn d' cpu' := by
  unfold AdmittedOn
  rw [hbw]
  refine hcpu.imp_right fun hfits => (htotal.trans hfits).trans ?_
  exact Nat.mul_le_mul_left _ (max_le_max (le_refl 1) hle)

theorem AdmittedOn.of_zero {d : Domains n} {cpu : Fin n} (hzero : (dlBwOf d cpu).totalBw.toNat = 0) :
    AdmittedOn d cpu := by
  refine Or.inr ?_
  rw [hzero]
  exact Nat.zero_le _

/-! ### Calls -/

/-- The comparison of `__dl_overflow` does not wrap around. -/
theorem dlOverflows_eq_false {b : DlBw} {cpus : Nat} {oldBw newBw : BitVec 64}
    (hbw : b.bw.toNat ≤ 2 ^ 20) (hcpus : cpus < 2 ^ 31)
    (hno : dlOverflows b cpus oldBw newBw = false) :
    b.bw = -1 ∨ (b.totalBw - oldBw + newBw).toNat ≤ b.bw.toNat * cpus := by
  unfold dlOverflows at hno
  rw [Bool.and_eq_false_iff] at hno
  rcases hno with hinf | hle
  · exact Or.inl (by simpa using hinf)
  · right
    have hlt : b.bw.toNat * cpus < 2 ^ 64 :=
      (Nat.mul_le_mul hbw hcpus.le).trans_lt (by decide)
    have hle := of_decide_eq_false hle
    rw [BitVec.lt_def, not_lt, BitVec.toNat_mul, BitVec.toNat_ofNat,
      Nat.mod_eq_of_lt (hcpus.trans (by decide)), Nat.mod_eq_of_lt hlt] at hle
    exact hle

/-- Whatever passes the test fits the CPUs, of which there may be none. -/
theorem fits_of_dlOverflows {b : DlBw} {cpus : Nat} {oldBw newBw : BitVec 64}
    (hbw : b.bw = -1 ∨ b.bw.toNat ≤ 2 ^ 20) (hcpus : cpus < 2 ^ 31)
    (hno : dlOverflows b cpus oldBw newBw = false) :
    b.bw = -1 ∨ (b.totalBw - oldBw + newBw).toNat ≤ b.bw.toNat * max 1 cpus := by
  rcases hbw with hinf | hbw
  · exact Or.inl hinf
  · refine (dlOverflows_eq_false hbw hcpus hno).imp_right fun hle => hle.trans ?_
    exact Nat.mul_le_mul_left _ (le_max_right _ _)

/-- A call does not change the limit. -/
theorem charges_bw {s : State n} {p : TaskPtr} {attr : SchedAttr} {b : DlBw}
    (hcharges : Charges s p attr b) : b.bw = (dlBwOf s.domains (s.tasks.task p).cpu).bw := by
  unfold Charges at hcharges
  dsimp only at hcharges
  split_ifs at hcharges
  · rcases dlOverflow_cases hcharges with ⟨-, rfl⟩ | ⟨-, -, -, rfl⟩ | ⟨-, -, rfl⟩ | ⟨-, -, rfl⟩ <;> rfl
  · rw [hcharges]

/-- A call keeps its root domain within the limit. -/
theorem admitted_charges {s : State n} {p : TaskPtr} {attr : SchedAttr} {b : DlBw} (hn : n < 2 ^ 31)
    (hp : p ∈ s.tasks.threads) (hbalanced : Balanced s) (hadmitted : Admitted s.domains)
    (hcharges : Charges s p attr b) :
    Admitted (s.domains.setDlBw (s.domains.rd (s.tasks.task p).cpu) b) := by
  let rd₀ := s.domains.rd (s.tasks.task p).cpu
  have hlimit : (dlBwOf s.domains (s.tasks.task p).cpu).bw = -1 ∨
      (dlBwOf s.domains (s.tasks.task p).cpu).bw.toNat ≤ 2 ^ 20 := hadmitted.limit rd₀
  have hset (rd : RdPtr) : (s.domains.setDlBw rd₀ b).dlBw rd =
      if rd = rd₀ then b else s.domains.dlBw rd := Function.update_apply _ _ _ _
  have hbw := charges_bw hcharges
  refine ⟨fun rd => ?_, fun cpu => ?_⟩
  · rw [hset]
    split_ifs with hrd
    · rw [hbw]
      exact hlimit
    · exact hadmitted.limit rd
  have hcpu := hadmitted.on cpu
  have hb := hset (s.domains.rd cpu)
  by_cases hrd : s.domains.rd cpu = rd₀
  swap
  · rw [if_neg hrd] at hb
    exact hcpu.of_cpus_le (congrArg DlBw.bw hb) (congrArg (fun b => b.totalBw.toNat) hb).le
      (le_refl _)
  rw [if_pos hrd] at hb
  have hb : dlBwOf (s.domains.setDlBw rd₀ b) cpu = b := hb
  have hcpus : dlBwCpus s.domains (s.tasks.task p).cpu = dlBwCpus s.domains cpu :=
    (dlBwCpus_of_rd hrd).symm
  have hlt := (dlBwCpus_le s.domains cpu).trans_lt hn
  have hof : dlBwOf s.domains cpu = dlBwOf s.domains (s.tasks.task p).cpu :=
    congrArg s.domains.dlBw hrd
  unfold AdmittedOn at hcpu ⊢
  rw [hb]
  change b.bw = -1 ∨ b.totalBw.toNat ≤ b.bw.toNat * max 1 (dlBwCpus s.domains cpu)
  rw [hof] at hcpu
  unfold Charges at hcharges
  dsimp only at hcharges
  split_ifs at hcharges with hdl
  swap
  · rw [hcharges]
    exact hcpu
  rw [hcpus] at hcharges
  rcases dlOverflow_cases hcharges with
    ⟨-, rfl⟩ | ⟨-, -, hno, rfl⟩ | ⟨-, hno, rfl⟩ | ⟨-, hyes, rfl⟩
  · exact hcpu
  · have hfits := fits_of_dlOverflows hlimit hlt hno
    have hzero (x : BitVec 64) : x - 0 = x := BitVec.sub_zero x
    rw [hzero] at hfits
    exact hfits
  · have hfits := fits_of_dlOverflows hlimit hlt hno
    exact hfits
  · refine hcpu.imp_right fun htotal => le_trans ?_ htotal
    have hle : (s.tasks.task p).dl.dlBw.toNat ≤
        (dlBwOf s.domains (s.tasks.task p).cpu).totalBw.toNat := by
      have hsum := le_total (charge s.domains rd₀) s.tasks.task hp
      rw [charge_self, hyes, if_pos rfl] at hsum
      exact hsum.trans (hbalanced _).symm.le
    exact (toNat_dlClear hle).le.trans (Nat.sub_le _ _)

/-! ### The other steps -/

/-- Every root domain with a CPU gets the new limit, the others keep theirs. -/
theorem schedDlDoGlobal_bw (s : State n) :
    let newBw := if globalRtRuntime s.sysctl ≠ runtimeInf then
      toRatio (globalRtPeriod s.sysctl) (globalRtRuntime s.sysctl) else -1
    (∀ cpu, (dlBwOf (schedDlDoGlobal s).domains cpu).bw = newBw) ∧
      ∀ rd, ((schedDlDoGlobal s).domains.dlBw rd).bw = newBw ∨
        ((schedDlDoGlobal s).domains.dlBw rd).bw = (s.domains.dlBw rd).bw := by
  intro newBw
  have hstep (d : Domains n) (c : Fin n) (rd : RdPtr) :
      ((d.setDlBw (d.rd c) { dlBwOf d c with bw := newBw }).dlBw rd).bw =
        if rd = d.rd c then newBw else (d.dlBw rd).bw := by
    unfold Domains.setDlBw
    dsimp only
    rw [Function.update_apply]
    split_ifs <;> rfl
  have hfold (cpus : List (Fin n)) (d : Domains n) :
      let d' := cpus.foldl (fun d cpu => d.setDlBw (d.rd cpu) { dlBwOf d cpu with bw := newBw }) d
      d'.rd = d.rd ∧ ∀ rd, ((∃ cpu ∈ cpus, d.rd cpu = rd) → (d'.dlBw rd).bw = newBw) ∧
        ((d'.dlBw rd).bw = newBw ∨ (d'.dlBw rd).bw = (d.dlBw rd).bw) := by
    induction cpus generalizing d with
    | nil => exact ⟨rfl, fun rd => ⟨fun ⟨_, hmem, _⟩ => absurd hmem List.not_mem_nil, Or.inr rfl⟩⟩
    | cons c cpus ih =>
        obtain ⟨hrd, hbw⟩ := ih (d.setDlBw (d.rd c) { dlBwOf d c with bw := newBw })
        refine ⟨hrd, fun rd => ?_⟩
        obtain ⟨hin, hor⟩ := hbw rd
        rw [hstep] at hor
        refine ⟨fun ⟨cpu, hmem, hcpu⟩ => ?_, ?_⟩
        · rcases List.mem_cons.mp hmem with rfl | hmem
          · rw [if_pos hcpu.symm] at hor
            exact hor.elim id id
          · exact hin ⟨cpu, hmem, hcpu⟩
        · split_ifs at hor
          · exact Or.inl (hor.elim id id)
          · exact hor
  obtain ⟨hrd, hbw⟩ := hfold (List.finRange n) s.domains
  refine ⟨fun cpu => (hbw _).1 ⟨cpu, List.mem_finRange cpu, ?_⟩, fun rd => (hbw rd).2⟩
  exact (congrFun hrd cpu).symm

/-- The handler lowers the limit to no less than what a domain has admitted. -/
theorem admitted_globals {s : State n} {c : Sysctl} (hadmitted : Admitted s.domains)
    (hpass : GlobalsPass (onSysctl s c)) :
    Admitted (schedDlDoGlobal (onSysctl s (schedRtDoGlobal c))).domains := by
  obtain ⟨hcpu, hrds⟩ := schedDlDoGlobal_bw (onSysctl s (schedRtDoGlobal c))
  change ∀ cpu, _ = if globalRtRuntime c ≠ runtimeInf then
    toRatio (globalRtPeriod c) (globalRtRuntime c) else -1 at hcpu
  change ∀ rd, _ = (if globalRtRuntime c ≠ runtimeInf then
    toRatio (globalRtPeriod c) (globalRtRuntime c) else -1) ∨ _ at hrds
  obtain ⟨hrd, htotal⟩ := sameAccounts_schedDlDoGlobal (onSysctl s (schedRtDoGlobal c))
  have hratio := toRatio_globals_le hpass.valid
  refine ⟨fun rd => ?_, fun cpu => ?_⟩
  · rcases hrds rd with hnew | hold
    · rw [hnew]
      split_ifs
      · exact Or.inr hratio
      · exact Or.inl rfl
    · rw [hold]
      exact hadmitted.limit rd
  have hbw := hcpu cpu
  by_cases hinf : globalRtRuntime c = runtimeInf
  · rw [if_neg (not_not_intro hinf)] at hbw
    exact Or.inl hbw
  rw [if_pos hinf] at hbw
  refine Or.inr ?_
  rw [hbw]
  have hdl := hpass.dl
  unfold schedDlGlobalConstraints at hdl
  dsimp only at hdl
  split_ifs at hdl with hany
  · exact absurd hdl neg_ebusy_ne
  have hle : (dlBwOf s.domains cpu).totalBw.toNat ≤
      (toRatio (globalRtPeriod c) (globalRtRuntime c)).toNat := by
    by_contra hgt
    refine hany (List.any_eq_true.mpr ⟨cpu, List.mem_finRange cpu, decide_eq_true ?_⟩)
    exact BitVec.lt_def.mpr (not_le.mp hgt)
  unfold dlBwOf
  rw [htotal, hrd]
  exact hle.trans (Nat.le_mul_of_pos_right _ (le_max_left 1 _))

/-- A CPU that goes down with the consent of the scheduler. -/
theorem admitted_down {d : Domains n} (hn : n < 2 ^ 31) (hadmitted : Admitted d) {cpu : Fin n}
    (hadmits : dlOverflows (dlBwOf (setCpuActive d cpu false) cpu)
      (dlBwCpus (setCpuActive d cpu false) cpu) 0 0 = false) :
    Admitted (setCpuActive d cpu false) := by
  refine ⟨hadmitted.limit, fun c => ?_⟩
  by_cases hrd : d.rd c = d.rd cpu
  · have hof : dlBwOf (setCpuActive d cpu false) c = dlBwOf (setCpuActive d cpu false) cpu :=
      congrArg d.dlBw hrd
    have hcpus : dlBwCpus (setCpuActive d cpu false) c =
        dlBwCpus (setCpuActive d cpu false) cpu := dlBwCpus_of_rd hrd
    have hlt := (dlBwCpus_le (setCpuActive d cpu false) cpu).trans_lt hn
    have hzero (x : BitVec 64) : x - 0 + 0 = x := by simp
    unfold AdmittedOn
    rw [hof, hcpus, ← hzero (dlBwOf (setCpuActive d cpu false) cpu).totalBw]
    exact fits_of_dlOverflows (hadmitted.limit (d.rd cpu)) hlt hadmits
  · exact (hadmitted.on c).of_cpus_le rfl (le_refl _) (dlBwCpus_other hrd false).symm.le

theorem admitted_up {d : Domains n} (hadmitted : Admitted d) (cpu : Fin n) :
    Admitted (setCpuActive d cpu true) :=
  ⟨hadmitted.limit, fun c => (hadmitted.on c).of_cpus_le rfl (le_refl _) (dlBwCpus_le_up d cpu c)⟩

/-- A rebuild that takes no CPU out of a root domain with deadline tasks. -/
theorem Rebuilt.admitted {ts : Tasks n} {c : Sysctl} {d d' : Domains n} (hrebuilt : Rebuilt h c d d')
    (hacc : h.KeepAccounts) (hvalid : schedRtGlobalValidate c = 0)
    (hbalanced : ∀ rd, (d.dlBw rd).totalBw.toNat = dlSum ts d rd) (hadmitted : Admitted d)
    (hidle : ∀ cpu, d'.rd cpu ≠ d.rd cpu → (dlBwOf d cpu).totalBw = 0) : Admitted d' := by
  obtain ⟨hactive, hbw, -⟩ := hrebuilt
  refine ⟨fun rd => ?_, fun cpu => ?_⟩
  · rcases hbw rd with hsame | ⟨-, hnew⟩
    · rw [hsame]
      exact hadmitted.limit rd
    · rw [hnew]
      exact hacc.newBw c hvalid
  rcases hbw (d'.rd cpu) with hsame | ⟨-, hnew⟩
  swap
  · refine .of_zero ?_
    unfold dlBwOf
    rw [hnew, hacc.newTotal]
    rfl
  by_cases hzero : (d.dlBw (d'.rd cpu)).totalBw.toNat = 0
  · refine .of_zero ?_
    unfold dlBwOf
    rw [hsame]
    exact hzero
  -- A domain with tasks had a CPU, and it has lost none.
  have hcpu : ∃ c, d.rd c = d'.rd cpu := by
    by_contra hnone
    push Not at hnone
    have hempty : dlSum ts d (d'.rd cpu) ≤ ts.threads.length * 0 := by
      refine total_le fun p _ => ?_
      unfold charge
      rw [if_neg fun hin => hnone _ hin.2]
    rw [hbalanced] at hzero
    exact hzero (Nat.le_zero.mp hempty)
  obtain ⟨c, hc⟩ := hcpu
  have hof : dlBwOf d' cpu = dlBwOf d c := by
    unfold dlBwOf
    rw [hsame, hc]
  refine (hadmitted.on c).of_cpus_le (congrArg DlBw.bw hof)
    (congrArg (fun b => b.totalBw.toNat) hof).le ?_
  unfold dlBwCpus Domains.span
  rw [hactive]
  refine List.countP_mono_left fun x _ hx => ?_
  simp only [Bool.and_eq_true, decide_eq_true_eq] at hx ⊢
  refine ⟨?_, hx.2⟩
  by_contra hmoved
  rw [← hc, ← hx.1] at hmoved
  have htotal := hidle x hmoved
  unfold dlBwOf at htotal
  rw [hx.1, hc] at htotal
  exact hzero (congrArg BitVec.toNat htotal)

/-- A task that dies takes its own bandwidth away. -/
theorem admitted_dead {s : State n} {p : TaskPtr} {t : State n} (hacc : h.KeepAccounts)
    (hp : p ∈ s.tasks.threads) (hbalanced : Balanced s) (hadmitted : Admitted s.domains)
    (hkeeps : KeepsCharges s (.exit p) t) : Admitted (finishDead h s.domains (s.tasks.task p)) := by
  unfold finishDead
  split_ifs with hclass
  swap
  · exact hadmitted
  rw [hacc.taskDead]
  let rd₀ := s.domains.rd (s.tasks.task p).cpu
  have hle : (s.tasks.task p).dl.dlBw.toNat ≤ (s.domains.dlBw rd₀).totalBw.toNat := by
    cases hdl : (s.tasks.task p).hasDlPolicy with
    | true =>
        have hsum := le_total (charge s.domains rd₀) s.tasks.task hp
        rw [charge_self, hdl, if_pos rfl] at hsum
        exact hsum.trans (hbalanced _).symm.le
    | false =>
        rw [hkeeps.spares hclass hdl]
        exact Nat.zero_le _
  let b := dlClear (s.domains.dlBw rd₀) (s.tasks.task p).dl.dlBw
  have hset (rd : RdPtr) : ((s.domains.setDlBw rd₀ b).dlBw rd).bw = (s.domains.dlBw rd).bw ∧
      ((s.domains.setDlBw rd₀ b).dlBw rd).totalBw.toNat ≤ (s.domains.dlBw rd).totalBw.toNat := by
    unfold Domains.setDlBw
    dsimp only
    rw [Function.update_apply]
    split_ifs with hrd
    · rw [hrd]
      exact ⟨rfl, (toNat_dlClear hle).le.trans (Nat.sub_le _ _)⟩
    · exact ⟨rfl, le_refl _⟩
  show Admitted (s.domains.setDlBw rd₀ b)
  refine ⟨fun rd => ?_, fun cpu => ?_⟩
  · rw [(hset rd).1]
    exact hadmitted.limit rd
  · exact (hadmitted.on cpu).of_cpus_le (hset _).1 (hset _).2 (le_refl _)

/-- A CPU goes down for a suspend. -/
def Event.suspends : Event n → Bool
  | .cpuDown _ frozen _ _ => frozen
  | _ => false

/-- A step that keeps the accounts, takes no CPU down frozen, and moves no CPU out of a root domain
that has admitted deadline tasks. -/
structure KeepsAdmitted (s : State n) (e : Event n) (t : State n) : Prop where
  charges : KeepsCharges s e t
  awake : e.suspends = false
  idle : ∀ cpu, t.domains.rd cpu ≠ s.domains.rd cpu → (dlBwOf s.domains cpu).totalBw = 0

instance (s : State n) (e : Event n) (t : State n) : Decidable (KeepsAdmitted s e t) :=
  decidable_of_iff (_ ∧ _ ∧ _)
    ⟨fun ⟨hcharges, hawake, hidle⟩ => ⟨hcharges, hawake, hidle⟩,
      fun h => ⟨h.charges, h.awake, h.idle⟩⟩

theorem admitted_step {s t : State n} {e : Event n} (hacc : h.KeepAccounts) (hn : n < 2 ^ 31)
    (hvalid : schedRtGlobalValidate s.sysctl = 0) (hbalanced : Balanced s) (hafter : Balanced t)
    (hadmitted : Admitted s.domains) (hkeeps : KeepsAdmitted s e t)
    (hstep : step h s e = some t) : Admitted t.domains := by
  cases hcall : e.call s with
  | some r =>
      obtain ⟨c, p, attr, user⟩ := r
      obtain ⟨-, hp, hdomains, -, -⟩ := step_call hcall hstep
      rw [hdomains]
      rcases innerSetscheduler_cases (h := h) c s p attr user with
        ⟨-, hs⟩ | ⟨-, -, hs⟩ | ⟨-, -, b, hcharges, hs⟩ <;> rw [hs]
      · exact hadmitted
      · exact hadmitted
      · exact admitted_charges hn hp hbalanced hadmitted hcharges
  | none =>
      have hmove := step_domains hcall hstep
      have hidle := hkeeps.idle
      have htotal (rd : RdPtr) : (t.domains.dlBw rd).totalBw.toNat = dlSum t.tasks t.domains rd :=
        hafter rd
      generalize t.domains = d at hmove hidle htotal ⊢
      cases hmove with
      | same => exact hadmitted
      | globals c hexit hsame hpass => exact admitted_globals hadmitted hpass
      | dead p he =>
          subst he
          obtain ⟨hp, -, rfl⟩ := exit_cases hstep
          exact admitted_dead hacc hp hbalanced hadmitted hkeeps.charges
      | down cpu frozen call now d he hadmits hrebuilt =>
          cases frozen with
          | true =>
              have hawake := hkeeps.awake
              rw [he] at hawake
              cases hawake
          | false =>
              exact hrebuilt.admitted hacc hvalid hbalanced (admitted_down hn hadmitted (hadmits rfl))
                hidle
      | up cpu d he hrebuilt =>
          exact hrebuilt.admitted hacc hvalid hbalanced (admitted_up hadmitted cpu) hidle
      | partition d he hrebuilt =>
          exact hrebuilt.admitted hacc hvalid hbalanced hadmitted hidle

/-! ### Whole runs -/

theorem valid_step {s t : State n} {e : Event n} (hvalid : schedRtGlobalValidate s.sysctl = 0)
    (hstep : step h s e = some t) : schedRtGlobalValidate t.sysctl = 0 := by
  have hmove := step_groups hstep
  generalize t.sysctl = c at hmove ⊢
  generalize t.groups = g at hmove
  generalize t.tasks = ts at hmove
  cases hmove with
  | globals c hpass => exact hpass.valid
  | _ => exact hvalid

/-- The deadline tasks of the root domain of every CPU fit its active CPUs. -/
def FitsCpus (s : State n) : Prop :=
  ∀ cpu, (dlBwOf s.domains cpu).bw = -1 ∨
    dlSum s.tasks s.domains (s.domains.rd cpu) ≤
      (dlBwOf s.domains cpu).bw.toNat * max 1 (dlBwCpus s.domains cpu)

theorem boot_admitted (cpu : Fin n) : Admitted (boot n cpu).domains := by
  have hbw : (toRatio initSysctl.defDlPeriod initSysctl.defDlRuntime).toNat ≤ 2 ^ 20 := by decide
  exact ⟨fun _ => Or.inr hbw, fun _ => Or.inr (Nat.zero_le _)⟩

end Lkm.Core
