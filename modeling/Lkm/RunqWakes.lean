import Lkm.RunqPlaces

/-! Who is being woken. On the board of the calls every step is an operation or nothing: a task in
`TASK_WAKING` is in the hands of one CPU or in the wake list of its own. -/

namespace Lkm.Runq

open Dispatch

variable {n : Nat} {U : Type} [DecidableEq U] {k : Kernel} {s t : State n U}

/-! ### The board after a change -/

theorem relay_setTask (s : State n U) (p : Tid n U) (t : Task n) :
    (s.setTask p t).relay = { s.relay with
      called := Function.update s.relay.called p (decide (t.state = taskWaking))
      home := Function.update s.relay.home p t.cpu } := by
  refine Relay.Board.ext (funext fun q => ?_) (funext fun q => ?_) rfl rfl
  · exact Function.apply_update (fun _ (t : Task n) => decide (t.state = taskWaking)) s.task p t q
  · exact Function.apply_update (fun _ => Task.cpu) s.task p t q

/-- A change of the record of a task that is called neither before nor after it. -/
theorem relay_setTask_rehome (s : State n U) {p : Tid n U} {t : Task n}
    (hstate : (s.task p).state ≠ taskWaking) (hstate' : t.state ≠ taskWaking) :
    (s.setTask p t).relay = s.relay.rehome p t.cpu := by
  rw [relay_setTask, decide_eq_false hstate', ← decide_eq_false hstate]
  exact Relay.Board.ext (Function.update_eq_self _ _) rfl rfl rfl

theorem relay_setTask_same (s : State n U) {p : Tid n U} {t : Task n}
    (hstate : t.state = (s.task p).state ∨
      (s.task p).state ≠ taskWaking ∧ t.state ≠ taskWaking) (hcpu : t.cpu = (s.task p).cpu) :
    (s.setTask p t).relay = s.relay := by
  have hcalled : decide (t.state = taskWaking) = decide ((s.task p).state = taskWaking) := by
    rcases hstate with heq | ⟨hno, hno'⟩
    · rw [heq]
    · exact (decide_eq_false hno').trans (decide_eq_false hno).symm
  exact Relay.Board.ext (funext (seen_setTask (fun t => decide (t.state = taskWaking)) s hcalled))
    (funext (seen_setTask Task.cpu s hcpu)) rfl rfl

omit [DecidableEq U] in
theorem relay_setRq (s : State n U) (c : Fin n) (rq : Rq n U) :
    (s.setRq c rq).relay = { s.relay with
      inbox := Function.update s.relay.inbox c (rq.wakeList ++ (s.pc c).llist) } := by
  refine Relay.Board.ext rfl rfl (funext fun d => ?_) rfl
  exact Function.apply_update (fun d (rq : Rq n U) => rq.wakeList ++ (s.pc d).llist) s.rq c rq d

omit [DecidableEq U] in
theorem relay_setRq_same (s : State n U) {c : Fin n} {rq : Rq n U}
    (hlist : rq.wakeList = (s.rq c).wakeList) : (s.setRq c rq).relay = s.relay := by
  refine Relay.Board.ext rfl rfl (funext fun d => ?_) rfl
  exact congrArg (· ++ (s.pc d).llist) (seen_setRq Rq.wakeList s hlist d)

omit [DecidableEq U] in
theorem relay_goto (s : State n U) (c : Fin n) (pc : Pc n U) :
    (s.goto c pc).relay = { s.relay with
      inbox := Function.update s.relay.inbox c ((s.rq c).wakeList ++ pc.llist)
      hand := Function.update s.relay.hand c pc.hand } := by
  refine Relay.Board.ext rfl rfl (funext fun d => ?_) (funext fun d => ?_)
  · exact Function.apply_update (fun d (pc : Pc n U) => (s.rq d).wakeList ++ pc.llist) s.pc c pc d
  · exact Function.apply_update (fun _ => Pc.hand) s.pc c pc d

omit [DecidableEq U] in
/-- A CPU that goes on with the same list. -/
theorem relay_goto_hand (s : State n U) {c : Fin n} {pc pc' : Pc n U} (hpc : s.pc c = pc')
    (hlist : pc.llist = pc'.llist) :
    (s.goto c pc).relay = { s.relay with hand := Function.update s.relay.hand c pc.hand } := by
  rw [relay_goto, hlist, ← hpc]
  exact Relay.Board.ext rfl rfl (Function.update_eq_self _ _) rfl

omit [DecidableEq U] in
theorem relay_goto_same (s : State n U) {c : Fin n} {pc pc' : Pc n U} (hpc : s.pc c = pc')
    (hlist : pc.llist = pc'.llist) (hhand : pc.hand = pc'.hand) : (s.goto c pc).relay = s.relay := by
  rw [relay_goto_hand s hpc hlist, hhand, ← hpc]
  exact Relay.Board.ext rfl rfl rfl (Function.update_eq_self _ _)

omit [DecidableEq U] in
theorem relay_lockRq (s : State n U) (c : Fin n) : (s.lockRq c).relay = s.relay :=
  relay_setRq_same s rfl

omit [DecidableEq U] in
theorem relay_unlockRq (s : State n U) (c : Fin n) : (s.unlockRq c).relay = s.relay :=
  relay_setRq_same s rfl

theorem relay_lockPi (s : State n U) (p : Tid n U) (c : Fin n) : (s.lockPi p c).relay = s.relay :=
  relay_setTask_same s (Or.inl rfl) rfl

theorem relay_unlockPi (s : State n U) (p : Tid n U) : (s.unlockPi p).relay = s.relay :=
  relay_setTask_same s (Or.inl rfl) rfl

/-! ### Who is not being woken -/

theorem Inv.not_waking_of_onRq (h : Inv s) {p : Tid n U} (hp : (s.task p).onRq ≠ .off) :
    (s.task p).state ≠ taskWaking := fun hstate => hp (h.watch.called p hstate).1

theorem Inv.not_waking_of_curr (h : Inv s) (c : Fin n) :
    (s.task (s.rq c).curr).state ≠ taskWaking := by
  intro hstate
  have hon := h.dispatch.currOnCpu c
  have hoff := (h.watch.called _ hstate).2
  exact Bool.false_ne_true (hoff.symm.trans hon)

theorem queued_ne_off {t : Task n} (h : t.onRq = .queued) : t.onRq ≠ .off := by
  rw [h]
  decide

theorem running_ne_waking : taskRunning ≠ taskWaking := by decide

theorem switchCount_frame (t : Task n) (voluntary : Bool) :
    (switchCount t voluntary).state = t.state ∧ (switchCount t voluntary).cpu = t.cpu := by
  cases voluntary <;> exact ⟨rfl, rfl⟩

theorem relay_step (h : Inv s) (hs : Step k s t) :
    Relation.ReflTransGen Relay.Board.Move s.relay t.relay := by
  have same {b : Relay.Board (Fin n) (Tid n U)} (heq : b = s.relay) :
      Relation.ReflTransGen Relay.Board.Move s.relay b := by
    rw [heq]
  have one {b b' : Relay.Board (Fin n) (Tid n U)} (heq : b' = b)
      (hm : Relay.Board.Move s.relay b) : Relation.ReflTransGen Relay.Board.Move s.relay b' :=
    heq ▸ .single hm
  cases hs with
  | idle => exact .refl
  | @own c t hpc hspot hpi hcsw hmask hstate =>
      refine same (relay_setTask_same s ?_ (congrArg Spot.cpu hspot))
      exact hstate.imp_right fun hno => ⟨h.not_waking_of_curr c, hno.2⟩
  | @fork u t hu ht hstate =>
      obtain ⟨-, hrun, -⟩ := h.watch.fresh (.thread u) (Or.inr hu)
      have hno : (s.task (.thread u)).state ≠ taskWaking := hrun.trans_ne running_ne_waking
      exact one (relay_setTask_rehome s hno (hstate.trans_ne running_ne_waking))
        (.rehome (decide_eq_false hno))
  | @wakeUpNew u cpu hu hplace =>
      obtain ⟨-, hrun, -⟩ := h.watch.fresh (.thread u) (Or.inl hu)
      have hno : (s.task (.thread u)).state ≠ taskWaking := hrun.trans_ne running_ne_waking
      refine one (Eq.trans (relay_setTask_rehome _ hno hno) ?_)
        (.rehome (d := cpu) (decide_eq_false hno))
      rw [relay_setRq_same]
      · rfl
      · rfl
  | matched hpc =>
      refine same (Eq.trans (relay_goto_same _ hpc rfl rfl) ?_)
      rw [relay_lockPi]
  | onRq hpc => exact same (relay_goto_same s hpc rfl rfl)
  | offRq hpc =>
      rcases hpc with hpc | hpc
      · exact same (relay_goto_same s hpc rfl rfl)
      · exact same (relay_goto_same s hpc rfl rfl)
  | @remote c p hpc hp =>
      refine same (Eq.trans (relay_goto_same _ hpc rfl rfl) ?_)
      have hno := (h.watch.matched (Or.inr hpc)).1
      rw [relay_unlockPi, relay_setTask_same]
      · exact Or.inr ⟨hno, running_ne_waking⟩
      · rfl
  | @place c p cpu t hpc hp hplace ht hpi hmask hstate =>
      obtain ⟨-, hno, -⟩ := h.watch.at_place hpc
      refine one ?_ (.call (c := c) (d := cpu) (decide_eq_false hno) (congrArg Pc.hand hpc))
      refine Eq.trans (relay_goto_hand _ hpc rfl) ?_
      rw [relay_setTask, hstate, ht.2.2]
      rfl
  | @post c p cpu hpc =>
      obtain ⟨-, hcpu⟩ := h.watch.at_place hpc
      refine one ?_ (.post (c := c) (d := cpu) (congrArg Pc.hand hpc) hcpu)
      refine Eq.trans (relay_goto_hand _ hpc rfl) ?_
      rw [relay_unlockPi, relay_setRq]
      rfl
  | @queue c p cpu hpc =>
      refine one ?_ (.deliver (c := c) (congrArg Pc.hand hpc))
      refine Eq.trans (relay_goto_hand _ hpc rfl) ?_
      rw [relay_unlockPi, relay_setTask, relay_setRq_same]
      · refine Relay.Board.ext rfl (Function.update_eq_self _ _) rfl rfl
      · rfl
  | @ipi c hpc =>
      have hinbox : s.relay.inbox c = [] ++ (s.rq c).wakeList := by
        rw [State.relay_inbox, hpc]
        exact List.append_nil _
      have hhand : s.relay.hand c = none := congrArg Pc.hand hpc
      rw [relay_goto, relay_setRq, State.setRq_rq, Function.update_self]
      refine same (Relay.Board.ext rfl rfl ?_ ?_)
      · refine (Function.update_idem _ _ _).trans ?_
        show Function.update s.relay.inbox c ([] ++ (s.rq c).wakeList) = _
        rw [← hinbox]
        exact Function.update_eq_self _ _
      · show Function.update s.relay.hand c none = _
        rw [← hhand]
        exact Function.update_eq_self _ _
  | @pendingLock c l hpc =>
      refine same (Eq.trans (relay_goto_same _ hpc rfl rfl) ?_)
      rw [relay_lockRq]
  | @pending c p l hpc =>
      have hmem : p ∈ s.relay.inbox c := by simp [hpc, Pc.llist]
      have hinbox : (s.relay.inbox c).erase p = (s.rq c).wakeList ++ l := by
        have hnodup := h.relay.nodup c
        rw [State.relay_inbox, hpc] at hnodup ⊢
        have hnot : p ∉ (s.rq c).wakeList := fun hp =>
          (List.nodup_append.mp hnodup).2.2 p hp p List.mem_cons_self rfl
        rw [List.erase_append_right _ hnot]
        exact congrArg _ (List.erase_cons_head p l)
      refine one ?_ (.receive hmem)
      have hsame : (s.setRq c ((s.rq c).insert p (s.task p).noted)).relay = s.relay :=
        relay_setRq_same s rfl
      have hhand : s.relay.hand c = none := congrArg Pc.hand hpc
      rw [relay_goto, relay_setTask, hsame, State.setTask_rq, State.setRq_rq, Function.update_self,
        Relay.Board.receive, hinbox]
      refine Relay.Board.ext rfl (Function.update_eq_self _ _) rfl ?_
      show Function.update s.relay.hand c none = _
      rw [← hhand]
      exact Function.update_eq_self _ _
  | @pendingEnd c hpc =>
      refine same (Eq.trans (relay_goto_same _ hpc rfl rfl) ?_)
      rw [relay_unlockRq]
  | @schedule c hpc =>
      refine same (Eq.trans (relay_goto_same _ hpc rfl rfl) ?_)
      rw [relay_lockRq]
  | @signal c hpc =>
      refine same (Eq.trans (relay_goto_same _ hpc rfl rfl) ?_)
      rw [relay_lockRq, relay_setTask_same]
      · exact Or.inr ⟨h.not_waking_of_curr c, running_ne_waking⟩
      · rfl
  | @sleep c pc hpc hrq hstate hto =>
      have hlist : pc.llist = [] ∧ pc.hand = none := by rcases hto with rfl | rfl <;> exact ⟨rfl, rfl⟩
      refine same (Eq.trans (relay_goto_same _ hpc hlist.1 hlist.2) ?_)
      rw [relay_lockRq, relay_setTask_same, relay_setRq_same]
      · rfl
      · exact Or.inl rfl
      · rfl
  | @worker c hpc => exact same (relay_goto_same s hpc rfl rfl)
  | @workerLocal c p hpc hp hpi hqueued =>
      refine same (Eq.trans (relay_goto_same _ hpc rfl rfl) ?_)
      rw [relay_setTask_same]
      · exact Or.inr ⟨h.not_waking_of_onRq (queued_ne_off hqueued), running_ne_waking⟩
      · rfl
  | @workerActivate c p hpc hp hpi hqueued hstate =>
      refine same (Eq.trans (relay_goto_same _ hpc rfl rfl) ?_)
      rw [relay_setTask_same, relay_setRq_same]
      · rfl
      · exact Or.inr ⟨hstate.1, running_ne_waking⟩
      · rfl
  | @workerBusy c p hpc =>
      refine same (Eq.trans (relay_goto_same _ hpc rfl rfl) ?_)
      rw [relay_unlockRq]
  | @localPi c p hpc =>
      refine same (Eq.trans (relay_goto_same _ hpc rfl rfl) ?_)
      rw [relay_lockPi]
  | @localOut c p hpc =>
      refine same (Eq.trans (relay_goto_same _ hpc rfl rfl) ?_)
      rw [relay_unlockPi, relay_lockRq]
  | @localWake c p hpc hrq hqueued =>
      refine same (Eq.trans (relay_goto_same _ hpc rfl rfl) ?_)
      rw [relay_unlockPi, relay_lockRq, relay_setTask_same]
      · exact Or.inr ⟨h.not_waking_of_onRq (queued_ne_off hqueued), running_ne_waking⟩
      · rfl
  | @localActivate c p hpc hrq hqueued hstate =>
      refine same (Eq.trans (relay_goto_same _ hpc rfl rfl) ?_)
      rw [relay_unlockPi, relay_lockRq, relay_setTask_same, relay_setRq_same]
      · rfl
      · exact Or.inr ⟨hstate.1, running_ne_waking⟩
      · rfl
  | @unlock c voluntary hpc =>
      refine same (Eq.trans (relay_goto_same _ hpc rfl rfl) ?_)
      rw [relay_unlockRq]
  | @relock c voluntary hpc =>
      refine same (Eq.trans (relay_goto_same _ hpc rfl rfl) ?_)
      rw [relay_lockRq]
  | @stay c voluntary hpc hnext =>
      refine same (Eq.trans (relay_goto_same _ hpc rfl rfl) ?_)
      rw [relay_unlockRq]
  | @switch c voluntary next hpc hnext hne =>
      refine same (Eq.trans (relay_goto_same _ hpc rfl rfl) ?_)
      have hnext : (Function.update s.task (s.rq c).curr (switchCount (s.task (s.rq c).curr) voluntary))
          next = s.task next := Function.update_of_ne (Ne.symm hne) _ _
      rw [relay_setTask_same, relay_setTask_same, relay_setRq_same]
      · rfl
      · exact Or.inl (switchCount_frame _ _).1
      · exact (switchCount_frame _ _).2
      · have hstate := congrArg Task.state hnext
        exact Or.inl hstate.symm
      · have hcpu := congrArg Task.cpu hnext
        exact hcpu.symm
  | @finish c prev hpc =>
      refine same (Eq.trans (relay_goto_same _ hpc rfl rfl) ?_)
      rw [relay_unlockRq, relay_setTask_same]
      · exact Or.inl rfl
      · rfl
  | @migrate c u cpu hpc hpi hrq hqueued hcurr hplace =>
      have hno := h.not_waking_of_onRq (queued_ne_off hqueued)
      refine one (Eq.trans (relay_goto_same _ hpc rfl rfl) ?_)
        (.rehome (j := .thread u) (d := cpu) (decide_eq_false hno))
      rw [relay_lockPi]
      refine Eq.trans (relay_setTask_rehome _ hno hno) ?_
      rw [relay_setRq_same]
      · rfl
      · rfl
  | @migrated c p cpu hpc =>
      refine same (Eq.trans (relay_goto_same _ hpc rfl rfl) ?_)
      rw [relay_unlockPi, relay_setTask_same, relay_setRq_same]
      · rfl
      · exact Or.inl rfl
      · rfl
  | mask hlocal => exact same (relay_setTask_same s (Or.inl rfl) rfl)
  | @wakeCpu u cpu => exact same (relay_setTask_same s (Or.inl rfl) rfl)
  | @transfer u cpu hrq hqueued hcurr hplace =>
      have hno := h.not_waking_of_onRq (queued_ne_off hqueued)
      refine one ?_ (.rehome (j := .thread u) (d := cpu) (decide_eq_false hno))
      rw [relay_setRq_same]
      · refine Eq.trans (relay_setTask_rehome _ hno hno) ?_
        rw [relay_setRq_same]
        · rfl
        · rfl
      · rfl

end Lkm.Runq
