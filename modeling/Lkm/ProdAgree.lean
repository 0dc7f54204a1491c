import Lkm.ProdModel

/-! The producer and the consumer of `prod_cons.c` in lockstep: the queue holds the pids of the processes
that the walk of the consumer comes to next. They stay in lockstep up to the 4096 processes that the
queue has room for, and as long as the second line fits the line buffer. -/

namespace Lkm.Prod

open Buffer Format Queue

/-- The two lines for a process. -/
def pair (pid : Pid) : List (List Byte) := [pidLine pid.val, taskLine pid.val]

/-- One pair of lines for every process in the order of the list, and the walk goes through the list
once. -/
structure Agree (tasks : List Pid) (out : Output) : Prop where
  lines : out.tty = tasks.flatMap pair
  walk : out.walk = List.range' 1 tasks.length

/-- What `console_output` adds to the terminal. -/
def shown (tty : Bool) (lines : List (List Byte)) : List (List Byte) := if tty then lines else []

theorem shown_append (tty : Bool) (as bs : List (List Byte)) :
    shown tty (as ++ bs) = shown tty as ++ shown tty bs := by
  cases tty <;> rfl

theorem consoleOutput_eq (tty : Bool) {str : Buf 20} {line : List Byte} (h : text str = some line)
    (out : Output) :
    ∃ out', consoleOutput tty str out = some out' ∧ out'.tty = out.tty ++ shown tty [line] ∧
      out'.walk = out.walk := by
  cases tty with
  | false => exact ⟨_, rfl, (List.append_nil _).symm, rfl⟩
  | true =>
      refine ⟨{ out with tty := out.tty ++ [line] }, ?_, rfl, rfl⟩
      simp only [consoleOutput, h, if_true]
      rfl

/-- A text that fits the buffer reaches the terminal. -/
theorem print_eq (tty : Bool) (buffer : Buf 20) {line : List Byte} (hnul : 0 ∉ line)
    (hlength : line.length < 20) (out : Output) :
    ∃ buffer' out', sprintf buffer line = some buffer' ∧ consoleOutput tty buffer' out = some out' ∧
      out'.tty = out.tty ++ shown tty [line] ∧ out'.walk = out.walk := by
  obtain ⟨buffer', hbuffer, htext⟩ := Option.bind_eq_some_iff.mp (text_sprintf buffer hnul hlength)
  obtain ⟨out', hout⟩ := consoleOutput_eq tty htext out
  exact ⟨buffer', out', hbuffer, hout⟩

section Round

variable (tty : Bool) {tasks : List Pid} {ts : Nat} {pid : Pid} {rest : List Int} {test : Fifo}

/-- One round of the loop, when the walk is at the process whose pid is next in the queue. -/
theorem consumerLoop_cons (rounds : Nat) (hpid : taskPid tasks ts = pid)
    (hitems : test.items = (pid.val : Int) :: rest) (hlt : pid.val < 100000) (buffer : Buf 20)
    (out : Output) :
    ∃ buffer' test' out', consumerLoop tty tasks (rounds + 1) ts buffer test out =
        consumerLoop tty tasks rounds (nextTask tasks ts) buffer' test' out' ∧
      test'.items = rest ∧ out'.tty = out.tty ++ shown tty (pair pid) ∧
      out'.walk = out.walk ++ [ts] := by
  obtain ⟨test', hget, htest'⟩ := Kfifo.kfifoGet_cons hitems
  obtain ⟨buffer1, out1, hbuffer1, hout1, htty1, hwalk1⟩ :=
    print_eq tty buffer (nul_notMem_pidLine pid.val) (length_pidLine_lt pid)
      (out.printk (ascii "pid = " ++ formatInt pid.val ++ ascii "   "))
  obtain ⟨buffer2, out2, hbuffer2, hout2, htty2, hwalk2⟩ :=
    print_eq tty buffer1 (nul_notMem_taskLine pid.val) ((length_taskLine_lt_iff pid).mpr hlt)
      { out1 with walk := out1.walk ++ [ts] }
  refine ⟨buffer2, test', out2, ?_, htest', ?_, ?_⟩
  · simp only [consumerLoop, hget, hpid, hbuffer1, hout1, hbuffer2, hout2, Option.bind_eq_bind,
      Option.bind_some]
  · calc
      out2.tty = out1.tty ++ shown tty [taskLine pid.val] := htty2
      _ = out.tty ++ shown tty [pidLine pid.val] ++ shown tty [taskLine pid.val] := by
        rw [htty1]
        rfl
      _ = out.tty ++ shown tty (pair pid) := by
        rw [List.append_assoc, ← shown_append]
        rfl
  · rw [hwalk2, hwalk1]
    rfl

theorem consumerLoop_overflow (rounds : Nat) (hpid : taskPid tasks ts = pid)
    (hitems : test.items = (pid.val : Int) :: rest) (hge : ¬pid.val < 100000) (buffer : Buf 20)
    (out : Output) : consumerLoop tty tasks (rounds + 1) ts buffer test out = none := by
  obtain ⟨test', hget, -⟩ := Kfifo.kfifoGet_cons hitems
  obtain ⟨buffer1, out1, hbuffer1, hout1, -, -⟩ :=
    print_eq tty buffer (nul_notMem_pidLine pid.val) (length_pidLine_lt pid)
      (out.printk (ascii "pid = " ++ formatInt pid.val ++ ascii "   "))
  have hoverflow : sprintf buffer1 (taskLine pid.val) = none :=
    sprintf_eq_none buffer1 (Nat.not_lt.mp fun h => hge ((length_taskLine_lt_iff pid).mp h))
  simp only [consumerLoop, hget, hpid, hbuffer1, hout1, hoverflow, Option.bind_eq_bind,
    Option.bind_some, Option.bind_none]

end Round

/-- The next process of a list whose rest is known. -/
theorem next_of_prefix {tasks pids : List Pid} {pid : Pid} {k : Nat}
    (h : (pid :: pids) <+: tasks.drop k) :
    nextTask tasks k = k + 1 ∧ taskPid tasks (k + 1) = pid ∧ pids <+: tasks.drop (k + 1) := by
  obtain ⟨more, hmore⟩ := h
  have hlt : k < tasks.length := by
    have hlength := congrArg List.length hmore
    rw [List.length_append, List.length_cons, List.length_drop] at hlength
    omega
  rw [List.drop_eq_getElem_cons hlt, List.cons_append, List.cons.injEq] at hmore
  obtain ⟨hpid, hrest⟩ := hmore
  exact ⟨if_pos hlt, (taskPid_succ hlt).trans hpid.symm, ⟨more, hrest⟩⟩

/-- The loop, when the queue holds the pids of the processes behind position `k`. -/
theorem consumerLoop_eq (tty : Bool) {tasks : List Pid} (pids : List Pid) (rounds k : Nat)
    (hpids : pids <+: tasks.drop k) (hrounds : pids.length < rounds)
    (hsmall : ∀ pid ∈ pids, pid.val < 100000) (buffer : Buf 20) {test : Fifo}
    (hitems : test.items = pids.map fun pid => (pid.val : Int)) (out : Output) :
    ∃ test' out', consumerLoop tty tasks rounds (nextTask tasks k) buffer test out =
        some (test', out') ∧
      out'.tty = out.tty ++ shown tty (pids.flatMap pair) ∧
      out'.walk = out.walk ++ List.range' (k + 1) pids.length := by
  induction pids generalizing rounds k buffer test out with
  | nil =>
      obtain ⟨rounds, rfl⟩ := Nat.exists_eq_succ_of_ne_zero (Nat.ne_zero_of_lt hrounds)
      refine ⟨test, out, ?_, ?_, (List.append_nil _).symm⟩
      · rw [consumerLoop, Kfifo.kfifoGet_nil hitems]
      · cases tty <;> exact (List.append_nil _).symm
  | cons pid pids ih =>
      obtain ⟨rounds, rfl⟩ := Nat.exists_eq_succ_of_ne_zero (Nat.ne_zero_of_lt hrounds)
      obtain ⟨hnext, hpid, hpids'⟩ := next_of_prefix hpids
      rw [List.length_cons] at hrounds
      obtain ⟨buffer1, test1, out1, hround, hitems1, htty1, hwalk1⟩ :=
        consumerLoop_cons tty rounds hpid hitems (hsmall pid List.mem_cons_self) buffer out
      obtain ⟨test2, out2, hloop, htty2, hwalk2⟩ :=
        ih rounds (k + 1) hpids' (Nat.lt_of_succ_lt_succ hrounds)
          (fun p hp => hsmall p (List.mem_cons_of_mem pid hp)) buffer1 hitems1 out1
      refine ⟨test2, out2, ?_, ?_, ?_⟩
      · rw [hnext, hround, hloop]
      · rw [htty2, htty1, List.append_assoc, ← shown_append, List.flatMap_cons]
      · rw [hwalk2, hwalk1, List.append_assoc, List.length_cons, List.range'_succ]
        rfl

/-- A queue with a pid of six digits overflows the line buffer. -/
theorem consumerLoop_none (tty : Bool) {tasks : List Pid} (pids : List Pid) (rounds k : Nat)
    (hpids : pids <+: tasks.drop k) (hbig : ∃ pid ∈ pids, ¬pid.val < 100000) (buffer : Buf 20)
    {test : Fifo} (hitems : test.items = pids.map fun pid => (pid.val : Int)) (out : Output) :
    consumerLoop tty tasks rounds (nextTask tasks k) buffer test out = none := by
  induction pids generalizing rounds k buffer test out with
  | nil =>
      obtain ⟨pid, hmem, -⟩ := hbig
      cases hmem
  | cons pid pids ih =>
      obtain ⟨hnext, hpid, hpids'⟩ := next_of_prefix hpids
      rw [hnext]
      cases rounds with
      | zero => rfl
      | succ rounds =>
          by_cases hlt : pid.val < 100000
          · obtain ⟨buffer1, test1, out1, hround, hitems1, -, -⟩ :=
              consumerLoop_cons tty rounds hpid hitems hlt buffer out
            obtain ⟨p, hmem, hp⟩ := hbig
            cases List.mem_cons.mp hmem with
            | inl heq => exact absurd hlt (heq ▸ hp)
            | inr hmem =>
                rw [hround]
                exact ih rounds (k + 1) hpids' ⟨p, hmem, hp⟩ buffer1 hitems1 out1
          · exact consumerLoop_overflow tty rounds hpid hitems hlt buffer out

/-- The pids that the producer has stored. -/
def stored (tasks : List Pid) : List Pid := tasks.take 4096

/-- The stored pids are the beginning of the list, which the consumer walks from its start. -/
theorem stored_start (tasks : List Pid) : stored tasks <+: tasks.drop 0 := List.take_prefix 4096 tasks

theorem length_stored_lt (tasks : List Pid) : (stored tasks).length < 4097 := by
  rw [stored, List.length_take]
  omega

theorem init_eq (tty : Bool) (tasks : List Pid) (buffer : Buf 20)
    (hsmall : ∀ pid ∈ stored tasks, pid.val < 100000) :
    ∃ out, init tty tasks buffer = some out ∧ out.tty = shown tty ((stored tasks).flatMap pair) ∧
      out.walk = List.range' 1 (stored tasks).length := by
  obtain ⟨test, hproducer, hitems⟩ := producer_eq tasks
  rw [← List.map_take] at hitems
  have hloop := consumerLoop_eq tty (stored tasks) 4097 0 (stored_start tasks)
    (length_stored_lt tasks) hsmall buffer hitems
  cases hpeek : test.kfifoPeek with
  | none =>
      obtain ⟨test', out, hout, htty, hwalk⟩ := hloop ⟨[], [], []⟩
      refine ⟨out, ?_, htty, hwalk⟩
      simp only [init, hproducer, consumer, hpeek, hout, Option.bind_eq_bind, Option.bind_some]
      rfl
  | some i =>
      obtain ⟨test', out, hout, htty, hwalk⟩ :=
        hloop (.printk ⟨[], [], []⟩ (formatInt i ++ ascii " \n"))
      refine ⟨out, ?_, htty, hwalk⟩
      simp only [init, hproducer, consumer, hpeek, hout, Option.bind_eq_bind, Option.bind_some]
      rfl

theorem init_none (tty : Bool) (tasks : List Pid) (buffer : Buf 20)
    (hbig : ∃ pid ∈ stored tasks, ¬pid.val < 100000) : init tty tasks buffer = none := by
  obtain ⟨test, hproducer, hitems⟩ := producer_eq tasks
  rw [← List.map_take] at hitems
  have hloop := consumerLoop_none tty (stored tasks) 4097 0 (stored_start tasks) hbig buffer hitems
  simp only [init, hproducer, consumer, hloop, Option.bind_eq_bind, Option.bind_some, Option.bind_none]

theorem stored_eq_self_iff (tasks : List Pid) :
    (stored tasks).length = tasks.length ↔ tasks.length ≤ 4096 := by
  rw [stored, List.length_take]
  omega

/-- The functions print one pair of lines for every process, with the same pid in both, exactly when
there are at most 4096 processes, no pid has more than five digits, and there is a terminal to print
to. -/
theorem agree_iff (tty : Bool) (tasks : List Pid) (buffer : Buf 20) :
    (∃ out, init tty tasks buffer = some out ∧ Agree tasks out) ↔
      tasks.length ≤ 4096 ∧ (∀ pid ∈ tasks, pid.val < 100000) ∧ (tty = true ∨ tasks = []) := by
  constructor
  · intro h
    obtain ⟨out, hout, hlines, hwalk⟩ := h
    have hsmall : ∀ pid ∈ stored tasks, pid.val < 100000 := by
      by_contra hbig
      simp only [not_forall] at hbig
      obtain ⟨pid, hmem, hpid⟩ := hbig
      rw [init_none tty tasks buffer ⟨pid, hmem, hpid⟩] at hout
      cases hout
    obtain ⟨out', hout', htty, hwalk'⟩ := init_eq tty tasks buffer hsmall
    rw [hout', Option.some.injEq] at hout
    subst hout
    have hlength : tasks.length ≤ 4096 := by
      have hranges := congrArg List.length (hwalk'.symm.trans hwalk)
      rw [List.length_range', List.length_range'] at hranges
      exact (stored_eq_self_iff tasks).mp hranges
    have hstored : stored tasks = tasks := List.take_of_length_le hlength
    refine ⟨hlength, hstored ▸ hsmall, ?_⟩
    cases tty with
    | true => exact Or.inl rfl
    | false =>
        refine Or.inr ?_
        have hnone : tasks.flatMap pair = [] := hlines.symm.trans htty
        cases tasks with
        | nil => rfl
        | cons pid rest => cases hnone
  · intro h
    obtain ⟨hlength, hsmall, htty⟩ := h
    have hstored : stored tasks = tasks := List.take_of_length_le hlength
    obtain ⟨out, hout, hlines, hwalk⟩ := init_eq tty tasks buffer (hstored.symm ▸ hsmall)
    rw [hstored] at hlines hwalk
    refine ⟨out, hout, ?_, hwalk⟩
    cases htty with
    | inl htty => rw [hlines, htty, shown, if_pos rfl]
    | inr hnil =>
        rw [hlines, hnil]
        cases tty <;> rfl

/-- The processes 1 to 4097. -/
def crowded : List Pid := (List.finRange 4097).map fun i => ⟨i.val + 1, by omega⟩

/-- The last one is missing. -/
theorem agree_crowded : ¬∀ tasks buffer, ∃ out, init true tasks buffer = some out ∧ Agree tasks out := by
  intro h
  obtain ⟨out, hout, -, hwalk⟩ := h crowded (zeroed 20)
  have hsmall : ∀ pid ∈ stored crowded, pid.val < 100000 := by
    intro pid hmem
    obtain ⟨i, -, rfl⟩ := List.mem_map.mp (List.mem_of_mem_take hmem)
    change i.val + 1 < 100000
    omega
  obtain ⟨out', hout', -, hwalk'⟩ := init_eq true crowded (zeroed 20) hsmall
  rw [hout', Option.some.injEq] at hout
  subst hout
  have hranges := congrArg List.length (hwalk'.symm.trans hwalk)
  rw [List.length_range', List.length_range', stored_eq_self_iff, crowded, List.length_map,
    List.length_finRange] at hranges
  exact absurd hranges (by decide)

end Lkm.Prod
