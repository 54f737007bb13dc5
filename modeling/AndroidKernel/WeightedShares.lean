import AndroidKernel.Scheduling
import AndroidKernel.Boot

/-!
Left alone with the timer, the WRR tasks of a CPU get their quanta in turn. One
round of ticks, as many as the quanta add up to, gives each task exactly its own
and ends where it began.
-/

namespace AndroidKernel

open RunList

/-- The ticks of a CPU one after the other, with the task each of them charges.
Nothing happens in between but the preemption points. -/
def tickRun (env : Env) (c : Cpu) : List (List (Bool × Bool)) → Sched →
    Option (List Pid × Sched)
  | [], s => some ([], s)
  | passes :: rest, s =>
      match tickAndSchedule env c passes s with
      | none => none
      | some next => (tickRun env c rest next).map fun out => ((s.rq c).curr :: out.1, out.2)

def quantum (env : Env) (task : TaskStruct) : Nat := refillSlice env task.wrr

/-- The WRR tasks are the only candidates of the CPU, and one of them runs. The
slices may be partly used. -/
structure Loaded (env : Env) (s : Sched) (c : Cpu) (queue : List Pid) (share slice : Pid → Nat) :
    Prop where
  sound : Sound env s
  queue_eq : (s.rq c).wrr.queue = queue
  curr : (s.rq c).curr ∈ queue
  awake : ∀ p ∈ queue, (s.task p).state = 0
  share_eq : ∀ p ∈ queue, quantum env (s.task p) = share p
  slice_eq : ∀ p ∈ queue, (s.task p).wrr.timeSlice = slice p
  noStop : classPick env s c .stop = none
  noRt : ((s.rt c).rq env.groups.root).rtNrRunning = 0 ∨
    rtRqThrottled s c env.groups.root = true

variable {env : Env} {s : Sched} {c : Cpu} {queue : List Pid} {share slice : Pid → Nat}

theorem Loaded.unique (loaded : Loaded env s c queue share slice) : queue.Nodup := by
  rw [← loaded.queue_eq]
  exact (loaded.sound.queues c).wrr.lists.unique

theorem Loaded.queued (loaded : Loaded env s c queue share slice) {p : Pid} (member : p ∈ queue) :
    (s.task p).onRq = true ∧ (s.task p).cpu = c ∧ (s.task p).schedClass = .wrr := by
  rw [← loaded.queue_eq] at member
  exact (has_entries _ _ _ _).mp (((loaded.sound.queues c).wrr.lists.mem_iff p).mp member)

theorem Loaded.pick {first : Pid} {rest : List Pid}
    (loaded : Loaded env s c (first :: rest) share slice) :
    pickNext env s c = (.wrr, first) := by
  rw [pickNext_walk (loaded.sound.ready c)]
  refine pickWalk_wrr loaded.noStop (pickNextTaskRt_none loaded.noRt) ?_
  have some : (s.rq c).wrr.wrrNrRunning ≠ 0 := by
    rw [(loaded.sound.queues c).wrr.count, loaded.queue_eq, List.length_cons]
    omega
  rw [pickNextTaskWrr, if_neg some, loaded.queue_eq, List.head?_cons]

structure SameWork (before after : TaskStruct) : Prop where
  state : after.state = before.state
  onRq : after.onRq = before.onRq
  weight : after.wrr.weight = before.wrr.weight

/-- What bookkeeping, a new slice, a turn of the queue and a change of the
current task leave. -/
theorem Loaded.keep {next : Sched} {turned : List Pid} {slice' : Pid → Nat}
    (loaded : Loaded env s c queue share slice) (sound : Sound env next)
    (same : turned.Perm queue) (task : ∀ p, SameWork (s.task p) (next.task p))
    (slices : ∀ p ∈ queue, (next.task p).wrr.timeSlice = slice' p) {curr : Pid}
    (member : curr ∈ queue)
    (rq : next.rq c = { s.rq c with curr := curr, wrr := { (s.rq c).wrr with queue := turned } })
    (rt : next.rt = s.rt) : Loaded env next c turned share slice' := by
  constructor
  · exact sound
  · rw [rq]
  · rw [rq]
    exact same.mem_iff.mpr member
  · intro p inside
    rw [(task p).state]
    exact loaded.awake p (same.mem_iff.mp inside)
  · intro p inside
    rw [quantum, refillSlice, (task p).weight]
    exact loaded.share_eq p (same.mem_iff.mp inside)
  · intro p inside
    exact slices p (same.mem_iff.mp inside)
  · have noStop := loaded.noStop
    simp only [classPick, Option.filter_eq_none_iff] at noStop ⊢
    intro p named
    rw [(task p).onRq]
    rw [rq] at named
    exact noStop p named
  · have noRt := loaded.noRt
    simp only [rtRqThrottled, RtGroups.rtRqThrottled, Sched.rtState_rq, rt] at noRt ⊢
    exact noRt

theorem Loaded.schedule {first : Pid} {rest : List Pid}
    (loaded : Loaded env s c (first :: rest) share slice) (preemptActive signalPending : Bool) :
    Loaded env (schedule env s c preemptActive signalPending) c (first :: rest) share slice ∧
      ((AndroidKernel.schedule env s c preemptActive signalPending).rq c).curr = first := by
  have isWrr := (loaded.queued loaded.curr).2.2
  have stays : scheduleOut env s c preemptActive signalPending = s := by
    rw [scheduleOut, if_pos (Or.inl (loaded.awake _ loaded.curr))]
  have task : (pickState env s c preemptActive signalPending).task = s.task := by
    simp [pickState, stays]
  have rq : (pickState env s c preemptActive signalPending).rq = s.rq := by
    simp [pickState, stays]
  have rt : (pickState env s c preemptActive signalPending).rt = s.rt := by
    simp only [pickState, stays, putPrevTask]
    split <;> simp [classPutPrev, isWrr, putPrevTaskWrr]
  have looked : Loaded env (pickState env s c preemptActive signalPending) c (first :: rest)
      share slice := by
    apply loaded.keep (loaded.sound.of_eq task rq rt) (.refl _) _ _ loaded.curr _ rt
    · intro p
      rw [task]
      exact ⟨rfl, rfl, rfl⟩
    · rw [task]
      exact loaded.slice_eq
    · rw [rq, ← loaded.queue_eq]
  have work : ∀ p, (AndroidKernel.schedule env s c preemptActive signalPending).task p =
      { s.task p with onCpu := ((AndroidKernel.schedule env s c preemptActive
        signalPending).task p).onCpu } := by
    intro p
    rw [schedule_task, stays]
    exact switchTasks_same _ _ _ p
  constructor
  · apply loaded.keep (schedule_sound loaded.sound c _ _) (.refl _) _ _ List.mem_cons_self
    · rw [schedule_rq, Function.update_self, looked.pick, stays, ← loaded.queue_eq]
    · rw [schedule_rt, rt]
    · intro p
      rw [work]
      exact ⟨rfl, rfl, rfl⟩
    · intro p inside
      rw [work]
      exact loaded.slice_eq p inside
  · rw [schedule_curr, looked.pick]

theorem Loaded.settle {first : Pid} {rest : List Pid}
    (loaded : Loaded env s c (first :: rest) share slice) (curr : (s.rq c).curr = first)
    (preemptActive signalPending : Bool) (passes : List (Bool × Bool)) :
    Loaded env (reschedule env c ((preemptActive, signalPending) :: passes) s) c (first :: rest)
        share slice ∧
      ((reschedule env c ((preemptActive, signalPending) :: passes) s).rq c).curr = first ∧
      (reschedule env c ((preemptActive, signalPending) :: passes) s).needResched first =
        false := by
  rw [reschedule]
  split
  · obtain ⟨still, head⟩ := loaded.schedule preemptActive signalPending
    have quiet : (AndroidKernel.schedule env s c preemptActive signalPending).needResched first =
        false := by
      rw [schedule_needResched, if_pos curr.symm]
    rw [reschedule_quiet (by rw [head]; exact quiet)]
    exact ⟨still, head, quiet⟩
  · rename_i unflagged
    rw [curr] at unflagged
    exact ⟨loaded, curr, by simpa using unflagged⟩

/-- After a pass from another task, a second one is enough to clear a flag that
the head of the queue had before. -/
theorem Loaded.reschedule {first : Pid} {rest : List Pid}
    (loaded : Loaded env s c (first :: rest) share slice)
    (leaves : s.needResched (s.rq c).curr = true ∨ (s.rq c).curr = first)
    {passes : List (Bool × Bool)} (enough : 2 ≤ passes.length) :
    Loaded env (reschedule env c passes s) c (first :: rest) share slice ∧
      ((AndroidKernel.reschedule env c passes s).rq c).curr = first ∧
      (AndroidKernel.reschedule env c passes s).needResched first = false := by
  match passes, enough with
  | (preempt, signal) :: (preempt', signal') :: more, _ =>
      by_cases flagged : s.needResched (s.rq c).curr = true
      · obtain ⟨still, head⟩ := loaded.schedule preempt signal
        rw [AndroidKernel.reschedule, if_pos flagged]
        exact still.settle head preempt' signal' more
      · have curr : (s.rq c).curr = first := by
          rcases leaves with flag | curr
          · exact absurd flag flagged
          · exact curr
        exact loaded.settle curr preempt signal ((preempt', signal') :: more)

theorem Loaded.sliced {first : Pid} {n : Nat} {next : Sched} {turned : List Pid}
    (loaded : Loaded env s c queue share slice) (sound : Sound env next)
    (same : turned.Perm queue)
    (task : next.task = Function.update s.task first ((s.task first).setWrrSlice n))
    (rq : next.rq c = { s.rq c with wrr := { (s.rq c).wrr with queue := turned } })
    (rt : next.rt = s.rt) :
    Loaded env next c turned share (Function.update slice first n) := by
  apply loaded.keep sound same _ _ loaded.curr rq rt
  · intro p
    rw [task]
    by_cases isFirst : p = first
    · subst isFirst
      rw [Function.update_self]
      exact ⟨rfl, rfl, rfl⟩
    · rw [Function.update_of_ne isFirst]
      exact ⟨rfl, rfl, rfl⟩
  · intro p inside
    rw [task]
    by_cases isFirst : p = first
    · subst isFirst
      rw [Function.update_self, Function.update_self]
      rfl
    · rw [Function.update_of_ne isFirst, Function.update_of_ne isFirst]
      exact loaded.slice_eq p inside

theorem Loaded.tick_more {first : Pid} {rest : List Pid} {left : Nat}
    (loaded : Loaded env s c (first :: rest) share slice) (curr : (s.rq c).curr = first)
    (more : slice first = left + 2) :
    Loaded env (schedulerTick env s c) c (first :: rest) share
        (Function.update slice first (left + 1)) ∧
      ((schedulerTick env s c).rq c).curr = first := by
  have timeSlice := loaded.slice_eq first List.mem_cons_self
  have ticked : schedulerTick env s c = (updateCurrWrr (updateRqClock env s c) c).modifyTask first
      (TaskStruct.setWrrSlice (left + 1)) := by
    rw [schedulerTick_wrr loaded.sound (loaded.queued loaded.curr).2.2, curr, taskTickWrr_more] <;>
      simp only [updateRqClock_task, timeSlice, more]
    · rfl
    · omega
  constructor
  · apply loaded.sliced (schedulerTick_sound loaded.sound c) (.refl _)
    · simp [ticked]
    · rw [← loaded.queue_eq]
      simp [ticked]
    · simp [ticked]
  · simp [ticked, curr]

theorem Loaded.tick_last {first : Pid} {rest : List Pid}
    (loaded : Loaded env s c (first :: rest) share slice) (curr : (s.rq c).curr = first)
    (last : slice first = 1) :
    Loaded env (schedulerTick env s c) c (rest ++ [first]) share
        (Function.update slice first (share first)) ∧
      ((schedulerTick env s c).rq c).curr = first ∧
      (rest ≠ [] → (schedulerTick env s c).needResched first = true) := by
  let clocked := updateRqClock env s c
  let refilled := (updateCurrWrr clocked c).modifyTask first
    fun task => task.setWrrSlice (refillSlice env task.wrr)
  have refill : refillSlice env (s.task first).wrr = share first :=
    loaded.share_eq first List.mem_cons_self
  have timeSlice := loaded.slice_eq first List.mem_cons_self
  have ticked : schedulerTick env s c = if 2 ≤ (first :: rest).length
      then reschedTask (requeueTaskWrr refilled c first false) first else refilled := by
    have queued : (clocked.rq c).wrr.queue = first :: rest := loaded.queue_eq
    rw [schedulerTick_wrr loaded.sound (loaded.queued loaded.curr).2.2, curr, ← queued]
    refine taskTickWrr_last (timeSlice.trans last) ?_ ?_
    · rw [queued]
      exact loaded.unique
    · rw [queued]
      exact List.mem_cons_self
  have task : refilled.task = Function.update s.task first
      ((s.task first).setWrrSlice (share first)) := by
    simp [refilled, clocked, refill]
  have rq : refilled.rq = s.rq := by simp [refilled, clocked]
  have sound := schedulerTick_sound loaded.sound c
  -- a task that is alone gets its next slice without a reschedule
  by_cases alone : rest = []
  · subst alone
    rw [if_neg (by simp)] at ticked
    rw [ticked] at sound ⊢
    refine ⟨?_, by rw [rq, curr], fun shares => absurd rfl shares⟩
    apply loaded.sliced sound (.refl _) task
    · rw [rq, ← loaded.queue_eq]
    · simp [refilled, clocked]
  · have long : 2 ≤ (first :: rest).length := by
      have := List.length_pos_iff.mpr alone
      rw [List.length_cons]
      omega
    rw [if_pos long] at ticked
    rw [ticked] at sound ⊢
    refine ⟨?_, by simp [requeueTaskWrr, rq, curr], fun _ => by simp⟩
    apply loaded.sliced sound (List.perm_append_singleton first rest)
    · simp [requeueTaskWrr, task]
    · simp [requeueTaskWrr, rq, WrrRq.requeue, loaded.queue_eq]
    · simp [requeueTaskWrr, refilled, clocked]

theorem tickAndSchedule_some {passes : List (Bool × Bool)}
    (quiet : (reschedule env c passes (schedulerTick env s c)).needResched
      ((reschedule env c passes (schedulerTick env s c)).rq c).curr = false) :
    tickAndSchedule env c passes s = some (reschedule env c passes (schedulerTick env s c)) := by
  simp [tickAndSchedule, quiet]

theorem Loaded.event_more {first : Pid} {rest : List Pid} {left : Nat}
    (loaded : Loaded env s c (first :: rest) share slice) (curr : (s.rq c).curr = first)
    (more : slice first = left + 2) {passes : List (Bool × Bool)} (enough : 2 ≤ passes.length) :
    ∃ next, tickAndSchedule env c passes s = some next ∧
      Loaded env next c (first :: rest) share (Function.update slice first (left + 1)) ∧
      (next.rq c).curr = first := by
  obtain ⟨ticked, stays⟩ := loaded.tick_more curr more
  obtain ⟨settled, head, quiet⟩ := ticked.reschedule (Or.inr stays) enough
  exact ⟨_, tickAndSchedule_some (by rw [head]; exact quiet), settled, head⟩

theorem Loaded.event_last {first : Pid} {rest : List Pid}
    (loaded : Loaded env s c (first :: rest) share slice) (curr : (s.rq c).curr = first)
    (last : slice first = 1) {passes : List (Bool × Bool)} (enough : 2 ≤ passes.length) :
    ∃ next, tickAndSchedule env c passes s = some next ∧
      Loaded env next c (rest ++ [first]) share (Function.update slice first (share first)) ∧
      (rest ++ [first]).head? = some (next.rq c).curr := by
  obtain ⟨ticked, stays, flagged⟩ := loaded.tick_last curr last
  cases rest with
  | nil =>
      obtain ⟨settled, head, quiet⟩ := ticked.reschedule (Or.inr stays) enough
      exact ⟨_, tickAndSchedule_some (by rw [head]; exact quiet), settled, by rw [head]; rfl⟩
  | cons second others =>
      have flag :
          (schedulerTick env s c).needResched ((schedulerTick env s c).rq c).curr = true := by
        rw [stays]
        exact flagged (by simp)
      obtain ⟨settled, head, quiet⟩ := ticked.reschedule (Or.inl flag) enough
      exact ⟨_, tickAndSchedule_some (by rw [head]; exact quiet), settled, by rw [head]; rfl⟩

theorem tickRun_cons {passes : List (Bool × Bool)} {ticks : List (List (Bool × Bool))}
    {middle last : Sched} {trace : List Pid}
    (one : tickAndSchedule env c passes s = some middle)
    (others : tickRun env c ticks middle = some (trace, last)) :
    tickRun env c (passes :: ticks) s = some ((s.rq c).curr :: trace, last) := by
  simp [tickRun, one, others]

theorem tickRun_append {ticks more : List (List (Bool × Bool))} {middle last : Sched}
    {trace traceMore : List Pid} (one : tickRun env c ticks s = some (trace, middle))
    (two : tickRun env c more middle = some (traceMore, last)) :
    tickRun env c (ticks ++ more) s = some (trace ++ traceMore, last) := by
  induction ticks generalizing s trace with
  | nil =>
      simp only [tickRun, Option.some.injEq, Prod.mk.injEq] at one
      obtain ⟨rfl, rfl⟩ := one
      exact two
  | cons passes ticks ih =>
      simp only [tickRun] at one
      split at one
      · cases one
      · rename_i next stepped
        obtain ⟨⟨traced, reached⟩, ran, same⟩ := Option.map_eq_some_iff.mp one
        obtain ⟨rfl, rfl⟩ := Prod.mk.injEq .. ▸ same
        exact tickRun_cons stepped (ih ran)

/-- The head of the queue runs until its slice is used up. -/
theorem Loaded.quantum_run {first : Pid} {rest : List Pid} (left : Nat)
    (loaded : Loaded env s c (first :: rest) share slice) (curr : (s.rq c).curr = first)
    (size : slice first = left + 1) {ticks : List (List (Bool × Bool))}
    (count : ticks.length = left + 1) (enough : ∀ passes ∈ ticks, 2 ≤ passes.length) :
    ∃ next, tickRun env c ticks s = some (List.replicate (left + 1) first, next) ∧
      Loaded env next c (rest ++ [first]) share (Function.update slice first (share first)) ∧
      (rest ++ [first]).head? = some (next.rq c).curr := by
  induction left generalizing s slice ticks with
  | zero =>
      obtain ⟨passes, rfl⟩ := List.length_eq_one_iff.mp count
      obtain ⟨next, stepped, turned, head⟩ :=
        loaded.event_last curr size (enough passes List.mem_cons_self)
      refine ⟨next, ?_, turned, head⟩
      rw [tickRun_cons stepped rfl, curr]
      rfl
  | succ left ih =>
      cases ticks with
      | nil => simp at count
      | cons passes ticks =>
          obtain ⟨middle, stepped, still, stays⟩ :=
            loaded.event_more curr size (enough passes List.mem_cons_self)
          obtain ⟨next, ran, turned, head⟩ := ih still stays (Function.update_self _ _ _)
            (by simpa using count) fun more member => enough more (List.mem_cons_of_mem _ member)
          refine ⟨next, ?_, ?_, head⟩
          · rw [tickRun_cons stepped ran, curr]
            rfl
          · rwa [Function.update_idem] at turned

/-- The tasks of `todo` have their turn, the ones of `served` had it. -/
theorem Loaded.round_run (hz : 100 ≤ env.hz) {served todo : List Pid}
    (loaded : Loaded env s c (todo ++ served) share share)
    (curr : (todo ++ served).head? = some (s.rq c).curr) {ticks : List (List (Bool × Bool))}
    (count : ticks.length = (todo.map share).sum)
    (enough : ∀ passes ∈ ticks, 2 ≤ passes.length) :
    ∃ next, tickRun env c ticks s =
        some (todo.flatMap fun p => List.replicate (share p) p, next) ∧
      Loaded env next c (served ++ todo) share share ∧
      (served ++ todo).head? = some (next.rq c).curr := by
  -- on the tasks whose turn in this round is still to come
  induction todo generalizing s served ticks with
  | nil =>
      have none : ticks = [] := List.eq_nil_of_length_eq_zero (by simpa using count)
      subst none
      exact ⟨s, rfl, by simpa using loaded, by simpa using curr⟩
  | cons first rest ih =>
      rw [List.cons_append] at loaded
      have head : (s.rq c).curr = first := by simpa using curr.symm
      have positive : 1 ≤ share first := by
        rw [← loaded.share_eq first (by simp)]
        exact refillSlice_pos hz _
      obtain ⟨left, size⟩ := Nat.exists_eq_add_of_le' positive
      rw [List.map_cons, List.sum_cons] at count
      -- the ticks of `first` and the ticks of the others
      have split : ticks = ticks.take (share first) ++ ticks.drop (share first) :=
        (List.take_append_drop _ _).symm
      obtain ⟨middle, ran, turned, next⟩ := loaded.quantum_run left head size
        (show (ticks.take (share first)).length = left + 1 by
          rw [List.length_take, count]
          omega)
        fun passes member => enough passes (List.mem_of_mem_take member)
      rw [Function.update_eq_self, List.append_assoc] at turned
      rw [List.append_assoc] at next
      obtain ⟨last, others, done, done_curr⟩ := ih turned next
        (show (ticks.drop (share first)).length = (rest.map share).sum by
          rw [List.length_drop, count]
          omega)
        fun passes member => enough passes (List.mem_of_mem_drop member)
      refine ⟨last, ?_, by simpa using done, by simpa using done_curr⟩
      rw [split, tickRun_append ran others, List.flatMap_cons, size]

/-- The state at the start of a round: the queue is full of full slices, nothing
of a class further ahead can run, and the first task does. -/
structure FullQueue (env : Env) (s : Sched) (c : Cpu) (queue : List Pid) : Prop where
  queue_eq : (s.rq c).wrr.queue = queue
  curr : queue.head? = some (s.rq c).curr
  weights : ∀ p ∈ queue, ((s.task p).wrr.weight = 1 ∨ (s.task p).wrr.weight = 10) ∧
    (s.task p).wrr.weight = pathWeight env (taskGroup env (s.task p))
  full : ∀ p ∈ queue, (s.task p).wrr.timeSlice =
    if (s.task p).wrr.weight = 1 then 10 * env.hz / 1000 else 100 * env.hz / 1000
  awake : ∀ p ∈ queue, (s.task p).state = 0
  noStop : ∀ p, (s.rq c).stop = some p → (s.task p).onRq = false
  noRt : ((s.rt c).rq env.groups.root).rtNrRunning = 0 ∨
    rtRqThrottled s c env.groups.root = true

theorem FullQueue.loaded (sound : Sound env s) (full : FullQueue env s c queue) :
    Loaded env s c queue (fun p => quantum env (s.task p)) fun p => quantum env (s.task p) where
  sound := sound
  queue_eq := full.queue_eq
  curr := List.mem_of_mem_head? (Option.mem_def.mpr full.curr)
  awake := full.awake
  share_eq _ _ := rfl
  slice_eq := full.full
  noStop := by
    simp only [classPick, Option.filter_eq_none_iff]
    intro p named
    simpa using full.noStop p named
  noRt := full.noRt

theorem count_turns (queue : List Pid) (share : Pid → Nat) (unique : queue.Nodup) (p : Pid)
    (member : p ∈ queue) :
    (queue.flatMap fun q => List.replicate (share q) q).count p = share p := by
  induction queue with
  | nil => cases member
  | cons first rest ih =>
      obtain ⟨absent, uniqueRest⟩ := List.nodup_cons.mp unique
      rw [List.flatMap_cons, List.count_append, List.count_replicate]
      rcases List.mem_cons.mp member with rfl | inside
      · have none : (rest.flatMap fun q => List.replicate (share q) q).count p = 0 := by
          rw [List.count_eq_zero]
          intro found
          obtain ⟨q, inRest, copies⟩ := List.mem_flatMap.mp found
          exact absent ((List.mem_replicate.mp copies).2 ▸ inRest)
        simp [none]
      · have differs : first ≠ p := fun same => absent (same ▸ inside)
        simp [differs, ih uniqueRest inside]

/-- One round. Every state that runs reach is sound, so this holds from each of
them whose queue is full. -/
theorem weighted_round (hz : 100 ≤ env.hz) (sound : Sound env s) (full : FullQueue env s c queue)
    {ticks : List (List (Bool × Bool))}
    (count : ticks.length = (queue.map fun p => quantum env (s.task p)).sum)
    (enough : ∀ passes ∈ ticks, 2 ≤ passes.length) :
    ∃ trace next, tickRun env c ticks s = some (trace, next) ∧
      trace = queue.flatMap (fun p => List.replicate (quantum env (s.task p)) p) ∧
      (∀ p ∈ queue, trace.count p = quantum env (s.task p)) ∧
      (next.rq c).wrr.queue = queue ∧
      (∀ p ∈ queue, (next.task p).wrr.timeSlice = quantum env (s.task p) ∧
        quantum env (next.task p) = quantum env (s.task p)) ∧
      queue.head? = some (next.rq c).curr := by
  have loaded := full.loaded sound
  have curr : (queue ++ []).head? = some (s.rq c).curr := by simpa using full.curr
  have start : Loaded env s c (queue ++ []) (fun p => quantum env (s.task p))
      fun p => quantum env (s.task p) := by simpa using loaded
  obtain ⟨next, ran, done, head⟩ := start.round_run hz curr count enough
  refine ⟨_, next, ran, rfl, fun p => count_turns queue _ loaded.unique p, done.queue_eq,
    fun p member => ⟨done.slice_eq p member, done.share_eq p member⟩, head⟩

def roundOps : List Op :=
  [.cgroupAttach 3 1, .schedMoveTask 3, .tryToWakeUp 1 1 0, .tryToWakeUp 3 1 0,
    .setscheduler Boot.root 1 Boot.userTask 6 0 true none,
    .setscheduler Boot.root 3 Boot.userTask 6 0 true none, .schedule 0 false false]

def roundState : Sched := (Boot.after .goldfish false roundOps).get (by decide)

theorem roundState_full : FullQueue (Boot.env .goldfish false) roundState 0 [1, 3] where
  queue_eq := by decide
  curr := by decide
  weights := by decide
  full := by decide
  awake := by decide
  noStop p named := by
    have none : (roundState.rq 0).stop = none := by decide
    rw [none] at named
    cases named
  noRt := by decide

/-- Ten ticks for the one and one for the other. -/
theorem weighted_round_two :
    ∃ trace next, tickRun (Boot.env .goldfish false) 0
        (List.replicate 11 [(true, false), (true, false)]) roundState = some (trace, next) ∧
      trace = [1, 3].flatMap
        (fun p => List.replicate (quantum (Boot.env .goldfish false) (roundState.task p)) p) ∧
      (∀ p ∈ [1, 3], trace.count p = quantum (Boot.env .goldfish false) (roundState.task p)) ∧
      (next.rq 0).wrr.queue = [1, 3] ∧
      (∀ p ∈ [1, 3], (next.task p).wrr.timeSlice =
          quantum (Boot.env .goldfish false) (roundState.task p) ∧
        quantum (Boot.env .goldfish false) (next.task p) =
          quantum (Boot.env .goldfish false) (roundState.task p)) ∧
      [1, 3].head? = some (next.rq 0).curr :=
  weighted_round (by decide)
    (reachable_sound (Boot.reachable .goldfish false roundOps (by decide))) roundState_full
    (by decide) (by decide)

end AndroidKernel
