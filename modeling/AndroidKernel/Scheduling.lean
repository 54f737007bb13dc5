import AndroidKernel.ReachableStates

/-!
What `__schedule` does to the runqueue and the flags, whatever the previous
task was, and the preemption point after a tick. The jump back to
`need_resched:` is a loop over passes; each pass has flags of its own, because
after the first one another task executes it.
-/

namespace AndroidKernel

section Columns
variable (env : Env) (s : Sched) (c : Cpu)

theorem rtCharge_flag (delta : Nat) (g : Group) (q : Pid) (other : q ≠ (s.rq c).curr) :
    (rtCharge env c delta s g).needResched q = s.needResched q := by
  simp only [rtCharge]
  split_ifs <;> simp [Function.update_of_ne other]

theorem rtCharges_flag (delta : Nat) (groups : List Group) (q : Pid)
    (other : q ≠ (s.rq c).curr) :
    (groups.foldl (rtCharge env c delta) s).needResched q = s.needResched q := by
  induction groups generalizing s with
  | nil => rfl
  | cons g rest ih =>
      have round := rtCharge_flag env s c delta g q other
      exact (ih (rtCharge env c delta s g) (by simpa using other)).trans round

theorem updateCurrRt_flag (q : Pid) (other : q ≠ (s.rq c).curr) :
    (updateCurrRt env s c).needResched q = s.needResched q := by
  simp only [updateCurrRt]
  split_ifs
  · exact rtCharges_flag env _ c _ _ q (by simpa using other)
  · rfl
  · rfl

theorem dequeueTask_flag (p q : Pid) (other : q ≠ (s.rq c).curr) :
    (dequeueTask env s c p).needResched q = s.needResched q := by
  simp only [dequeueTask]
  split
  · rfl
  · exact updateCurrRt_flag env (updateRqClock env s c) c q other
  · simp [dequeueTaskWrr, dequeueWrrEntity]
  · simp [dequeueTaskFair]
  · rfl

theorem scheduleOut_flag (preemptActive signalPending : Bool) (q : Pid)
    (other : q ≠ (s.rq c).curr) :
    (scheduleOut env s c preemptActive signalPending).needResched q = s.needResched q := by
  simp only [scheduleOut]
  split
  · rfl
  · split
    · rfl
    · exact dequeueTask_flag env s c _ q other

theorem classPutPrev_flag (p q : Pid) (other : q ≠ (s.rq c).curr) :
    (classPutPrev env s c p).needResched q = s.needResched q := by
  simp only [classPutPrev]
  split
  · rfl
  · simp only [putPrevTaskRt]
    split <;> exact updateCurrRt_flag env s c q other
  · simp [putPrevTaskWrr]
  · split <;> simp
  · rfl

theorem putPrevTask_flag (p q : Pid) (other : q ≠ (s.rq c).curr) :
    (putPrevTask env s c p).needResched q = s.needResched q := by
  simp only [putPrevTask]
  split
  · exact classPutPrev_flag env (updateRqClock env s c) c p q other
  · exact classPutPrev_flag env s c p q other

@[simp] theorem pickStamp_needResched (picked : SchedClass × Pid) :
    (pickStamp env s c picked).needResched = s.needResched := by
  simp only [pickStamp]
  split <;> rfl

@[simp] theorem contextSwitch_needResched (prev next : Pid) :
    (contextSwitch s c prev next).needResched = s.needResched := by
  simp only [contextSwitch]
  split <;> rfl

theorem scheduleOut_roles (preemptActive signalPending : Bool) (d : Cpu) :
    (s.rq d).SameRoles ((scheduleOut env s c preemptActive signalPending).rq d) := by
  rcases scheduleOut_cases env s c preemptActive signalPending with same | ⟨-, awake | asleep⟩
  · rw [same]
    exact ⟨rfl, rfl, rfl⟩
  · rw [awake]
    exact ⟨rfl, rfl, rfl⟩
  · rw [asleep, Sched.modifyTask_rq, deactivateTask_rq]
    exact sameRoles_update (Rq.sameRoles_taken _ _ _ _ _) d

variable (preemptActive signalPending : Bool)

theorem schedule_rq : (schedule env s c preemptActive signalPending).rq =
    Function.update (scheduleOut env s c preemptActive signalPending).rq c
      { (scheduleOut env s c preemptActive signalPending).rq c with
        curr := (pickNext env (pickState env s c preemptActive signalPending) c).2 } := by
  rw [schedule, contextSwitch_rq]
  · simp [pickState]
  · simpa using (scheduleOut_roles env s c preemptActive signalPending c).1

theorem schedule_rt : (schedule env s c preemptActive signalPending).rt =
    (pickState env s c preemptActive signalPending).rt := by
  rw [schedule, contextSwitch_rt, clearTskNeedResched_rt, pickStamp_rt, pickState]

theorem schedule_curr : ((schedule env s c preemptActive signalPending).rq c).curr =
    (pickNext env (pickState env s c preemptActive signalPending) c).2 := by
  simp [schedule_rq]

theorem schedule_needResched (q : Pid) :
    (schedule env s c preemptActive signalPending).needResched q =
      if q = (s.rq c).curr then false else s.needResched q := by
  simp only [schedule, contextSwitch_needResched, clearTskNeedResched_needResched,
    pickStamp_needResched]
  split
  · rename_i isPrev
    rw [isPrev, Function.update_self]
  · rename_i other
    have sameCurr := (scheduleOut_roles env s c preemptActive signalPending c).1
    rw [Function.update_of_ne other, putPrevTask_flag _ _ _ _ _ (by rwa [sameCurr]),
      scheduleOut_flag _ _ _ _ _ _ other]

end Columns

/-- `__schedule` while the current task is flagged, for at most one pass per
element of the list. -/
def reschedule (env : Env) (c : Cpu) : List (Bool × Bool) → Sched → Sched
  | [], s => s
  | (preemptActive, signalPending) :: passes, s =>
      if s.needResched (s.rq c).curr then
        reschedule env c passes (schedule env s c preemptActive signalPending)
      else s

/-- A timer tick and the preemption point after it. `none` says that the passes
were not enough. -/
def tickAndSchedule (env : Env) (c : Cpu) (passes : List (Bool × Bool)) (s : Sched) :
    Option Sched :=
  let s := reschedule env c passes (schedulerTick env s c)
  if s.needResched (s.rq c).curr then none else some s

theorem reschedule_quiet {env : Env} {c : Cpu} {s : Sched}
    (quiet : s.needResched (s.rq c).curr = false) (passes : List (Bool × Bool)) :
    reschedule env c passes s = s := by
  cases passes with
  | nil => rfl
  | cons flags passes => simp [reschedule, quiet]

section Tick
variable {env : Env} {s : Sched} {c : Cpu} {p : Pid}

theorem schedulerTick_wrr (sound : Sound env s) (isWrr : (rqCurr s c).schedClass = .wrr) :
    schedulerTick env s c = taskTickWrr env (updateRqClock env s c) c (s.rq c).curr := by
  have ticks : tickLocked env s c = taskTickWrr env (updateRqClock env s c) c (s.rq c).curr := by
    have cls : ((updateRqClock env s c).task (s.rq c).curr).schedClass = .wrr := isWrr
    simp only [tickLocked, taskTick, cls]
  have same := (tickLocked_quiet env s c).rq c
  have busy : ((tickLocked env s c).rq c).wrr.wrrNrRunning ≠ 0 := by
    have member := List.length_pos_of_mem (sound.curr_queued c isWrr)
    rw [same.wrrNrRunning, (sound.queues c).wrr.count]
    omega
  rw [schedulerTick, if_neg fun pulls => busy pulls.2, ticks]

theorem taskTickWrr_more (more : 2 ≤ (s.task p).wrr.timeSlice) :
    taskTickWrr env s c p =
      (updateCurrWrr s c).modifyTask p (TaskStruct.setWrrSlice ((s.task p).wrr.timeSlice - 1)) := by
  have left : decTimeSlice (s.task p).wrr.timeSlice = (s.task p).wrr.timeSlice - 1 := by
    rw [decTimeSlice, if_neg (by omega)]
  simp only [taskTickWrr, updateCurrWrr_task, left]
  rw [if_pos (by omega)]

/-- The last tick of a slice refills it, and the task goes to the tail when it
shares the queue. -/
theorem taskTickWrr_last (last : (s.task p).wrr.timeSlice = 1) (unique : (s.rq c).wrr.queue.Nodup)
    (member : p ∈ (s.rq c).wrr.queue) :
    let refilled := (updateCurrWrr s c).modifyTask p fun task =>
      task.setWrrSlice (refillSlice env task.wrr)
    taskTickWrr env s c p =
      if 2 ≤ (s.rq c).wrr.queue.length then reschedTask (requeueTaskWrr refilled c p false) p
      else refilled := by
  have shared := RunList.ring_links_differ (s.rq c).wrr.queue p unique member
  simp only [taskTickWrr, updateCurrWrr_task, last, decTimeSlice, one_ne_zero, if_false,
    Nat.sub_self, ne_eq, not_true_eq_false, Sched.modifyTask_rq, updateCurrWrr_rq]
  rw [ne_eq] at shared
  simp only [shared]

end Tick

section Pick
variable {env : Env} {s : Sched} {c : Cpu}

theorem pickNextTaskRt_none (noRt : ((s.rt c).rq env.groups.root).rtNrRunning = 0 ∨
    rtRqThrottled s c env.groups.root = true) : pickNextTaskRt env s c = none := by
  rw [pickNextTaskRt, RtGroups.pickNextTaskRt, Sched.rtState_rq]
  rcases noRt with empty | held
  · rw [if_pos empty]
    rfl
  · rw [if_pos (show RtGroups.rtRqThrottled (s.rtState c) env.groups.root = true from held)]
    split <;> rfl

theorem pickWalk_wrr (noStop : classPick env s c .stop = none)
    (noRt : pickNextTaskRt env s c = none) {p : Pid} (first : pickNextTaskWrr s c = some p) :
    pickWalk env s c = (.wrr, p) := by
  have rt : classPick env s c .rt = none := noRt
  have wrr : classPick env s c .wrr = some p := first
  simp [pickWalk, forEachClass, noStop, rt, wrr]

/-- The walk ends at a class that offers what it returns, and no class before
that one offers anything. -/
theorem pickWalk_spec (env : Env) (s : Sched) (c : Cpu) :
    classPick env s c (pickWalk env s c).1 = some (pickWalk env s c).2 ∧
      ∀ cls : SchedClass, cls.precedes (pickWalk env s c).1 → classPick env s c cls = none := by
  simp only [pickWalk]
  split
  · rename_i picked found
    obtain ⟨earlier, cls, later, classes, offers, refuse⟩ := List.findSome?_eq_some_iff.mp found
    obtain ⟨p, picks, rfl⟩ := Option.map_eq_some_iff.mp offers
    refine ⟨picks, fun other before => ?_⟩
    -- the classes of smaller rank are those the walk has left behind
    have behind : other ∈ earlier := by
      by_contra absent
      change other.precedes cls at before
      rw [SchedClass.precedes, SchedClass.rank, SchedClass.rank, classes,
        List.idxOf_append, List.idxOf_append, if_neg absent, List.idxOf_cons_self] at before
      have inside : earlier.idxOf cls ≤ earlier.length := List.idxOf_le_length
      split at before <;> omega
    simpa using refuse other behind
  · rename_i none
    have idle := List.findSome?_eq_none_iff.mp none .idle (by decide)
    simp [classPick] at idle

/-- When the short cut of `pick_next_task` is taken, only fair tasks are queued. -/
theorem SchedOk.only_fair (queues : SchedOk env s.task s.rq)
    (same : (s.rq c).nrRunning = (s.rq c).cfs.hNrRunning) {p : Pid}
    (on : (s.task p).onRq = true) (here : (s.task p).cpu = c) :
    (s.task p).schedClass = .fair := by
  obtain ⟨total, counts, sum⟩ := (queues c).running
  have cfs := (queues c).cfs
  have fair := cfs.lists.counts
  rw [← cfs.count] at fair
  have le := fair.le counts fun q => fun ⟨entry, found, _⟩ => ⟨entry, found, trivial⟩
  have twice : 0 ≤ countedTwice env.kernel (s.rq c).wrr := by
    have count := (queues c).wrr.count
    cases env.kernel with
    | goldfish => exact le_rfl
    | tegra => simp only [countedTwice, count, Int.natCast_nonneg]
  have size : (s.rq c).cfs.hNrRunning = total := by omega
  rw [size] at fair
  have has := fair.eq_of_imp counts (fun q => fun ⟨entry, found, _⟩ => ⟨entry, found, trivial⟩) p
    ((has_entries _ _ _ _).mpr ⟨on, here, trivial⟩)
  exact ((has_entries _ _ _ _).mp has).2.2

/-- So the short cut finds what the walk finds. -/
theorem pickNext_walk (ready : Ready env s c) : pickNext env s c = pickWalk env s c := by
  rw [pickNext]
  split
  · rename_i same
    have absent : ∀ cls : SchedClass, cls ≠ .fair → cls ≠ .idle → classPick env s c cls = none := by
      intro cls notFair notIdle
      by_contra offered
      obtain ⟨p, offers⟩ := Option.ne_none_iff_exists'.mp offered
      rcases classPick_runnable ready cls p offers with isIdle | ⟨on, here, isCls⟩
      · exact notIdle (congrArg Prod.fst isIdle)
      · have only : (s.task p).schedClass = .fair := ready.queues.only_fair same on here
        exact notFair (isCls.symm.trans only)
    cases fair : env.fair.pickNextTask s c with
    | none => rfl
    | some p =>
        have offers : classPick env s c .fair = some p := fair
        simp [pickWalk, forEachClass, offers, absent .stop, absent .rt, absent .wrr]
  · rfl

theorem pickNext_wrr_head (ready : Ready env s c)
    (isWrr : (s.task (pickNext env s c).2).schedClass = .wrr) :
    (s.rq c).wrr.queue.head? = some (pickNext env s c).2 := by
  have offers := (pickWalk_spec env s c).1
  rw [← pickNext_walk ready] at offers
  have cls : (pickNext env s c).1 = .wrr := by
    rcases pickNext_runnable ready with isIdle | ⟨-, -, same⟩
    · rw [isIdle, ready.idle] at isWrr
      cases isWrr
    · rw [← same, isWrr]
  rw [cls] at offers
  simp only [classPick, pickNextTaskWrr] at offers
  split at offers
  · cases offers
  · exact offers

theorem pickNextTask_stop (ready : Ready env s c) {p : Pid}
    (named : (s.rq c).stop = some p) (on : (s.task p).onRq = true) : pickNextTask env s c = p := by
  have offers : classPick env s c .stop = some p := by simp [classPick, named, on]
  rw [pickNextTask, pickNext_walk ready]
  simp [pickWalk, forEachClass, offers]

theorem classPick_stop_none (rests : ¬ ∃ q, (s.rq c).stop = some q ∧ (s.task q).onRq = true) :
    classPick env s c .stop = none := by
  cases offers : classPick env s c .stop with
  | none => rfl
  | some q =>
      obtain ⟨named, on⟩ := Option.filter_eq_some_iff.mp offers
      exact absurd ⟨q, named, by simpa using on⟩ rests

theorem pickNextTask_rt (ready : Ready env s c) {p : Pid}
    (rests : ¬ ∃ q, (s.rq c).stop = some q ∧ (s.task q).onRq = true)
    (offers : pickNextTaskRt env s c = some p) : pickNextTask env s c = p := by
  have rt : classPick env s c .rt = some p := offers
  have stop : classPick env s c .stop = none := classPick_stop_none rests
  rw [pickNextTask, pickNext_walk ready]
  simp [pickWalk, forEachClass, stop, rt]

theorem pickNextTask_wrr (ready : Ready env s c)
    (rests : ¬ ∃ q, (s.rq c).stop = some q ∧ (s.task q).onRq = true)
    (noRt : pickNextTaskRt env s c = none) (filled : (s.rq c).wrr.queue ≠ []) :
    (s.rq c).wrr.queue.head? = some (pickNextTask env s c) := by
  obtain ⟨head, rest, queue⟩ := List.exists_cons_of_ne_nil filled
  have busy : (s.rq c).wrr.wrrNrRunning ≠ 0 := by
    have count := (ready.queues c).wrr.count
    have long := List.length_pos_of_ne_nil filled
    omega
  have offers : pickNextTaskWrr s c = some head := by
    rw [pickNextTaskWrr, if_neg busy, queue]
    rfl
  rw [pickNextTask, pickNext_walk ready, pickWalk_wrr (classPick_stop_none rests) noRt offers,
    queue]
  rfl

end Pick

end AndroidKernel
