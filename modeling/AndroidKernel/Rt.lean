import AndroidKernel.Runqueue

/-!
The real-time class of both kernels: bandwidth throttling and the hooks, over
the grouped runqueues of `RtGroups`. The list of pushable tasks is left out. A
push or pull of a task and a loan of runtime between CPUs are operations of
their own in `System`.
-/

namespace AndroidKernel

def rtSeBoosted (task : TaskStruct) : Bool := task.prio ≠ task.normalPrio

def rtRqThrottled (s : Sched) (c : Cpu) (g : Group) : Bool :=
  RtGroups.rtRqThrottled (s.rtState c) g

/-- The runqueues that `for_each_sched_rt_entity` passes from a task on. -/
def rtRqPath (env : Env) (s : Sched) (c : Cpu) (p : Pid) : List Group :=
  (RtGroups.forEachSchedRtEntity env.groups (s.rtState c) (.task p)).map
    (RtGroups.rtRqOfSe env.groups (s.rtState c))

/-- `sched_rt_runtime_exceeded`. The 3.1 kernel throttles even when the group
has no runtime assigned. -/
def schedRtRuntimeExceeded (env : Env) (s : Sched) (c : Cpu) (g : Group) : Sched × Bool :=
  let time := s.rtTime c g
  if ((s.rt c).rq g).rtThrottled then (s, rtRqThrottled s c g)
  else if time.rtRuntime ≥ env.rtPeriod g then (s, false)
  else if time.rtRuntime = runtimeInf then (s, false)
  else if time.rtTime > time.rtRuntime then
    if env.rtBandwidthRuntime g ≠ 0 ∨ env.kernel = .tegra then
      (s.modifyRt c fun rt => RtGroups.throttle env.groups rt g,
        RtGroups.rtRqThrottled (RtGroups.setThrottled (s.rtState c) g true) g)
    -- 3.4 lets a group without runtime go on and forgets the time it used
    else (s.modifyRtTime c g fun time => { time with rtTime := 0 }, false)
  else (s, false)

/-- One round of the loop of `update_curr_rt`. -/
def rtCharge (env : Env) (c : Cpu) (delta : Nat) (s : Sched) (g : Group) : Sched :=
  -- unlimited runtime is not booked at all
  if (s.rtTime c g).rtRuntime = runtimeInf then s
  else
    let s := s.modifyRtTime c g fun time => { time with rtTime := time.rtTime + delta }
    let exceeded := schedRtRuntimeExceeded env s c g
    if exceeded.2 then reschedTask exceeded.1 (s.rq c).curr else exceeded.1

def updateCurrRt (env : Env) (s : Sched) (c : Cpu) : Sched :=
  let curr := (s.rq c).curr
  if (s.task curr).schedClass = .rt then
    let clockTask := (s.clock c).clockTask
    let delta := deltaExec clockTask (s.se curr).execStart
    let s := s.modifySe curr fun se =>
      { execStart := clockTask, sumExecRuntime := se.sumExecRuntime + delta }
    if env.rtBandwidthEnabled then (rtRqPath env s c curr).foldl (rtCharge env c delta) s else s
  else s

section Columns
variable (env : Env) (s : Sched) (c : Cpu) (g : Group)

@[simp] theorem schedRtRuntimeExceeded_task :
    (schedRtRuntimeExceeded env s c g).1.task = s.task := by
  simp only [schedRtRuntimeExceeded]
  split_ifs <;> rfl

@[simp] theorem schedRtRuntimeExceeded_rq : (schedRtRuntimeExceeded env s c g).1.rq = s.rq := by
  simp only [schedRtRuntimeExceeded]
  split_ifs <;> rfl

@[simp] theorem schedRtRuntimeExceeded_needResched :
    (schedRtRuntimeExceeded env s c g).1.needResched = s.needResched := by
  simp only [schedRtRuntimeExceeded]
  split_ifs <;> rfl

@[simp] theorem schedRtRuntimeExceeded_se : (schedRtRuntimeExceeded env s c g).1.se = s.se := by
  simp only [schedRtRuntimeExceeded]
  split_ifs <;> rfl

@[simp] theorem schedRtRuntimeExceeded_clock :
    (schedRtRuntimeExceeded env s c g).1.clock = s.clock := by
  simp only [schedRtRuntimeExceeded]
  split_ifs <;> rfl

@[simp] theorem schedRtRuntimeExceeded_acct :
    (schedRtRuntimeExceeded env s c g).1.acct = s.acct := by
  simp only [schedRtRuntimeExceeded]
  split_ifs <;> rfl

variable (delta : Nat)

@[simp] theorem rtCharge_task : (rtCharge env c delta s g).task = s.task := by
  simp only [rtCharge]
  split_ifs <;> simp

@[simp] theorem rtCharge_rq : (rtCharge env c delta s g).rq = s.rq := by
  simp only [rtCharge]
  split_ifs <;> simp

@[simp] theorem rtCharge_se : (rtCharge env c delta s g).se = s.se := by
  simp only [rtCharge]
  split_ifs <;> simp

@[simp] theorem rtCharge_clock : (rtCharge env c delta s g).clock = s.clock := by
  simp only [rtCharge]
  split_ifs <;> simp

@[simp] theorem rtCharge_acct : (rtCharge env c delta s g).acct = s.acct := by
  simp only [rtCharge]
  split_ifs <;> simp

/-- What every round of the loop keeps, the loop keeps. -/
theorem rtCharge_fold {motive : Sched → Prop} (groups : List Group)
    (round : ∀ s g, motive s → motive (rtCharge env c delta s g)) (start : motive s) :
    motive (groups.foldl (rtCharge env c delta) s) := by
  induction groups generalizing s with
  | nil => exact start
  | cons g rest ih => exact ih (rtCharge env c delta s g) (round s g start)

theorem rtCharge_columns (groups : List Group) :
    let next := groups.foldl (rtCharge env c delta) s
    next.task = s.task ∧ next.rq = s.rq ∧ next.se = s.se ∧ next.clock = s.clock ∧
      next.acct = s.acct := by
  refine rtCharge_fold (motive := fun next => next.task = s.task ∧ next.rq = s.rq ∧
    next.se = s.se ∧ next.clock = s.clock ∧ next.acct = s.acct) env s c delta groups
    (fun _ _ same => ?_) ⟨rfl, rfl, rfl, rfl, rfl⟩
  simpa using same

@[simp] theorem updateCurrRt_task : (updateCurrRt env s c).task = s.task := by
  simp only [updateCurrRt]
  split_ifs <;> simp [rtCharge_columns]

@[simp] theorem updateCurrRt_rq : (updateCurrRt env s c).rq = s.rq := by
  simp only [updateCurrRt]
  split_ifs <;> simp [rtCharge_columns]

@[simp] theorem updateCurrRt_clock : (updateCurrRt env s c).clock = s.clock := by
  simp only [updateCurrRt]
  split_ifs <;> simp [rtCharge_columns]

@[simp] theorem updateCurrRt_acct : (updateCurrRt env s c).acct = s.acct := by
  simp only [updateCurrRt]
  split_ifs <;> simp [rtCharge_columns]

end Columns

def schedRtRqEnqueue (env : Env) (s : Sched) (c : Cpu) (g : Group) : Sched :=
  if ((s.rt c).rq g).rtNrRunning ≠ 0 then
    let s := s.modifyRt c fun rt => RtGroups.schedRtRqEnqueue env.groups rt g
    if ((s.rt c).rq g).highestPrio < (rqCurr s c).prio then reschedTask s (s.rq c).curr else s
  else s

@[simp] theorem schedRtRqEnqueue_task (env : Env) (s : Sched) (c : Cpu) (g : Group) :
    (schedRtRqEnqueue env s c g).task = s.task := by
  simp only [schedRtRqEnqueue]
  split_ifs <;> rfl

@[simp] theorem schedRtRqEnqueue_rq (env : Env) (s : Sched) (c : Cpu) (g : Group) :
    (schedRtRqEnqueue env s c g).rq = s.rq := by
  simp only [schedRtRqEnqueue]
  split_ifs <;> rfl

/-- The body of the loop of `do_sched_rt_period_timer` for one CPU. -/
def doSchedRtPeriodTimer (env : Env) (s : Sched) (g : Group) (c : Cpu) (overrun : Nat) : Sched :=
  let time := s.rtTime c g
  let rq := (s.rt c).rq g
  if env.kernel = .tegra ∧
      (¬ env.rtBandwidthEnabled ∨ env.rtBandwidthRuntime g = runtimeInf) then s
  else if time.rtTime ≠ 0 then
    let left := time.rtTime - min time.rtTime (overrun * time.rtRuntime)
    let s := s.modifyRtTime c g fun time => { time with rtTime := left }
    -- below the limit again: the queue is let loose
    if rq.rtThrottled ∧ left < time.rtRuntime then
      schedRtRqEnqueue env (s.modifyRt c fun rt => RtGroups.setThrottled rt g false) c g
    else s
  else if rq.rtNrRunning ≠ 0 ∧ ¬ rtRqThrottled s c g then schedRtRqEnqueue env s c g
  else s

@[simp] theorem doSchedRtPeriodTimer_task (env : Env) (s : Sched) (g : Group) (c : Cpu)
    (overrun : Nat) : (doSchedRtPeriodTimer env s g c overrun).task = s.task := by
  simp only [doSchedRtPeriodTimer]
  split_ifs <;> simp

@[simp] theorem doSchedRtPeriodTimer_rq (env : Env) (s : Sched) (g : Group) (c : Cpu)
    (overrun : Nat) : (doSchedRtPeriodTimer env s g c overrun).rq = s.rq := by
  simp only [doSchedRtPeriodTimer]
  split_ifs <;> simp

def enqueueTaskRt (env : Env) (s : Sched) (c : Cpu) (p : Pid) (head : Bool) : Sched :=
  (s.modifyRt c fun rt => RtGroups.enqueueRtEntity env.groups rt (.task p) head).modifyRq c
    (Rq.hookIncNrRunning env.kernel)

def dequeueTaskRt (env : Env) (s : Sched) (c : Cpu) (p : Pid) : Sched :=
  ((updateCurrRt env s c).modifyRt c fun rt =>
    RtGroups.dequeueRtEntity env.groups rt (.task p)).modifyRq c (Rq.hookDecNrRunning env.kernel)

def requeueTaskRt (env : Env) (s : Sched) (c : Cpu) (p : Pid) (head : Bool) : Sched :=
  s.modifyRt c fun rt => RtGroups.requeueTaskRt env.groups rt p head

def yieldTaskRt (env : Env) (s : Sched) (c : Cpu) : Sched :=
  requeueTaskRt env s c (s.rq c).curr false

def checkPreemptEqualPrio (env : Env) (s : Sched) (c : Cpu) (p : Pid) : Sched :=
  let curr := (s.rq c).curr
  -- the current task could not go anywhere else
  if (s.task curr).rt.nrCpusAllowed = 1 then s
  -- the woken task finds another CPU itself
  else if (s.task p).rt.nrCpusAllowed ≠ 1 ∧ env.cpupriFind s p then s
  else if ¬ env.cpupriFind s curr then s
  -- the woken task first, and the current one is pushed away
  else reschedTask (requeueTaskRt env s c p true) curr

def checkPreemptCurrRt (env : Env) (s : Sched) (c : Cpu) (p : Pid) : Sched :=
  let curr := (s.rq c).curr
  if (s.task p).prio < (s.task curr).prio then reschedTask s curr
  else if env.smp ∧ (s.task p).prio = (s.task curr).prio ∧ ¬ s.needResched curr then
    checkPreemptEqualPrio env s c p
  else s

/-- `_pick_next_task_rt` without its stamp, which `pickStamp` makes. A `BUG_ON`
finds no task either. -/
def pickNextTaskRt (env : Env) (s : Sched) (c : Cpu) : Option Pid :=
  (RtGroups.pickNextTaskRt env.groups (s.rtState c)).join

def putPrevTaskRt (env : Env) (s : Sched) (c : Cpu) (prev : Pid) : Sched :=
  let s := updateCurrRt env s c
  match env.kernel with
  | .goldfish => s
  | .tegra => s.modifySe prev fun se => { se with execStart := 0 }

def switchedToRt (s : Sched) (c : Cpu) (p : Pid) : Sched :=
  let curr := (s.rq c).curr
  if (s.task p).onRq ∧ curr ≠ p ∧ (s.task p).prio < (s.task curr).prio
  then reschedTask s curr else s

def prioChangedRt (env : Env) (s : Sched) (c : Cpu) (p : Pid) (oldprio : Int) : Sched :=
  let rq := s.rq c
  let prio := (s.task p).prio
  if ¬ (s.task p).onRq then s
  else if rq.curr = p then
    -- SMP compares with the best priority of the root, UP only with the old one
    if (if env.smp then ((s.rt c).rq env.groups.root).highestPrio < prio else oldprio < prio)
    then reschedTask s p else s
  else if prio < (s.task rq.curr).prio then reschedTask s rq.curr
  else s

def TaskStruct.setRtSlice (slice : Nat) (task : TaskStruct) : TaskStruct :=
  { task with rt := { task.rt with timeSlice := slice } }

/-- `run_list.prev != run_list.next` of an entity. -/
def sharesRtQueue (env : Env) (s : Sched) (c : Cpu) (rtSe : RtGroups.Entity Group) : Bool :=
  let rt := s.rtState c
  let queue := (rt.rq (RtGroups.rtRqOfSe env.groups rt rtSe)).active.queue
    (RtGroups.rtSePrio rt rtSe)
  rt.onRtRq rtSe && RunList.ringPrev queue rtSe ≠ RunList.ringNext queue rtSe

def taskTickRt (env : Env) (s : Sched) (c : Cpu) (p : Pid) : Sched :=
  let s := updateCurrRt env s c
  if (s.task p).policy ≠ .rr then s
  else
    let left := decTimeSlice (s.task p).rt.timeSlice
    if left ≠ 0 then s.modifyTask p (TaskStruct.setRtSlice left)
    else
      let s := s.modifyTask p (TaskStruct.setRtSlice (rrTimeslice env))
      let entities :=
        match env.kernel with
        -- 3.4 looks at the groups of the task as well
        | .goldfish => RtGroups.forEachSchedRtEntity env.groups (s.rtState c) (.task p)
        | .tegra => [.task p]
      if entities.any (sharesRtQueue env s c) then
        reschedTask (requeueTaskRt env s c p false) p
      else s

def setCurrTaskRt (s : Sched) (c : Cpu) : Sched :=
  s.modifySe (s.rq c).curr fun se => { se with execStart := (s.clock c).clockTask }

end AndroidKernel
