import AndroidKernel.Wrr
import AndroidKernel.Rt

/-!
The class-independent part: dispatch to the hooks, enqueue and dequeue, class
changes, `pick_next_task`, `__schedule`, the tick, wakeups and forks. A
function that the source runs under the runqueue lock is one function here.
The hooks of the fair class reschedule as `Env.fair` decides; its
`switched_to` and the hooks of the stop and idle classes are those of the
unmodified kernel. `nr_uninterruptible`, statistics and the worker notification
in `__schedule` are left out.
-/

namespace AndroidKernel

def updateCurrFair (env : Env) (s : Sched) (c : Cpu) : Sched :=
  if (rqCurr s c).schedClass = .fair
  then s.modifySe (s.rq c).curr (env.fair.updateCurr (s.clock c).clockTask) else s

@[simp] theorem updateCurrFair_task (env : Env) (s : Sched) (c : Cpu) :
    (updateCurrFair env s c).task = s.task := by
  simp only [updateCurrFair]
  split <;> rfl

@[simp] theorem updateCurrFair_rq (env : Env) (s : Sched) (c : Cpu) :
    (updateCurrFair env s c).rq = s.rq := by
  simp only [updateCurrFair]
  split <;> rfl

@[simp] theorem updateCurrFair_needResched (env : Env) (s : Sched) (c : Cpu) :
    (updateCurrFair env s c).needResched = s.needResched := by
  simp only [updateCurrFair]
  split <;> rfl

@[simp] theorem updateCurrFair_clock (env : Env) (s : Sched) (c : Cpu) :
    (updateCurrFair env s c).clock = s.clock := by
  simp only [updateCurrFair]
  split <;> rfl

@[simp] theorem updateCurrFair_rt (env : Env) (s : Sched) (c : Cpu) :
    (updateCurrFair env s c).rt = s.rt := by
  simp only [updateCurrFair]
  split <;> rfl

@[simp] theorem updateCurrFair_acct (env : Env) (s : Sched) (c : Cpu) :
    (updateCurrFair env s c).acct = s.acct := by
  simp only [updateCurrFair]
  split <;> rfl

def CfsRq.enqueue (p : Pid) (cfs : CfsRq) : CfsRq :=
  { queue := cfs.queue ++ [p], hNrRunning := cfs.hNrRunning + 1 }

def CfsRq.dequeue (p : Pid) (cfs : CfsRq) : CfsRq :=
  { queue := cfs.queue.erase p, hNrRunning := cfs.hNrRunning - 1 }

def enqueueTaskFair (env : Env) (s : Sched) (c : Cpu) (p : Pid) : Sched :=
  (updateCurrFair env s c).modifyRq c fun rq =>
    Rq.hookIncNrRunning env.kernel { rq with cfs := rq.cfs.enqueue p }

def dequeueTaskFair (env : Env) (s : Sched) (c : Cpu) (p : Pid) : Sched :=
  (updateCurrFair env s c).modifyRq c fun rq =>
    Rq.hookDecNrRunning env.kernel { rq with cfs := rq.cfs.dequeue p }

def enqueueTaskStop (env : Env) (s : Sched) (c : Cpu) : Sched :=
  s.modifyRq c (Rq.hookIncNrRunning env.kernel)

def dequeueTaskStop (env : Env) (s : Sched) (c : Cpu) : Sched :=
  s.modifyRq c (Rq.hookDecNrRunning env.kernel)

def enqueueTask (env : Env) (s : Sched) (c : Cpu) (p : Pid) (head : Bool) : Sched :=
  let s := updateRqClock env s c
  match (s.task p).schedClass with
  | .stop => enqueueTaskStop env s c
  | .rt => enqueueTaskRt env s c p head
  | .wrr => enqueueTaskWrr env s c p head
  | .fair => enqueueTaskFair env s c p
  | .idle => s

def dequeueTask (env : Env) (s : Sched) (c : Cpu) (p : Pid) : Sched :=
  let s := updateRqClock env s c
  match (s.task p).schedClass with
  | .stop => dequeueTaskStop env s c
  | .rt => dequeueTaskRt env s c p
  | .wrr => dequeueTaskWrr s c p
  | .fair => dequeueTaskFair env s c p
  -- `dequeue_task_idle` only prints a warning
  | .idle => s

/-- The `inc_nr_running` that 3.1 has in `activate_task`. -/
def Rq.wrapIncNrRunning (kernel : Kernel) (rq : Rq) : Rq :=
  match kernel with
  | .goldfish => rq
  | .tegra => rq.incNrRunning

def Rq.wrapDecNrRunning (kernel : Kernel) (rq : Rq) : Rq :=
  match kernel with
  | .goldfish => rq
  | .tegra => rq.decNrRunning

def activateTask (env : Env) (s : Sched) (c : Cpu) (p : Pid) (head : Bool) : Sched :=
  (enqueueTask env s c p head).modifyRq c (Rq.wrapIncNrRunning env.kernel)

def deactivateTask (env : Env) (s : Sched) (c : Cpu) (p : Pid) : Sched :=
  (dequeueTask env s c p).modifyRq c (Rq.wrapDecNrRunning env.kernel)

def classPutPrev (env : Env) (s : Sched) (c : Cpu) (p : Pid) : Sched :=
  match (s.task p).schedClass with
  | .stop => s
  | .rt => putPrevTaskRt env s c p
  | .wrr => putPrevTaskWrr s c p
  -- `put_prev_entity` charges an entity only while it stays on its queue
  | .fair => if (s.task p).onRq then updateCurrFair env s c else s
  | .idle => s

def setCurrTask (env : Env) (s : Sched) (c : Cpu) : Sched :=
  match (rqCurr s c).schedClass with
  | .stop => s
  | .rt => setCurrTaskRt s c
  | .wrr => setCurrTaskWrr s c
  | .fair => updateCurrFair env s c
  | .idle => s

def preemptWalk (currClass cls : SchedClass) : List SchedClass → Bool
  | [] => false
  | class' :: rest =>
      -- the class of `rq->curr` comes first on the way down: no reschedule
      if class' = currClass then false
      else if class' = cls then true
      else preemptWalk currClass cls rest

theorem preemptWalk_iff (currClass cls : SchedClass) :
    preemptWalk currClass cls forEachClass = true ↔ cls.precedes currClass := by
  cases currClass <;> cases cls <;> decide

def checkPreemptCurr (env : Env) (s : Sched) (c : Cpu) (p : Pid) : Sched :=
  let curr := (s.rq c).curr
  if (s.task p).schedClass = (s.task curr).schedClass then
    match (s.task p).schedClass with
    | .stop => s
    | .rt => checkPreemptCurrRt env s c p
    | .wrr => checkPreemptCurrWrr s c p
    | .fair => if env.fair.checkPreemptCurr s c p then reschedTask s curr else s
    -- `check_preempt_curr_idle` names `rq->idle`, not the current task
    | .idle => reschedTask s (s.rq c).idle
  else if preemptWalk (s.task curr).schedClass (s.task p).schedClass forEachClass then
    reschedTask s curr
  else s

def switchedTo (env : Env) (s : Sched) (c : Cpu) (p : Pid) : Sched :=
  match (s.task p).schedClass with
  | .rt => switchedToRt s c p
  | .wrr => switchedToWrr env s c p
  | .fair =>
      if ¬ (s.task p).onRq then s
      else if (s.rq c).curr = p then reschedTask s p
      else checkPreemptCurr env s c p
  -- no policy leads to these two classes; their hooks are `BUG()`
  | .stop | .idle => s

def prioChanged (env : Env) (s : Sched) (c : Cpu) (p : Pid) (oldprio : Int) : Sched :=
  match (s.task p).schedClass with
  | .rt => prioChangedRt env s c p oldprio
  | .wrr => prioChangedWrr s c p oldprio
  | .fair => if env.fair.prioChanged s c p oldprio then reschedTask s (s.rq c).curr else s
  | .stop | .idle => s

def checkClassChanged (env : Env) (s : Sched) (c : Cpu) (p : Pid) (prevClass : SchedClass)
    (oldprio : Int) : Sched :=
  if prevClass ≠ (s.task p).schedClass then switchedTo env s c p
  else if oldprio ≠ (s.task p).prio then prioChanged env s c p oldprio
  else s

def classPick (env : Env) (s : Sched) (c : Cpu) : SchedClass → Option Pid
  -- the stop task has no queue: it is there when it is on the runqueue
  | .stop => (s.rq c).stop.filter fun p => (s.task p).onRq
  | .rt => pickNextTaskRt env s c
  | .wrr => pickNextTaskWrr s c
  | .fair => env.fair.pickNextTask s c
  | .idle => some (s.rq c).idle

def pickWalk (env : Env) (s : Sched) (c : Cpu) : SchedClass × Pid :=
  match forEachClass.findSome? fun cls => (classPick env s c cls).map (cls, ·) with
  | some picked => picked
  -- where the source has `BUG()`: the idle class always answers
  | none => (.idle, (s.rq c).idle)

def pickNext (env : Env) (s : Sched) (c : Cpu) : SchedClass × Pid :=
  -- the shortcut when every runnable task is a fair one
  if (s.rq c).nrRunning = (s.rq c).cfs.hNrRunning then
    match env.fair.pickNextTask s c with
    | some p => (.fair, p)
    | none => pickWalk env s c
  else pickWalk env s c

def pickNextTask (env : Env) (s : Sched) (c : Cpu) : Pid := (pickNext env s c).2

/-- What the pick hooks write: `_pick_next_task_rt` stamps `exec_start`, the
fair class sets its next entity, `pick_next_task_wrr` writes nothing. -/
def pickStamp (env : Env) (s : Sched) (c : Cpu) (picked : SchedClass × Pid) : Sched :=
  match picked.1 with
  | .rt => s.modifySe picked.2 fun se => { se with execStart := (s.clock c).clockTask }
  | .fair => s.modifySe picked.2 (env.fair.updateCurr (s.clock c).clockTask)
  | .stop | .wrr | .idle => s

def putPrevTask (env : Env) (s : Sched) (c : Cpu) (prev : Pid) : Sched :=
  classPutPrev env (if (s.task prev).onRq then updateRqClock env s c else s) c prev

/-- `context_switch`, with the `on_cpu` writes around it. -/
def contextSwitch (s : Sched) (c : Cpu) (prev next : Pid) : Sched :=
  if prev = next then s
  else
    let s := s.modifyRq c fun rq => { rq with curr := next }
    let s := s.modifyTask prev fun task => { task with onCpu := false }
    s.modifyTask next fun task => { task with onCpu := true }

/-- The first part of `__schedule`: a sleeping `prev` leaves the queue. -/
def scheduleOut (env : Env) (s : Sched) (c : Cpu) (preemptActive signalPending : Bool) :
    Sched :=
  let prev := (s.rq c).curr
  -- a preempted task stays queued, whatever its state says
  if (s.task prev).state = 0 ∨ preemptActive then s
  -- a pending signal makes a sleeper runnable again
  else if signalPending then s.modifyTask prev fun task => { task with state := 0 }
  else (deactivateTask env s c prev).modifyTask prev fun task => { task with onRq := false }

def schedule (env : Env) (s : Sched) (c : Cpu) (preemptActive signalPending : Bool) : Sched :=
  let prev := (s.rq c).curr
  let s := scheduleOut env s c preemptActive signalPending
  let s := putPrevTask env s c prev
  let picked := pickNext env s c
  -- the flag of `prev` goes, also when another task is picked; that of `next` stays
  let s := clearTskNeedResched (pickStamp env s c picked) prev
  contextSwitch s c prev picked.2

def taskTick (env : Env) (s : Sched) (c : Cpu) (p : Pid) : Sched :=
  match (s.task p).schedClass with
  | .rt => taskTickRt env s c p
  | .wrr => taskTickWrr env s c p
  | .fair =>
      let s := updateCurrFair env s c
      if env.fair.taskTick s c then reschedTask s p else s
  | .stop | .idle => s

def tickLocked (env : Env) (s : Sched) (c : Cpu) : Sched :=
  let curr := (s.rq c).curr
  taskTick env (updateRqClock env s c) c curr

/-- The locked part of `sys_sched_yield`; the call of `schedule` follows it. -/
def schedYield (env : Env) (s : Sched) (c : Cpu) : Sched :=
  match (rqCurr s c).schedClass with
  | .rt => yieldTaskRt env s c
  | .wrr => yieldTaskWrr s c
  | .stop | .fair | .idle => s

end AndroidKernel
