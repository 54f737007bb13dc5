import AndroidKernel.Runqueue

/-!
The weighted round-robin class, `wrr.c` of the 3.4 kernel and `sched_wrr.c` of
the 3.1 kernel. The two files compute the same; only `task_group` differs,
which `taskGroup` hides. Queue changes are functions on `WrrRq`, so that the
counters are next to the list they count. `pull_wrr_task` needs the core and is
in `Operations`.
-/

namespace AndroidKernel

/-- `select_task_rq_wrr`. The scan is over the online CPUs in increasing order. -/
def selectTaskRqWrr (env : Env) (s : Sched) (p : Pid) : Cpu :=
  let task := s.task p
  if task.wrr.nrCpusAllowed = 1 then task.cpu
  else
    let scan : Int × Cpu → Cpu → Int × Cpu := fun best cpu =>
      -- strictly lighter, so that a tie stays where it is
      if cpu ∈ task.cpusAllowed ∧ (s.rq cpu).wrr.totalWeight < best.1
      then ((s.rq cpu).wrr.totalWeight, cpu) else best
    (((List.range env.nrCpuIds).filter (· ∈ env.cpuOnline)).foldl scan
      ((s.rq task.cpu).wrr.totalWeight, task.cpu)).2

def chargeWrr (acct : Acct) (p : Pid) (delta : Nat) : Acct :=
  { acct with charged := Function.update acct.charged p (acct.charged p + delta) }

def updateCurrWrr (s : Sched) (c : Cpu) : Sched :=
  let curr := (s.rq c).curr
  if (s.task curr).schedClass = .wrr then
    let clockTask := (s.clock c).clockTask
    let delta := deltaExec clockTask (s.se curr).execStart
    { s with
      se := Function.update s.se curr
        { execStart := clockTask, sumExecRuntime := (s.se curr).sumExecRuntime + delta }
      acct := Function.update s.acct c (chargeWrr (s.acct c) curr delta) }
  else s

@[simp] theorem updateCurrWrr_task (s : Sched) (c : Cpu) :
    (updateCurrWrr s c).task = s.task := by
  simp only [updateCurrWrr]
  split <;> rfl

@[simp] theorem updateCurrWrr_rq (s : Sched) (c : Cpu) : (updateCurrWrr s c).rq = s.rq := by
  simp only [updateCurrWrr]
  split <;> rfl

@[simp] theorem updateCurrWrr_needResched (s : Sched) (c : Cpu) :
    (updateCurrWrr s c).needResched = s.needResched := by
  simp only [updateCurrWrr]
  split <;> rfl

@[simp] theorem updateCurrWrr_clock (s : Sched) (c : Cpu) :
    (updateCurrWrr s c).clock = s.clock := by
  simp only [updateCurrWrr]
  split <;> rfl

@[simp] theorem updateCurrWrr_rt (s : Sched) (c : Cpu) :
    (updateCurrWrr s c).rt = s.rt := by
  simp only [updateCurrWrr]
  split <;> rfl

def checkPreemptCurrWrr (s : Sched) (_c : Cpu) (_p : Pid) : Sched := s

def pickNextTaskWrr (s : Sched) (c : Cpu) : Option Pid :=
  if (s.rq c).wrr.wrrNrRunning = 0 then none else (s.rq c).wrr.queue.head?

def WrrRq.enqueue (head : Bool) (p : Pid) (weight : Nat) (wrr : WrrRq) : WrrRq :=
  { queue := if head then p :: wrr.queue else wrr.queue ++ [p]
    wrrNrRunning := wrr.wrrNrRunning + 1
    totalWeight := wrr.totalWeight + weight }

def WrrRq.dequeue (p : Pid) (weight : Nat) (wrr : WrrRq) : WrrRq :=
  { queue := wrr.queue.erase p
    wrrNrRunning := wrr.wrrNrRunning - 1
    totalWeight := wrr.totalWeight - weight }

def WrrRq.requeue (head : Bool) (p : Pid) (wrr : WrrRq) : WrrRq :=
  { wrr with queue := if head then p :: wrr.queue.erase p else wrr.queue.erase p ++ [p] }

def pathWeight (env : Env) (group : Group) : Nat := if groupBackground env group then 1 else 10

def pathTimeslice (env : Env) (group : Group) : Nat :=
  if groupBackground env group then wrrBgTimeslice env else wrrFgTimeslice env

/-- The two branches of `enqueue_wrr_entity`: a weight that is not the one of
the group is replaced, and then the slice is refilled. -/
def weighByPath (env : Env) (task : TaskStruct) : TaskStruct :=
  let group := taskGroup env task
  if task.wrr.weight = pathWeight env group then task
  else { task with wrr := { task.wrr with weight := pathWeight env group,
                                          timeSlice := pathTimeslice env group } }

def enqueueWrrEntity (env : Env) (s : Sched) (c : Cpu) (p : Pid) (head : Bool) : Sched :=
  let s := s.modifyTask p (weighByPath env)
  s.modifyRq c fun rq => { rq with wrr := rq.wrr.enqueue head p (s.task p).wrr.weight }

def dequeueWrrEntity (s : Sched) (c : Cpu) (p : Pid) : Sched :=
  s.modifyRq c fun rq => { rq with wrr := rq.wrr.dequeue p (s.task p).wrr.weight }

def enqueueTaskWrr (env : Env) (s : Sched) (c : Cpu) (p : Pid) (head : Bool) : Sched :=
  (enqueueWrrEntity env s c p head).modifyRq c Rq.incNrRunning

def dequeueTaskWrr (s : Sched) (c : Cpu) (p : Pid) : Sched :=
  (dequeueWrrEntity (updateCurrWrr s c) c p).modifyRq c Rq.decNrRunning

def initWrrRq : WrrRq := { queue := [], wrrNrRunning := 0, totalWeight := 0 }

def requeueTaskWrr (s : Sched) (c : Cpu) (p : Pid) (head : Bool) : Sched :=
  s.modifyRq c fun rq => { rq with wrr := rq.wrr.requeue head p }

def yieldTaskWrr (s : Sched) (c : Cpu) : Sched := requeueTaskWrr s c (s.rq c).curr false

def putPrevTaskWrr (s : Sched) (c : Cpu) (prev : Pid) : Sched :=
  (updateCurrWrr s c).modifySe prev fun se => { se with execStart := 0 }

def TaskStruct.setWrrSlice (slice : Nat) (task : TaskStruct) : TaskStruct :=
  { task with wrr := { task.wrr with timeSlice := slice } }

def TaskStruct.setWrrWeight (weight : Nat) (task : TaskStruct) : TaskStruct :=
  { task with wrr := { task.wrr with weight := weight } }

def refillSlice (env : Env) (wrr : SchedWrrEntity) : Nat :=
  if wrr.weight = 1 then wrrBgTimeslice env else wrrFgTimeslice env

def taskTickWrr (env : Env) (s : Sched) (c : Cpu) (p : Pid) : Sched :=
  let s := updateCurrWrr s c
  let left := decTimeSlice (s.task p).wrr.timeSlice
  if left ≠ 0 then s.modifyTask p (TaskStruct.setWrrSlice left)
  else
    let s := s.modifyTask p fun task => task.setWrrSlice (refillSlice env task.wrr)
    let queue := (s.rq c).wrr.queue
    -- the two neighbours of a task that is alone are both the queue head
    if RunList.ringPrev queue p ≠ RunList.ringNext queue p then
      reschedTask (requeueTaskWrr s c p false) p
    else s

def setCurrTaskWrr (s : Sched) (c : Cpu) : Sched :=
  s.modifySe (s.rq c).curr fun se => { se with execStart := (s.clock c).clockTask }

/-- The weight is written by the path again, the total is not. -/
def switchedToWrr (env : Env) (s : Sched) (c : Cpu) (p : Pid) : Sched :=
  if (s.task p).onRq ∧ (s.rq c).curr ≠ p then
    -- the test is on the priority: a boosted WRR task is spared too
    let s := if (s.task p).cpu = c ∧ ¬ rtPrio (rqCurr s c).prio
      then reschedTask s (s.rq c).curr else s
    s.modifyTask p fun task => task.setWrrWeight (pathWeight env (taskGroup env task))
  else s

def prioChangedWrr (s : Sched) (_c : Cpu) (_p : Pid) (_oldprio : Int) : Sched := s

/-- The test here is for the end of the path, not for `'b'`. -/
def getRrIntervalWrr (env : Env) (s : Sched) (p : Pid) : Nat :=
  if (env.groupPath (taskGroup env (s.task p)))[1]? = none then wrrFgTimeslice env
  else wrrBgTimeslice env

end AndroidKernel
