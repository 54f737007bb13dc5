import Mathlib.Tactic.MkIffOfInductiveProp
import AndroidKernel.Core

/-!
The entry points of `core.c` and `sched.c` that change a task: wakeups, forks,
migration and affinity, and the changes of policy, priority, nice value and
group. Three of them take a queued task off, change it and put it back, with
`put_prev_task` and `set_curr_task` around the change when the task is current;
they share `requeueAround`. The destination of a wakeup and the top waiter of a
PI mutex are arguments, as balancing and `rtmutex.c` choose them elsewhere.
-/

namespace AndroidKernel

/-- `set_task_cpu` of the SMP build. -/
def setTaskCpu (env : Env) (s : Sched) (p : Pid) (c : Cpu) : Sched :=
  s.modifyTask p (TaskStruct.setCpu env c)

def ttwuActivate (env : Env) (s : Sched) (c : Cpu) (p : Pid) : Sched :=
  (activateTask env s c p false).modifyTask p fun task => { task with onRq := true }

def ttwuDoWakeup (env : Env) (s : Sched) (c : Cpu) (p : Pid) : Sched :=
  (checkPreemptCurr env s c p).modifyTask p fun task => { task with state := 0 }

def ttwuDoActivate (env : Env) (s : Sched) (c : Cpu) (p : Pid) : Sched :=
  ttwuDoWakeup env (ttwuActivate env s c p) c p

def taskWaking : Nat := 256

/-- The placement of a waking task, in the SMP build only. -/
def ttwuPlace (env : Env) (s : Sched) (p : Pid) (dest : Cpu) : Sched :=
  if env.smp then
    let s := s.modifyTask p fun task => { task with state := taskWaking }
    if (s.task p).cpu ≠ dest then setTaskCpu env s p dest else s
  else s

/-- It writes nothing, the state alone, or the state and the CPU. -/
theorem ttwuPlace_cases (env : Env) (s : Sched) (p : Pid) (dest : Cpu) :
    ttwuPlace env s p dest = s ∨
      ttwuPlace env s p dest = s.modifyTask p (fun task => { task with state := taskWaking }) ∨
      ttwuPlace env s p dest = s.modifyTask p fun task =>
        TaskStruct.setCpu env dest { task with state := taskWaking } := by
  simp only [ttwuPlace]
  split_ifs
  · right
    right
    simp [setTaskCpu, Sched.modifyTask]
  · exact .inr (.inl rfl)
  · exact .inl rfl

@[simp] theorem ttwuPlace_rq (env : Env) (s : Sched) (p : Pid) (dest : Cpu) :
    (ttwuPlace env s p dest).rq = s.rq := by
  rcases ttwuPlace_cases env s p dest with same | same | same <;> rw [same] <;> rfl

/-- `try_to_wake_up` with the activation done in place; `dest` is what
`select_task_rq` answered. -/
def tryToWakeUp (env : Env) (s : Sched) (p : Pid) (mask : Nat) (dest : Cpu) : Sched :=
  if (s.task p).state &&& mask = 0 then s
  -- `ttwu_remote`: the task did not leave its queue yet
  else if (s.task p).onRq then ttwuDoWakeup env s (s.task p).cpu p
  else
    let s := ttwuPlace env s p dest
    ttwuDoActivate env s (s.task p).cpu p

/-- `sched_ttwu_pending` for one task that `ttwu_queue_remote` left in state
`TASK_WAKING` on its CPU. -/
def schedTtwuPending (env : Env) (s : Sched) (p : Pid) : Sched :=
  ttwuDoActivate env s (s.task p).cpu p

/-- `sched_fork`: the child is a copy of the current task of `c`. On one CPU
`set_task_cpu` is empty. -/
def forkTask (env : Env) (s : Sched) (c : Cpu) (child : Pid) : Sched :=
  let copy := schedFork env.kernel (rqCurr s c)
  let s := s.modifyTask child fun _ =>
    if env.smp then copy.setCpu env c else { copy with cpu := c }
  s.modifySe child fun _ => { execStart := 0, sumExecRuntime := 0 }

def weighNew (env : Env) (task : TaskStruct) : TaskStruct :=
  let group := taskGroup env task
  { task with wrr := { task.wrr with weight := pathWeight env group,
                                     timeSlice := pathTimeslice env group } }

/-- `wake_up_new_task` up to the activation. The 3.1 kernel weighs only tasks
whose policy is WRR. -/
def placeNewTask (env : Env) (s : Sched) (p : Pid) (dest : Cpu) : Sched :=
  let s := if env.smp then setTaskCpu env s p dest else s
  if env.kernel = .goldfish ∨ (s.task p).policy = .wrr
    then s.modifyTask p (weighNew env) else s

def wakeUpNewTask (env : Env) (s : Sched) (p : Pid) (dest : Cpu) : Sched :=
  let s := placeNewTask env s p dest
  let c := (s.task p).cpu
  checkPreemptCurr env (ttwuActivate env s c p) c p

def moveQueued (env : Env) (s : Sched) (p : Pid) (src dest : Cpu) : Sched :=
  activateTask env (setTaskCpu env (deactivateTask env s src p) p dest) dest p false

/-- `__migrate_task`, with its return value. 3.4 uses `dequeue_task` and
`enqueue_task`, for which the wrappers of that kernel are other names. -/
def migrateTask (env : Env) (s : Sched) (p : Pid) (src dest : Cpu) : Sched × Bool :=
  if dest ∉ env.cpuActive then (s, false)
  -- it has been moved already, which counts as success
  else if (s.task p).cpu ≠ src then (s, true)
  -- the affinity changed once more, to a mask without the destination
  else if dest ∉ (s.task p).cpusAllowed then (s, false)
  else if (s.task p).onRq then
    (checkPreemptCurr env (moveQueued env s p src dest) dest p, true)
  -- a task that sleeps is placed by its next wakeup
  else (s, true)

def copyCpusAllowed (mask : Cpumask) (task : TaskStruct) : TaskStruct :=
  { task with cpusAllowed := mask
              rt := { task.rt with nrCpusAllowed := mask.card }
              wrr := { task.wrr with nrCpusAllowed := mask.card } }

/-- `do_set_cpus_allowed` with the class hooks. In 3.1 a class with a hook is
left to its hook: the RT hook copies the mask, the WRR hook is empty. -/
def doSetCpusAllowed (env : Env) (s : Sched) (p : Pid) (mask : Cpumask) : Sched :=
  match env.kernel, (s.task p).schedClass with
  | .tegra, .rt => s.modifyTask p fun task =>
      { task with cpusAllowed := mask, rt := { task.rt with nrCpusAllowed := mask.card } }
  | .tegra, .wrr => s
  | _, _ => s.modifyTask p (copyCpusAllowed mask)

def pullable (env : Env) (s : Sched) (src dest : Cpu) (p : Pid) : Bool :=
  !taskRunning env s src p && (s.task p).policy = .wrr && dest ∈ (s.task p).cpusAllowed &&
    (s.task p).onRq

def pullSource (env : Env) (s : Sched) (dest : Cpu) : Option (Cpu × Pid) :=
  ((List.range env.nrCpuIds).filter fun src => src ∈ env.cpuOnline ∧ src ≠ dest).findSome?
    fun src => ((s.rq src).wrr.queue.find? (pullable env s src dest)).map (src, ·)

def pullWrrTask (env : Env) (s : Sched) (dest : Cpu) : Sched :=
  if dest ∉ env.cpuOnline then s
  else
    match pullSource env s dest with
    | none => s
    -- the first task found is the only one moved
    | some (src, p) => checkPreemptCurr env (moveQueued env s p src dest) dest p

def schedulerTick (env : Env) (s : Sched) (c : Cpu) : Sched :=
  let s := tickLocked env s c
  if env.smp ∧ (s.rq c).wrr.wrrNrRunning = 0 then pullWrrTask env s c else s

/-- One move of `push_rt_task`, `pull_rt_task` or the fair balancer. -/
def pushTask (env : Env) (s : Sched) (p : Pid) (dest : Cpu) : Sched :=
  let s := moveQueued env s p (s.task p).cpu dest
  reschedTask s (s.rq dest).curr

/-- Off the queue, `put_prev_task`, the change, `set_curr_task`, onto the queue.
`wrapped` chooses `deactivate_task` and `activate_task`. -/
def requeueAround (env : Env) (s : Sched) (c : Cpu) (p : Pid) (wrapped : Bool)
    (change : TaskStruct → TaskStruct) (head : Bool) : Sched :=
  let onRq := (s.task p).onRq
  let running := taskCurrent s c p
  let s := if onRq then (if wrapped then deactivateTask env s c p else dequeueTask env s c p)
    else s
  let s := if running then classPutPrev env s c p else s
  -- from here on the hooks are those of the task's new class
  let s := s.modifyTask p change
  let s := if running then setCurrTask env s c else s
  if onRq then
    (if wrapped then activateTask env s c p head else enqueueTask env s c p head)
  else s

def setschedulerApply (env : Env) (s : Sched) (p : Pid) (policy : Policy) (prio : Nat)
    (resetOnFork : Bool) (waiter : Option Nat) : Sched :=
  let c := (s.task p).cpu
  let old := s.task p
  let change := fun task =>
    setscheduler waiter policy prio { task with schedResetOnFork := resetOnFork }
  let s := requeueAround env s c p (env.kernel = .tegra) change false
  checkClassChanged env s c p old.schedClass old.prio

/-- `rt_mutex_setprio`. Only 3.4 refuses the idle task. -/
def rtMutexSetprio (env : Env) (s : Sched) (p : Pid) (prio : Int) : Sched :=
  let c := (s.task p).cpu
  let old := s.task p
  if env.kernel = .goldfish ∧ p = (s.rq c).idle then s
  else
    let s := requeueAround env s c p false (setEffectivePrio prio) (old.prio < prio)
    checkClassChanged env s c p old.schedClass old.prio

/-- What `sched_move_task` writes; 3.1 has no copy of the group to write. -/
def schedMoveGroup (env : Env) (task : TaskStruct) : TaskStruct :=
  match env.kernel with
  | .goldfish => setTaskRq env { task with schedTaskGroup := task.cpuCgroup }
  | .tegra => setTaskRq env task

/-- `sched_move_task`. No hook hears of the change afterwards. -/
def schedMoveTask (env : Env) (s : Sched) (p : Pid) : Sched :=
  requeueAround env s (s.task p).cpu p false (schedMoveGroup env) false

def setUserNice (env : Env) (s : Sched) (p : Pid) (nice : Int) : Sched :=
  let old := s.task p
  let c := old.cpu
  let niced := fun task : TaskStruct => { task with staticPrio := niceToPrio nice }
  if prioToNice old.staticPrio = nice ∨ nice < -20 ∨ nice > 19 then s
  -- an RT task keeps the nice value for the time it is one no more
  else if taskHasRtPolicy old then s.modifyTask p niced
  else
    let s := if old.onRq then dequeueTask env s c p else s
    let s := s.modifyTask p fun task => effectivePrio (niced task)
    let delta := (s.task p).prio - old.prio
    if old.onRq then
      let s := enqueueTask env s c p false
      -- a higher priority, or the loss of one while it runs
      if delta < 0 ∨ (delta > 0 ∧ taskRunning env s c p) then reschedTask s (s.rq c).curr else s
    else s

def normalizeTask (env : Env) (s : Sched) (p : Pid) (waiter : Option Nat) : Sched :=
  let old := s.task p
  let c := old.cpu
  let s := if old.onRq then deactivateTask env s c p else s
  let s := s.modifyTask p (setscheduler waiter .normal 0)
  let s := if old.onRq then reschedTask (activateTask env s c p false) (s.rq c).curr else s
  checkClassChanged env s c p old.schedClass old.prio

def normalizeRtTask (env : Env) (s : Sched) (p : Pid) (waiter : Option Nat) : Sched :=
  let task := s.task p
  -- kernel threads are left alone
  if ¬ task.mm then s
  else
    let s := s.modifySe p fun se => { se with execStart := 0 }
    -- of the other tasks those of negative nice value go back to zero
    if ¬ rtPrio task.prio then
      if prioToNice task.staticPrio < 0 then setUserNice env s p 0 else s
    else normalizeTask env s p waiter

structure Caller where
  capSysNice : Bool
  cred : Cred
  /-- `security_task_setscheduler`. -/
  securityRet : Int

def einval : Int := -22
def eperm : Int := -1

def canNice (caller : Caller) (task : TaskStruct) (nice : Int) : Bool :=
  20 - nice ≤ task.rlimitNice ∨ caller.capSysNice

def checkSameOwner (caller : Caller) (task : TaskStruct) : Bool :=
  caller.cred.userNs = task.cred.userNs ∧
    (caller.cred.euid = task.cred.euid ∨ caller.cred.euid = task.cred.uid)

structure Request where
  policy : Policy
  resetOnFork : Bool
  /-- `oldpolicy`, `none` for -1. -/
  oldpolicy : Option Policy

/-- The decoding at `recheck:`; a negative policy keeps the one of the task. -/
def decodePolicy (seen : TaskStruct) (policy : Int) : Except Int Request :=
  if policy < 0 then .ok ⟨seen.policy, seen.schedResetOnFork, some seen.policy⟩
  else
    let flag := policy.toNat &&& schedResetOnFork
    match policyOfCode (policy.toNat - flag) with
    | none => .error einval
    | some named => .ok ⟨named, flag ≠ 0, none⟩

def validPriority (seen : TaskStruct) (policy : Policy) (prio : Int) : Bool :=
  !(prio < 0 || (seen.mm && prio > maxUserRtPrio - 1) || (!seen.mm && prio > maxRtPrio - 1)) &&
    rtPolicy policy = (prio ≠ 0 : Bool)

def unprivilegedMay (caller : Caller) (seen : TaskStruct) (request : Request) (prio : Int) :
    Bool :=
  let rtDenied := rtPolicy request.policy &&
    ((request.policy ≠ seen.policy && seen.rlimitRtprio = 0) ||
      (prio > seen.rtPriority && prio > seen.rlimitRtprio))
  -- leaving `SCHED_IDLE` counts as a change from nice 20
  let idleDenied := seen.policy = .idle && request.policy ≠ .idle &&
    !canNice caller seen (prioToNice seen.staticPrio)
  !rtDenied && !idleDenied && checkSameOwner caller seen &&
    !(seen.schedResetOnFork && !request.resetOnFork)

/-- Everything before the runqueue lock is taken, on the task as `seen` then. -/
def setschedulerChecks (caller : Caller) (seen : TaskStruct) (policy prio : Int)
    (user : Bool) : Except Int Request :=
  match decodePolicy seen policy with
  | .error code => .error code
  | .ok request =>
      if !validPriority seen request.policy prio then .error einval
      else if user && !caller.capSysNice && !unprivilegedMay caller seen request prio then
        .error eperm
      else if user && caller.securityRet ≠ 0 then .error caller.securityRet
      else .ok request

inductive PassResult where
  | ret (code : Int) (s : Sched)
  | recheck

/-- One pass from `recheck:`. The task may have changed between the unlocked
checks, which saw `seen`, and the lock. -/
def setschedulerPass (env : Env) (s : Sched) (caller : Caller) (p : Pid) (seen : TaskStruct)
    (policy prio : Int) (user : Bool) (waiter : Option Nat) : PassResult :=
  match setschedulerChecks caller seen policy prio user with
  | .error code => .ret code s
  | .ok request =>
      let task := s.task p
      if (s.rq task.cpu).stop = some p then .ret einval s
      -- nothing would change
      else if request.policy = task.policy ∧
          (¬ rtPolicy request.policy ∨ prio = task.rtPriority) then .ret 0 s
      else if user ∧ env.rtBandwidthEnabled ∧ rtPolicy request.policy ∧
          env.rtBandwidthRuntime (taskGroup env task) = 0 ∧
          ¬ env.taskGroupIsAutogroup (taskGroup env task) then .ret eperm s
      -- the policy was read without the lock, and another call has changed it since
      else if request.oldpolicy ≠ none ∧ request.oldpolicy ≠ some task.policy then .recheck
      else .ret 0 (setschedulerApply env s p request.policy prio.toNat request.resetOnFork waiter)

/-- A checked request gets past the tests under the lock, so the pass does not
return early and does not go back to `recheck:`. -/
@[mk_iff]
structure PassApplies (env : Env) (s : Sched) (p : Pid) (request : Request) (prio : Int)
    (user : Bool) : Prop where
  not_stop : (s.rq (s.task p).cpu).stop ≠ some p
  changes : ¬ (request.policy = (s.task p).policy ∧
    (¬ rtPolicy request.policy ∨ prio = (s.task p).rtPriority))
  has_runtime : ¬ (user ∧ env.rtBandwidthEnabled ∧ rtPolicy request.policy ∧
    env.rtBandwidthRuntime (taskGroup env (s.task p)) = 0 ∧
    ¬ env.taskGroupIsAutogroup (taskGroup env (s.task p)))
  steady : ¬ (request.oldpolicy ≠ none ∧ request.oldpolicy ≠ some (s.task p).policy)

instance (env : Env) (s : Sched) (p : Pid) (request : Request) (prio : Int) (user : Bool) :
    Decidable (PassApplies env s p request prio user) :=
  decidable_of_iff' _ (passApplies_iff env s p request prio user)

/-- How a pass that returns can end: nothing changed, or `setschedulerApply`
with a checked request. -/
theorem setschedulerPass_cases {env : Env} {s : Sched} {caller : Caller} {p : Pid}
    {seen : TaskStruct} {policy prio : Int} {user : Bool} {waiter : Option Nat} {code : Int}
    {next : Sched}
    (done : setschedulerPass env s caller p seen policy prio user waiter = .ret code next) :
    next = s ∨ ∃ request, setschedulerChecks caller seen policy prio user = .ok request ∧
      code = 0 ∧ PassApplies env s p request prio user ∧
      next = setschedulerApply env s p request.policy prio.toNat request.resetOnFork waiter := by
  simp only [setschedulerPass] at done
  split at done
  · cases done
    exact Or.inl rfl
  · rename_i request checks
    split_ifs at done with stop same group recheck <;> cases done
    · exact Or.inl rfl
    · exact Or.inl rfl
    · exact Or.inl rfl
    · exact Or.inr ⟨request, checks, rfl, ⟨stop, same, group, recheck⟩, rfl⟩

end AndroidKernel
