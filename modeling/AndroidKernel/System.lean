import AndroidKernel.Operations
import AndroidKernel.Transition

/-!
The scheduler as a labelled step function. An operation is one section that
the source runs under the runqueue locks, so the states between operations are
the states any CPU can find. `Allowed` is what the callers promise: who may be
woken, forked or moved. Everything a caller chooses freely, such as the group,
the priority or the waiter of a mutex, is an argument of the operation.
-/

namespace AndroidKernel

inductive Op where
  | fork (c : Cpu) (child : Pid)
  | wakeUpNewTask (p : Pid) (dest : Cpu)
  | tryToWakeUp (p : Pid) (mask : Nat) (dest : Cpu)
  | ttwuQueueRemote (p : Pid) (dest : Cpu)
  | schedTtwuPending (p : Pid)
  | setCurrentState (c : Cpu) (state : Nat)
  | schedule (c : Cpu) (preemptActive signalPending : Bool)
  | schedulerTick (c : Cpu)
  | schedYield (c : Cpu)
  | setscheduler (caller : Caller) (p : Pid) (seen : TaskStruct) (policy prio : Int)
      (user : Bool) (waiter : Option Nat)
  | rtMutexSetprio (p : Pid) (waiter : Option Nat)
  | setUserNice (p : Pid) (nice : Int)
  | cgroupAttach (p : Pid) (group : Group)
  | schedMoveTask (p : Pid)
  | migrateTask (p : Pid) (src dest : Cpu)
  | pushTask (p : Pid) (dest : Cpu)
  | pullWrrTask (dest : Cpu)
  | rtPeriodTimer (g : Group) (c : Cpu) (overrun : Nat)
  | balanceRuntime (g : Group) (c : Cpu) (runtime : Nat)
  | normalizeRtTask (p : Pid) (waiter : Option Nat)
  | setCpusAllowed (p : Pid) (mask : Cpumask)

def Ordinary (task : TaskStruct) : Prop := task.schedClass ≠ .idle ∧ task.schedClass ≠ .stop

instance (task : TaskStruct) : Decidable (Ordinary task) := inferInstanceAs (Decidable (_ ∧ _))

/-- What the callers of an operation promise. -/
def Allowed (env : Env) (s : Sched) : Op → Prop
  | .fork c child =>
      Ordinary (rqCurr s c) ∧ Ordinary (s.task child) ∧ ¬ (s.task child).onRq
  | .wakeUpNewTask p _ => Ordinary (s.task p) ∧ ¬ (s.task p).onRq
  | .tryToWakeUp p _ dest =>
      (s.task p).schedClass ≠ .idle ∧
        -- stop tasks never migrate
        ((s.task p).schedClass = .stop → dest = (s.task p).cpu)
  | .ttwuQueueRemote p _ => env.smp ∧ Ordinary (s.task p) ∧ ¬ (s.task p).onRq
  | .schedTtwuPending p =>
      Ordinary (s.task p) ∧ ¬ (s.task p).onRq ∧ (s.task p).state = taskWaking
  | .setCurrentState c _ => (rqCurr s c).schedClass ≠ .idle
  | .setscheduler _ p _ _ _ _ _ => (s.task p).schedClass ≠ .idle
  | .rtMutexSetprio p _ | .setUserNice p _ | .schedMoveTask p | .normalizeRtTask p _ =>
      Ordinary (s.task p)
  | .migrateTask p _ _ => env.smp ∧ Ordinary (s.task p) ∧ (s.rq (s.task p).cpu).curr ≠ p
  | .pushTask p dest =>
      env.smp ∧ Ordinary (s.task p) ∧ (s.task p).onRq ∧ (s.rq (s.task p).cpu).curr ≠ p ∧
        dest ∈ (s.task p).cpusAllowed
  | .pullWrrTask _ | .balanceRuntime _ _ _ | .setCpusAllowed _ _ => env.smp
  | .schedule _ _ _ | .schedulerTick _ | .schedYield _ | .cgroupAttach _ _
  | .rtPeriodTimer _ _ _ => True

instance (env : Env) (s : Sched) : (op : Op) → Decidable (Allowed env s op)
  | .fork _ _ => inferInstanceAs (Decidable (_ ∧ _ ∧ _))
  | .wakeUpNewTask _ _ => inferInstanceAs (Decidable (_ ∧ _))
  | .tryToWakeUp _ _ _ => inferInstanceAs (Decidable (_ ∧ (_ → _)))
  | .ttwuQueueRemote _ _ => inferInstanceAs (Decidable (_ ∧ _ ∧ _))
  | .schedTtwuPending _ => inferInstanceAs (Decidable (_ ∧ _ ∧ _))
  | .setCurrentState _ _ => inferInstanceAs (Decidable (_ ≠ _))
  | .setscheduler _ _ _ _ _ _ _ => inferInstanceAs (Decidable (_ ≠ _))
  | .rtMutexSetprio _ _ | .setUserNice _ _ | .schedMoveTask _ | .normalizeRtTask _ _ =>
      inferInstanceAs (Decidable (Ordinary _))
  | .migrateTask _ _ _ => inferInstanceAs (Decidable (_ ∧ _ ∧ _))
  | .pushTask _ _ => inferInstanceAs (Decidable (_ ∧ _ ∧ _ ∧ _ ∧ _))
  | .pullWrrTask _ | .balanceRuntime _ _ _ | .setCpusAllowed _ _ =>
      inferInstanceAs (Decidable (_ = _))
  | .schedule _ _ _ | .schedulerTick _ | .schedYield _ | .cgroupAttach _ _
  | .rtPeriodTimer _ _ _ => inferInstanceAs (Decidable True)

def apply (env : Env) (s : Sched) : Op → Sched
  | .fork c child => forkTask env s c child
  | .wakeUpNewTask p dest => wakeUpNewTask env s p dest
  | .tryToWakeUp p mask dest => tryToWakeUp env s p mask dest
  | .ttwuQueueRemote p dest => ttwuPlace env s p dest
  | .schedTtwuPending p => schedTtwuPending env s p
  | .setCurrentState c state =>
      s.modifyTask (s.rq c).curr fun task => { task with state := state }
  | .schedule c preemptActive signalPending => schedule env s c preemptActive signalPending
  | .schedulerTick c => schedulerTick env s c
  | .schedYield c => schedYield env s c
  | .setscheduler caller p seen policy prio user waiter =>
      match setschedulerPass env s caller p seen policy prio user waiter with
      | .ret _ s => s
      -- the next pass is an operation of its own, with the task as it is then
      | .recheck => s
  | .rtMutexSetprio p waiter => rtMutexSetprio env s p (rtMutexGetprio waiter (s.task p))
  | .setUserNice p nice => setUserNice env s p nice
  | .cgroupAttach p group => s.modifyTask p fun task => { task with cpuCgroup := group }
  | .schedMoveTask p => schedMoveTask env s p
  | .migrateTask p src dest => (migrateTask env s p src dest).1
  | .pushTask p dest => pushTask env s p dest
  | .pullWrrTask dest => pullWrrTask env s dest
  | .rtPeriodTimer g c overrun => doSchedRtPeriodTimer env s g c overrun
  | .balanceRuntime g c runtime =>
      s.modifyRtTime c g fun time => { time with rtRuntime := runtime }
  | .normalizeRtTask p waiter => normalizeRtTask env s p waiter
  | .setCpusAllowed p mask => doSetCpusAllowed env s p mask

def step (env : Env) (s : Sched) (op : Op) : Option Sched :=
  if Allowed env s op then some (apply env s op) else none

theorem step_some {env : Env} {s next : Sched} {op : Op} (moved : step env s op = some next) :
    Allowed env s op ∧ next = apply env s op := by
  by_cases allowed : Allowed env s op
  · rw [step, if_pos allowed, Option.some.injEq] at moved
    exact ⟨allowed, moved.symm⟩
  · simp [step, if_neg allowed] at moved

def Rq.Empty (rq : Rq) : Prop :=
  rq.nrRunning = 0 ∧ rq.cfs = ⟨[], 0⟩ ∧ rq.wrr = initWrrRq ∧ rq.curr = rq.idle

structure RtQueues.Empty (rt : RtQueues) : Prop where
  rq : ∀ g, (rt.rq g).active = .empty ∧ (rt.rq g).rtNrRunning = 0 ∧
    (rt.rq g).rtNrBoosted = 0 ∧ (rt.rq g).highestPrio = RtGroups.maxRtPrio
  onRtRq : ∀ e, rt.onRtRq e = false
  leafRtRqList : rt.leafRtRqList = []

/-- The states `sched_init` and `init_idle` leave: nothing queued, the idle
tasks current, and no other task in the idle or stop class than those the
runqueues name. -/
structure Init (s : Sched) : Prop where
  empty : ∀ c, (s.rq c).Empty
  rt_empty : ∀ c, (s.rt c).Empty
  asleep : ∀ p, (s.task p).onRq = false
  idle_class : ∀ c, (s.task (s.rq c).idle).schedClass = .idle ∧
    (s.task (s.rq c).idle).cpu = c ∧ (s.task (s.rq c).idle).state = 0
  idle_unique : ∀ p, (s.task p).schedClass = .idle → (s.rq (s.task p).cpu).idle = p
  stop_class : ∀ c p, (s.rq c).stop = some p → (s.task p).schedClass = .stop ∧
    (s.task p).cpu = c
  stop_unique : ∀ p, (s.task p).schedClass = .stop → (s.rq (s.task p).cpu).stop = some p
  on_cpu : ∀ p, (s.task p).onCpu = true ↔ (s.rq (s.task p).cpu).curr = p
  no_charge : ∀ c p, (s.acct c).charged p = 0 ∧ (s.acct c).ran p = 0

/-- What holds in every state that runs from initial states reach. -/
def Reachable (env : Env) (ok : Sched → Op → Prop) (s : Sched) : Prop :=
  ∃ start ops, Init start ∧ Transition.Run (step env) ok start ops s

end AndroidKernel
