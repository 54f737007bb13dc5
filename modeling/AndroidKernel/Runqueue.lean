import Mathlib.Logic.Function.Basic
import Mathlib.Tactic.Simps.Basic
import AndroidKernel.RtGroups
import AndroidKernel.RunList

/-!
The scheduler state: one table of tasks, one runqueue per CPU, and the columns
that bookkeeping writes (clocks, run times, need-resched flags). Keeping the
columns apart makes it visible that the bookkeeping of a hook moves no task.
Counters are integers, so a decrement below zero would show as a negative
value. Queues are lists of pids; the real-time runqueues of the groups are those
of `RtGroups`. `acct` is not in the source: it sums what `update_curr_wrr`
charged and how long each task was current in the WRR class. `fair.c`, which the
repository does not hold, is a parameter.
-/

namespace AndroidKernel

structure CfsRq where
  queue : List Pid
  hNrRunning : Int

/-- The `struct rt_rq` of every group on one CPU, but for their times. -/
structure RtQueues where
  rq : Group → RtGroups.GroupRq Group
  onRtRq : RtGroups.Entity Group → Bool
  leafRtRqList : List Group
  warned : Bool

structure WrrRq where
  queue : List Pid
  wrrNrRunning : Int
  totalWeight : Int

structure Rq where
  nrRunning : Int
  cfs : CfsRq
  wrr : WrrRq
  curr : Pid
  idle : Pid
  stop : Option Pid

structure RqClock where
  clockTask : Nat
  reads : Nat

structure GroupTime where
  rtTime : Nat
  rtRuntime : Nat

structure Acct where
  charged : Pid → Nat
  ran : Pid → Nat

structure Sched where
  task : Pid → TaskStruct
  rq : Cpu → Rq
  rt : Cpu → RtQueues
  needResched : Pid → Bool
  se : Pid → SchedEntity
  clock : Cpu → RqClock
  rtTime : Cpu → Group → GroupTime
  acct : Cpu → Acct

/-- What the core asks of `fair.c`: a pick among the queued tasks, the three
decisions whether to reschedule, and an update of the current entity. -/
structure FairClass where
  pickNextTask : Sched → Cpu → Option Pid
  picks_queued : ∀ s c p, pickNextTask s c = some p → p ∈ (s.rq c).cfs.queue
  picks_some : ∀ s c, pickNextTask s c = none → (s.rq c).cfs.queue = []
  checkPreemptCurr : Sched → Cpu → Pid → Bool
  taskTick : Sched → Cpu → Bool
  prioChanged : Sched → Cpu → Pid → Int → Bool
  updateCurr : Nat → SchedEntity → SchedEntity

structure Env where
  kernel : Kernel
  smp : Bool
  hz : Nat
  /-- `cgroup_path`, fixed for each group. -/
  groupPath : Group → List Char
  /-- What the `n`-th `update_rq_clock` of a CPU adds to `clock_task`. -/
  elapsed : Cpu → Nat → Nat
  nrCpuIds : Nat
  cpuOnline : Cpumask
  cpuActive : Cpumask
  /-- The task groups, which stay as they are. -/
  groups : RtGroups.Hierarchy Group
  rtBandwidthEnabled : Bool
  rtPeriod : Group → Nat
  rtBandwidthRuntime : Group → Nat
  taskGroupIsAutogroup : Group → Bool
  /-- `cpupri_find` of the SMP build. -/
  cpupriFind : Sched → Pid → Bool
  fair : FairClass

def rootTaskGroup : Group := 0

def runtimeInf : Nat := 2 ^ 64 - 1

@[simps -fullyApplied]
def Sched.modifyTask (s : Sched) (p : Pid) (f : TaskStruct → TaskStruct) : Sched :=
  { s with task := Function.update s.task p (f (s.task p)) }

@[simps -fullyApplied]
def Sched.modifyRq (s : Sched) (c : Cpu) (f : Rq → Rq) : Sched :=
  { s with rq := Function.update s.rq c (f (s.rq c)) }

@[simps -fullyApplied]
def Sched.modifySe (s : Sched) (p : Pid) (f : SchedEntity → SchedEntity) : Sched :=
  { s with se := Function.update s.se p (f (s.se p)) }

@[simps -fullyApplied]
def Sched.modifyRtTime (s : Sched) (c : Cpu) (g : Group) (f : GroupTime → GroupTime) : Sched :=
  { s with rtTime :=
      Function.update s.rtTime c (Function.update (s.rtTime c) g (f (s.rtTime c g))) }

/-- What the real-time class sees on a CPU: its runqueues, and the tasks. -/
@[simps]
def Sched.rtState (s : Sched) (c : Cpu) : RtGroups.State Group where
  rq := (s.rt c).rq
  onRtRq := (s.rt c).onRtRq
  prio p := (s.task p).prio.toNat
  normalPrio p := (s.task p).normalPrio.toNat
  group p := (s.task p).rt.rtRq
  leafRtRqList := (s.rt c).leafRtRqList
  warned := (s.rt c).warned

def RtQueues.ofState (state : RtGroups.State Group) : RtQueues where
  rq := state.rq
  onRtRq := state.onRtRq
  leafRtRqList := state.leafRtRqList
  warned := state.warned

@[simps -fullyApplied]
def Sched.modifyRt (s : Sched) (c : Cpu)
    (f : RtGroups.State Group → RtGroups.State Group) : Sched :=
  { s with rt := Function.update s.rt c (.ofState (f (s.rtState c))) }

@[simps -fullyApplied]
def reschedTask (s : Sched) (p : Pid) : Sched :=
  { s with needResched := Function.update s.needResched p true }

@[simps -fullyApplied]
def clearTskNeedResched (s : Sched) (p : Pid) : Sched :=
  { s with needResched := Function.update s.needResched p false }

def rqCurr (s : Sched) (c : Cpu) : TaskStruct := s.task (s.rq c).curr

def taskCurrent (s : Sched) (c : Cpu) (p : Pid) : Bool := (s.rq c).curr = p

def taskRunning (env : Env) (s : Sched) (c : Cpu) (p : Pid) : Bool :=
  if env.smp then (s.task p).onCpu else taskCurrent s c p

/-- `task_group`: 3.4 keeps its own copy of the group, 3.1 asks the cgroup core. -/
def taskGroup (env : Env) (task : TaskStruct) : Group :=
  match env.kernel with
  | .goldfish => task.schedTaskGroup
  | .tegra => task.cpuCgroup

@[simps]
def setTaskRq (env : Env) (task : TaskStruct) : TaskStruct :=
  { task with rt := { task.rt with rtRq := taskGroup env task } }

/-- `__set_task_cpu`. -/
@[simps!]
def TaskStruct.setCpu (env : Env) (c : Cpu) (task : TaskStruct) : TaskStruct :=
  setTaskRq env { task with cpu := c }

def groupBackground (env : Env) (group : Group) : Bool :=
  (env.groupPath group)[1]? = some 'b'

def rrTimeslice (env : Env) : Nat := 100 * env.hz / 1000
def wrrFgTimeslice (env : Env) : Nat := 100 * env.hz / 1000
def wrrBgTimeslice (env : Env) : Nat := 10 * env.hz / 1000

def decTimeSlice (slice : Nat) : Nat := if slice = 0 then 2 ^ 32 - 1 else slice - 1

/-- `delta_exec`, with the test that makes a negative difference zero. -/
def deltaExec (clockTask execStart : Nat) : Nat :=
  let delta : Int := (clockTask : Int) - execStart
  if delta < 0 then 0 else delta.toNat

theorem deltaExec_eq (clockTask execStart : Nat) :
    deltaExec clockTask execStart = clockTask - execStart := by
  simp only [deltaExec]
  split <;> omega

/-- `update_rq_clock`. The time that passed is booked on the current task when
that task is in the WRR class. -/
@[simps -fullyApplied]
def updateRqClock (env : Env) (s : Sched) (c : Cpu) : Sched :=
  let clock := s.clock c
  let passed := env.elapsed c clock.reads
  let curr := (s.rq c).curr
  { s with
    clock := Function.update s.clock c
      { clockTask := clock.clockTask + passed, reads := clock.reads + 1 }
    acct :=
      if (s.task curr).schedClass = .wrr then
        Function.update s.acct c
          { s.acct c with ran :=
              Function.update (s.acct c).ran curr ((s.acct c).ran curr + passed) }
      else s.acct }

def Rq.incNrRunning (rq : Rq) : Rq := { rq with nrRunning := rq.nrRunning + 1 }
def Rq.decNrRunning (rq : Rq) : Rq := { rq with nrRunning := rq.nrRunning - 1 }

/-- The `inc_nr_running` at the end of the enqueue hooks of 3.4; 3.1 has it in
`activate_task` instead. -/
def Rq.hookIncNrRunning (kernel : Kernel) (rq : Rq) : Rq :=
  match kernel with
  | .goldfish => rq.incNrRunning
  | .tegra => rq

def Rq.hookDecNrRunning (kernel : Kernel) (rq : Rq) : Rq :=
  match kernel with
  | .goldfish => rq.decNrRunning
  | .tegra => rq

end AndroidKernel
