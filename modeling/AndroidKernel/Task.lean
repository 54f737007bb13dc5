import Mathlib.Data.Finset.Card

/-!
The scheduling part of `task_struct` and the functions that compute on one
task alone: priorities, the choice of the scheduling class, `sched_fork`.
Priorities are integers, as in the source: 0..99 are the RT priorities and
100..139 the nice levels. `se` and the need-resched flag are not here, they are
columns of the scheduler state. Fields no modelled function reads (load
weights, statistics, the RT push list) are left out.
-/

namespace AndroidKernel

abbrev Pid := Nat
abbrev Cpu := Nat
abbrev Group := Nat
abbrev Cpumask := Finset Cpu

/-- The two kernels of the repository: `goldfish` is Linux 3.4 for the emulator,
`tegra` is Linux 3.1 for the tablet. -/
inductive Kernel where
  | goldfish
  | tegra
  deriving DecidableEq, Repr

inductive Policy where
  | normal
  | fifo
  | rr
  | batch
  | idle
  | wrr
  deriving DecidableEq, Repr

def policyOfCode : Nat → Option Policy
  | 0 => some .normal
  | 1 => some .fifo
  | 2 => some .rr
  | 3 => some .batch
  | 5 => some .idle
  | 6 => some .wrr
  | _ => none

def schedResetOnFork : Nat := 0x40000000

inductive SchedClass where
  | stop
  | rt
  | wrr
  | fair
  | idle
  deriving DecidableEq, Repr

def SchedClass.next : SchedClass → Option SchedClass
  | .stop => some .rt
  | .rt => some .wrr
  | .wrr => some .fair
  | .fair => some .idle
  | .idle => none

/-- `for_each_class`: from `sched_class_highest` along the `.next` links. -/
def forEachClass : List SchedClass := [.stop, .rt, .wrr, .fair, .idle]

theorem forEachClass_links (position : Nat) :
    (forEachClass[position]?).bind SchedClass.next = forEachClass[position + 1]? := by
  match position with
  | 0 | 1 | 2 | 3 | 4 => rfl
  | _ + 5 => rfl

def SchedClass.rank (cls : SchedClass) : Nat := forEachClass.idxOf cls

def SchedClass.precedes (first second : SchedClass) : Prop := first.rank < second.rank

instance (first second : SchedClass) : Decidable (first.precedes second) :=
  inferInstanceAs (Decidable (_ < _))

@[simp] theorem rank_stop : SchedClass.rank .stop = 0 := rfl
@[simp] theorem rank_rt : SchedClass.rank .rt = 1 := rfl
@[simp] theorem rank_wrr : SchedClass.rank .wrr = 2 := rfl
@[simp] theorem rank_fair : SchedClass.rank .fair = 3 := rfl
@[simp] theorem rank_idle : SchedClass.rank .idle = 4 := rfl

def maxRtPrio : Int := 100
def maxUserRtPrio : Int := 100

def niceToPrio (nice : Int) : Int := maxRtPrio + nice + 20
def prioToNice (prio : Int) : Int := prio - maxRtPrio - 20

def rtPrio (prio : Int) : Prop := prio < maxRtPrio

instance (prio : Int) : Decidable (rtPrio prio) := inferInstanceAs (Decidable (_ < _))

theorem rtPrio_iff (prio : Int) : rtPrio prio ↔ prio < 100 := Iff.rfl

def rtPolicy : Policy → Bool
  | .fifo | .rr => true
  | _ => false

structure SchedEntity where
  execStart : Nat
  sumExecRuntime : Nat
  deriving DecidableEq

structure SchedRtEntity where
  timeSlice : Nat
  nrCpusAllowed : Nat
  /-- The group of the `rt_rq` that `rt.rt_rq` and `rt.parent` lead to; the CPU
  is that of the task. -/
  rtRq : Group
  deriving DecidableEq

structure SchedWrrEntity where
  weight : Nat
  timeSlice : Nat
  nrCpusAllowed : Nat
  deriving DecidableEq

structure Cred where
  userNs : Nat
  euid : Nat
  uid : Nat
  deriving DecidableEq

structure TaskStruct where
  state : Nat
  onCpu : Bool
  onRq : Bool
  cpu : Cpu
  prio : Int
  staticPrio : Int
  normalPrio : Int
  rtPriority : Nat
  schedClass : SchedClass
  policy : Policy
  rt : SchedRtEntity
  wrr : SchedWrrEntity
  schedTaskGroup : Group
  /-- `task_subsys_state(p, cpu_cgroup_subsys_id)`, kept by the cgroup core. -/
  cpuCgroup : Group
  cpusAllowed : Cpumask
  mm : Bool
  schedResetOnFork : Bool
  cred : Cred
  rlimitRtprio : Nat
  rlimitNice : Nat

def taskHasRtPolicy (task : TaskStruct) : Bool := rtPolicy task.policy

def normalPrio (task : TaskStruct) : Int :=
  if taskHasRtPolicy task then maxRtPrio - 1 - task.rtPriority else task.staticPrio

/-- `effective_prio`, with its store to `normal_prio`; the caller assigns `prio`. -/
def effectivePrio (task : TaskStruct) : TaskStruct :=
  let task := { task with normalPrio := normalPrio task }
  -- a boosted task keeps the priority it was lent
  { task with prio := if rtPrio task.prio then task.prio else task.normalPrio }

/-- `rt_mutex_getprio`: the normal priority, or that of the top PI waiter when
it is smaller. `waiter` is the priority of that waiter, `none` without waiters. -/
def rtMutexGetprio (waiter : Option Nat) (task : TaskStruct) : Int :=
  match waiter with
  | none => task.normalPrio
  | some prio => min (prio : Int) task.normalPrio

/-- The if-chain by which `__setscheduler` and `rt_mutex_setprio` choose the class. -/
def classFor (policy : Policy) (prio : Int) : SchedClass :=
  if policy = .wrr then .wrr else if rtPrio prio then .rt else .fair

def setscheduler (waiter : Option Nat) (policy : Policy) (prio : Nat) (task : TaskStruct) :
    TaskStruct :=
  let task := { task with policy := policy, rtPriority := prio }
  let task := { task with normalPrio := normalPrio task }
  let task := { task with prio := rtMutexGetprio waiter task }
  { task with schedClass := classFor policy task.prio }

def setEffectivePrio (prio : Int) (task : TaskStruct) : TaskStruct :=
  { task with schedClass := classFor task.policy prio, prio := prio }

def schedForkGoldfish (current : TaskStruct) : TaskStruct :=
  let task := { current with onRq := false, onCpu := false, state := 0,
                             prio := current.normalPrio }
  let task :=
    if task.schedResetOnFork then
      let task :=
        -- WRR is not an RT policy, so a WRR child keeps it here
        if taskHasRtPolicy task then
          { task with policy := .normal, staticPrio := niceToPrio 0, rtPriority := 0 }
        else if prioToNice task.staticPrio < 0 then
          { task with staticPrio := niceToPrio 0 }
        else task
      { task with prio := task.staticPrio, normalPrio := task.staticPrio,
                  schedResetOnFork := false }
    else task
  -- any class but RT becomes the fair one, a WRR class as well
  if rtPrio task.prio then task else { task with schedClass := .fair }

/-- `sched_fork` of 3.1 with the WRR branch; the test after it overwrites the class. -/
def schedForkTegra (current : TaskStruct) : TaskStruct :=
  let task := { current with onRq := false, onCpu := false, state := 0 }
  let task :=
    if task.schedResetOnFork then
      let task :=
        if task.policy = .fifo ∨ task.policy = .rr then
          { task with policy := .normal, normalPrio := task.staticPrio }
        else task
      let task :=
        if prioToNice task.staticPrio < 0 then
          { task with staticPrio := niceToPrio 0, normalPrio := niceToPrio 0 }
        else task
      { task with schedResetOnFork := false }
    else task
  let task := { task with prio := current.normalPrio }
  let task : TaskStruct :=
    if task.policy = Policy.wrr then { task with schedClass := .wrr } else task
  if rtPrio task.prio then task else { task with schedClass := .fair }

def schedFork : Kernel → TaskStruct → TaskStruct
  | .goldfish => schedForkGoldfish
  | .tegra => schedForkTegra

end AndroidKernel
