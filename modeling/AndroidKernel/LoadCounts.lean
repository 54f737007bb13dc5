import AndroidKernel.Completion
import AndroidKernel.LoadAverage

/-!
What the load averages are fed with. Every runqueue counts the tasks that went
into an uninterruptible sleep on it less those that were woken onto it, and
`calc_load_fold_active` passes on by how much a CPU's share of active tasks has
changed. One step is what runs under a runqueue lock or one atomic access; a
change on its way to a counter is with the CPU that carries it. How a class
keeps `nr_running` is of no concern here.
-/

namespace AndroidKernel.LoadCounts

open Completion (taskUninterruptible taskNormal)
open LoadAverage (Word)

structure Machine where
  kernel : Kernel
  smp : Bool
  cpus : Finset Cpu
  tasks : Finset Pid

structure State where
  state : Pid → Nat
  /-- `PF_FROZEN`, in 3.1 `PF_FREEZING`. -/
  frozen : Pid → Bool
  onRq : Pid → Bool
  onCpu : Pid → Bool
  cpu : Pid → Cpu
  schedContributesToLoad : Pid → Bool
  /-- Between a `deactivate_task` that leaves `on_rq` set and its `activate_task`. -/
  lifted : Pid → Bool
  nrRunning : Cpu → Word
  nrUninterruptible : Cpu → Word
  calcLoadActive : Cpu → Word
  calcLoadTasks : Word
  /-- `calc_load_idle`; 3.1 has one counter, `calc_load_tasks_idle`. -/
  calcLoadIdle : Bool → Word
  /-- What a CPU has folded and not yet added to a counter. -/
  carried : Cpu → Word

def taskContributesToLoad (s : State) (p : Pid) : Bool :=
  s.state p &&& taskUninterruptible != 0 && !s.frozen p

def activateTask (s : State) (c : Cpu) (p : Pid) : State :=
  if taskContributesToLoad s p then
    { s with nrUninterruptible :=
        Function.update s.nrUninterruptible c (s.nrUninterruptible c - 1) }
  else s

def deactivateTask (s : State) (c : Cpu) (p : Pid) : State :=
  if taskContributesToLoad s p then
    { s with nrUninterruptible :=
        Function.update s.nrUninterruptible c (s.nrUninterruptible c + 1) }
  else s

def setOnRq (s : State) (p : Pid) (queued : Bool) : State :=
  { s with onRq := Function.update s.onRq p queued }

def setLifted (s : State) (p : Pid) (lifted : Bool) : State :=
  { s with lifted := Function.update s.lifted p lifted }

def setTaskCpu (s : State) (p : Pid) (c : Cpu) : State :=
  { s with cpu := Function.update s.cpu p c }

def setState (s : State) (p : Pid) (state : Nat) : State :=
  { s with state := Function.update s.state p state }

def ttwuActivate (s : State) (c : Cpu) (p : Pid) : State :=
  setState (setOnRq (activateTask s c p) p true) p 0

def ttwuDoActivate (m : Machine) (s : State) (c : Cpu) (p : Pid) : State :=
  ttwuActivate
    (if m.smp && s.schedContributesToLoad p then
      { s with nrUninterruptible :=
          Function.update s.nrUninterruptible c (s.nrUninterruptible c - 1) }
    else s) c p

/-- The middle of `try_to_wake_up` in the SMP build, where the task is given a CPU. -/
def ttwuPlace (s : State) (p : Pid) (dest : Cpu) : State :=
  let s := { s with
    schedContributesToLoad :=
      Function.update s.schedContributesToLoad p (taskContributesToLoad s p) }
  setTaskCpu (setState s p taskWaking) p dest

/-- `migrate_nr_uninterruptible` and `calc_global_load_remove`. -/
def cpuDying (s : State) (c dest : Cpu) : State :=
  let gathered := Function.update s.nrUninterruptible dest
    (s.nrUninterruptible dest + s.nrUninterruptible c)
  { s with
    nrUninterruptible := Function.update gathered c 0
    calcLoadTasks := s.calcLoadTasks - s.calcLoadActive c
    calcLoadActive := Function.update s.calcLoadActive c 0 }

def calcLoadFoldActive (s : State) (c : Cpu) : State :=
  let nrActive := s.nrRunning c + s.nrUninterruptible c
  { s with
    calcLoadActive := Function.update s.calcLoadActive c nrActive
    carried := Function.update s.carried c (s.carried c + (nrActive - s.calcLoadActive c)) }

def calcLoadFoldIdle (s : State) (c : Cpu) (idx : Bool) : State :=
  { s with
    carried := Function.update s.carried c (s.carried c + s.calcLoadIdle idx)
    calcLoadIdle := Function.update s.calcLoadIdle idx 0 }

def addTasks (s : State) (c : Cpu) : State :=
  { s with
    calcLoadTasks := s.calcLoadTasks + s.carried c
    carried := Function.update s.carried c 0 }

def addIdle (s : State) (c : Cpu) (idx : Bool) : State :=
  { s with
    calcLoadIdle := Function.update s.calcLoadIdle idx (s.calcLoadIdle idx + s.carried c)
    carried := Function.update s.carried c 0 }

/-- `calc_load_account_active` folds its own share, in 3.1 the idle counter too, and adds
to the tasks; going idle folds the share and adds it to an idle counter;
`calc_global_load` begins with folding an idle counter and adding it to the tasks. -/
inductive Op
  /-- The current task, which runs on some CPU. -/
  | setCurrentState (p : Pid) (state : Nat)
  | freeze (p : Pid) (frozen : Bool)
  | switchIn (p : Pid)
  | switchOut (p : Pid)
  /-- `__schedule` for a task that does not want to run. -/
  | sleep (p : Pid)
  /-- A queued task is taken off and put on again: to migrate it, and in 3.1 to change its
  policy, priority or nice value. -/
  | lift (p : Pid)
  | drop (p : Pid) (dest : Cpu)
  | ttwuRemote (p : Pid)
  | ttwuPlace (p : Pid) (dest : Cpu)
  | ttwuDoActivate (p : Pid)
  | tryToWakeUpLocal (p : Pid)
  | fork (p : Pid) (frozen : Bool)
  | wakeUpNewTask (p : Pid) (dest : Cpu)
  | cpuDying (c dest : Cpu)
  | setRunning (c : Cpu) (nr : Word)
  | foldActive (c : Cpu)
  | foldIdle (c : Cpu) (idx : Bool)
  | addTasks (c : Cpu)
  | addIdle (c : Cpu) (idx : Bool)

/-- When an operation can come. A runqueue lock keeps the scheduler off a lifted task, but
not the task itself, which may run. 3.4 lifts only tasks that do not: where a running task
is changed it calls `dequeue_task` and `enqueue_task`, which do not count. -/
def Enabled (m : Machine) (s : State) : Op → Prop
  | .setCurrentState p state => p ∈ m.tasks ∧ s.onRq p ∧ s.onCpu p ∧ state ≠ taskWaking
  | .freeze p _ => p ∈ m.tasks ∧ s.onRq p ∧ s.onCpu p
  | .switchIn p => p ∈ m.tasks ∧ s.onRq p ∧ ¬ s.lifted p
  | .switchOut p => p ∈ m.tasks
  | .sleep p => p ∈ m.tasks ∧ s.onRq p ∧ s.onCpu p ∧ ¬ s.lifted p ∧ s.state p ≠ 0
  | .lift p => p ∈ m.tasks ∧ s.onRq p ∧ ¬ s.lifted p ∧ (m.kernel = .goldfish → ¬ s.onCpu p)
  | .drop p dest => p ∈ m.tasks ∧ s.onRq p ∧ s.lifted p ∧ dest ∈ m.cpus
  | .ttwuRemote p => p ∈ m.tasks ∧ s.onRq p ∧ ¬ s.lifted p
  | .ttwuPlace p dest =>
      p ∈ m.tasks ∧ m.smp ∧ ¬ s.onRq p ∧ ¬ s.onCpu p ∧ s.state p ≠ 0 ∧ s.state p ≠ taskWaking ∧
        dest ∈ m.cpus
  | .ttwuDoActivate p =>
      p ∈ m.tasks ∧ ¬ s.onRq p ∧ s.state p ≠ 0 ∧ (m.smp ↔ s.state p = taskWaking)
  | .tryToWakeUpLocal p =>
      p ∈ m.tasks ∧ ¬ s.onRq p ∧ s.state p &&& taskNormal ≠ 0 ∧ s.state p ≠ taskWaking
  | .fork p _ =>
      p ∈ m.tasks ∧ ¬ s.onRq p ∧ ¬ s.onCpu p ∧ s.state p ≠ taskWaking ∧
        taskContributesToLoad s p = false
  | .wakeUpNewTask p dest => p ∈ m.tasks ∧ ¬ s.onRq p ∧ s.state p = 0 ∧ dest ∈ m.cpus
  | .cpuDying c dest => c ∈ m.cpus ∧ dest ∈ m.cpus ∧ dest ≠ c
  | .setRunning c _ | .foldActive c | .foldIdle c _ | .addTasks c | .addIdle c _ => c ∈ m.cpus

instance (m : Machine) (s : State) (op : Op) : Decidable (Enabled m s op) := by
  cases op <;> unfold Enabled <;> infer_instance

def apply (m : Machine) (s : State) : Op → State
  | .setCurrentState p state => setState s p state
  | .freeze p frozen => { s with frozen := Function.update s.frozen p frozen }
  | .switchIn p => { s with onCpu := Function.update s.onCpu p true }
  | .switchOut p => { s with onCpu := Function.update s.onCpu p false }
  | .sleep p => setOnRq (deactivateTask s (s.cpu p) p) p false
  | .lift p => setLifted (deactivateTask s (s.cpu p) p) p true
  | .drop p dest => setLifted (activateTask (setTaskCpu s p dest) dest p) p false
  | .ttwuRemote p => setState s p 0
  | .ttwuPlace p dest => ttwuPlace s p dest
  | .ttwuDoActivate p => ttwuDoActivate m s (s.cpu p) p
  | .tryToWakeUpLocal p => ttwuActivate s (s.cpu p) p
  | .fork p frozen => setState { s with frozen := Function.update s.frozen p frozen } p 0
  | .wakeUpNewTask p dest =>
      setOnRq (activateTask (setTaskCpu s p dest) dest p) p true
  | .cpuDying c dest => cpuDying s c dest
  | .setRunning c nr => { s with nrRunning := Function.update s.nrRunning c nr }
  | .foldActive c => calcLoadFoldActive s c
  | .foldIdle c idx => calcLoadFoldIdle s c idx
  | .addTasks c => addTasks s c
  | .addIdle c idx => addIdle s c idx

def step (m : Machine) (s : State) (op : Op) : Option State :=
  if Enabled m s op then some (apply m s op) else none

structure Init (m : Machine) (s : State) : Prop where
  onRq : ∀ p ∈ m.tasks, s.onRq p = false
  onCpu : ∀ p ∈ m.tasks, s.onCpu p = false
  lifted : ∀ p ∈ m.tasks, s.lifted p = false
  state : ∀ p ∈ m.tasks, s.state p = 0
  cpu : ∀ p ∈ m.tasks, s.cpu p ∈ m.cpus
  nrUninterruptible : ∀ c ∈ m.cpus, s.nrUninterruptible c = 0
  calcLoadActive : ∀ c ∈ m.cpus, s.calcLoadActive c = 0
  calcLoadTasks : s.calcLoadTasks = 0
  calcLoadIdle : ∀ idx, s.calcLoadIdle idx = 0
  carried : ∀ c ∈ m.cpus, s.carried c = 0

def nrUninterruptible (m : Machine) (s : State) : Word :=
  let sum := ∑ c ∈ m.cpus, s.nrUninterruptible c
  if sum.toInt < 0 then 0 else sum

end AndroidKernel.LoadCounts
