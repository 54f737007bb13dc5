import AndroidKernel.System

/-!
A concrete machine on which results are tried: even pids are the idle tasks,
odd pids are sleeping user tasks of the fair class. The fair class picks the
head of its queue and never preempts.
-/

namespace AndroidKernel.Boot

def fair : FairClass where
  pickNextTask s c := (s.rq c).cfs.queue.head?
  picks_queued _ _ _ found := List.mem_of_mem_head? (Option.mem_def.mpr found)
  picks_some _ _ empty := List.head?_eq_none_iff.mp empty
  checkPreemptCurr _ _ _ := false
  taskTick _ _ := false
  prioChanged _ _ _ _ := false
  updateCurr clockTask se :=
    { execStart := clockTask
      sumExecRuntime := se.sumExecRuntime + (clockTask - se.execStart) }

/-- Group 0 is the root group, group 1 the background group of Android. -/
def groupPath : Group → List Char
  | 0 => ['/']
  | 1 => ['/', 'b', 'g']
  | _ => ['/', 'f', 'g']

def groups : RtGroups.Hierarchy Group where
  root := 0
  parent _ := 0
  above g := if g = 0 then [] else [g]
  height := 1
  above_root := rfl
  above_cons g notRoot := by rw [if_neg notRoot, if_pos rfl]
  bounded g := by split_ifs <;> simp

def env (kernel : Kernel) (smp : Bool) : Env where
  kernel := kernel
  smp := smp
  hz := 100
  groupPath := groupPath
  elapsed _ _ := 10
  nrCpuIds := 2
  cpuOnline := {0, 1}
  cpuActive := {0, 1}
  groups := groups
  rtBandwidthEnabled := true
  rtPeriod _ := 1000000000
  rtBandwidthRuntime _ := 950000000
  taskGroupIsAutogroup _ := false
  cpupriFind _ _ := false
  fair := fair

def idleTask (c : Cpu) : TaskStruct where
  state := 0
  onCpu := true
  onRq := false
  cpu := c
  prio := 140
  staticPrio := 120
  normalPrio := 120
  rtPriority := 0
  schedClass := .idle
  policy := .normal
  rt := { timeSlice := 10, nrCpusAllowed := 1, rtRq := 0 }
  wrr := { weight := 0, timeSlice := 10, nrCpusAllowed := 1 }
  schedTaskGroup := 0
  cpuCgroup := 0
  cpusAllowed := {c}
  mm := false
  schedResetOnFork := false
  cred := { userNs := 0, euid := 0, uid := 0 }
  rlimitRtprio := 0
  rlimitNice := 0

def userTask : TaskStruct where
  state := 1
  onCpu := false
  onRq := false
  cpu := 0
  prio := 120
  staticPrio := 120
  normalPrio := 120
  rtPriority := 0
  schedClass := .fair
  policy := .normal
  rt := { timeSlice := 10, nrCpusAllowed := 2, rtRq := 0 }
  wrr := { weight := 0, timeSlice := 10, nrCpusAllowed := 2 }
  schedTaskGroup := 0
  cpuCgroup := 0
  cpusAllowed := {0, 1}
  mm := true
  schedResetOnFork := false
  cred := { userNs := 0, euid := 7, uid := 7 }
  rlimitRtprio := 0
  rlimitNice := 0

def task (p : Pid) : TaskStruct := if p % 2 = 0 then idleTask (p / 2) else userTask

def emptyRq (c : Cpu) : Rq where
  nrRunning := 0
  cfs := { queue := [], hNrRunning := 0 }
  wrr := initWrrRq
  curr := 2 * c
  idle := 2 * c
  stop := none

def emptyRt : RtQueues where
  rq _ :=
    { active := .empty, rtNrRunning := 0, rtNrBoosted := 0, highestPrio := RtGroups.maxRtPrio,
      rtThrottled := false }
  onRtRq _ := false
  leafRtRqList := []
  warned := false

def state : Sched where
  task := task
  rq := emptyRq
  rt _ := emptyRt
  needResched _ := false
  se _ := { execStart := 0, sumExecRuntime := 0 }
  clock _ := { clockTask := 100, reads := 0 }
  rtTime _ _ := { rtTime := 0, rtRuntime := 950000000 }
  acct _ := { charged := fun _ => 0, ran := fun _ => 0 }

theorem task_idle (c : Cpu) : task (2 * c) = idleTask c := by
  simp [task]

theorem task_cases (p : Pid) : (∃ c, p = 2 * c ∧ task p = idleTask c) ∨ task p = userTask := by
  by_cases even : p % 2 = 0
  · exact Or.inl ⟨p / 2, (Nat.mul_div_cancel' (Nat.dvd_of_mod_eq_zero even)).symm,
      by simp [task, even]⟩
  · exact Or.inr (by simp [task, even])

theorem state_init : Init state where
  empty c := ⟨rfl, rfl, rfl, rfl⟩
  rt_empty c := ⟨fun _ => ⟨rfl, rfl, rfl, rfl⟩, fun _ => rfl, rfl⟩
  asleep p := by
    rcases task_cases p with ⟨c, -, idle⟩ | user
    · simp [state, idle, idleTask]
    · simp [state, user, userTask]
  idle_class c := by
    simp [state, emptyRq, task_idle, idleTask]
  idle_unique p isIdle := by
    rcases task_cases p with ⟨c, rfl, idle⟩ | user
    · simp [state, idle, idleTask, emptyRq]
    · simp [state, user, userTask] at isIdle
  stop_class c p named := by simp [state, emptyRq] at named
  stop_unique p isStop := by
    rcases task_cases p with ⟨c, -, idle⟩ | user
    · simp [state, idle, idleTask] at isStop
    · simp [state, user, userTask] at isStop
  on_cpu p := by
    by_cases even : p % 2 = 0
    · have half : 2 * (p / 2) = p := Nat.mul_div_cancel' (Nat.dvd_of_mod_eq_zero even)
      simp [state, task, even, idleTask, emptyRq, half]
    · have odd : 0 ≠ p := by
        rintro rfl
        exact even rfl
      simp [state, task, even, userTask, emptyRq, odd]
  no_charge _ _ := ⟨rfl, rfl⟩

def root : Caller where
  capSysNice := true
  cred := { userNs := 0, euid := 0, uid := 0 }
  securityRet := 0

def user : Caller where
  capSysNice := false
  cred := { userNs := 0, euid := 7, uid := 7 }
  securityRet := 0

def after (kernel : Kernel) (smp : Bool) (ops : List Op) : Option Sched :=
  Transition.runActions (step (env kernel smp)) state ops

theorem runs (kernel : Kernel) (smp : Bool) (ops : List Op)
    (done : (after kernel smp ops).isSome) :
    Transition.Run (step (env kernel smp)) (fun _ _ => True) state ops
      ((after kernel smp ops).get done) :=
  Transition.run_of_isSome state ops done

theorem reachable (kernel : Kernel) (smp : Bool) (ops : List Op)
    (done : (after kernel smp ops).isSome) :
    Reachable (env kernel smp) (fun _ _ => True) ((after kernel smp ops).get done) :=
  ⟨state, ops, state_init, runs kernel smp ops done⟩

/-- The same with a side condition on the steps. -/
theorem run (kernel : Kernel) (smp : Bool) (ok : Sched → Op → Prop)
    [∀ s op, Decidable (ok s op)] (ops : List Op) (done : (after kernel smp ops).isSome)
    (fine : Transition.allAllowed (step (env kernel smp)) ok state ops = true) :
    Transition.Run (step (env kernel smp)) ok state ops ((after kernel smp ops).get done) :=
  (runs kernel smp ops done).of_allAllowed fine

end AndroidKernel.Boot
