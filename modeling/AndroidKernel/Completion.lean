import Mathlib.Data.List.Nodup
import AndroidKernel.Operations
import AndroidKernel.Transition

/-!
Wait queues and completions: `__wake_up_common`, `do_wait_for_common`,
`complete` and their relatives, the same text in `core.c` of 3.4 and `sched.c`
of 3.1. What runs under `x->wait.lock` is one step, so a wait is one step up to
each sleep. `schedule_timeout` is a parameter, as `kernel/timer.c` is not in the
tree; the insertion and removal on wait queues follow their documentation.
-/

namespace AndroidKernel.Completion

def taskInterruptible : Nat := 1
def taskUninterruptible : Nat := 2
def taskWakekill : Nat := 128
def taskKillable : Nat := taskWakekill ||| taskUninterruptible
def taskNormal : Nat := taskInterruptible ||| taskUninterruptible

def maxScheduleTimeout : Int := 2 ^ 31 - 1

def erestartsys : Int := 512

def uintMax : Nat := 2 ^ 32 - 1

/-- `wait_queue_t`, whose `func` is an argument of the scan. -/
structure WaitEntry where
  exclusive : Bool
  task : Pid
deriving DecidableEq

/-- `__wake_up_common`; `func` answers whether it woke the task. -/
def wakeUpCommon {World : Type*} (func : WaitEntry → World → World × Bool) :
    List WaitEntry → Int → World → World
  | [], _, world => world
  | curr :: rest, nrExclusive, world =>
      let (world, woken) := func curr world
      if woken && curr.exclusive then
        if nrExclusive - 1 = 0 then world else wakeUpCommon func rest (nrExclusive - 1) world
      else wakeUpCommon func rest nrExclusive world

def defaultWakeFunction (mode : Nat) (curr : WaitEntry) (state : Pid → Nat) :
    (Pid → Nat) × Bool :=
  if state curr.task &&& mode = 0 then (state, false)
  else (Function.update state curr.task 0, true)

/-- The same on the scheduler; `dest` is what `select_task_rq` answers. -/
def defaultWakeTask (env : Env) (dest : Pid → Cpu) (mode : Nat) (curr : WaitEntry) (s : Sched) :
    Sched × Bool :=
  (tryToWakeUp env s curr.task mode (dest curr.task),
    decide ((s.task curr.task).state &&& mode ≠ 0))

/-- A thread inside `do_wait_for_common`: its arguments, the variable `timeout`
and when it last called `schedule_timeout`. `since` is when it came. -/
structure Wait where
  timeout : Int
  state : Nat
  since : Nat
  left : Int
  slept : Nat
deriving DecidableEq

structure State where
  done : Nat
  /-- `x->wait.task_list`. -/
  taskList : List WaitEntry
  inside : Pid → Option Wait
  state : Pid → Nat
  /-- `TIF_SIGPENDING`. -/
  sigpending : Pid → Bool
  /-- `SIGKILL` in `p->pending`. -/
  sigkill : Pid → Bool
  /-- The ticks so far. -/
  jiffies : Nat
  /-- What the completion was given so far, and how many waits have taken it. -/
  posted : Nat
  granted : Nat

def signalPendingState (s : State) (state : Nat) (p : Pid) : Bool :=
  if state &&& (taskInterruptible ||| taskWakekill) = 0 then false
  else if !s.sigpending p then false
  else state &&& taskInterruptible ≠ 0 || s.sigkill p

/-- What `schedule_timeout` returns to a thread that asked for a timeout, by the
ticks that had come when it went to sleep and when it runs again. -/
abbrev ScheduleTimeout := Int → Nat → Nat → Int

/-- What `schedule_timeout` is documented to return: `MAX_SCHEDULE_TIMEOUT` when
asked for that, else the time that remains, or 0 if the timer expired. -/
structure TimeoutSpec (scheduleTimeout : ScheduleTimeout) : Prop where
  endless : ∀ slept now, scheduleTimeout maxScheduleTimeout slept now = maxScheduleTimeout
  remaining : ∀ timeout (slept now : Nat), 0 ≤ timeout → timeout < maxScheduleTimeout →
    slept ≤ now → scheduleTimeout timeout slept now = max 0 (slept + timeout - now)

def take (s : State) (timeout : Int) : State × Option Int :=
  ({ s with done := s.done - 1, granted := s.granted + 1 },
    some (if timeout = 0 then 1 else timeout))

def leave (s : State) (p : Pid) (timeout : Int) : State × Option Int :=
  let s := { s with
    taskList := s.taskList.filter fun entry => entry.task ≠ p
    inside := Function.update s.inside p none }
  if s.done = 0 then (s, some timeout) else take s timeout

def iterate (s : State) (p : Pid) (wait : Wait) : State × Option Int :=
  if signalPendingState s wait.state p then leave s p (-erestartsys)
  else
    ({ s with
      state := Function.update s.state p wait.state
      inside := Function.update s.inside p (some { wait with slept := s.jiffies }) }, none)

def doWaitForCommon (s : State) (p : Pid) (timeout : Int) (state : Nat) : State × Option Int :=
  if s.done = 0 then
    let s := { s with taskList := s.taskList ++ [⟨true, p⟩] }
    iterate s p { timeout, state, since := s.jiffies, left := timeout, slept := s.jiffies }
  else take s timeout

def resume (scheduleTimeout : ScheduleTimeout) (s : State) (p : Pid) (wait : Wait) :
    State × Option Int :=
  let left := scheduleTimeout wait.left wait.slept s.jiffies
  if s.done = 0 ∧ left ≠ 0 then iterate s p { wait with left } else leave s p left

/-- The arguments with which the calls of the interface reach `wait_for_common`. -/
structure Call where
  timeout : Int
  state : Nat

def waitForCompletion : Call := ⟨maxScheduleTimeout, taskUninterruptible⟩

/-- An `unsigned long` becomes a `long`. -/
def waitForCompletionTimeout (timeout : BitVec 32) : Call := ⟨timeout.toInt, taskUninterruptible⟩

def waitForCompletionInterruptible : Call := ⟨maxScheduleTimeout, taskInterruptible⟩

def waitForCompletionInterruptibleTimeout (timeout : BitVec 32) : Call :=
  ⟨timeout.toInt, taskInterruptible⟩

def waitForCompletionKillable : Call := ⟨maxScheduleTimeout, taskKillable⟩

def waitForCompletionKillableTimeout (timeout : BitVec 32) : Call := ⟨timeout.toInt, taskKillable⟩

inductive IsCall : Call → Prop where
  | plain : IsCall waitForCompletion
  | timeout (timeout) : IsCall (waitForCompletionTimeout timeout)
  | interruptible : IsCall waitForCompletionInterruptible
  | interruptibleTimeout (timeout) : IsCall (waitForCompletionInterruptibleTimeout timeout)
  | killable : IsCall waitForCompletionKillable
  | killableTimeout (timeout) : IsCall (waitForCompletionKillableTimeout timeout)

def complete (s : State) : State :=
  { s with
    done := (s.done + 1) % 2 ^ 32
    posted := s.posted + 1
    state := wakeUpCommon (defaultWakeFunction taskNormal) s.taskList 1 s.state }

def completeAll (s : State) : State :=
  { s with
    done := (s.done + uintMax / 2) % 2 ^ 32
    posted := s.posted + uintMax / 2
    state := wakeUpCommon (defaultWakeFunction taskNormal) s.taskList 0 s.state }

def tryWaitForCompletion (s : State) : State × Bool :=
  if s.done = 0 then (s, false)
  else ({ s with done := s.done - 1, granted := s.granted + 1 }, true)

inductive Op
  | wait (p : Pid) (call : Call)
  | resume (p : Pid)
  | tryWait
  | complete
  | completeAll
  /-- `try_to_wake_up` by somebody else: a timer, a signal, `__schedule` itself. -/
  | wake (p : Pid) (mode : Nat)
  | signals (p : Pid) (pending kill : Bool)
  | tick
  /-- A thread that does not wait here sleeps or wakes for its own reasons. -/
  | elsewhere (p : Pid) (state : Nat)

def step (scheduleTimeout : ScheduleTimeout) (s : State) : Op → Option State
  | .wait p call =>
      if s.inside p = none ∧ s.state p = 0 then
        some (doWaitForCommon s p call.timeout call.state).1
      else none
  | .resume p =>
      match s.inside p with
      | none => none
      | some wait => if s.state p = 0 then some (resume scheduleTimeout s p wait).1 else none
  | .tryWait => some (tryWaitForCompletion s).1
  | .complete => some (complete s)
  | .completeAll => some (completeAll s)
  | .wake p mode => some { s with state := (defaultWakeFunction mode ⟨true, p⟩ s.state).1 }
  | .signals p pending kill =>
      some { s with
        sigpending := Function.update s.sigpending p pending
        sigkill := Function.update s.sigkill p kill }
  | .tick => some { s with jiffies := s.jiffies + 1 }
  | .elsewhere p state =>
      if s.inside p = none then some { s with state := Function.update s.state p state } else none

/-- Only the calls of the interface reach `do_wait_for_common`. -/
def Allowed (_ : State) : Op → Prop
  | .wait _ call => IsCall call
  | _ => True

structure Init (s : State) : Prop where
  done : s.done = 0
  taskList : s.taskList = []
  inside : ∀ p, s.inside p = none
  posted : s.posted = 0
  granted : s.granted = 0

end AndroidKernel.Completion
