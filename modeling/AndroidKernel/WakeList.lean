import AndroidKernel.Operations
import AndroidKernel.Transition

/-!
Wake-ups that are queued for another CPU: `try_to_wake_up` puts the task on the
lock-free list `rq->wake_list` and sends an interrupt when the list was empty;
`scheduler_ipi` takes the whole list and activates its tasks. The tasks are
linked through `wake_entry`. Pushing is the loop of `ttwu_queue_remote` in 3.1
and of `llist_add` in 3.4. One step is what no other CPU can see in parts: an
access to the list, or what runs under a lock. Interrupts are off in between,
so a CPU is in one place of this code at a time. Left out are the wait until
`p->on_cpu` is clear, `try_to_wake_up_local`, by which `__schedule` wakes a
worker of its own runqueue without the list, `ttwu_activate_remote` of an
`__ARCH_WANT_INTERRUPTS_ON_CTXSW` build, and the statistics.
-/

namespace AndroidKernel.WakeList

inductive Pc
  | free
  /-- `try_to_wake_up` holds `p->pi_lock` and found the state of `p` in its mask. -/
  | checked (p : Pid)
  /-- It has set `TASK_WAKING`. -/
  | placing (p : Pid)
  /-- In the loop around `cmpxchg`, with the head read last. -/
  | pushing (p : Pid) (dest : Cpu) (next : Option Pid)
  /-- Before `smp_send_reschedule`. -/
  | sending (p : Pid) (dest : Cpu)
  /-- In `scheduler_ipi`. -/
  | entered
  /-- The loop over the list that was taken. -/
  | draining (list : Option Pid)
deriving DecidableEq

structure State where
  state : Pid → Nat
  onRq : Pid → Bool
  cpu : Pid → Cpu
  wakeEntry : Pid → Option Pid
  /-- The CPU that holds the lock. -/
  piLock : Pid → Option Cpu
  wakeList : Cpu → Option Pid
  ipi : Cpu → Bool
  online : Cpu → Bool
  pc : Cpu → Pc
  /-- How often `TASK_WAKING` was set, and how often the task was activated. -/
  begun : Pid → Nat
  activated : Pid → Nat

def setPc (s : State) (c : Cpu) (pc : Pc) : State := { s with pc := Function.update s.pc c pc }

def unlock (s : State) (p : Pid) : State := { s with piLock := Function.update s.piLock p none }

def ttwuDoActivate (s : State) (p : Pid) : State :=
  { s with
    onRq := Function.update s.onRq p true
    state := Function.update s.state p 0
    activated := Function.update s.activated p (s.activated p + 1) }

def tryToWakeUp (s : State) (w : Cpu) (p : Pid) (mask : Nat) : State :=
  if s.state p &&& mask = 0 then s
  else setPc { s with piLock := Function.update s.piLock p (some w) } w (.checked p)

/-- `ttwu_remote` where the task is still queued, and else up to `select_task_rq`. A task
that is not queued is only put back by the CPU that holds its `pi_lock`. -/
def ttwuRemote (s : State) (w : Cpu) (p : Pid) : State :=
  if s.onRq p then setPc (unlock { s with state := Function.update s.state p 0 } p) w .free
  else
    setPc
      { s with
        state := Function.update s.state p taskWaking
        begun := Function.update s.begun p (s.begun p + 1) }
      w (.placing p)

def ttwuQueue (s : State) (w : Cpu) (p : Pid) (dest : Cpu) (remote : Bool) : State :=
  let s := { s with cpu := Function.update s.cpu p dest }
  if remote then setPc s w (.pushing p dest (s.wakeList dest))
  else setPc (unlock (ttwuDoActivate s p) p) w .free

/-- One turn of the loop. Until it succeeds, `wake_entry` is seen by nobody else. -/
def cmpxchg (s : State) (w : Cpu) (p : Pid) (dest : Cpu) (next : Option Pid) : State :=
  let s := { s with wakeEntry := Function.update s.wakeEntry p next }
  if s.wakeList dest = next then
    let s := { s with wakeList := Function.update s.wakeList dest (some p) }
    if next = none then setPc s w (.sending p dest) else setPc (unlock s p) w .free
  else setPc s w (.pushing p dest (s.wakeList dest))

def smpSendReschedule (s : State) (w : Cpu) (p : Pid) (dest : Cpu) : State :=
  setPc (unlock { s with ipi := Function.update s.ipi dest true } p) w .free

/-- `xchg` of the list with the empty one. Leaving early when it is empty, as 3.4 tests
before and 3.1 after, is draining nothing. -/
def takeList (s : State) (c : Cpu) : State :=
  setPc { s with wakeList := Function.update s.wakeList c none } c (.draining (s.wakeList c))

/-- One turn of the loop of `sched_ttwu_pending`, which reads on before it activates. -/
def drainOne (s : State) (c : Cpu) (p : Pid) : State :=
  ttwuDoActivate (setPc s c (.draining (s.wakeEntry p))) p

inductive Op
  | wake (w : Cpu) (p : Pid) (mask : Nat)
  | remote (w : Cpu)
  | queue (w dest : Cpu) (remote : Bool)
  | push (w : Cpu)
  | send (w : Cpu)
  | interrupt (c : Cpu)
  | take (c : Cpu)
  | drain (c : Cpu)
  /-- A task that runs sets its state. -/
  | setState (p : Pid) (state : Nat)
  /-- `__schedule` takes a task off that does not want to run. -/
  | deschedule (p : Pid)
  /-- A queued task moves to another CPU. -/
  | migrate (p : Pid) (dest : Cpu)
  /-- `CPU_DYING` runs while all CPUs are stopped. -/
  | dying (c : Cpu)
  | online (c : Cpu)

variable (nrCpuIds : Nat)

/-- No mask and no state that a task sets has the bit of `TASK_WAKING`. -/
def step (s : State) : Op → Option State
  | .wake w p mask =>
      if s.pc w = .free ∧ s.piLock p = none ∧ mask &&& taskWaking = 0 ∧ w < nrCpuIds then
        some (tryToWakeUp s w p mask)
      else none
  | .remote w =>
      match s.pc w with
      | .checked p => some (ttwuRemote s w p)
      | _ => none
  | .queue w dest remote =>
      match s.pc w with
      | .placing p => if s.online dest then some (ttwuQueue s w p dest remote) else none
      | _ => none
  | .push w =>
      match s.pc w with
      | .pushing p dest next => some (cmpxchg s w p dest next)
      | _ => none
  | .send w =>
      match s.pc w with
      | .sending p dest => some (smpSendReschedule s w p dest)
      | _ => none
  | .interrupt c =>
      if s.ipi c = true ∧ s.pc c = .free ∧ s.online c = true then
        some (setPc { s with ipi := Function.update s.ipi c false } c .entered)
      else none
  | .take c => if s.pc c = .entered then some (takeList s c) else none
  | .drain c =>
      match s.pc c with
      | .draining (some p) => some (drainOne s c p)
      | .draining none => some (setPc s c .free)
      | _ => none
  | .setState p state =>
      if s.onRq p = true ∧ state &&& taskWaking = 0 then
        some { s with state := Function.update s.state p state }
      else none
  | .deschedule p =>
      if s.onRq p = true ∧ s.state p ≠ 0 then
        some { s with onRq := Function.update s.onRq p false }
      else none
  | .migrate p dest =>
      if s.onRq p = true then some { s with cpu := Function.update s.cpu p dest } else none
  | .dying c =>
      if (∀ w < nrCpuIds, s.pc w = .free) ∧ s.pc c = .free then
        some (takeList { s with online := Function.update s.online c false } c)
      else none
  | .online c => some { s with online := Function.update s.online c true }

structure Init (s : State) : Prop where
  state : ∀ p, s.state p ≠ taskWaking
  piLock : ∀ p, s.piLock p = none
  wakeList : ∀ c, s.wakeList c = none
  pc : ∀ c, s.pc c = .free
  begun : ∀ p, s.begun p = 0
  activated : ∀ p, s.activated p = 0

end AndroidKernel.WakeList
