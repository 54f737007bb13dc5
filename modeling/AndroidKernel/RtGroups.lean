import AndroidKernel.PrioArray
import AndroidKernel.Task
import AndroidKernel.Transition

/-!
The real-time runqueues of one CPU with `CONFIG_RT_GROUP_SCHED`, the same text
in `rt.c` of 3.4 and `sched_rt.c` of 3.1: a group that has runnable entities is
itself an entity on the runqueue of its parent, at the priority of the best of
them, unless it is throttled and holds nobody boosted. `rq->lock` makes each
operation one step. Who throttles when is left to `RtBandwidth`; the counters
of migratory tasks, the pushable tasks and `resched_task` are not in this slice.
-/

namespace AndroidKernel.RtGroups

universe u

/-- The tree of task groups. `above g` are the groups whose entities
`for_each_sched_rt_entity` visits from that of `g` on; the root group has none. -/
structure Hierarchy (Group : Type u) where
  root : Group
  parent : Group → Group
  above : Group → List Group
  height : Nat
  above_root : above root = []
  above_cons : ∀ g, g ≠ root → above g = g :: above (parent g)
  bounded : ∀ g, (above g).length ≤ height

inductive Entity (Group : Type u)
  | task (p : Pid)
  | group (g : Group)
deriving DecidableEq

/-- `struct rt_rq`. `highestPrio` is `highest_prio.curr`. -/
structure GroupRq (Group : Type u) where
  active : PrioArray (Entity Group)
  rtNrRunning : Nat
  rtNrBoosted : Nat
  highestPrio : Nat
  rtThrottled : Bool

structure State (Group : Type u) where
  rq : Group → GroupRq Group
  /-- `on_rt_rq`: the entity's `run_list` is not empty. -/
  onRtRq : Entity Group → Bool
  prio : Pid → Nat
  normalPrio : Pid → Nat
  group : Pid → Group
  leafRtRqList : List Group
  /-- Some `WARN_ON` has fired. -/
  warned : Bool

def maxRtPrio : Nat := 100

variable {Group : Type u} [DecidableEq Group]

section Runqueue
variable (prio : Nat) (boosted : Bool) (rq : GroupRq Group)

def incRtPrio : GroupRq Group :=
  if prio < rq.highestPrio then { rq with highestPrio := prio } else rq

/-- Also answers whether it warns. -/
def decRtPrio : GroupRq Group × Bool :=
  if rq.rtNrRunning ≠ 0 then
    -- this may have been the highest one
    (if prio = rq.highestPrio then { rq with highestPrio := rq.active.findFirst maxRtPrio } else rq,
      prio < rq.highestPrio)
  else ({ rq with highestPrio := maxRtPrio }, false)

def incRtGroup : GroupRq Group :=
  if boosted then { rq with rtNrBoosted := rq.rtNrBoosted + 1 } else rq

def decRtGroup : GroupRq Group × Bool :=
  let rq := if boosted then { rq with rtNrBoosted := rq.rtNrBoosted - 1 } else rq
  (rq, rq.rtNrRunning = 0 ∧ rq.rtNrBoosted ≠ 0)

def incRtTasks : GroupRq Group × Bool :=
  let rq := { rq with rtNrRunning := rq.rtNrRunning + 1 }
  (incRtGroup boosted (incRtPrio prio rq), maxRtPrio ≤ prio)

def decRtTasks : GroupRq Group × Bool :=
  let wrong : Bool := maxRtPrio ≤ prio ∨ rq.rtNrRunning = 0
  let rq := { rq with rtNrRunning := rq.rtNrRunning - 1 }
  let less := decRtPrio prio rq
  let last := decRtGroup boosted less.1
  (last.1, wrong || less.2 || last.2)

/-- `pick_next_rt_entity`, with `none` where it runs into `BUG_ON`. -/
def pickNextRtEntity : Option (Entity Group) :=
  let idx := rq.active.findFirst maxRtPrio
  if idx < maxRtPrio then (rq.active.queue idx).head? else none

end Runqueue

section Entities
variable (tree : Hierarchy Group) (s : State Group)

def rtRqThrottled (g : Group) : Bool := (s.rq g).rtThrottled && (s.rq g).rtNrBoosted = 0

def rtSePrio : Entity Group → Nat
  | .task p => s.prio p
  | .group g => (s.rq g).highestPrio

def rtSeBoosted : Entity Group → Bool
  | .task p => s.prio p ≠ s.normalPrio p
  | .group g => (s.rq g).rtNrBoosted ≠ 0

def rtRqOfSe : Entity Group → Group
  | .task p => s.group p
  | .group g => tree.parent g

/-- The entities of `for_each_sched_rt_entity`, from the given one to the top. -/
def forEachSchedRtEntity : Entity Group → List (Entity Group)
  | .task p => .task p :: (tree.above (s.group p)).map .group
  | .group g => (tree.above g).map .group

def refused : Entity Group → Bool
  | .task _ => false
  | .group g => rtRqThrottled s g || (s.rq g).rtNrRunning = 0

/-- `__enqueue_rt_entity`. -/
def enqueueOne (head : Bool) (rtSe : Entity Group) : State Group :=
  if refused s rtSe then s
  else
    let g := rtRqOfSe tree s rtSe
    let rq := s.rq g
    let prio := rtSePrio s rtSe
    let inc := incRtTasks prio (rtSeBoosted s rtSe)
      { rq with active := rq.active.insert head prio rtSe }
    { s with
      rq := Function.update s.rq g inc.1
      onRtRq := Function.update s.onRtRq rtSe true
      leafRtRqList := if rq.rtNrRunning = 0 then g :: s.leafRtRqList else s.leafRtRqList
      warned := s.warned || inc.2 }

/-- `__dequeue_rt_entity`. -/
def dequeueOne (rtSe : Entity Group) : State Group :=
  let g := rtRqOfSe tree s rtSe
  let rq := s.rq g
  let prio := rtSePrio s rtSe
  let dec := decRtTasks prio (rtSeBoosted s rtSe)
    { rq with active := rq.active.remove prio rtSe }
  { s with
    rq := Function.update s.rq g dec.1
    onRtRq := Function.update s.onRtRq rtSe false
    leafRtRqList := if dec.1.rtNrRunning = 0 then s.leafRtRqList.erase g else s.leafRtRqList
    warned := s.warned || dec.2 }

end Entities

section Chains
variable (tree : Hierarchy Group)

/-- `dequeue_rt_stack` goes through the entities from the top down. -/
def dequeueRtStack (s : State Group) (entities : List (Entity Group)) : State Group :=
  entities.foldr (fun rtSe s => if s.onRtRq rtSe then dequeueOne tree s rtSe else s) s

def enqueueRtEntity (s : State Group) (rtSe : Entity Group) (head : Bool) : State Group :=
  let entities := forEachSchedRtEntity tree s rtSe
  entities.foldl (fun s rtSe => enqueueOne tree s head rtSe) (dequeueRtStack tree s entities)

def putBack (s : State Group) : Entity Group → State Group
  | .task _ => s
  | .group g => if (s.rq g).rtNrRunning ≠ 0 then enqueueOne tree s false (.group g) else s

def dequeueRtEntity (s : State Group) (rtSe : Entity Group) : State Group :=
  let entities := forEachSchedRtEntity tree s rtSe
  entities.foldl (putBack tree) (dequeueRtStack tree s entities)

def requeueRtEntity (head : Bool) (s : State Group) (rtSe : Entity Group) : State Group :=
  if s.onRtRq rtSe then
    let g := rtRqOfSe tree s rtSe
    let rq := s.rq g
    { s with
      rq := Function.update s.rq g
        { rq with active := rq.active.requeue head (rtSePrio s rtSe) rtSe } }
  else s

def requeueTaskRt (s : State Group) (p : Pid) (head : Bool) : State Group :=
  (forEachSchedRtEntity tree s (.task p)).foldl (requeueRtEntity tree head) s

def schedRtRqEnqueue (s : State Group) (g : Group) : State Group :=
  if (s.rq g).rtNrRunning ≠ 0 ∧ g ≠ tree.root ∧ ¬ s.onRtRq (.group g) then
    enqueueRtEntity tree s (.group g) false
  else s

def schedRtRqDequeue (s : State Group) (g : Group) : State Group :=
  if g ≠ tree.root ∧ s.onRtRq (.group g) then dequeueRtEntity tree s (.group g) else s

def setThrottled (s : State Group) (g : Group) (throttled : Bool) : State Group :=
  { s with rq := Function.update s.rq g { s.rq g with rtThrottled := throttled } }

/-- The end of `sched_rt_runtime_exceeded`, once the time is used up. -/
def throttle (s : State Group) (g : Group) : State Group :=
  if (s.rq g).rtThrottled then s
  else
    let s := setThrottled s g true
    if rtRqThrottled s g then schedRtRqDequeue tree s g else s

/-- `do_sched_rt_period_timer` for a group that is below its runtime again. -/
def unthrottle (s : State Group) (g : Group) : State Group :=
  if (s.rq g).rtThrottled then schedRtRqEnqueue tree (setThrottled s g false) g else s

/-- `do_sched_rt_period_timer` for a group that has used no time. -/
def timerUnused (s : State Group) (g : Group) : State Group :=
  if (s.rq g).rtNrRunning ≠ 0 ∧ ¬ rtRqThrottled s g then schedRtRqEnqueue tree s g else s

/-- `__enable_runtime`, which lets groups go and enqueues none. -/
def enableRuntime (s : State Group) : State Group :=
  { s with rq := fun g => { s.rq g with rtThrottled := false } }

def pickLoop (s : State Group) : Nat → Group → Option Pid
  | 0, _ => none
  | fuel + 1, g =>
      match pickNextRtEntity (s.rq g) with
      | none => none
      | some (.task p) => some p
      | some (.group g) => pickLoop s fuel g

/-- `_pick_next_task_rt`; the outer `none` is a `BUG_ON`. -/
def pickNextTaskRt (s : State Group) : Option (Option Pid) :=
  if (s.rq tree.root).rtNrRunning = 0 then some none
  else if rtRqThrottled s tree.root then some none
  else (pickLoop s (tree.height + 1) tree.root).map some

inductive Op (Group : Type u)
  | enqueueTask (p : Pid) (head : Bool)
  | dequeueTask (p : Pid)
  | requeueTask (p : Pid) (head : Bool)
  | throttle (g : Group)
  | unthrottle (g : Group)
  | timerUnused (g : Group)
  | enableRuntime
  /-- The core changes priorities and the group of a task that is off its queue. -/
  | setTask (p : Pid) (prio normalPrio : Nat) (group : Group)

def apply (s : State Group) : Op Group → State Group
  | .enqueueTask p head => enqueueRtEntity tree s (.task p) head
  | .dequeueTask p => dequeueRtEntity tree s (.task p)
  | .requeueTask p head => requeueTaskRt tree s p head
  | .throttle g => throttle tree s g
  | .unthrottle g => unthrottle tree s g
  | .timerUnused g => timerUnused tree s g
  | .enableRuntime => enableRuntime s
  | .setTask p prio normalPrio group =>
      { s with
        prio := Function.update s.prio p prio
        normalPrio := Function.update s.normalPrio p normalPrio
        group := Function.update s.group p group }

def Allowed (s : State Group) : Op Group → Prop
  | .enqueueTask p _ => s.prio p < maxRtPrio
  | .setTask p _ _ _ => s.onRtRq (.task p) = false
  | _ => True

def step (s : State Group) (op : Op Group) : Option (State Group) := some (apply tree s op)

structure Init (s : State Group) : Prop where
  rq : ∀ g, s.rq g =
    { active := .empty, rtNrRunning := 0, rtNrBoosted := 0, highestPrio := maxRtPrio,
      rtThrottled := false }
  onRtRq : ∀ e, s.onRtRq e = false
  leafRtRqList : s.leafRtRqList = []
  warned : s.warned = false

end Chains

end AndroidKernel.RtGroups
