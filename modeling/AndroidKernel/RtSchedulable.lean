import AndroidKernel.Operations
import AndroidKernel.RtBandwidth
import AndroidKernel.TaskGroups

/-!
Admission of real-time bandwidth in the tree of task groups: setting a group's
runtime or period, and the sysctl handler for the global values. The handler
writes the sysctl before it takes the mutex of the constraints, so it is two
steps; a walk under that mutex is one. A group that appears during a walk has
no runtime yet, and one that goes only takes its share away. `unsigned long`
has 32 bits.
-/

namespace AndroidKernel.RtSchedulable

open TaskGroups TreeWalk RtBandwidth

structure Bandwidth where
  rtPeriod : Nat
  rtRuntime : Nat
  deriving DecidableEq

structure State where
  tree : TaskGroups
  rtB : Group → Bandwidth
  sysctlRtPeriod : Nat
  sysctlRtRuntime : Int
  /-- The period of `def_rt_bandwidth`, which new groups get. -/
  defRtPeriod : Nat
  /-- The old sysctl values, while the handler runs. -/
  saved : Option (Nat × Int)

def ebusy : Int := -16

def toRatio (period runtime : Nat) : Nat :=
  if runtime = runtimeInf then 2 ^ 20 else runtime * 2 ^ 20 % 2 ^ 64 / period % 2 ^ 32

def globalRtPeriod (period : Nat) : Nat := period * 1000

def globalRtRuntime (runtime : Int) : Nat :=
  if runtime < 0 then runtimeInf else runtime.toNat * 1000

structure Request where
  tg : Option Group
  bandwidth : Bandwidth

section Code
variable (kernel : Kernel) (s : State) (tgHasRtTasks : Group → Bool)

def bandwidthOf (d : Request) (group : Group) : Bandwidth :=
  if some group = d.tg then d.bandwidth else s.rtB group

/-- The sum over the children wraps like its `unsigned long`. -/
def tgRtSchedulable (d : Request) (tg : Group) : Int :=
  let own := bandwidthOf s d tg
  if own.rtRuntime > own.rtPeriod ∧ own.rtRuntime ≠ runtimeInf then einval
  else if s.sysctlRtRuntime ≥ 0 ∧ own.rtRuntime = 0 ∧ tgHasRtTasks tg then ebusy
  else
    let total := toRatio own.rtPeriod own.rtRuntime
    let limit := toRatio (globalRtPeriod s.sysctlRtPeriod) (globalRtRuntime s.sysctlRtRuntime)
    if total > limit then einval
    else
      let ratios := (s.tree.links.children tg).map fun child =>
        toRatio (bandwidthOf s d child).rtPeriod (bandwidthOf s d child).rtRuntime
      if ratios.sum % 2 ^ 32 > total then einval else 0

def rtSchedulable (d : Request) : Option Int :=
  (walkTgTree kernel s.tree (checker (tgRtSchedulable s tgHasRtTasks d)) nop ()).map Prod.snd

def tgSetRtBandwidth (tg : Group) (bandwidth : Bandwidth) : Option (State × Int) :=
  (rtSchedulable kernel s tgHasRtTasks ⟨some tg, bandwidth⟩).map fun err =>
    if err ≠ 0 then (s, err)
    else ({ s with rtB := Function.update s.rtB tg bandwidth }, 0)

def schedGroupSetRtRuntime (tg : Group) (rtRuntimeUs : Int) : Option (State × Int) :=
  let rtRuntime := if rtRuntimeUs < 0 then runtimeInf else u64 (rtRuntimeUs * 1000)
  tgSetRtBandwidth kernel s tgHasRtTasks tg ⟨(s.rtB tg).rtPeriod, rtRuntime⟩

def schedGroupSetRtPeriod (tg : Group) (rtPeriodUs : Int) : Option (State × Int) :=
  let rtPeriod := u64 (rtPeriodUs * 1000)
  if rtPeriod = 0 then some (s, einval)
  else tgSetRtBandwidth kernel s tgHasRtTasks tg ⟨rtPeriod, (s.rtB tg).rtRuntime⟩

def schedRtGlobalConstraints : Option Int :=
  if s.sysctlRtPeriod ≤ 0 then some einval
  else
    let runtime := globalRtRuntime s.sysctlRtRuntime
    let period := globalRtPeriod s.sysctlRtPeriod
    if runtime > period ∧ runtime ≠ runtimeInf then some einval
    else rtSchedulable kernel s tgHasRtTasks ⟨none, ⟨0, 0⟩⟩

/-- `sched_rt_handler` up to the return of `proc_dointvec`. -/
def schedRtHandlerWrite (period : Nat) (runtime : Int) : State :=
  { s with
    saved := some (s.sysctlRtPeriod, s.sysctlRtRuntime)
    sysctlRtPeriod := period
    sysctlRtRuntime := runtime }

/-- The rest of `sched_rt_handler`, which knows the old values. -/
def schedRtHandlerFinish (old : Nat × Int) : Option (State × Int) :=
  (schedRtGlobalConstraints kernel s tgHasRtTasks).map fun ret =>
    if ret ≠ 0 then
      ({ s with sysctlRtPeriod := old.1, sysctlRtRuntime := old.2, saved := none }, ret)
    else ({ s with defRtPeriod := globalRtPeriod s.sysctlRtPeriod, saved := none }, 0)

end Code

/-- `sched_create_group` with the bandwidth of `alloc_rt_sched_group`. -/
def createGroup (s : State) (parent group : Group) : State :=
  { s with
    tree := schedCreateGroup s.tree parent group
    rtB := Function.update s.rtB group ⟨s.defRtPeriod, 0⟩ }

inductive Op where
  | createGroup (parent group : Group)
  | destroyGroup (group : Group)
  | setRtRuntime (tg : Group) (rtRuntimeUs : Int) (tgHasRtTasks : Group → Bool)
  | setRtPeriod (tg : Group) (rtPeriodUs : Int) (tgHasRtTasks : Group → Bool)
  | rtHandlerWrite (period : Nat) (runtime : Int)
  | rtHandlerFinish (tgHasRtTasks : Group → Bool)

/-- What the cgroup core and the handler's own mutex promise. -/
def Allowed (s : State) : Op → Prop
  | .createGroup parent group => parent ∈ s.tree.groups ∧ group ∉ s.tree.groups
  | .destroyGroup group =>
      group ∈ s.tree.groups ∧ group ≠ rootTaskGroup ∧ s.tree.links.children group = []
  | .setRtRuntime tg _ _ | .setRtPeriod tg _ _ => tg ∈ s.tree.groups
  | .rtHandlerWrite _ _ => s.saved = none
  | .rtHandlerFinish _ => s.saved ≠ none

instance (s : State) : (op : Op) → Decidable (Allowed s op)
  | .createGroup _ _ => inferInstanceAs (Decidable (_ ∧ _))
  | .destroyGroup _ => inferInstanceAs (Decidable (_ ∧ _ ∧ _))
  | .setRtRuntime _ _ _ | .setRtPeriod _ _ _ => inferInstanceAs (Decidable (_ ∈ _))
  | .rtHandlerWrite _ _ => inferInstanceAs (Decidable (_ = _))
  | .rtHandlerFinish _ => inferInstanceAs (Decidable (_ ≠ _))

def apply (kernel : Kernel) (s : State) : Op → Option (State × Int)
  | .createGroup parent group => some (createGroup s parent group, 0)
  | .destroyGroup group => some ({ s with tree := schedDestroyGroup s.tree group }, 0)
  | .setRtRuntime tg rtRuntimeUs tasks => schedGroupSetRtRuntime kernel s tasks tg rtRuntimeUs
  | .setRtPeriod tg rtPeriodUs tasks => schedGroupSetRtPeriod kernel s tasks tg rtPeriodUs
  | .rtHandlerWrite period runtime => some (schedRtHandlerWrite s period runtime, 0)
  | .rtHandlerFinish tasks => s.saved.bind (schedRtHandlerFinish kernel s tasks)

def step (kernel : Kernel) (s : State) (op : Op) : Option State :=
  if Allowed s op then (apply kernel s op).map Prod.fst else none

structure Init (s : State) : Prop where
  tree : s.tree = TaskGroups.init
  period : s.sysctlRtPeriod ≠ 0
  runtime : s.sysctlRtRuntime < 0 ∨ s.sysctlRtRuntime ≤ s.sysctlRtPeriod
  root : s.rtB rootTaskGroup =
    ⟨globalRtPeriod s.sysctlRtPeriod, globalRtRuntime s.sysctlRtRuntime⟩
  def_period : s.defRtPeriod = globalRtPeriod s.sysctlRtPeriod
  idle : s.saved = none

end AndroidKernel.RtSchedulable
