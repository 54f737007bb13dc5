import AndroidKernel.RtSchedulable

/-!
The quotas of 3.4 for the fair class in the tree of task groups: the test a new
quota or period has to pass, which on its way down the tree notes for each group
the tightest quota it lives under. A walk that fails leaves the notes it has
made. The refill, the timer and the per-CPU queues of a group are in `fair.c`,
which the repository does not hold, and are left out.
-/

namespace AndroidKernel.CfsQuota

open TaskGroups TreeWalk RtBandwidth RtSchedulable

structure CfsBandwidth where
  period : Nat
  quota : Nat
  deriving DecidableEq

structure State where
  tree : TaskGroups
  cfsB : Group → CfsBandwidth
  /-- The `hierarchal_quota` of each group, a signed copy with -1 for no limit. -/
  hierarchalQuota : Group → Int

def minCfsQuotaPeriod : Nat := 1000000
def maxCfsQuotaPeriod : Nat := 1000000000

structure Request where
  tg : Option Group
  period : Nat
  quota : Nat

def tgGetCfsQuota (b : CfsBandwidth) : Int :=
  if b.quota = runtimeInf then -1 else (b.quota / 1000 : Nat)

def tgGetCfsPeriod (b : CfsBandwidth) : Nat := b.period / 1000

section Code
variable (s : State)

def normalizeCfsQuota (d : Request) (tg : Group) : Nat :=
  let period := if some tg = d.tg then d.period else tgGetCfsPeriod (s.cfsB tg)
  let quota := if some tg = d.tg then d.quota else u64 (tgGetCfsQuota (s.cfsB tg))
  if quota = runtimeInf then runtimeInf else toRatio period quota

def tgCfsSchedulableDown (d : Request) : Visitor Group (Group → Int) := fun tg notes =>
  match s.tree.links.parent tg with
  | none => (Function.update notes tg (s64 runtimeInf), 0)
  | some parent =>
      let quota := s64 (normalizeCfsQuota s d tg)
      let parentQuota := notes parent
      if quota = s64 runtimeInf then (Function.update notes tg parentQuota, 0)
      else if parentQuota ≠ s64 runtimeInf ∧ quota > parentQuota then (notes, einval)
      else (Function.update notes tg quota, 0)

def request (tg : Group) (b : CfsBandwidth) : Request :=
  if b.quota = runtimeInf then ⟨some tg, b.period, b.quota⟩
  else ⟨some tg, b.period / 1000, b.quota / 1000⟩

def cfsSchedulable (tg : Group) (b : CfsBandwidth) : Option ((Group → Int) × Int) :=
  walkTgTree .goldfish s.tree (tgCfsSchedulableDown s (request tg b)) nop s.hierarchalQuota

def tgSetCfsBandwidth (tg : Group) (b : CfsBandwidth) : Option (State × Int) :=
  if tg = rootTaskGroup then some (s, einval)
  else if b.quota < minCfsQuotaPeriod ∨ b.period < minCfsQuotaPeriod then some (s, einval)
  else if b.period > maxCfsQuotaPeriod then some (s, einval)
  else
    (cfsSchedulable s tg b).map fun walked =>
      let s := { s with hierarchalQuota := walked.1 }
      if walked.2 ≠ 0 then (s, walked.2)
      else ({ s with cfsB := Function.update s.cfsB tg b }, 0)

def tgSetCfsQuota (tg : Group) (cfsQuotaUs : Int) : Option (State × Int) :=
  let quota := if cfsQuotaUs < 0 then runtimeInf else u64 (cfsQuotaUs * 1000)
  tgSetCfsBandwidth s tg ⟨(s.cfsB tg).period, quota⟩

def tgSetCfsPeriod (tg : Group) (cfsPeriodUs : Int) : Option (State × Int) :=
  tgSetCfsBandwidth s tg ⟨u64 (cfsPeriodUs * 1000), (s.cfsB tg).quota⟩

end Code

/-- `sched_create_group`: a new group has no quota. Its period and whatever its
note holds come from `fair.c`. -/
def createGroup (s : State) (parent group : Group) (period : Nat) (note : Int) : State where
  tree := schedCreateGroup s.tree parent group
  cfsB := Function.update s.cfsB group ⟨period, runtimeInf⟩
  hierarchalQuota := Function.update s.hierarchalQuota group note

inductive Op where
  | createGroup (parent group : Group) (period : Nat) (note : Int)
  | destroyGroup (group : Group)
  | setQuota (tg : Group) (cfsQuotaUs : Int)
  | setPeriod (tg : Group) (cfsPeriodUs : Int)

def Allowed (s : State) : Op → Prop
  | .createGroup parent group _ _ => parent ∈ s.tree.groups ∧ group ∉ s.tree.groups
  | .destroyGroup group =>
      group ∈ s.tree.groups ∧ group ≠ rootTaskGroup ∧ s.tree.links.children group = []
  | .setQuota tg _ | .setPeriod tg _ => tg ∈ s.tree.groups

instance (s : State) : (op : Op) → Decidable (Allowed s op)
  | .createGroup _ _ _ _ => inferInstanceAs (Decidable (_ ∧ _))
  | .destroyGroup _ => inferInstanceAs (Decidable (_ ∧ _ ∧ _))
  | .setQuota _ _ | .setPeriod _ _ => inferInstanceAs (Decidable (_ ∈ _))

def apply (s : State) : Op → Option (State × Int)
  | .createGroup parent group period note => some (createGroup s parent group period note, 0)
  | .destroyGroup group => some ({ s with tree := schedDestroyGroup s.tree group }, 0)
  | .setQuota tg cfsQuotaUs => tgSetCfsQuota s tg cfsQuotaUs
  | .setPeriod tg cfsPeriodUs => tgSetCfsPeriod s tg cfsPeriodUs

def step (s : State) (op : Op) : Option State :=
  if Allowed s op then (apply s op).map Prod.fst else none

structure Init (s : State) : Prop where
  tree : s.tree = TaskGroups.init
  quota : (s.cfsB rootTaskGroup).quota = runtimeInf

end AndroidKernel.CfsQuota
