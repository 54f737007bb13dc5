import AndroidKernel.Placement
import AndroidKernel.PriorityInvariant

/-!
`set_cpus_allowed_ptr` of 3.1. The mask of a task and the two counts of its CPUs
are written by `do_set_cpus_allowed`, which leaves all three to the hook of the
class where there is one: the RT hook writes two of them and the WRR hook
nothing. No other operation writes them, so what a call leaves is what every
later class finds, and for WRR it reads `p->wrr.nr_cpus_allowed`.
-/

namespace AndroidKernel

structure AffinityCall where
  ret : Int
  after : Sched
  /-- The CPU whose stop thread is to move the task, and where to. -/
  stopOneCpu : Option (Cpu × Cpu)

/-- `set_cpus_allowed_ptr` up to the release of the lock. `threadBound` is the
test of `PF_THREAD_BOUND` for a task that is not the caller. -/
def setCpusAllowedPtr (env : Env) (s : Sched) (p : Pid) (mask : Cpumask) (threadBound : Bool) :
    AffinityCall :=
  if (s.task p).cpusAllowed = mask then ⟨0, s, none⟩
  else if mask ∩ env.cpuActive = ∅ then ⟨-22, s, none⟩
  else if threadBound then ⟨-22, s, none⟩
  else
    let after := doSetCpusAllowed env s p mask
    if (after.task p).cpu ∈ mask then ⟨0, after, none⟩
    else
      let dest := firstCpu env fun cpu => cpu ∈ env.cpuActive && cpu ∈ mask
      if (after.task p).onRq then
        ⟨0, after, some ((after.task p).cpu, dest.getD env.nrCpuIds)⟩
      -- a sleeping task is placed when it wakes up
      else ⟨0, after, none⟩

/-- A step that neither sets the affinity of the task nor makes its pid a new
task. Changes of its policy are among them. -/
def LeavesAffinity (p : Pid) (_ : Sched) (op : Op) : Prop :=
  (∀ mask, op ≠ .setCpusAllowed p mask) ∧ ∀ c, op ≠ .fork c p

/-- How a call ends. While `stop_one_cpu` waits others run; then the stop thread
runs `migration_cpu_stop` on its CPU, or it was not started as the CPU is offline. -/
inductive AffinityReturns (env : Env) (s : Sched) (p : Pid) (mask : Cpumask)
    (threadBound : Bool) : Int → Sched → Prop
  | unlocked (direct : (setCpusAllowedPtr env s p mask threadBound).stopOneCpu = none) :
      AffinityReturns env s p mask threadBound (setCpusAllowedPtr env s p mask threadBound).ret
        (setCpusAllowedPtr env s p mask threadBound).after
  | stopped (src dest : Cpu) (others : List Op) (mid : Sched)
      (waits : (setCpusAllowedPtr env s p mask threadBound).stopOneCpu = some (src, dest))
      (meanwhile : Transition.Run (step env) (LeavesAffinity p)
        (setCpusAllowedPtr env s p mask threadBound).after others mid)
      (stopper : (rqCurr mid src).schedClass = .stop) :
      AffinityReturns env s p mask threadBound 0 (migrateTask env mid p src dest).1
  | offline (src dest : Cpu) (others : List Op) (mid : Sched)
      (waits : (setCpusAllowedPtr env s p mask threadBound).stopOneCpu = some (src, dest))
      (meanwhile : Transition.Run (step env) (LeavesAffinity p)
        (setCpusAllowedPtr env s p mask threadBound).after others mid)
      (isOffline : src ∉ env.cpuOnline) :
      AffinityReturns env s p mask threadBound 0 mid

structure AffinityIs (mask : Cpumask) (task : TaskStruct) : Prop where
  cpusAllowed : task.cpusAllowed = mask
  rt : task.rt.nrCpusAllowed = mask.card
  wrr : task.wrr.nrCpusAllowed = mask.card

instance (mask : Cpumask) (task : TaskStruct) : Decidable (AffinityIs mask task) :=
  decidable_of_iff
    (task.cpusAllowed = mask ∧ task.rt.nrCpusAllowed = mask.card ∧
      task.wrr.nrCpusAllowed = mask.card)
    ⟨fun all => ⟨all.1, all.2.1, all.2.2⟩, fun is => ⟨is.cpusAllowed, is.rt, is.wrr⟩⟩

/-- When a call that succeeds has its effect. A mask the task has already is not
written again, and of the counts that are not written only the old value is left. -/
def AffinityTaken (mask : Cpumask) (task : TaskStruct) : Prop :=
  if task.cpusAllowed = mask then
    task.rt.nrCpusAllowed = mask.card ∧ task.wrr.nrCpusAllowed = mask.card
  else
    match task.schedClass with
    | .rt => task.wrr.nrCpusAllowed = mask.card
    | .wrr => False
    | _ => True

structure SameAffinity (before after : TaskStruct) : Prop where
  cpusAllowed : after.cpusAllowed = before.cpusAllowed
  rt : after.rt.nrCpusAllowed = before.rt.nrCpusAllowed
  wrr : after.wrr.nrCpusAllowed = before.wrr.nrCpusAllowed

theorem SameAffinity.refl (task : TaskStruct) : SameAffinity task task := ⟨rfl, rfl, rfl⟩

theorem SameAffinity.trans {first second third : TaskStruct} (one : SameAffinity first second)
    (two : SameAffinity second third) : SameAffinity first third := by
  constructor
  · exact two.cpusAllowed.trans one.cpusAllowed
  · exact two.rt.trans one.rt
  · exact two.wrr.trans one.wrr

theorem SameAffinity.iff {before after : TaskStruct} (same : SameAffinity before after)
    (mask : Cpumask) : AffinityIs mask after ↔ AffinityIs mask before := by
  constructor
  · intro is
    exact ⟨same.cpusAllowed.symm.trans is.cpusAllowed, same.rt.symm.trans is.rt,
      same.wrr.symm.trans is.wrr⟩
  · intro is
    exact ⟨same.cpusAllowed.trans is.cpusAllowed, same.rt.trans is.rt, same.wrr.trans is.wrr⟩

theorem enqueuedTask_affinity (env : Env) (task : TaskStruct) :
    SameAffinity task (enqueuedTask env task) := by
  simp only [enqueuedTask, weighByPath]
  split
  · split <;> exact ⟨rfl, rfl, rfl⟩
  · exact ⟨rfl, rfl, rfl⟩

theorem sameAffinity_tolerant (env : Env) : Tolerant env SameAffinity where
  refl := .refl
  trans := .trans
  placed _ _ _ _ _ := ⟨rfl, rfl, rfl⟩
  requeued _ _ := ⟨rfl, rfl, rfl⟩
  rtSliced _ _ := ⟨rfl, rfl, rfl⟩
  ticked _ _ := ⟨rfl, rfl, rfl⟩
  refilled _ := ⟨rfl, rfl, rfl⟩
  weighed _ := ⟨rfl, rfl, rfl⟩
  enqueued task := enqueuedTask_affinity env task
  grouped _ _ _ := ⟨rfl, rfl, rfl⟩
  flagged _ _ := ⟨rfl, rfl, rfl⟩

section Steps
variable {env : Env} {s next : Sched} {op : Op} {p : Pid}

theorem TaskStep.affinity {after : TaskStruct} (made : TaskStep env SameAffinity s op p after)
    (notForked : ∀ c, op ≠ .fork c p) : SameAffinity (s.task p) after := by
  cases made with
  | kept same => exact same
  | forked c is parent same => exact absurd is (notForked c)
  | set waiter policy prio ordinary small asked same =>
      have kept : SameAffinity (s.task p) (setscheduler waiter policy prio (s.task p)) :=
        ⟨rfl, rfl, rfl⟩
      exact kept.trans same
  | boosted waiter is ordinary same =>
      have kept : SameAffinity (s.task p)
          (setEffectivePrio (rtMutexGetprio waiter (s.task p)) (s.task p)) := ⟨rfl, rfl, rfl⟩
      exact kept.trans same
  | niced nice low high real same =>
      have kept : SameAffinity (s.task p) { s.task p with staticPrio := niceToPrio nice } :=
        ⟨rfl, rfl, rfl⟩
      exact kept.trans same
  | reniced nice low high unreal same =>
      have kept : SameAffinity (s.task p)
          (effectivePrio { s.task p with staticPrio := niceToPrio nice }) := ⟨rfl, rfl, rfl⟩
      exact kept.trans same

theorem PolicyStep.ordinary {after : TaskStruct} (made : PolicyStep env s op p after)
    (ordinary : Ordinary (s.task p)) : Ordinary after := by
  cases made with
  | kept same => exact ordinary.of_class same.schedClass.symm
  | forked c is parent same =>
      exact (schedFork_ordinary env.kernel _ parent).of_class same.schedClass.symm
  | set waiter policy prio before small asked same =>
      exact classFor_ordinary _ _ _ same.schedClass
  | boosted waiter is before same => exact classFor_ordinary _ _ _ same.schedClass
  | niced nice low high real same => exact ordinary.of_class same.schedClass.symm
  | reniced nice low high unreal same => exact ordinary.of_class same.schedClass.symm

structure AffinityKept (env : Env) (p : Pid) (task : TaskStruct) (s : Sched) : Prop where
  sound : Sound env s
  ordinary : Ordinary (s.task p)
  same : SameAffinity task (s.task p)

theorem step_affinityKept {task : TaskStruct} (kept : AffinityKept env p task s)
    (leaves : LeavesAffinity p s op) (moved : step env s op = some next) :
    AffinityKept env p task next := by
  have sound := step_sound kept.sound moved
  obtain ⟨allowed, rfl⟩ := step_some moved
  constructor
  · exact sound
  · exact (apply_policy kept.sound op allowed p).ordinary kept.ordinary
  · have made := (sameAffinity_tolerant env).apply kept.sound op allowed p leaves.1
    exact kept.same.trans (made.affinity leaves.2)

theorem run_affinityKept {task : TaskStruct} {ops : List Op} (kept : AffinityKept env p task s)
    (run : Transition.Run (step env) (LeavesAffinity p) s ops next) :
    AffinityKept env p task next :=
  run.invariant (fun _ _ _ kept leaves moved => step_affinityKept kept leaves moved) kept

theorem doSetCpusAllowed_ordinary (ordinary : Ordinary (s.task p)) (mask : Cpumask) :
    Ordinary ((doSetCpusAllowed env s p mask).task p) := by
  apply ordinary.of_class
  simp only [doSetCpusAllowed]
  split
  · simp
  · rfl
  · simp [copyCpusAllowed]

theorem doSetCpusAllowed_affinity (tegra : env.kernel = .tegra) {mask : Cpumask}
    (differs : (s.task p).cpusAllowed ≠ mask) :
    AffinityIs mask ((doSetCpusAllowed env s p mask).task p) ↔ AffinityTaken mask (s.task p) := by
  simp only [doSetCpusAllowed, tegra, AffinityTaken, if_neg differs]
  cases cls : (s.task p).schedClass with
  | rt =>
      simp only [Sched.modifyTask_task, Function.update_self]
      exact ⟨fun is => is.wrr, fun count => ⟨rfl, rfl, count⟩⟩
  | wrr => exact iff_of_false (fun is => differs is.cpusAllowed) not_false
  | fair => simpa using ⟨rfl, rfl, rfl⟩
  | idle => simpa using ⟨rfl, rfl, rfl⟩
  | stop => simpa using ⟨rfl, rfl, rfl⟩

variable {mask : Cpumask} {threadBound : Bool}

theorem setCpusAllowedPtr_kept (sound : Sound env s) (ordinary : Ordinary (s.task p)) :
    AffinityKept env p ((setCpusAllowedPtr env s p mask threadBound).after.task p)
      (setCpusAllowedPtr env s p mask threadBound).after := by
  have written : AffinityKept env p ((doSetCpusAllowed env s p mask).task p)
      (doSetCpusAllowed env s p mask) :=
    ⟨doSetCpusAllowed_sound sound p mask, doSetCpusAllowed_ordinary ordinary mask, .refl _⟩
  simp only [setCpusAllowedPtr]
  split_ifs
  · exact ⟨sound, ordinary, .refl _⟩
  · exact ⟨sound, ordinary, .refl _⟩
  · exact ⟨sound, ordinary, .refl _⟩
  · exact written
  · exact written
  · exact written

theorem setCpusAllowedPtr_affinity (tegra : env.kernel = .tegra)
    (succeeds : (setCpusAllowedPtr env s p mask threadBound).ret = 0) :
    AffinityIs mask ((setCpusAllowedPtr env s p mask threadBound).after.task p) ↔
      AffinityTaken mask (s.task p) := by
  simp only [setCpusAllowedPtr] at succeeds ⊢
  split_ifs at succeeds ⊢ with same
  · rw [AffinityTaken, if_pos same]
    exact ⟨fun is => ⟨is.rt, is.wrr⟩, fun counts => ⟨same, counts.1, counts.2⟩⟩
  · simp at succeeds
  · simp at succeeds
  · exact doSetCpusAllowed_affinity tegra same
  · exact doSetCpusAllowed_affinity tegra same
  · exact doSetCpusAllowed_affinity tegra same

theorem setCpusAllowedPtr_waits {move : Cpu × Cpu}
    (waits : (setCpusAllowedPtr env s p mask threadBound).stopOneCpu = some move) :
    (setCpusAllowedPtr env s p mask threadBound).ret = 0 := by
  simp only [setCpusAllowedPtr] at waits ⊢
  split_ifs at waits ⊢
  rfl

theorem AffinityKept.migrateTask {task : TaskStruct} (kept : AffinityKept env p task s)
    {src : Cpu} (stopper : (rqCurr s src).schedClass = .stop) (dest : Cpu) :
    AffinityKept env p task (migrateTask env s p src dest).1 := by
  by_cases home : (s.task p).cpu = src
  · -- the task itself is not the one that runs there
    have idles : (s.rq (s.task p).cpu).curr ≠ p := by
      intro runs
      have isStop : (s.task (s.rq src).curr).schedClass = .stop := stopper
      rw [← home, runs] at isStop
      exact kept.ordinary.2 isStop
    constructor
    · exact migrateTask_sound kept.sound p src dest kept.ordinary idles
    · have edits : Edits (SamePolicy env) s (AndroidKernel.migrateTask env s p src dest).1 :=
        (samePolicy_respected env).toTolerant.migrateTask p src dest
      exact kept.ordinary.of_class (edits p).schedClass.symm
    · exact kept.same.trans ((sameAffinity_tolerant env).migrateTask p src dest p)
  · have stays : (AndroidKernel.migrateTask env s p src dest).1 = s := by
      simp only [AndroidKernel.migrateTask, if_pos (show (s.task p).cpu ≠ src from home)]
      split <;> rfl
    rwa [stays]

/-- However the call ends, the affinity is the one it left under the lock. -/
theorem AffinityReturns.kept (sound : Sound env s) (ordinary : Ordinary (s.task p)) {ret : Int}
    (returned : AffinityReturns env s p mask threadBound ret next) :
    (setCpusAllowedPtr env s p mask threadBound).ret = ret ∧
      AffinityKept env p ((setCpusAllowedPtr env s p mask threadBound).after.task p) next := by
  have start : AffinityKept env p _ (setCpusAllowedPtr env s p mask threadBound).after :=
    setCpusAllowedPtr_kept sound ordinary
  cases returned with
  | unlocked direct => exact ⟨rfl, start⟩
  | stopped src dest others mid waits meanwhile stopper =>
      constructor
      · exact setCpusAllowedPtr_waits waits
      · exact (run_affinityKept start meanwhile).migrateTask stopper dest
  | offline src dest others mid waits meanwhile isOffline =>
      constructor
      · exact setCpusAllowedPtr_waits waits
      · exact run_affinityKept start meanwhile

end Steps

/-- A successful call of 3.1 takes effect, and stays in effect whatever the task
becomes, exactly when the task is not a WRR task with another mask and the counts
that are not written were right before: both where it has the mask already, that
of WRR where it is an RT task. -/
theorem affinity_taken_iff {env : Env} {ok : Sched → Op → Prop} {s next : Sched} {p : Pid}
    {mask : Cpumask} {threadBound : Bool} (tegra : env.kernel = .tegra)
    (reached : Reachable env ok s) (ordinary : Ordinary (s.task p))
    (returned : AffinityReturns env s p mask threadBound 0 next) :
    (AffinityIs mask (next.task p) ∧
      ∀ ops last, Transition.Run (step env) (LeavesAffinity p) next ops last →
        AffinityIs mask (last.task p)) ↔ AffinityTaken mask (s.task p) := by
  obtain ⟨succeeds, kept⟩ := returned.kept (reachable_sound reached) ordinary
  rw [← setCpusAllowedPtr_affinity tegra succeeds]
  constructor
  · rintro ⟨now, -⟩
    exact (kept.same.iff mask).mp now
  · intro taken
    constructor
    · exact (kept.same.iff mask).mpr taken
    · intro ops last run
      exact ((run_affinityKept kept run).same.iff mask).mpr taken

def runFair : List Op := [.tryToWakeUp 1 1 0, .schedule 0 false false, .schedulerTick 0]

theorem affinity_taken_iff_fair :
    let call := setCpusAllowedPtr (Boot.env .tegra true)
      ((Boot.after .tegra true runFair).get (by decide)) 1 {0} false
    AffinityIs {0} (call.after.task 1) ∧
      ∀ ops last, Transition.Run (step (Boot.env .tegra true)) (LeavesAffinity 1) call.after ops
        last → AffinityIs {0} (last.task 1) := by
  have reached := Boot.reachable .tegra true runFair (by decide)
  have returned : AffinityReturns (Boot.env .tegra true)
      ((Boot.after .tegra true runFair).get (by decide)) 1 {0} false 0 _ := .unlocked (by decide)
  have taken : AffinityTaken {0}
      (((Boot.after .tegra true runFair).get (by decide)).task 1) := by
    rw [AffinityTaken, if_neg (by decide)]
    trivial
  exact (affinity_taken_iff rfl reached (by decide) returned).mpr taken

def turnWrr : List Op :=
  [.tryToWakeUp 1 1 0, .setscheduler Boot.root 1 Boot.userTask 6 0 true none]

/-- It is to stay on CPU 0, the call succeeds, and it may still use CPU 1. -/
theorem affinity_not_taken_wrr : ¬ ∀ env ok s p mask threadBound next, env.kernel = .tegra →
    Reachable env ok s → Ordinary (s.task p) →
    AffinityReturns env s p mask threadBound 0 next →
    AffinityIs mask (next.task p) ∧
      ∀ ops last, Transition.Run (step env) (LeavesAffinity p) next ops last →
        AffinityIs mask (last.task p) := by
  intro always
  have reached := Boot.reachable .tegra true turnWrr (by decide)
  have returned : AffinityReturns (Boot.env .tegra true)
      ((Boot.after .tegra true turnWrr).get (by decide)) 1 {0} false 0 _ := .unlocked (by decide)
  obtain ⟨now, -⟩ := always _ _ _ _ _ _ _ rfl reached (by decide) returned
  exact absurd now (by decide)

end AndroidKernel
