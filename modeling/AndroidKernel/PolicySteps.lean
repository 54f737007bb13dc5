import AndroidKernel.TaskEdits

/-!
What a step can do to the policy, the priorities and the class of a task. The
edits of queueing keep all of them, so the list of `TaskEdits` is exact here;
invariants of single tasks follow from it without a look at the hooks.
-/

namespace AndroidKernel

structure SamePolicy (env : Env) (before after : TaskStruct) : Prop where
  policy : after.policy = before.policy
  schedClass : after.schedClass = before.schedClass
  prio : after.prio = before.prio
  staticPrio : after.staticPrio = before.staticPrio
  normalPrio : after.normalPrio = before.normalPrio
  rtPriority : after.rtPriority = before.rtPriority
  slice : before.SliceKept env after

theorem SamePolicy.refl (env : Env) (task : TaskStruct) : SamePolicy env task task :=
  ⟨rfl, rfl, rfl, rfl, rfl, rfl, fun _ => id⟩

theorem SamePolicy.trans {env : Env} {before middle after : TaskStruct}
    (one : SamePolicy env before middle) (two : SamePolicy env middle after) :
    SamePolicy env before after :=
  ⟨two.policy.trans one.policy, two.schedClass.trans one.schedClass, two.prio.trans one.prio,
    two.staticPrio.trans one.staticPrio, two.normalPrio.trans one.normalPrio,
    two.rtPriority.trans one.rtPriority, fun hz positive => two.slice hz (one.slice hz positive)⟩

theorem SamePolicy.of_ticked {env : Env} {before after : TaskStruct}
    (ticked : before.Ticked env after) : SamePolicy env before after :=
  ⟨ticked.policy, ticked.schedClass, ticked.prio, ticked.staticPrio, ticked.normalPrio,
    ticked.rtPriority, ticked.slice⟩

theorem samePolicy_respected (env : Env) : Respected env (SamePolicy env) where
  refl := .refl env
  trans := .trans
  placed _ _ _ _ _ := ⟨rfl, rfl, rfl, rfl, rfl, rfl, fun _ => id⟩
  requeued _ _ := ⟨rfl, rfl, rfl, rfl, rfl, rfl, fun _ => id⟩
  rtSliced _ _ := ⟨rfl, rfl, rfl, rfl, rfl, rfl, fun _ => id⟩
  ticked _ left := ⟨rfl, rfl, rfl, rfl, rfl, rfl, fun _ _ => Nat.one_le_iff_ne_zero.mpr left⟩
  refilled task := ⟨rfl, rfl, rfl, rfl, rfl, rfl, fun hz _ => refillSlice_pos hz task.wrr⟩
  weighed _ := ⟨rfl, rfl, rfl, rfl, rfl, rfl, fun hz _ => pathTimeslice_pos hz _⟩
  enqueued task := .of_ticked (enqueuedTask_ticked env task)
  bound _ _ _ _ := ⟨rfl, rfl, rfl, rfl, rfl, rfl, fun _ => id⟩
  grouped _ _ _ := ⟨rfl, rfl, rfl, rfl, rfl, rfl, fun _ => id⟩
  flagged _ _ := ⟨rfl, rfl, rfl, rfl, rfl, rfl, fun _ => id⟩

abbrev PolicyStep (env : Env) := TaskStep env (SamePolicy env)

theorem apply_policy {env : Env} {s : Sched} (sound : Sound env s) (op : Op)
    (allowed : Allowed env s op) (p : Pid) :
    PolicyStep env s op p ((apply env s op).task p) :=
  (samePolicy_respected env).apply sound op allowed p

def SlicesPositive (s : Sched) : Prop := ∀ p, 1 ≤ (s.task p).wrr.timeSlice

theorem PolicyStep.slice {env : Env} {s : Sched} {op : Op} {p : Pid} {after : TaskStruct}
    (made : PolicyStep env s op p after) (hz : 100 ≤ env.hz) (positive : SlicesPositive s) :
    1 ≤ after.wrr.timeSlice := by
  cases made with
  | kept same => exact same.slice hz (positive p)
  | forked c is parent same =>
      refine same.slice hz ?_
      rw [schedFork_wrr]
      exact positive _
  | set waiter policy prio ordinary small asked same => exact same.slice hz (positive p)
  | boosted waiter is ordinary same => exact same.slice hz (positive p)
  | niced nice low high real same => exact same.slice hz (positive p)
  | reniced nice low high unreal same => exact same.slice hz (positive p)

theorem step_slices {env : Env} {s next : Sched} {op : Op} (sound : Sound env s)
    (hz : 100 ≤ env.hz) (positive : SlicesPositive s) (moved : step env s op = some next) :
    SlicesPositive next := by
  obtain ⟨allowed, rfl⟩ := step_some moved
  exact fun p => (apply_policy sound op allowed p).slice hz positive

end AndroidKernel
