import AndroidKernel.PolicyClass

/-!
What a caller without `CAP_SYS_NICE` can do to the class of a task whose
`RLIMIT_RTPRIO` is 0. The checks of `__sched_setscheduler` ask for the real-time
policies only, and WRR is none of them, so such a caller can move its fair
tasks up to the WRR class. The other way up is a PI waiter: a WRR task that
leaves its policy gets the class of its boosted priority.
-/

namespace AndroidKernel

structure CallResult where
  /-- The state when the last pass took the runqueue lock. -/
  locked : Sched
  code : Int
  after : Sched

/-- `__sched_setscheduler` over its passes. Each pass sees the task once before
the lock and once with it; other CPUs may run in between. -/
def schedSetscheduler (env : Env) (caller : Caller) (p : Pid) (policy prio : Int) (user : Bool)
    (waiter : Option Nat) : List (TaskStruct × Sched) → Option CallResult
  | [] => none
  | (seen, s) :: rest =>
      match setschedulerPass env s caller p seen policy prio user waiter with
      | .ret code after => some ⟨s, code, after⟩
      | .recheck => schedSetscheduler env caller p policy prio user waiter rest

variable {env : Env} {caller : Caller} {p : Pid} {policy prio : Int} {user : Bool}
  {waiter : Option Nat}

/-- The passes that go back to `recheck:` change nothing, the last one decides. -/
theorem schedSetscheduler_last {views : List (TaskStruct × Sched)} {result : CallResult}
    (done : schedSetscheduler env caller p policy prio user waiter views = some result) :
    ∃ seen, (seen, result.locked) ∈ views ∧
      setschedulerPass env result.locked caller p seen policy prio user waiter =
        .ret result.code result.after := by
  induction views with
  | nil => cases done
  | cons view rest ih =>
      obtain ⟨seen, s⟩ := view
      simp only [schedSetscheduler] at done
      split at done
      · rename_i code after ends
        cases done
        exact ⟨seen, List.mem_cons_self, ends⟩
      · obtain ⟨found, member, ends⟩ := ih done
        exact ⟨found, List.mem_cons_of_mem _ member, ends⟩

/-- The limits of the task, and its policy at the lock. A call that names a
policy does not check again that the task kept its own in between. -/
structure UnprivilegedView (p : Pid) (policy : Int) (view : TaskStruct × Sched) : Prop where
  limit : view.1.rlimitRtprio = 0
  steady : policy < 0 ∨ view.1.policy = (view.2.task p).policy
  ok : TaskOk (view.2.task p)

def GivenWrr (before after : TaskStruct) : Prop :=
  before.schedClass = .fair ∧ after.policy = .wrr

def BoostedOut (waiter : Option Nat) (before after : TaskStruct) : Prop :=
  before.schedClass ≠ .rt ∧ after.policy ≠ .wrr ∧ after.policy ≠ before.policy ∧
    ∃ top, waiter = some top ∧ top < 100

theorem unprivileged_request {seen : TaskStruct} {request : Request}
    (noCap : caller.capSysNice = false) (limit : seen.rlimitRtprio = 0)
    (checks : setschedulerChecks caller seen policy prio true = .ok request)
    (real : rtPolicy request.policy = true) : request.policy = seen.policy := by
  obtain ⟨-, -, may⟩ := setschedulerChecks_ok checks
  have allowed := may rfl noCap
  by_contra differs
  simp [unprivilegedMay, real, limit, differs] at allowed

theorem request_steady {seen locked : TaskStruct} {request : Request}
    (decoded : decodePolicy seen policy = .ok request)
    (steady : policy < 0 ∨ seen.policy = locked.policy)
    (rechecked : ¬ (request.oldpolicy ≠ none ∧ request.oldpolicy ≠ some locked.policy)) :
    seen.policy = locked.policy := by
  rcases steady with negative | same
  · rw [decodePolicy, if_pos negative] at decoded
    cases decoded
    simpa using rechecked
  · exact same

theorem waiter_rt_iff (waiter : Option Nat) {task : TaskStruct} (high : 100 ≤ task.normalPrio) :
    rtPrio (rtMutexGetprio waiter task) ↔ ∃ top, waiter = some top ∧ top < 100 := by
  cases waiter with
  | none =>
      simp only [rtMutexGetprio, reduceCtorEq, false_and, exists_false, iff_false]
      exact not_rtPrio high
  | some top =>
      simp only [rtMutexGetprio, rtPrio_iff, Option.some.injEq, exists_eq_left']
      omega

theorem setscheduler_class_other (waiter : Option Nat) {named : Policy} (prio : Nat)
    {task : TaskStruct} (unreal : rtPolicy named = false) (notWrr : named ≠ .wrr)
    (static : 100 ≤ task.staticPrio) :
    (setscheduler waiter named prio task).schedClass = .rt ∧
        (∃ top, waiter = some top ∧ top < 100) ∨
      (setscheduler waiter named prio task).schedClass = .fair ∧
        ¬ ∃ top, waiter = some top ∧ top < 100 := by
  let given : TaskStruct := { task with policy := named, rtPriority := prio }
  let normal : TaskStruct := { given with normalPrio := normalPrio given }
  have high : 100 ≤ normal.normalPrio :=
    static.trans_eq (normalPrio_other (by exact unreal : taskHasRtPolicy given = false)).symm
  have cls : (setscheduler waiter named prio task).schedClass =
      if rtPrio (rtMutexGetprio waiter normal) then .rt else .fair := if_neg notWrr
  rw [cls, ← waiter_rt_iff waiter high]
  split
  · rename_i boosted
    exact Or.inl ⟨rfl, boosted⟩
  · rename_i plain
    exact Or.inr ⟨rfl, plain⟩

theorem TaskOk.class_cases {task : TaskStruct} (ok : TaskOk task) :
    task.schedClass = .rt ∨ task.schedClass = .wrr ∨ task.schedClass = .fair := by
  rw [ok.class_eq, classFor]
  split_ifs <;> simp

/-- The class after `__setscheduler` against the one before, request by request. -/
theorem setscheduler_climb {task : TaskStruct} (ok : TaskOk task) (waiter : Option Nat)
    (named : Policy) (prio : Nat) (real : rtPolicy named = true → named = task.policy)
    (changes : rtPolicy named = false → named ≠ task.policy) :
    (setscheduler waiter named prio task).schedClass.precedes task.schedClass ↔
      GivenWrr task (setscheduler waiter named prio task) ∨
        BoostedOut waiter task (setscheduler waiter named prio task) := by
  have policy : (setscheduler waiter named prio task).policy = named := rfl
  simp only [GivenWrr, BoostedOut, SchedClass.precedes, policy]
  cases isReal : rtPolicy named with
  | true =>
      -- the task is in the RT class already, and nothing but stop precedes that
      have before := ok.real_class (by rw [taskHasRtPolicy, ← real isReal, isReal])
      have notWrr : named ≠ .wrr := by
        rintro rfl
        cases isReal
      have after : (setscheduler waiter named prio task).schedClass = .rt ∨
          (setscheduler waiter named prio task).schedClass = .fair := by
        simp only [setscheduler, classFor, if_neg notWrr]
        split <;> simp
      rcases after with after | after <;> simp [before, after]
  | false =>
      have differs := changes isReal
      -- a fair policy leaves the fair class only through a waiter with an RT priority
      by_cases isWrr : named = .wrr
      · have after : (setscheduler waiter named prio task).schedClass = .wrr := if_pos isWrr
        have before : task.schedClass ≠ .wrr := by
          rw [ok.class_eq, classFor, if_neg (isWrr ▸ differs.symm)]
          split <;> simp
        rcases ok.class_cases with cls | cls | cls
        · simp only [after, cls]
          simp [isWrr]
        · exact absurd cls before
        · simp only [after, cls]
          simp [isWrr]
      · rcases setscheduler_class_other waiter prio isReal isWrr ok.static_ge with
          ⟨after, boosts⟩ | ⟨after, plain⟩
        · rcases ok.class_cases with cls | cls | cls <;>
            simp only [after, cls] <;> simp [isWrr, differs, boosts]
        · rcases ok.class_cases with cls | cls | cls <;>
            simp only [after, cls] <;> simp [isWrr, plain]

theorem no_climb_unchanged {task : TaskStruct} (ok : TaskOk task) (waiter : Option Nat) :
    task.schedClass.precedes task.schedClass ↔
      GivenWrr task task ∨ BoostedOut waiter task task := by
  have notGiven : ¬ GivenWrr task task := by
    rintro ⟨isFair, isWrr⟩
    rw [ok.class_eq, classFor, if_pos isWrr] at isFair
    cases isFair
  have notOut : ¬ BoostedOut waiter task task := fun out => out.2.2.1 rfl
  simp [notGiven, notOut, SchedClass.precedes]

theorem climb_congr {before task after : TaskStruct} (same : SamePolicy env task after)
    (climbs : task.schedClass.precedes before.schedClass ↔
      GivenWrr before task ∨ BoostedOut waiter before task) :
    after.schedClass.precedes before.schedClass ↔
      GivenWrr before after ∨ BoostedOut waiter before after := by
  rw [same.schedClass, climbs, GivenWrr, GivenWrr, BoostedOut, BoostedOut, same.policy]

theorem unprivileged_pass {s next : Sched} {seen : TaskStruct} {code : Int}
    (noCap : caller.capSysNice = false) (view : UnprivilegedView p policy (seen, s))
    (done : setschedulerPass env s caller p seen policy prio true waiter = .ret code next) :
    (next.task p).schedClass.precedes (s.task p).schedClass ↔
      GivenWrr (s.task p) (next.task p) ∨ BoostedOut waiter (s.task p) (next.task p) := by
  rcases setschedulerPass_cases done with rfl | ⟨request, checks, -, applies, rfl⟩
  · exact no_climb_unchanged view.ok waiter
  · obtain ⟨decoded, -, -⟩ := setschedulerChecks_ok checks
    have steady := request_steady decoded view.steady applies.steady
    obtain ⟨-, self⟩ : Changes (SamePolicy env) s p _ _ := setschedulerApply_changes
      (samePolicy_respected env).toTolerant p request.policy prio.toNat request.resetOnFork waiter
    have climbs := setscheduler_climb view.ok waiter request.policy prio.toNat
      (fun real => (unprivileged_request noCap view.limit checks real).trans steady)
      fun unreal sameNamed => applies.changes ⟨sameNamed, Or.inl (by simp [unreal])⟩
    exact climb_congr self climbs

/-- A call without `CAP_SYS_NICE` on a task with `RLIMIT_RTPRIO` 0 moves it to a
class further ahead exactly when it gives a fair task the policy WRR, or when it
takes a task outside the RT class to a policy other than WRR while a PI waiter
has an RT priority. With `prio` up to date with the waiters the latter is a task
of policy WRR. -/
theorem unprivileged_climb_iff (noCap : caller.capSysNice = false)
    {views : List (TaskStruct × Sched)} {result : CallResult}
    (limits : ∀ view ∈ views, UnprivilegedView p policy view)
    (done : schedSetscheduler env caller p policy prio true waiter views = some result) :
    ((result.after.task p).schedClass.precedes (result.locked.task p).schedClass ↔
      GivenWrr (result.locked.task p) (result.after.task p) ∨
        BoostedOut waiter (result.locked.task p) (result.after.task p)) ∧
    ((∀ top, waiter = some top → top < 100 → rtPrio (result.locked.task p).prio) →
      BoostedOut waiter (result.locked.task p) (result.after.task p) →
      (result.locked.task p).policy = .wrr) := by
  obtain ⟨seen, member, ends⟩ := schedSetscheduler_last done
  have view := limits _ member
  constructor
  · exact unprivileged_pass noCap view ends
  · rintro synced ⟨notRt, -, -, top, isTop, low⟩
    by_contra notWrr
    rw [view.ok.class_eq, classFor, if_neg notWrr, if_pos (synced top isTop low)] at notRt
    exact notRt rfl

def ownerOps : List Op :=
  [.setscheduler Boot.user 1 Boot.userTask 6 0 true none, .rtMutexSetprio 1 (some 5)]

def ownerState : Sched := (Boot.after .goldfish false ownerOps).get (by decide)

/-- Back to the normal policy, it lands in the RT class. -/
theorem unprivileged_climb_owner :
    ∃ result, schedSetscheduler (Boot.env .goldfish false) Boot.user 1 0 0 true (some 5)
        [(ownerState.task 1, ownerState)] = some result ∧
      (result.after.task 1).schedClass.precedes (result.locked.task 1).schedClass := by
  have tasks := (run_policySound Boot.state_init Boot.tasksOk
    (Boot.run .goldfish false NoWrrFork ownerOps (by decide) (by decide))).tasks
  have limits : ∀ view ∈ [(ownerState.task 1, ownerState)], UnprivilegedView 1 0 view := by
    intro view member
    rw [List.mem_singleton] at member
    subst member
    exact ⟨by decide, Or.inr rfl, tasks 1 (by decide)⟩
  have done := Option.some_get (show (schedSetscheduler (Boot.env .goldfish false) Boot.user 1 0 0
    true (some 5) [(ownerState.task 1, ownerState)]).isSome by decide)
  refine ⟨_, done.symm, (unprivileged_climb_iff rfl limits done.symm).1.mpr (Or.inr ?_)⟩
  exact ⟨by decide, by decide, by decide, 5, rfl, by decide⟩

/-- The owner of a sleeping fair task makes it WRR, without any privilege. -/
theorem unprivileged_owner_climbs :
    ¬ ∀ (env : Env) (caller : Caller) (p : Pid) (policy prio : Int) (waiter : Option Nat)
      (views : List (TaskStruct × Sched)) (result : CallResult), caller.capSysNice = false →
      (∀ view ∈ views, UnprivilegedView p policy view) →
      schedSetscheduler env caller p policy prio true waiter views = some result →
      result.code = 0 →
      ¬ (result.after.task p).schedClass.precedes (result.locked.task p).schedClass := by
  intro claim
  have limits : ∀ view ∈ [(Boot.userTask, Boot.state)], UnprivilegedView 1 6 view := by
    intro view member
    rw [List.mem_singleton] at member
    subst member
    exact ⟨rfl, Or.inr rfl, Boot.tasksOk 1 (by decide)⟩
  have done := Option.some_get (show (schedSetscheduler (Boot.env .goldfish false) Boot.user 1 6 0
    true none [(Boot.userTask, Boot.state)]).isSome by decide)
  exact claim _ _ 1 6 0 none _ _ rfl limits done.symm (by decide) (by decide)

end AndroidKernel
