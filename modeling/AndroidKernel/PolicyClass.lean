import AndroidKernel.PriorityInvariant

/-!
Policy, priority and class of a task agree: the class is the one that
`__setscheduler` would choose. Every way of changing them keeps this but one: a
fork copies the policy WRR to the child and gives it the fair class, in both
kernels. The child's `__sched_setscheduler` to WRR then returns early with 0.
-/

namespace AndroidKernel

structure TaskOk (task : TaskStruct) : Prop extends PrioOk task where
  class_eq : task.schedClass = classFor task.policy task.prio

/-- Between the priorities and the class only the WRR class is left open. -/
theorem PrioOk.taskOk_iff {task : TaskStruct} (ok : PrioOk task) (ordinary : Ordinary task) :
    TaskOk task ↔ (task.policy = .wrr ↔ task.schedClass = .wrr) := by
  constructor
  · intro fine
    rw [fine.class_eq, classFor_wrr_iff]
  · intro agree
    refine ⟨ok, ?_⟩
    rw [classFor]
    cases cls : task.schedClass with
    | wrr => rw [if_pos (agree.mpr cls)]
    | rt => rw [if_neg fun isWrr => by simp [agree.mp isWrr] at cls, if_pos (ok.rt_prio cls)]
    | fair => rw [if_neg fun isWrr => by simp [agree.mp isWrr] at cls, if_neg (ok.fair_prio cls)]
    | idle => exact absurd cls ordinary.1
    | stop => exact absurd cls ordinary.2

def TasksOk (s : Sched) : Prop := ∀ p, Ordinary (s.task p) → TaskOk (s.task p)

def NoWrrFork (s : Sched) : Op → Prop
  | .fork c _ => (rqCurr s c).policy ≠ .wrr
  | _ => True

instance (s : Sched) (op : Op) : Decidable (NoWrrFork s op) :=
  match op with
  | .fork c _ => inferInstanceAs (Decidable ((rqCurr s c).policy ≠ .wrr))
  | .wakeUpNewTask _ _ | .tryToWakeUp _ _ _ | .ttwuQueueRemote _ _ | .schedTtwuPending _
  | .setCurrentState _ _ | .schedule _ _ _ | .schedulerTick _ | .schedYield _
  | .setscheduler _ _ _ _ _ _ _ | .rtMutexSetprio _ _ | .setUserNice _ _ | .cgroupAttach _ _
  | .schedMoveTask _ | .migrateTask _ _ _ | .pushTask _ _ | .pullWrrTask _
  | .rtPeriodTimer _ _ _ | .balanceRuntime _ _ _ | .normalizeRtTask _ _
  | .setCpusAllowed _ _ =>
      inferInstanceAs (Decidable True)

theorem TasksOk.prios {s : Sched} (fine : TasksOk s) : PriosOk s := fun p ordinary =>
  (fine p ordinary).toPrioOk

theorem PolicyStep.ok {env : Env} {s : Sched} {op : Op} {p : Pid} {after : TaskStruct}
    (made : PolicyStep env s op p after) (fine : TasksOk s) (noFork : NoWrrFork s op)
    (ordinary : Ordinary after) : TaskOk after := by
  rw [(made.prioOk fine.prios ordinary).taskOk_iff ordinary]
  have agree : ∀ q, Ordinary (s.task q) →
      ((s.task q).policy = .wrr ↔ (s.task q).schedClass = .wrr) := fun q before =>
    ((fine q before).taskOk_iff before).mp (fine q before)
  cases made with
  | kept same =>
      rw [same.policy, same.schedClass]
      exact agree p (ordinary.of_class same.schedClass)
  | forked c is parent same =>
      subst is
      rw [same.policy, same.schedClass]
      have notWrr := (fine.prios _ parent).fork_class env.kernel
      refine ⟨fun isWrr => ?_, fun isWrr => absurd isWrr notWrr⟩
      -- the child has the fair or the RT class, so the policy may not stay WRR
      rcases schedFork_policy env.kernel (rqCurr s c) with kept | normal
      · exact absurd (kept.symm.trans isWrr) noFork
      · rw [normal] at isWrr
        cases isWrr
  | set waiter policy prio before small asked same =>
      rw [same.policy, same.schedClass]
      exact (classFor_wrr_iff _ _).symm
  | boosted waiter is before same =>
      rw [same.policy, same.schedClass]
      exact (classFor_wrr_iff _ _).symm
  | niced nice low high real same =>
      rw [same.policy, same.schedClass]
      exact agree p (ordinary.of_class (by exact same.schedClass))
  | reniced nice low high unreal same =>
      rw [same.policy, same.schedClass]
      exact agree p (ordinary.of_class (by exact same.schedClass))

/-- The child of a WRR task disagrees at once, in both kernels. -/
theorem fork_wrr_disagrees {task : TaskStruct} (ok : TaskOk task) (isWrr : task.policy = .wrr)
    (kernel : Kernel) : (schedFork kernel task).policy = .wrr ∧
      (schedFork kernel task).schedClass = .fair := by
  have unreal : taskHasRtPolicy task = false := by simp [taskHasRtPolicy, isWrr, rtPolicy]
  have notReset : ¬ (task.policy = .fifo ∨ task.policy = .rr) := by simp [isWrr]
  have static := not_rtPrio ok.static_ge
  have default : ¬ rtPrio (niceToPrio 0) := by decide
  have normal : ¬ rtPrio task.normalPrio := by
    rwa [ok.normal_eq, normalPrio_other unreal]
  cases kernel with
  | goldfish =>
      simp only [schedFork, schedForkGoldfish]
      cases task.schedResetOnFork with
      | false => simp [normal, isWrr]
      | true =>
          simp only [if_true]
          split
          · rename_i real
            exact absurd (unreal.symm.trans real) Bool.false_ne_true
          · by_cases negative : prioToNice task.staticPrio < 0
            · simp [negative, default, isWrr]
            · simp [negative, static, isWrr]
  | tegra =>
      constructor
      · simp [schedFork, schedForkTegra, apply_ite TaskStruct.policy, isWrr]
      · simp [schedFork, schedForkTegra, apply_ite TaskStruct.prio,
          apply_ite TaskStruct.schedClass, normal]

structure PolicyClassLaw (env : Env) (s : Sched) : Prop where
  agree : ∀ p, Ordinary (s.task p) →
    (s.task p).schedClass = classFor (s.task p).policy (s.task p).prio
  named_wrr : ∀ caller p seen policy prio user waiter request next, Ordinary (s.task p) →
    decodePolicy seen policy = .ok request → request.policy = .wrr →
    setschedulerPass env s caller p seen policy prio user waiter = .ret 0 next →
    (next.task p).schedClass = .wrr

theorem setschedulerChecks_error {caller : Caller} {seen : TaskStruct} {policy prio : Int}
    {user : Bool} {code : Int}
    (checks : setschedulerChecks caller seen policy prio user = .error code) : code ≠ 0 := by
  have decoded : ∀ code, decodePolicy seen policy = .error code → code ≠ 0 := by
    intro code failed
    simp only [decodePolicy] at failed
    split_ifs at failed
    split at failed <;> cases failed
    decide
  simp only [setschedulerChecks] at checks
  split at checks
  · rename_i failed
    cases checks
    exact decoded _ failed
  · split_ifs at checks with invalid denied refused
    · cases checks
      decide
    · cases checks
      decide
    · cases checks
      simpa using (by simpa using refused : user = true ∧ ¬ caller.securityRet = 0).2

/-- A call that returns 0 leaves the task with the policy it asked for. -/
theorem setschedulerPass_class {env : Env} {s next : Sched} {caller : Caller} {p : Pid}
    {seen : TaskStruct} {policy prio : Int} {user : Bool} {waiter : Option Nat}
    {request : Request} (decoded : decodePolicy seen policy = .ok request)
    (isWrr : request.policy = .wrr)
    (agree : (s.task p).schedClass = classFor (s.task p).policy (s.task p).prio)
    (done : setschedulerPass env s caller p seen policy prio user waiter = .ret 0 next) :
    (next.task p).schedClass = .wrr := by
  simp only [setschedulerPass] at done
  split at done
  · rename_i code checks
    cases done
    exact absurd rfl (setschedulerChecks_error checks)
  · rename_i found checks
    obtain ⟨decoded', -, -⟩ := setschedulerChecks_ok checks
    rw [decoded] at decoded'
    cases decoded'
    split at done
    · cases done
    · split at done
      · rename_i same
        cases done
        -- the early return of 0: the task had the policy before, and then the class too
        rw [agree, ← same.1, isWrr, classFor, if_pos rfl]
      · split at done
        · cases done
        · split at done
          · cases done
          · cases done
            obtain ⟨-, self⟩ : Changes (SamePolicy env) s p _ _ := setschedulerApply_changes
              (samePolicy_respected env).toTolerant p request.policy prio.toNat
              request.resetOnFork waiter
            exact self.schedClass.trans (if_pos isWrr)

theorem TasksOk.law {env : Env} {s : Sched} (fine : TasksOk s) : PolicyClassLaw env s where
  agree p ordinary := (fine p ordinary).class_eq
  named_wrr _ p _ _ _ _ _ _ _ ordinary decoded isWrr done :=
    setschedulerPass_class decoded isWrr (fine p ordinary).class_eq done

structure PolicySound (env : Env) (s : Sched) : Prop where
  sound : Sound env s
  tasks : TasksOk s

theorem step_policySound {env : Env} {s next : Sched} {op : Op} (fine : PolicySound env s)
    (noFork : NoWrrFork s op) (moved : step env s op = some next) : PolicySound env next := by
  refine ⟨step_sound fine.sound moved, fun p ordinary => ?_⟩
  obtain ⟨allowed, rfl⟩ := step_some moved
  exact (apply_policy fine.sound op allowed p).ok fine.tasks noFork ordinary

theorem run_policySound {env : Env} {start s : Sched} {ops : List Op} (init : Init start)
    (tasks : TasksOk start) (run : Transition.Run (step env) NoWrrFork start ops s) :
    PolicySound env s := by
  apply run.invariant
  · intro before op after fine noFork moved
    exact step_policySound fine noFork moved
  · exact ⟨init_sound env init, tasks⟩

theorem fork_breaks_law {env : Env} {s next : Sched} {c : Cpu} {child : Pid} (fine : TasksOk s)
    (isWrr : (rqCurr s c).policy = .wrr) (moved : step env s (.fork c child) = some next) :
    ¬ PolicyClassLaw env next := by
  obtain ⟨⟨parent, -, -⟩, rfl⟩ := step_some moved
  intro law
  let born := schedFork env.kernel (rqCurr s c)
  obtain ⟨policy, cls⟩ : born.policy = .wrr ∧ born.schedClass = .fair :=
    fork_wrr_disagrees (fine _ parent) isWrr env.kernel
  have forked : ((apply env s (.fork c child)).task child).policy = .wrr ∧
      ((apply env s (.fork c child)).task child).schedClass = .fair := by
    simp only [apply, forkTask, Sched.modifySe_task, Sched.modifyTask_task, Function.update_self]
    split
    · exact ⟨policy, cls⟩
    · exact ⟨policy, cls⟩
  have agree := law.agree child (by rw [Ordinary, forked.2]; decide)
  simp only [classFor, forked.1, forked.2, if_true, reduceCtorEq] at agree

/-- In both kernels, policy and class agree as long as no WRR task forks, and the
first such fork ends it. -/
theorem policy_class_law {env : Env} {start s : Sched} {ops : List Op} (init : Init start)
    (fine : TasksOk start) (run : Transition.Run (step env) NoWrrFork start ops s) :
    PolicyClassLaw env s ∧
      ∀ op next, step env s op = some next → (PolicyClassLaw env next ↔ NoWrrFork s op) := by
  have kept := run_policySound init fine run
  refine ⟨kept.tasks.law, fun op next moved => ⟨fun law => ?_, fun noFork => ?_⟩⟩
  · cases op with
    | fork c child =>
        intro isWrr
        exact fork_breaks_law kept.tasks isWrr moved law
    | _ => trivial
  · exact (step_policySound kept noFork moved).tasks.law

theorem Boot.tasksOk : TasksOk Boot.state := by
  intro p ordinary
  refine ⟨Boot.priosOk p ordinary, ?_⟩
  rcases Boot.task_cases p with ⟨c, -, idle⟩ | user
  · simp [Ordinary, Boot.state, idle, Boot.idleTask] at ordinary
  · simp only [Boot.state, user]
    decide

def forkOps : List Op :=
  [.tryToWakeUp 1 1 0, .schedule 0 false false, .fork 0 3, .wakeUpNewTask 3 0,
    .setscheduler Boot.root 3 Boot.userTask 1 5 true none, .rtMutexSetprio 3 (some 2)]

theorem policy_class_law_fork :
    PolicyClassLaw (Boot.env .tegra true) ((Boot.after .tegra true forkOps).get (by decide)) ∧
      ∀ op next, step (Boot.env .tegra true) ((Boot.after .tegra true forkOps).get (by decide)) op =
        some next → (PolicyClassLaw (Boot.env .tegra true) next ↔
          NoWrrFork ((Boot.after .tegra true forkOps).get (by decide)) op) :=
  policy_class_law Boot.state_init Boot.tasksOk
    (Boot.run .tegra true NoWrrFork forkOps (by decide) (by decide))

def wrrForkOps : List Op :=
  [.tryToWakeUp 1 1 0, .schedule 0 false false,
    .setscheduler Boot.root 1 Boot.userTask 6 0 true none, .fork 0 3, .wakeUpNewTask 3 0]

/-- The child has the policy WRR in the fair class. -/
theorem wrr_fork_breaks_law :
    (¬ ∀ s, Reachable (Boot.env .goldfish true) (fun _ _ => True) s →
      PolicyClassLaw (Boot.env .goldfish true) s) ∧
    ¬ ∀ s, Reachable (Boot.env .tegra true) (fun _ _ => True) s →
      PolicyClassLaw (Boot.env .tegra true) s := by
  constructor
  · intro claim
    have law := claim _ (Boot.reachable .goldfish true wrrForkOps (by decide))
    exact absurd (law.agree 3 (by decide)) (by decide)
  · intro claim
    have law := claim _ (Boot.reachable .tegra true wrrForkOps (by decide))
    exact absurd (law.agree 3 (by decide)) (by decide)

end AndroidKernel
