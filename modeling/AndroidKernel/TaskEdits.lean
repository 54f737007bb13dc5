import AndroidKernel.ReachableStates

/-!
How the operations edit tasks, once for every preorder on tasks that allows the
edits of queueing: places, slices, weights by the group path, affinity and
groups. Most operations make no other edits. Three of them also make a change
of their own; what they leave of the task is that change and edits of queueing.
-/

namespace AndroidKernel

structure Tolerant (env : Env) (R : TaskStruct → TaskStruct → Prop) : Prop where
  refl : ∀ task, R task task
  trans : ∀ {first second third}, R first second → R second third → R first third
  placed : ∀ task state onRq onCpu cpu,
    R task { task with state := state, onRq := onRq, onCpu := onCpu, cpu := cpu }
  requeued : ∀ task rtRq, R task { task with rt := { task.rt with rtRq := rtRq } }
  rtSliced : ∀ task slice, R task (TaskStruct.setRtSlice slice task)
  ticked : ∀ task : TaskStruct, decTimeSlice task.wrr.timeSlice ≠ 0 →
    R task (task.setWrrSlice (decTimeSlice task.wrr.timeSlice))
  refilled : ∀ task : TaskStruct, R task (task.setWrrSlice (refillSlice env task.wrr))
  weighed : ∀ task, R task (weighNew env task)
  enqueued : ∀ task, R task (enqueuedTask env task)
  grouped : ∀ task group cgroup,
    R task { task with schedTaskGroup := group, cpuCgroup := cgroup }
  flagged : ∀ task reset, R task { task with schedResetOnFork := reset }

structure Respected (env : Env) (R : TaskStruct → TaskStruct → Prop) : Prop
    extends Tolerant env R where
  bound : ∀ (task : TaskStruct) mask rtCpus wrrCpus, R task { task with
    cpusAllowed := mask
    rt := { task.rt with nrCpusAllowed := rtCpus }
    wrr := { task.wrr with nrCpusAllowed := wrrCpus } }

def Edits (R : TaskStruct → TaskStruct → Prop) (before after : Sched) : Prop :=
  ∀ p, R (before.task p) (after.task p)

structure Changes (R : TaskStruct → TaskStruct → Prop) (before : Sched) (p : Pid)
    (changed : TaskStruct) (after : Sched) : Prop where
  others : ∀ q, q ≠ p → R (before.task q) (after.task q)
  self : R changed (after.task p)

theorem classFor_wrr_iff (policy : Policy) (prio : Int) :
    classFor policy prio = .wrr ↔ policy = .wrr := by
  rw [classFor]
  split
  · rename_i isWrr
    simp [isWrr]
  · rename_i other
    split <;> simp [other]

section Hooks
variable (env : Env) (s : Sched) (c : Cpu) (p : Pid)

theorem switchedToWrr_task : (switchedToWrr env s c p).task =
    if (s.task p).onRq ∧ (s.rq c).curr ≠ p then
      Function.update s.task p
        ((s.task p).setWrrWeight (pathWeight env (taskGroup env (s.task p))))
    else s.task := by
  simp only [switchedToWrr]
  split
  · split <;> rfl
  · rfl

/-- Only a queued task that just turned WRR and is not current is edited. -/
theorem checkClassChanged_task (prevClass : SchedClass) (oldprio : Int) :
    (checkClassChanged env s c p prevClass oldprio).task =
      if prevClass ≠ (s.task p).schedClass ∧ (s.task p).schedClass = .wrr ∧
        (s.task p).onRq ∧ (s.rq c).curr ≠ p then
        Function.update s.task p
          ((s.task p).setWrrWeight (pathWeight env (taskGroup env (s.task p))))
      else s.task := by
  simp only [checkClassChanged]
  split
  · rename_i changed
    simp only [switchedTo]
    -- of the hooks only `switched_to_wrr` writes to the task
    cases cls : (s.task p).schedClass with
    | wrr => simp [switchedToWrr_task, cls ▸ changed]
    | rt =>
        simp only [switchedToRt]
        split <;> simp
    | fair =>
        simp only [reduceCtorEq, false_and, and_false, if_false]
        split
        · rfl
        · split
          · rfl
          · exact checkPreemptCurr_task env s c p
    | stop => simp
    | idle => simp
  · rename_i same
    have plain : (prioChanged env s c p oldprio).task = s.task := by
      simp only [prioChanged, prioChangedRt, prioChangedWrr]
      split <;> (try split_ifs) <;> rfl
    rw [if_neg fun all : prevClass ≠ (s.task p).schedClass ∧ _ => same all.1]
    split
    · exact plain
    · rfl

/-- After a bracket the weight is written a second time, by the same path. -/
theorem requeueChange_task (wrapped head : Bool) (change : TaskStruct → TaskStruct)
    (prevClass : SchedClass) (oldprio : Int)
    (keepsOn : (change (s.task p)).onRq = (s.task p).onRq) :
    (checkClassChanged env (requeueAround env s c p wrapped change head) c p prevClass
      oldprio).task = (requeueAround env s c p wrapped change head).task := by
  rw [checkClassChanged_task]
  split
  · rename_i rewrites
    obtain ⟨-, isWrr, on, -⟩ := rewrites
    have self := congrFun (requeueAround_task env s c p wrapped head change) p
    rw [Function.update_self] at self
    have weighed : ((requeueAround env s c p wrapped change head).task p).wrr.weight =
        pathWeight env (taskGroup env ((requeueAround env s c p wrapped change head).task p)) := by
      rw [self] at isWrr on ⊢
      split at on
      · rename_i queued
        rw [if_pos queued] at isWrr ⊢
        exact enqueuedTask_weighed env _ isWrr
      · rename_i off
        exact absurd (keepsOn.symm.trans on) off
    have same : ((requeueAround env s c p wrapped change head).task p).setWrrWeight
        (pathWeight env (taskGroup env ((requeueAround env s c p wrapped change head).task p))) =
        (requeueAround env s c p wrapped change head).task p := by
      rw [← weighed]
      rfl
    rw [same, Function.update_eq_self]
  · rfl

/-- The policy is normal then, so the class is not WRR and no weight is written. -/
theorem normalizeTask_task (waiter : Option Nat) :
    (normalizeTask env s p waiter).task = Function.update s.task p
      (if (s.task p).onRq then enqueuedTask env (setscheduler waiter .normal 0 (s.task p))
        else setscheduler waiter .normal 0 (s.task p)) := by
  let edited := setscheduler waiter .normal 0 (s.task p)
  have other : edited.schedClass ≠ .wrr := by
    change classFor .normal edited.prio ≠ .wrr
    rw [classFor, if_neg (by decide)]
    split <;> simp
  have still : ((normalizeAround env s p waiter).task p).schedClass ≠ .wrr := by
    rw [normalizeAround_task, Function.update_self]
    split
    · rwa [(enqueuedTask_ticked env edited).schedClass]
    · exact other
  rw [normalizeTask_eq, checkClassChanged_task, if_neg fun all => still all.2.1,
    normalizeAround_task]

end Hooks

section Operations
variable {env : Env} {R : TaskStruct → TaskStruct → Prop} {s next last : Sched}

namespace Tolerant
variable (ok : Tolerant env R)
include ok

theorem setCpu (task : TaskStruct) (c : Cpu) : R task (task.setCpu env c) := by
  have placed : R task { task with cpu := c } := ok.placed task _ _ _ c
  exact ok.trans placed (ok.requeued _ _)

theorem edits_refl (s : Sched) : Edits R s s := fun _ => ok.refl _

theorem edits_trans (one : Edits R s next) (two : Edits R next last) : Edits R s last := fun p =>
  ok.trans (one p) (two p)

theorem edits_of_eq (same : next.task = s.task) : Edits R s next := by
  intro p
  rw [same]
  exact ok.refl _

theorem edits_of_update (p : Pid) (new : TaskStruct)
    (task : next.task = Function.update s.task p new) (edit : R (s.task p) new) :
    Edits R s next := by
  intro q
  rw [task]
  by_cases isP : q = p
  · subst isP
    simpa using edit
  · simpa [Function.update_of_ne isP] using ok.refl (s.task q)

theorem changes_of_update (p : Pid) {changed : TaskStruct} (new : TaskStruct)
    (task : next.task = Function.update s.task p new) (edit : R changed new) :
    Changes R s p changed next := by
  constructor
  · intro q differs
    rw [task, Function.update_of_ne differs]
    exact ok.refl _
  · rw [task, Function.update_self]
    exact edit

theorem ttwuDoWakeup (c : Cpu) (p : Pid) : Edits R s (ttwuDoWakeup env s c p) := by
  apply ok.edits_of_update p { s.task p with state := 0 }
  · simp [AndroidKernel.ttwuDoWakeup]
  · exact ok.placed _ 0 _ _ _

theorem ttwuActivate (c : Cpu) (p : Pid) : Edits R s (ttwuActivate env s c p) := by
  apply ok.edits_of_update p _ (ttwuActivate_task env s c p)
  exact ok.trans (ok.enqueued _) (ok.placed _ _ true _ _)

theorem ttwuDoActivate (c : Cpu) (p : Pid) : Edits R s (ttwuDoActivate env s c p) :=
  ok.edits_trans (ok.ttwuActivate c p) (ok.ttwuDoWakeup c p)

theorem ttwuPlace (p : Pid) (dest : Cpu) : Edits R s (ttwuPlace env s p dest) := by
  have waking : R (s.task p) { s.task p with state := taskWaking } := ok.placed _ taskWaking _ _ _
  rcases ttwuPlace_cases env s p dest with same | same | same
  · rw [same]
    exact ok.edits_refl s
  · rw [same]
    exact ok.edits_of_update p _ rfl waking
  · rw [same]
    exact ok.edits_of_update p _ rfl (ok.trans waking (ok.setCpu _ dest))

theorem placeNewTask (p : Pid) (dest : Cpu) : Edits R s (placeNewTask env s p dest) := by
  have moved : Edits R s (if env.smp then setTaskCpu env s p dest else s) := by
    split
    · exact ok.edits_of_update p _ rfl (ok.setCpu _ dest)
    · exact ok.edits_refl s
  have weighed : ∀ t : Sched, Edits R t
      (if env.kernel = .goldfish ∨ (t.task p).policy = .wrr then t.modifyTask p (weighNew env)
        else t) := by
    intro t
    split
    · exact ok.edits_of_update p _ rfl (ok.weighed _)
    · exact ok.edits_refl t
  exact ok.edits_trans moved (weighed _)

theorem wakeUpNewTask (p : Pid) (dest : Cpu) : Edits R s (wakeUpNewTask env s p dest) :=
  ok.edits_trans (ok.placeNewTask p dest) (ok.edits_trans (ok.ttwuActivate _ p)
    (ok.edits_of_eq (checkPreemptCurr_task env _ _ p)))

theorem tryToWakeUp (p : Pid) (mask : Nat) (dest : Cpu) :
    Edits R s (tryToWakeUp env s p mask dest) := by
  simp only [AndroidKernel.tryToWakeUp]
  split
  · exact ok.edits_refl s
  · split
    · exact ok.ttwuDoWakeup _ p
    · exact ok.edits_trans (ok.ttwuPlace p dest) (ok.ttwuDoActivate _ p)

theorem schedule (c : Cpu) (preemptActive signalPending : Bool) :
    Edits R s (schedule env s c preemptActive signalPending) := by
  have out : Edits R s (scheduleOut env s c preemptActive signalPending) := by
    rcases scheduleOut_cases env s c preemptActive signalPending with same | ⟨-, awake | asleep⟩
    · rw [same]
      exact ok.edits_refl s
    · rw [awake]
      exact ok.edits_of_update _ _ rfl (ok.placed _ 0 _ _ _)
    · rw [asleep]
      apply ok.edits_of_update (s.rq c).curr { s.task (s.rq c).curr with onRq := false }
      · simp [deactivateTask_task]
      · exact ok.placed _ _ false _ _
  intro p
  rw [schedule_task, switchTasks_same]
  exact ok.trans (out p) (ok.placed _ _ _ _ _)

theorem moveQueued (p : Pid) (src dest : Cpu) : Edits R s (moveQueued env s p src dest) := by
  apply ok.edits_of_update p _ (moveQueued_task env s p src dest)
  exact ok.trans (ok.setCpu _ dest) (ok.enqueued _)

theorem movePreempt (p : Pid) (src dest : Cpu) :
    Edits R s (checkPreemptCurr env (AndroidKernel.moveQueued env s p src dest) dest p) :=
  ok.edits_trans (ok.moveQueued p src dest) (ok.edits_of_eq (checkPreemptCurr_task env _ dest p))

theorem pullWrrTask (dest : Cpu) : Edits R s (pullWrrTask env s dest) := by
  simp only [AndroidKernel.pullWrrTask]
  split
  · exact ok.edits_refl s
  · split
    · exact ok.edits_refl s
    · exact ok.movePreempt _ _ dest

theorem migrateTask (p : Pid) (src dest : Cpu) : Edits R s (migrateTask env s p src dest).1 := by
  simp only [AndroidKernel.migrateTask]
  split
  · exact ok.edits_refl s
  · split
    · exact ok.edits_refl s
    · split
      · exact ok.edits_refl s
      · split
        · exact ok.movePreempt p src dest
        · exact ok.edits_refl s

theorem taskTickWrr (c : Cpu) (p : Pid) : Edits R s (taskTickWrr env s c p) := by
  simp only [AndroidKernel.taskTickWrr, updateCurrWrr_task]
  split
  · rename_i left
    apply ok.edits_of_update p ((s.task p).setWrrSlice (decTimeSlice (s.task p).wrr.timeSlice))
    · simp
    · exact ok.ticked _ left
  · have refilled : Edits R s ((updateCurrWrr s c).modifyTask p fun task =>
        task.setWrrSlice (refillSlice env task.wrr)) := by
      apply ok.edits_of_update p ((s.task p).setWrrSlice (refillSlice env (s.task p).wrr))
      · simp
      · exact ok.refilled _
    split
    · exact ok.edits_trans refilled (ok.edits_of_eq rfl)
    · exact refilled

theorem taskTickRt (c : Cpu) (p : Pid) : Edits R s (taskTickRt env s c p) := by
  have sliced : ∀ slice, Edits R s
      ((updateCurrRt env s c).modifyTask p (TaskStruct.setRtSlice slice)) := by
    intro slice
    apply ok.edits_of_update p (TaskStruct.setRtSlice slice (s.task p))
    · simp
    · exact ok.rtSliced _ slice
  simp only [AndroidKernel.taskTickRt]
  split_ifs
  · exact ok.edits_of_eq (updateCurrRt_task env s c)
  · exact sliced _
  · apply ok.edits_trans (sliced (rrTimeslice env))
    apply ok.edits_of_eq
    simp
  · exact sliced _

theorem tickLocked (c : Cpu) : Edits R s (tickLocked env s c) := by
  have clocked : Edits R s (updateRqClock env s c) := ok.edits_of_eq rfl
  apply ok.edits_trans clocked
  simp only [AndroidKernel.tickLocked, taskTick]
  split
  · exact ok.taskTickRt c _
  · exact ok.taskTickWrr c _
  · apply ok.edits_of_eq
    split <;> simp
  · exact ok.edits_refl _
  · exact ok.edits_refl _

theorem schedulerTick (c : Cpu) : Edits R s (schedulerTick env s c) := by
  simp only [AndroidKernel.schedulerTick]
  split
  · exact ok.edits_trans (ok.tickLocked c) (ok.pullWrrTask c)
  · exact ok.tickLocked c

theorem schedYield (c : Cpu) : Edits R s (schedYield env s c) := by
  apply ok.edits_of_eq
  simp only [AndroidKernel.schedYield, yieldTaskRt, yieldTaskWrr, requeueTaskWrr]
  split <;> simp

theorem requeueAround (c : Cpu) (p : Pid) (wrapped head : Bool)
    (change : TaskStruct → TaskStruct) :
    Changes R s p (change (s.task p)) (requeueAround env s c p wrapped change head) := by
  constructor
  · intro q differs
    rw [requeueAround_task, Function.update_of_ne differs]
    exact ok.refl _
  · rw [requeueAround_task, Function.update_self]
    split
    · exact ok.enqueued _
    · exact ok.refl _

theorem schedMoveTask (p : Pid) : Edits R s (schedMoveTask env s p) := by
  have grouped : R (s.task p) (schedMoveGroup env (s.task p)) := by
    simp only [schedMoveGroup]
    split
    · exact ok.trans (ok.grouped _ (s.task p).cpuCgroup (s.task p).cpuCgroup) (ok.requeued _ _)
    · exact ok.requeued _ _
  obtain ⟨others, self⟩ : Changes R s p _ _ :=
    ok.requeueAround (s.task p).cpu p false false (schedMoveGroup env)
  intro q
  by_cases isP : q = p
  · rw [isP]
    exact ok.trans grouped self
  · exact others q isP

theorem requeueChange (c : Cpu) (p : Pid) (wrapped head : Bool)
    (change : TaskStruct → TaskStruct) (keepsOn : (change (s.task p)).onRq = (s.task p).onRq)
    (prevClass : SchedClass) (oldprio : Int) :
    Changes R s p (change (s.task p)) (checkClassChanged env
      (AndroidKernel.requeueAround env s c p wrapped change head) c p prevClass oldprio) := by
  obtain ⟨others, self⟩ : Changes R s p _ _ := ok.requeueAround c p wrapped head change
  constructor
  · rw [requeueChange_task env s c p wrapped head change prevClass oldprio keepsOn]
    exact others
  · rw [requeueChange_task env s c p wrapped head change prevClass oldprio keepsOn]
    exact self

theorem setUserNice (p : Pid) (nice : Int) :
    Edits R s (setUserNice env s p nice) ∨ -20 ≤ nice ∧ nice ≤ 19 ∧
      (taskHasRtPolicy (s.task p) = true ∧ Changes R s p
          { s.task p with staticPrio := niceToPrio nice } (setUserNice env s p nice) ∨
        taskHasRtPolicy (s.task p) = false ∧ Changes R s p
          (effectivePrio { s.task p with staticPrio := niceToPrio nice })
          (setUserNice env s p nice)) := by
  let edited := effectivePrio { s.task p with staticPrio := niceToPrio nice }
  simp only [AndroidKernel.setUserNice]
  split
  · exact Or.inl (ok.edits_refl s)
  · rename_i range
    refine Or.inr ⟨by omega, by omega, ?_⟩
    split
    · rename_i real
      exact Or.inl ⟨real, ok.changes_of_update p _ rfl (ok.refl _)⟩
    · rename_i unreal
      refine Or.inr ⟨by simpa using unreal, ?_⟩
      by_cases on : (s.task p).onRq = true
      · simp only [if_pos on]
        apply ok.changes_of_update p (enqueuedTask env edited)
        · split <;> simp [enqueueTask_task, edited]
        · exact ok.enqueued _
      · simp only [if_neg on]
        apply ok.changes_of_update p edited
        · simp [edited]
        · exact ok.refl _

theorem normalizeTask (p : Pid) (waiter : Option Nat) :
    Changes R s p (setscheduler waiter .normal 0 (s.task p)) (normalizeTask env s p waiter) := by
  apply ok.changes_of_update p _ (normalizeTask_task env s p waiter)
  split
  · exact ok.enqueued _
  · exact ok.refl _

theorem rtMutexSetprio (p : Pid) (prio : Int) :
    Edits R s (rtMutexSetprio env s p prio) ∨
      Changes R s p (setEffectivePrio prio (s.task p)) (rtMutexSetprio env s p prio) := by
  simp only [AndroidKernel.rtMutexSetprio]
  split
  · exact Or.inl (ok.edits_refl s)
  · exact Or.inr (ok.requeueChange _ p false _ (setEffectivePrio prio) rfl _ _)

end Tolerant

theorem Respected.doSetCpusAllowed (ok : Respected env R) (p : Pid) (mask : Cpumask) :
    Edits R s (doSetCpusAllowed env s p mask) := by
  simp only [AndroidKernel.doSetCpusAllowed]
  split
  · exact ok.edits_of_update p _ rfl (ok.bound _ mask mask.card _)
  · exact ok.edits_refl s
  · exact ok.edits_of_update p _ rfl (ok.bound _ mask mask.card mask.card)

end Operations

def SetsPolicy (env : Env) (s : Sched) (op : Op) (p : Pid) (waiter : Option Nat)
    (policy : Policy) : Prop :=
  ∃ caller seen code prio user request,
    op = .setscheduler caller p seen code prio user waiter ∧
      setschedulerChecks caller seen code prio user = .ok request ∧
      PassApplies env s p request prio user ∧ request.policy = policy

section Passes
variable {env : Env} {s : Sched}

theorem validPriority_small {seen : TaskStruct} {policy : Policy} {prio : Int}
    (valid : validPriority seen policy prio = true) : 0 ≤ prio ∧ prio ≤ 99 := by
  simp only [validPriority, maxRtPrio, maxUserRtPrio] at valid
  cases mm : seen.mm <;> simp [mm] at valid <;> omega

theorem setschedulerChecks_ok {caller : Caller} {seen : TaskStruct} {policy prio : Int}
    {user : Bool} {request : Request}
    (checks : setschedulerChecks caller seen policy prio user = .ok request) :
    decodePolicy seen policy = .ok request ∧ validPriority seen request.policy prio = true ∧
      (user = true → caller.capSysNice = false →
        unprivilegedMay caller seen request prio = true) := by
  simp only [setschedulerChecks] at checks
  split at checks
  · cases checks
  · rename_i found decoded
    split_ifs at checks with invalid denied refused
    cases checks
    refine ⟨decoded, by simpa using invalid, fun isUser noCap => ?_⟩
    simpa [isUser, noCap] using denied

end Passes

theorem setschedulerApply_changes {env : Env} {R : TaskStruct → TaskStruct → Prop} {s : Sched}
    (ok : Tolerant env R) (p : Pid) (policy : Policy) (prio : Nat) (reset : Bool)
    (waiter : Option Nat) :
    Changes R s p (setscheduler waiter policy prio (s.task p))
      (setschedulerApply env s p policy prio reset waiter) := by
  let change : TaskStruct → TaskStruct := fun task =>
    setscheduler waiter policy prio { task with schedResetOnFork := reset }
  obtain ⟨others, self⟩ : Changes R s p (change (s.task p)) _ := ok.requeueChange (s.task p).cpu p
    (decide (env.kernel = .tegra)) false change rfl (s.task p).schedClass (s.task p).prio
  exact ⟨others, ok.trans (ok.flagged (setscheduler waiter policy prio (s.task p)) reset) self⟩

inductive TaskStep (env : Env) (R : TaskStruct → TaskStruct → Prop) (s : Sched) (op : Op)
    (p : Pid) (after : TaskStruct) : Prop
  | kept (same : R (s.task p) after)
  | forked (c : Cpu) (is : op = .fork c p) (parent : Ordinary (rqCurr s c))
      (same : R (schedFork env.kernel (rqCurr s c)) after)
  | set (waiter : Option Nat) (policy : Policy) (prio : Nat) (ordinary : Ordinary (s.task p))
      (small : prio ≤ 99) (asked : policy = .normal ∨ SetsPolicy env s op p waiter policy)
      (same : R (setscheduler waiter policy prio (s.task p)) after)
  | boosted (waiter : Option Nat) (is : op = .rtMutexSetprio p waiter)
      (ordinary : Ordinary (s.task p))
      (same : R (setEffectivePrio (rtMutexGetprio waiter (s.task p)) (s.task p)) after)
  | niced (nice : Int) (low : -20 ≤ nice) (high : nice ≤ 19)
      (real : taskHasRtPolicy (s.task p) = true)
      (same : R { s.task p with staticPrio := niceToPrio nice } after)
  | reniced (nice : Int) (low : -20 ≤ nice) (high : nice ≤ 19)
      (unreal : taskHasRtPolicy (s.task p) = false)
      (same : R (effectivePrio { s.task p with staticPrio := niceToPrio nice }) after)

section Steps
variable {env : Env} {R : TaskStruct → TaskStruct → Prop} {s : Sched}

theorem schedFork_wrr (kernel : Kernel) (task : TaskStruct) :
    (schedFork kernel task).wrr = task.wrr := by
  cases kernel with
  | goldfish => simp only [schedFork, schedForkGoldfish, apply_ite TaskStruct.wrr, ite_self]
  | tegra => simp only [schedFork, schedForkTegra, apply_ite TaskStruct.wrr, ite_self]

theorem TaskStep.of_edits {op : Op} {next : Sched} (edits : Edits R s next) (p : Pid) :
    TaskStep env R s op p (next.task p) := .kept (edits p)

theorem TaskStep.nice (ok : Tolerant env R) {before : Sched} (same : before.task = s.task)
    {op : Op} (q : Pid) (nice : Int) (p : Pid) :
    TaskStep env R s op p ((setUserNice env before q nice).task p) := by
  have niced : Edits R before (setUserNice env before q nice) ∨ _ := ok.setUserNice q nice
  rcases niced with edits | ⟨low, high, changes⟩
  · exact .kept (congrFun same p ▸ edits p)
  · rw [same] at changes
    by_cases isQ : p = q
    · subst isQ
      rcases changes with ⟨real, changes⟩ | ⟨unreal, changes⟩
      · exact .niced nice low high real changes.self
      · exact .reniced nice low high unreal changes.self
    · rcases changes with ⟨-, changes⟩ | ⟨-, changes⟩
      · exact .kept (congrFun same p ▸ changes.others p isQ)
      · exact .kept (congrFun same p ▸ changes.others p isQ)

theorem doSetCpusAllowed_other (q : Pid) (mask : Cpumask) (p : Pid) (other : p ≠ q) :
    (doSetCpusAllowed env s q mask).task p = s.task p := by
  simp only [doSetCpusAllowed]
  split
  · simp [other]
  · rfl
  · simp [other]

theorem Tolerant.apply (ok : Tolerant env R) (sound : Sound env s) (op : Op)
    (allowed : Allowed env s op) (p : Pid) (unbound : ∀ mask, op ≠ .setCpusAllowed p mask) :
    TaskStep env R s op p ((apply env s op).task p) := by
  cases op with
  | fork c child =>
      by_cases isChild : p = child
      · subst isChild
        refine .forked c rfl allowed.1 ?_
        simp only [AndroidKernel.apply, forkTask, Sched.modifySe_task, Sched.modifyTask_task,
          Function.update_self]
        split
        · exact ok.trans (ok.placed _ _ _ _ _) (ok.setCpu _ c)
        · exact ok.placed _ _ _ _ c
      · refine .kept ?_
        simp only [AndroidKernel.apply, forkTask, Sched.modifySe_task, Sched.modifyTask_task,
          Function.update_of_ne isChild]
        exact ok.refl _
  | wakeUpNewTask q dest => exact .of_edits (ok.wakeUpNewTask q dest) p
  | tryToWakeUp q mask dest => exact .of_edits (ok.tryToWakeUp q mask dest) p
  | ttwuQueueRemote q dest => exact .of_edits (ok.ttwuPlace q dest) p
  | schedTtwuPending q => exact .of_edits (ok.ttwuDoActivate _ q) p
  | setCurrentState c state =>
      have edits : Edits R s (AndroidKernel.apply env s (.setCurrentState c state)) :=
        ok.edits_of_update (s.rq c).curr _ rfl (ok.placed _ state _ _ _)
      exact .of_edits edits p
  | schedule c preemptActive signalPending =>
      exact .of_edits (ok.schedule c preemptActive signalPending) p
  | schedulerTick c => exact .of_edits (ok.schedulerTick c) p
  | schedYield c => exact .of_edits (ok.schedYield c) p
  | setscheduler caller q seen policy prio user waiter =>
      simp only [AndroidKernel.apply]
      split
      · rename_i code next done
        rcases setschedulerPass_cases done with same | ⟨request, checks, -, applies, same⟩
        · rw [same]
          exact .kept (ok.refl _)
        · have ordinary : Ordinary (s.task q) :=
            applies.ordinary sound allowed
          obtain ⟨-, valid, -⟩ := setschedulerChecks_ok checks
          -- what the checks admit is small enough for an RT priority
          obtain ⟨low, high⟩ := validPriority_small valid
          obtain ⟨others, self⟩ := setschedulerApply_changes ok q request.policy prio.toNat
            request.resetOnFork waiter
          rw [same]
          by_cases isQ : p = q
          · subst isQ
            exact .set waiter request.policy prio.toNat ordinary (by omega)
              (Or.inr ⟨caller, seen, policy, prio, user, request, rfl, checks, applies, rfl⟩) self
          · exact .kept (others p isQ)
      · exact .kept (ok.refl _)
  | rtMutexSetprio q waiter =>
      -- 3.4 leaves the idle task alone
      rcases ok.rtMutexSetprio q (rtMutexGetprio waiter (s.task q)) with edits | ⟨others, self⟩
      · exact .of_edits edits p
      · by_cases isQ : p = q
        · subst isQ
          exact .boosted waiter rfl allowed self
        · exact .kept (others p isQ)
  | setUserNice q nice => exact .nice ok rfl q nice p
  | cgroupAttach q group =>
      have edits : Edits R s (AndroidKernel.apply env s (.cgroupAttach q group)) :=
        ok.edits_of_update q _ rfl (ok.grouped _ _ group)
      exact .of_edits edits p
  | schedMoveTask q => exact .of_edits (ok.schedMoveTask q) p
  | migrateTask q src dest => exact .of_edits (ok.migrateTask q src dest) p
  | pushTask q dest => exact .kept (ok.moveQueued q _ dest p)
  | pullWrrTask dest => exact .of_edits (ok.pullWrrTask dest) p
  | rtPeriodTimer g c overrun =>
      have edits : Edits R s (AndroidKernel.apply env s (.rtPeriodTimer g c overrun)) :=
        ok.edits_of_eq (doSchedRtPeriodTimer_task env s g c overrun)
      exact .of_edits edits p
  | balanceRuntime g c runtime => exact .kept (ok.refl _)
  | normalizeRtTask q waiter =>
      simp only [AndroidKernel.apply, normalizeRtTask]
      split
      · exact .kept (ok.refl _)
      · let stamped := s.modifySe q fun se => { se with execStart := 0 }
        split
        · split
          · have sameTasks : stamped.task = s.task := rfl
            exact .nice ok sameTasks q 0 p
          · exact .kept (ok.refl _)
        · obtain ⟨others, self⟩ : Changes R stamped q _ _ := ok.normalizeTask q waiter
          by_cases isQ : p = q
          · subst isQ
            exact .set waiter .normal 0 allowed (by omega) (Or.inl rfl) self
          · exact .kept (others p isQ)
  | setCpusAllowed q mask =>
      have other : p ≠ q := by
        rintro rfl
        exact unbound mask rfl
      apply TaskStep.kept
      rw [AndroidKernel.apply, doSetCpusAllowed_other q mask p other]
      exact ok.refl _

theorem Respected.apply (ok : Respected env R) (sound : Sound env s) (op : Op)
    (allowed : Allowed env s op) (p : Pid) : TaskStep env R s op p ((apply env s op).task p) := by
  by_cases binds : ∃ mask, op = .setCpusAllowed p mask
  · obtain ⟨mask, rfl⟩ := binds
    exact .of_edits (ok.doSetCpusAllowed p mask) p
  · exact ok.toTolerant.apply sound op allowed p fun mask same => binds ⟨mask, same⟩

end Steps

end AndroidKernel
