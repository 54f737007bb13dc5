import AndroidKernel.Scheduling
import AndroidKernel.TaskEdits

/-!
What `total_weight` of a CPU has on top of the weights on its WRR queue. An
operation that runs undisturbed changes the surplus of no CPU, in either
kernel: whatever is taken off is subtracted with the weight it was added with,
and whatever is put on is added with the weight it then has. So the counter is
exact from the start, and a later difference comes from what happened in
between.
-/

namespace AndroidKernel

open RunList

def surplus (task : Pid → TaskStruct) (wrr : WrrRq) : Int :=
  wrr.totalWeight - (wrr.queue.map fun p => (weights task p : Int)).sum

section Queue
variable {task task' : Pid → TaskStruct} {wrr : WrrRq} {rq : Rq} {p : Pid}

theorem surplus_congr (same : ∀ q ∈ wrr.queue, weights task' q = weights task q) :
    surplus task' wrr = surplus task wrr := by
  have sums : (wrr.queue.map fun q => (weights task' q : Int)).sum =
      (wrr.queue.map fun q => (weights task q : Int)).sum := by
    apply sum_congr
    intro q member
    rw [same q member]
  rw [surplus, sums, surplus]

theorem surplus_reordered {after : Rq} (same : rq.Reordered after) :
    surplus task after.wrr = surplus task rq.wrr := by
  rw [surplus, surplus, same.totalWeight, (same.wrr.map _).sum_eq]

theorem surplus_edit (new : TaskStruct) (absent : p ∉ wrr.queue) :
    surplus (Function.update task p new) wrr = surplus task wrr := by
  apply surplus_congr
  intro q member
  have differs : q ≠ p := fun same => absent (same ▸ member)
  exact weights_update_of_ne p q new differs

theorem surplus_taken (kernel : Kernel) (wrapped : Bool)
    (queued : (task p).schedClass = .wrr → p ∈ rq.wrr.queue) :
    surplus task (rq.taken kernel wrapped (task p) p).wrr = surplus task rq.wrr := by
  rw [Rq.taken_wrr]
  split
  · rename_i isWrr
    have sum := sum_erase rq.wrr.queue p (fun q => (weights task q : Int)) (queued isWrr)
    simp only [surplus, WrrRq.dequeue]
    rw [sum]
    simp only [weights]
    omega
  · rfl

theorem surplus_put (kernel : Kernel) (wrapped head : Bool) :
    surplus task (rq.put kernel wrapped head (task p) p).wrr = surplus task rq.wrr := by
  rw [Rq.put_wrr]
  split
  · cases head with
    | true =>
        simp only [surplus, WrrRq.enqueue, if_true, List.map_cons, List.sum_cons, weights]
        omega
    | false =>
        simp only [surplus, WrrRq.enqueue, Bool.false_eq_true, if_false, List.map_append,
          List.sum_append, List.map_cons, List.map_nil, List.sum_singleton, weights]
        omega
  · rfl

/-- The weight of a queued task is written without the counter. -/
theorem surplus_rewritten (new : TaskStruct) (unique : wrr.queue.Nodup) (member : p ∈ wrr.queue) :
    surplus (Function.update task p new) wrr =
      surplus task wrr + (task p).wrr.weight - new.wrr.weight := by
  have values : (fun q => (weights (Function.update task p new) q : Int)) =
      Function.update (fun q => (weights task q : Int)) p (new.wrr.weight : Int) := by
    funext q
    by_cases same : q = p
    · subst same
      simp [weights]
    · simp [weights, Function.update_of_ne same]
  have sum := sum_update wrr.queue unique p member (fun q => (weights task q : Int))
    (new.wrr.weight : Int)
  rw [surplus, values, sum]
  simp only [surplus, weights]
  omega

end Queue

def Balanced (s next : Sched) : Prop :=
  ∀ c, surplus next.task (next.rq c).wrr = surplus s.task (s.rq c).wrr

def OffQueues (s : Sched) (p : Pid) : Prop := ∀ c, p ∉ (s.rq c).wrr.queue

section Balanced
variable {env : Env} {s next last : Sched}

theorem Balanced.refl (s : Sched) : Balanced s s := fun _ => rfl

theorem Balanced.trans (one : Balanced s next) (two : Balanced next last) : Balanced s last :=
  fun c => (two c).trans (one c)

theorem Balanced.of_still (same : ∀ p, weights next.task p = weights s.task p)
    (rq : ∀ c, (s.rq c).Reordered (next.rq c)) : Balanced s next := by
  intro c
  rw [surplus_reordered (rq c)]
  exact surplus_congr fun p _ => same p

theorem Balanced.of_quiet (quiet : Quiet env s next) (task : next.task = s.task) :
    Balanced s next :=
  .of_still (fun p => by rw [task]) quiet.rq

theorem Balanced.of_edit (p : Pid) (new : TaskStruct)
    (task : next.task = Function.update s.task p new) (rq : next.rq = s.rq)
    (weight : new.wrr.weight = (s.task p).wrr.weight) : Balanced s next := by
  apply Balanced.of_still
  · intro q
    rw [task]
    by_cases same : q = p
    · subst same
      simpa [weights] using weight
    · exact weights_update_of_ne p q new same
  · intro c
    rw [rq]
    exact .refl _

theorem Balanced.off (p : Pid) (new : TaskStruct) (off : OffQueues s p)
    (task : next.task = Function.update s.task p new) (rq : next.rq = s.rq) :
    Balanced s next := by
  intro c
  rw [task, rq]
  exact surplus_edit new (off c)

theorem Balanced.taken (sound : Sound env s) (p : Pid) (on : (s.task p).onRq = true)
    (wrapped : Bool) (task : next.task = s.task)
    (rq : next.rq = Function.update s.rq (s.task p).cpu
      ((s.rq (s.task p).cpu).taken env.kernel wrapped (s.task p) p)) : Balanced s next := by
  intro c
  rw [task, rq]
  by_cases here : c = (s.task p).cpu
  · subst here
    rw [Function.update_self]
    apply surplus_taken
    intro isWrr
    exact ((sound.queues _).wrr.lists.mem_iff p).mpr ((has_entries _ _ _ _).mpr ⟨on, rfl, isWrr⟩)
  · rw [Function.update_of_ne here]

theorem Balanced.put (p : Pid) (new : TaskStruct) (off : OffQueues s p) (c : Cpu)
    (kernel : Kernel) (wrapped head : Bool) (task : next.task = Function.update s.task p new)
    (rq : next.rq = Function.update s.rq c ((s.rq c).put kernel wrapped head new p)) :
    Balanced s next := by
  intro d
  rw [task, rq]
  have self : (Function.update s.task p new) p = new := Function.update_self p new s.task
  by_cases here : d = c
  · subst here
    rw [Function.update_self]
    have put : surplus (Function.update s.task p new)
        ((s.rq d).put kernel wrapped head (Function.update s.task p new p) p).wrr =
          surplus (Function.update s.task p new) (s.rq d).wrr := surplus_put kernel wrapped head
    rw [self] at put
    rw [put]
    exact surplus_edit new (off d)
  · rw [Function.update_of_ne here]
    exact surplus_edit new (off d)

theorem Balanced.moved (sound : Sound env s) (p : Pid) (on : (s.task p).onRq = true)
    (new : TaskStruct) (dest : Cpu) (wrapped head : Bool)
    (task : next.task = Function.update s.task p new)
    (rq : next.rq = Function.update
      (Function.update s.rq (s.task p).cpu
        ((s.rq (s.task p).cpu).taken env.kernel wrapped (s.task p) p)) dest
      ((Function.update s.rq (s.task p).cpu
        ((s.rq (s.task p).cpu).taken env.kernel wrapped (s.task p) p) dest).put env.kernel wrapped
          head new p)) : Balanced s next := by
  let taken : Rq := (s.rq (s.task p).cpu).taken env.kernel wrapped (s.task p) p
  let off : Sched := { s with rq := Function.update s.rq (s.task p).cpu taken }
  have left : Balanced s off := .taken sound p on wrapped rfl rfl
  have gone : OffQueues off p := fun c => absent_after_taken sound c p wrapped
  exact left.trans (.put p new gone dest env.kernel wrapped head task rq)

theorem Sound.offQueues (sound : Sound env s) (p : Pid) (off : (s.task p).onRq = false) :
    OffQueues s p := by
  intro c member
  have on := (sound.queued_at member).1
  rw [off] at on
  cases on

end Balanced

section Operations
variable {env : Env} {s : Sched}

theorem checkPreemptCurr_balanced (c : Cpu) (p : Pid) :
    Balanced s (checkPreemptCurr env s c p) :=
  .of_quiet (checkPreemptCurr_quiet env s c p) (checkPreemptCurr_task env s c p)

theorem ttwuDoWakeup_balanced (c : Cpu) (p : Pid) : Balanced s (ttwuDoWakeup env s c p) := by
  have preempts : Balanced s (checkPreemptCurr env s c p) := checkPreemptCurr_balanced c p
  exact preempts.trans (.of_edit p { s.task p with state := 0 } (by simp [ttwuDoWakeup]) rfl
    (by simp))

theorem ttwuActivate_balanced (off : OffQueues s p) (c : Cpu) :
    Balanced s (ttwuActivate env s c p) := by
  have activated : Balanced s (activateTask env s c p false) :=
    .put p _ off c env.kernel true false (activateTask_task env s c p false)
      (activateTask_rq env s c p false)
  exact activated.trans (.of_edit p { (activateTask env s c p false).task p with onRq := true }
    rfl rfl rfl)

theorem ttwuDoActivate_balanced (off : OffQueues s p) (c : Cpu) :
    Balanced s (ttwuDoActivate env s c p) :=
  (ttwuActivate_balanced off c).trans (ttwuDoWakeup_balanced c p)

theorem ttwuPlace_balanced (dest : Cpu) : Balanced s (ttwuPlace env s p dest) := by
  rcases ttwuPlace_cases env s p dest with same | same | same <;> rw [same]
  · exact .refl s
  · exact .of_edit p { s.task p with state := taskWaking } rfl rfl rfl
  · exact .of_edit p _ rfl rfl rfl

theorem ttwuPlace_offQueues (off : OffQueues s p) (dest : Cpu) :
    OffQueues (ttwuPlace env s p dest) p := by
  intro c
  rw [ttwuPlace_rq]
  exact off c

theorem tryToWakeUp_balanced (sound : Sound env s) (p : Pid) (mask : Nat) (dest : Cpu) :
    Balanced s (tryToWakeUp env s p mask dest) := by
  simp only [tryToWakeUp]
  split
  · exact .refl s
  · split
    · exact ttwuDoWakeup_balanced _ p
    · rename_i off
      have gone : OffQueues s p := sound.offQueues p (by simpa using off)
      exact (ttwuPlace_balanced dest).trans
        (ttwuDoActivate_balanced (ttwuPlace_offQueues gone dest) _)

theorem placeNewTask_balanced (off : OffQueues s p) (dest : Cpu) :
    Balanced s (placeNewTask env s p dest) := by
  obtain ⟨new, task, rq, -⟩ := placeNewTask_effect env s p dest
  exact .off p new off task rq

theorem placeNewTask_offQueues (off : OffQueues s p) (dest : Cpu) :
    OffQueues (placeNewTask env s p dest) p := by
  obtain ⟨-, -, rq, -⟩ := placeNewTask_effect env s p dest
  intro c
  rw [rq]
  exact off c

theorem wakeUpNewTask_balanced (off : OffQueues s p) (dest : Cpu) :
    Balanced s (wakeUpNewTask env s p dest) :=
  (placeNewTask_balanced off dest).trans
    ((ttwuActivate_balanced (placeNewTask_offQueues off dest) _).trans
      (checkPreemptCurr_balanced _ p))

theorem forkTask_balanced (off : OffQueues s p) (c : Cpu) : Balanced s (forkTask env s c p) :=
  .off p _ off rfl rfl

theorem scheduleOut_balanced (sound : Sound env s) (c : Cpu)
    (preemptActive signalPending : Bool) :
    Balanced s (scheduleOut env s c preemptActive signalPending) := by
  rcases scheduleOut_cases env s c preemptActive signalPending with same | ⟨wants, awake | asleep⟩
  · rw [same]
    exact .refl s
  · rw [awake]
    exact .of_edit (s.rq c).curr _ rfl rfl rfl
  · rw [asleep]
    have on : (s.task (s.rq c).curr).onRq = true := by
      rcases sound.running.curr_on c with on | isIdle
      · exact on
      · -- the idle task never has a state other than running
        have resting := sound.running.idle_rests _ (sound.running.idle_class c).1
        rw [← isIdle] at resting
        exact absurd resting.2.1 wants
    have home := sound.running.curr_cpu c
    have left : Balanced s (deactivateTask env s c (s.rq c).curr) := by
      apply Balanced.taken sound (s.rq c).curr on true (deactivateTask_task env s c _)
      rw [home]
      exact deactivateTask_rq env s c _
    exact left.trans (.of_edit (s.rq c).curr _ rfl rfl rfl)

theorem schedule_balanced (sound : Sound env s) (c : Cpu) (preemptActive signalPending : Bool) :
    Balanced s (schedule env s c preemptActive signalPending) := by
  intro d
  rw [← scheduleOut_balanced sound c preemptActive signalPending d]
  have queue : ((schedule env s c preemptActive signalPending).rq d).wrr =
      ((scheduleOut env s c preemptActive signalPending).rq d).wrr := by
    rw [schedule_rq]
    by_cases here : d = c
    · subst here
      rw [Function.update_self]
    · rw [Function.update_of_ne here]
  rw [queue]
  apply surplus_congr
  intro p _
  rw [weights, schedule_task, switchTasks_same]
  rfl

theorem moveQueued_balanced (sound : Sound env s) (p : Pid) (dest : Cpu)
    (on : (s.task p).onRq = true) : Balanced s (moveQueued env s p (s.task p).cpu dest) :=
  .moved sound p on _ dest true false (moveQueued_task env s p _ dest)
    (moveQueued_rq env s p _ dest)

theorem pullWrrTask_balanced (sound : Sound env s) (dest : Cpu) :
    Balanced s (pullWrrTask env s dest) := by
  simp only [pullWrrTask]
  split
  · exact .refl s
  · split
    · exact .refl s
    · rename_i src p found
      obtain ⟨-, member, -⟩ := pullSource_spec found
      obtain ⟨on, home, -⟩ := sound.queued_at member
      subst home
      exact (moveQueued_balanced sound p dest on).trans (checkPreemptCurr_balanced dest p)

theorem migrateTask_balanced (sound : Sound env s) (p : Pid) (src dest : Cpu) :
    Balanced s (migrateTask env s p src dest).1 := by
  simp only [migrateTask]
  split
  · exact .refl s
  · split
    · exact .refl s
    · rename_i home
      split
      · exact .refl s
      · split
        · rename_i on
          have here : (s.task p).cpu = src := not_not.mp home
          subst here
          exact (moveQueued_balanced sound p dest on).trans (checkPreemptCurr_balanced dest p)
        · exact .refl s

theorem weights_modify (p : Pid) (f : TaskStruct → TaskStruct)
    (keeps : (f (s.task p)).wrr.weight = (s.task p).wrr.weight) (q : Pid) :
    weights (s.modifyTask p f).task q = weights s.task q := by
  by_cases same : q = p
  · subst same
    simpa [weights] using keeps
  · exact weights_update_of_ne p q _ same

theorem taskTickWrr_weights (c : Cpu) (p q : Pid) :
    weights (taskTickWrr env s c p).task q = weights s.task q := by
  have charged : weights (updateCurrWrr s c).task q = weights s.task q := by
    rw [updateCurrWrr_task]
  rw [← charged]
  simp only [taskTickWrr]
  split
  · exact weights_modify p _ rfl q
  · split
    · exact weights_modify p _ rfl q
    · exact weights_modify p _ rfl q

theorem taskTickRt_weights (c : Cpu) (p q : Pid) :
    weights (taskTickRt env s c p).task q = weights s.task q := by
  have charged : weights (updateCurrRt env s c).task q = weights s.task q := by
    rw [updateCurrRt_task]
  rw [← charged]
  simp only [taskTickRt]
  split_ifs
  · rfl
  · exact weights_modify p _ rfl q
  · simp only [reschedTask_task, requeueTaskRt_task]
    exact weights_modify p _ rfl q
  · exact weights_modify p _ rfl q

theorem tickLocked_weights (c : Cpu) (p : Pid) :
    weights (tickLocked env s c).task p = weights s.task p := by
  have clocked : weights (updateRqClock env s c).task p = weights s.task p := rfl
  rw [← clocked]
  simp only [tickLocked, taskTick]
  split
  · exact taskTickRt_weights c _ p
  · exact taskTickWrr_weights c _ p
  · split
    · simp
    · simp
  · rfl
  · rfl

theorem tickLocked_balanced (c : Cpu) : Balanced s (tickLocked env s c) :=
  .of_still (tickLocked_weights c) (tickLocked_quiet env s c).rq

theorem schedulerTick_balanced (sound : Sound env s) (c : Cpu) :
    Balanced s (schedulerTick env s c) := by
  have ticked : Sound env (tickLocked env s c) := sound.quiet (tickLocked_quiet env s c)
  simp only [schedulerTick]
  split
  · exact (tickLocked_balanced c).trans (pullWrrTask_balanced ticked c)
  · exact tickLocked_balanced c

theorem schedYield_balanced (sound : Sound env s) (c : Cpu) : Balanced s (schedYield env s c) := by
  apply Balanced.of_quiet (schedYield_quiet env s c (sound.curr_queued c))
  simp only [schedYield, yieldTaskRt, yieldTaskWrr, requeueTaskWrr]
  split <;> simp

theorem requeueAround_balanced (sound : Sound env s) (p : Pid) (wrapped head : Bool)
    (change : TaskStruct → TaskStruct) :
    Balanced s (requeueAround env s (s.task p).cpu p wrapped change head) := by
  have task := requeueAround_task env s (s.task p).cpu p wrapped head change
  have rq := requeueAround_rq env s (s.task p).cpu p wrapped head change
  by_cases on : (s.task p).onRq = true
  · rw [if_pos on] at task rq
    apply Balanced.moved sound p on _ (s.task p).cpu wrapped head task
    rw [Function.update_self, Function.update_idem]
    exact rq
  · rw [if_neg on] at task rq
    exact .off p _ (sound.offQueues p (by simpa using on)) task rq

theorem requeueChange_balanced (sound : Sound env s) (p : Pid) (wrapped head : Bool)
    (change : TaskStruct → TaskStruct) (keepsOn : (change (s.task p)).onRq = (s.task p).onRq)
    (prevClass : SchedClass) (oldprio : Int) :
    Balanced s (checkClassChanged env (requeueAround env s (s.task p).cpu p wrapped change head)
      (s.task p).cpu p prevClass oldprio) :=
  (requeueAround_balanced sound p wrapped head change).trans
    (.of_quiet (checkClassChanged_quiet env _ _ p prevClass oldprio)
      (requeueChange_task env s _ p wrapped head change prevClass oldprio keepsOn))

theorem setUserNice_balanced (sound : Sound env s) (p : Pid) (nice : Int) :
    Balanced s (setUserNice env s p nice) := by
  let edited := effectivePrio { s.task p with staticPrio := niceToPrio nice }
  simp only [setUserNice]
  split
  · exact .refl s
  · split
    · exact .of_edit p _ rfl rfl rfl
    · by_cases on : (s.task p).onRq = true
      · simp only [if_pos on]
        apply Balanced.moved sound p on (enqueuedTask env edited) (s.task p).cpu false false
        · split <;> simp [enqueueTask_task, edited]
        · rw [Function.update_self, Function.update_idem]
          split <;> simp [enqueueTask_rq, dequeueTask_rq, Rq.taken, Rq.put, edited]
      · simp only [if_neg on]
        exact .off p edited (sound.offQueues p (by simpa using on)) (by simp [edited]) (by simp)

theorem normalizeTask_balanced (sound : Sound env s) (p : Pid) (waiter : Option Nat) :
    Balanced s (normalizeTask env s p waiter) := by
  have task := normalizeAround_task env s p waiter
  have rq := normalizeAround_rq env s p waiter
  have around : Balanced s (normalizeAround env s p waiter) := by
    by_cases on : (s.task p).onRq = true
    · rw [if_pos on] at task rq
      apply Balanced.moved sound p on _ (s.task p).cpu true false task
      rw [Function.update_self, Function.update_idem]
      exact rq
    · rw [if_neg on] at task rq
      exact .off p _ (sound.offQueues p (by simpa using on)) task rq
  have same : (normalizeTask env s p waiter).task = (normalizeAround env s p waiter).task := by
    rw [normalizeTask_task, normalizeAround_task]
  exact around.trans (.of_quiet (checkClassChanged_quiet env _ _ p _ _) same)

theorem normalizeRtTask_balanced (sound : Sound env s) (p : Pid) (waiter : Option Nat) :
    Balanced s (normalizeRtTask env s p waiter) := by
  have stamped : Sound env (s.modifySe p fun se => { se with execStart := 0 }) :=
    sound.of_eq rfl rfl rfl
  simp only [normalizeRtTask]
  split
  · exact .refl s
  · split
    · split
      · exact setUserNice_balanced stamped p 0
      · exact .refl s
    · exact normalizeTask_balanced stamped p waiter

theorem setschedulerApply_balanced (sound : Sound env s) (p : Pid) (policy : Policy) (prio : Nat)
    (reset : Bool) (waiter : Option Nat) :
    Balanced s (setschedulerApply env s p policy prio reset waiter) :=
  requeueChange_balanced sound p _ false _ rfl _ _

theorem rtMutexSetprio_balanced (sound : Sound env s) (p : Pid) (prio : Int) :
    Balanced s (rtMutexSetprio env s p prio) := by
  simp only [rtMutexSetprio]
  split
  · exact .refl s
  · exact requeueChange_balanced sound p false _ _ rfl _ _

theorem doSetCpusAllowed_balanced (p : Pid) (mask : Cpumask) :
    Balanced s (doSetCpusAllowed env s p mask) := by
  simp only [doSetCpusAllowed]
  split
  · exact .of_edit p _ rfl rfl rfl
  · exact .refl s
  · exact .of_edit p _ rfl rfl rfl

theorem apply_balanced (sound : Sound env s) (op : Op) (allowed : Allowed env s op) :
    Balanced s (apply env s op) := by
  cases op with
  | fork c child =>
      exact forkTask_balanced (sound.offQueues child (by simpa using allowed.2.2)) c
  | wakeUpNewTask p dest =>
      exact wakeUpNewTask_balanced (sound.offQueues p (by simpa using allowed.2)) dest
  | tryToWakeUp p mask dest => exact tryToWakeUp_balanced sound p mask dest
  | ttwuQueueRemote p dest => exact ttwuPlace_balanced dest
  | schedTtwuPending p =>
      exact ttwuDoActivate_balanced (sound.offQueues p (by simpa using allowed.2.1)) _
  | setCurrentState c state => exact .of_edit (s.rq c).curr _ rfl rfl rfl
  | schedule c preemptActive signalPending =>
      exact schedule_balanced sound c preemptActive signalPending
  | schedulerTick c => exact schedulerTick_balanced sound c
  | schedYield c => exact schedYield_balanced sound c
  | setscheduler caller p seen policy prio user waiter =>
      simp only [apply]
      split
      · rename_i code next done
        rcases setschedulerPass_cases done with same | ⟨request, -, -, -, same⟩
        · rw [same]
          exact .refl s
        · rw [same]
          exact setschedulerApply_balanced sound p _ _ _ waiter
      · exact .refl s
  | rtMutexSetprio p waiter => exact rtMutexSetprio_balanced sound p _
  | setUserNice p nice => exact setUserNice_balanced sound p nice
  | cgroupAttach p group => exact .of_edit p _ rfl rfl rfl
  -- the weight is counted out before the group changes and counted in again after it
  | schedMoveTask p => exact requeueAround_balanced sound p false false _
  | migrateTask p src dest => exact migrateTask_balanced sound p src dest
  | pushTask p dest => exact moveQueued_balanced sound p dest allowed.2.2.1
  | pullWrrTask dest => exact pullWrrTask_balanced sound dest
  | rtPeriodTimer g c overrun =>
      have same : (apply env s (.rtPeriodTimer g c overrun)).task = s.task := by simp [apply]
      have quiet : Quiet env s (apply env s (.rtPeriodTimer g c overrun)) :=
        Quiet.of_rt same (by simp [apply]) (doSchedRtPeriodTimer_rtQuiet env s c g overrun)
      exact .of_quiet quiet same
  | balanceRuntime g c runtime => exact .refl s
  | normalizeRtTask p waiter => exact normalizeRtTask_balanced sound p waiter
  | setCpusAllowed p mask => exact doSetCpusAllowed_balanced p mask

end Operations

end AndroidKernel
