import AndroidKernel.RtQueueInvariant

/-!
The effect of each function on the columns `task` and `rq`, one lemma a
function, so that later proofs do not unfold the hooks. A `Quiet` function
moves no task: it reorders queues, changes time slices and rewrites weights by
the group path, and leaves everything else of the two columns alone.
-/

namespace AndroidKernel

def TaskStruct.SliceKept (env : Env) (before after : TaskStruct) : Prop :=
  100 ≤ env.hz → 1 ≤ before.wrr.timeSlice → 1 ≤ after.wrr.timeSlice

theorem pathTimeslice_pos {env : Env} (hz : 100 ≤ env.hz) (group : Group) :
    1 ≤ pathTimeslice env group := by
  simp only [pathTimeslice, wrrBgTimeslice, wrrFgTimeslice]
  split <;> omega

theorem refillSlice_pos {env : Env} (hz : 100 ≤ env.hz) (wrr : SchedWrrEntity) :
    1 ≤ refillSlice env wrr := by
  simp only [refillSlice, wrrBgTimeslice, wrrFgTimeslice]
  split <;> omega

structure TaskStruct.Ticked (env : Env) (before after : TaskStruct) : Prop where
  shape : after = { before with
    rt := { before.rt with timeSlice := after.rt.timeSlice }
    wrr := { before.wrr with timeSlice := after.wrr.timeSlice, weight := after.wrr.weight } }
  weight : after.wrr.weight = before.wrr.weight ∨
    after.wrr.weight = pathWeight env (taskGroup env before)
  slice : before.SliceKept env after

namespace TaskStruct.Ticked
variable {env : Env} {before after : TaskStruct}

theorem refl (env : Env) (task : TaskStruct) : task.Ticked env task :=
  ⟨rfl, Or.inl rfl, fun _ => id⟩

theorem onRq (same : before.Ticked env after) : after.onRq = before.onRq := by
  simpa using congrArg TaskStruct.onRq same.shape

theorem onCpu (same : before.Ticked env after) : after.onCpu = before.onCpu := by
  simpa using congrArg TaskStruct.onCpu same.shape

theorem cpu (same : before.Ticked env after) : after.cpu = before.cpu := by
  simpa using congrArg TaskStruct.cpu same.shape

theorem state (same : before.Ticked env after) : after.state = before.state := by
  simpa using congrArg TaskStruct.state same.shape

theorem schedClass (same : before.Ticked env after) : after.schedClass = before.schedClass := by
  simpa using congrArg TaskStruct.schedClass same.shape

theorem policy (same : before.Ticked env after) : after.policy = before.policy := by
  simpa using congrArg TaskStruct.policy same.shape

theorem prio (same : before.Ticked env after) : after.prio = before.prio := by
  simpa using congrArg TaskStruct.prio same.shape

theorem staticPrio (same : before.Ticked env after) : after.staticPrio = before.staticPrio := by
  simpa using congrArg TaskStruct.staticPrio same.shape

theorem normalPrio (same : before.Ticked env after) : after.normalPrio = before.normalPrio := by
  simpa using congrArg TaskStruct.normalPrio same.shape

theorem rtPriority (same : before.Ticked env after) : after.rtPriority = before.rtPriority := by
  simpa using congrArg TaskStruct.rtPriority same.shape

theorem rtRq (same : before.Ticked env after) : after.rt.rtRq = before.rt.rtRq := by
  simpa using congrArg (fun task => task.rt.rtRq) same.shape

theorem cpusAllowed (same : before.Ticked env after) :
    after.cpusAllowed = before.cpusAllowed := by
  simpa using congrArg TaskStruct.cpusAllowed same.shape

theorem group (same : before.Ticked env after) : taskGroup env after = taskGroup env before := by
  have sched := congrArg TaskStruct.schedTaskGroup same.shape
  have cgroup := congrArg TaskStruct.cpuCgroup same.shape
  simp only at sched cgroup
  simp [taskGroup, sched, cgroup]

theorem entry (same : before.Ticked env after) : after.entry = before.entry := by
  simp only [TaskStruct.entry, same.schedClass, same.prio, same.normalPrio, same.rtRq]

theorem trans {last : TaskStruct} (one : before.Ticked env after) (two : after.Ticked env last) :
    before.Ticked env last := by
  refine ⟨?_, ?_, fun hz positive => two.slice hz (one.slice hz positive)⟩
  · rw [two.shape, one.shape]
  · rcases two.weight with kept | written
    · rw [kept]
      exact one.weight
    · right
      rw [written, one.group]

end TaskStruct.Ticked

structure Quiet (env : Env) (before after : Sched) : Prop where
  task : ∀ p, (before.task p).Ticked env (after.task p)
  rq : ∀ c, (before.rq c).Reordered (after.rq c)
  rt : RtQuiet env before after

section Quiet
variable {env : Env} {s next : Sched}

theorem Quiet.refl (env : Env) (s : Sched) : Quiet env s s :=
  ⟨fun _ => .refl _ _, fun _ => .refl _, .refl env s⟩

theorem Quiet.trans {last : Sched} (one : Quiet env s next) (two : Quiet env next last) :
    Quiet env s last :=
  ⟨fun p => (one.task p).trans (two.task p), fun c => (one.rq c).trans (two.rq c),
    one.rt.trans two.rt⟩

theorem Quiet.of_rt (sameTask : next.task = s.task) (sameRq : next.rq = s.rq)
    (rt : RtQuiet env s next) : Quiet env s next := by
  refine ⟨fun p => ?_, fun c => ?_, rt⟩
  · rw [sameTask]
    exact .refl _ _
  · rw [sameRq]
    exact .refl _

theorem Quiet.of_eq (sameTask : next.task = s.task) (sameRq : next.rq = s.rq)
    (sameRt : next.rt = s.rt) : Quiet env s next :=
  .of_rt sameTask sameRq (.of_eq sameTask sameRt)

theorem Quiet.of_task {p : Pid} {f : TaskStruct → TaskStruct}
    (ticked : (s.task p).Ticked env (f (s.task p))) : Quiet env s (s.modifyTask p f) := by
  have task (q : Pid) : (s.task q).Ticked env ((s.modifyTask p f).task q) := by
    by_cases same : q = p
    · subst same
      simpa using ticked
    · simpa [Function.update_of_ne same] using TaskStruct.Ticked.refl env (s.task q)
  refine ⟨task, fun c => .refl _, .of_state fun c => ?_⟩
  simp only [Sched.rtState, (task _).prio, (task _).normalPrio, (task _).rtRq]
  rfl

theorem Quiet.of_rq {c : Cpu} {f : Rq → Rq} (reordered : (s.rq c).Reordered (f (s.rq c))) :
    Quiet env s (s.modifyRq c f) := by
  refine ⟨fun q => .refl _ _, fun d => ?_, .of_eq rfl rfl⟩
  by_cases same : d = c
  · subst same
    simpa using reordered
  · simpa [Function.update_of_ne same] using Rq.Reordered.refl (s.rq d)

/-- A quiet function keeps the queue invariant of 3.4 when the queued WRR
tasks have the weight of their group; 3.1 needs no such condition. -/
theorem SchedOk.quiet (ok : SchedOk env s.task s.rq) (weighed : Weighed env s.task)
    (quiet : Quiet env s next) : SchedOk env next.task next.rq := by
  intro c
  have sameEntries : entries next.task c = entries s.task c := by
    funext p
    simp [entries, (quiet.task p).onRq, (quiet.task p).cpu, (quiet.task p).entry]
  rw [sameEntries]
  refine ((ok c).reordered (quiet.rq c)).congr_weight fun goldfish p has => ?_
  obtain ⟨on, -, isWrr⟩ := (has_entries _ _ _ _).mp has
  rcases (quiet.task p).weight with kept | written
  · exact kept.symm
  · exact (weighed goldfish p on isWrr).trans written.symm

theorem Weighed.quiet (weighed : Weighed env s.task) (quiet : Quiet env s next) :
    Weighed env next.task := by
  intro goldfish p on isWrr
  rw [(quiet.task p).group]
  rw [(quiet.task p).onRq] at on
  rw [(quiet.task p).schedClass] at isWrr
  rcases (quiet.task p).weight with kept | written
  · rw [kept]
    exact weighed goldfish p on isWrr
  · exact written

end Quiet

section Bookkeeping
variable (env : Env) (s : Sched) (c : Cpu) (p : Pid)

@[simp] theorem classPutPrev_task : (classPutPrev env s c p).task = s.task := by
  simp only [classPutPrev, putPrevTaskRt, putPrevTaskWrr]
  cases env.kernel <;> split <;> try split
  all_goals simp

@[simp] theorem classPutPrev_rq : (classPutPrev env s c p).rq = s.rq := by
  simp only [classPutPrev, putPrevTaskRt, putPrevTaskWrr]
  cases env.kernel <;> split <;> try split
  all_goals simp

@[simp] theorem putPrevTask_task : (putPrevTask env s c p).task = s.task := by
  simp only [putPrevTask, classPutPrev_task]
  split <;> simp

@[simp] theorem putPrevTask_rq : (putPrevTask env s c p).rq = s.rq := by
  simp only [putPrevTask, classPutPrev_rq]
  split <;> simp

@[simp] theorem setCurrTask_task : (setCurrTask env s c).task = s.task := by
  simp only [setCurrTask, setCurrTaskRt, setCurrTaskWrr]
  split <;> simp

@[simp] theorem setCurrTask_rq : (setCurrTask env s c).rq = s.rq := by
  simp only [setCurrTask, setCurrTaskRt, setCurrTaskWrr]
  split <;> simp

theorem classPutPrev_rtQuiet : RtQuiet env s (classPutPrev env s c p) := by
  have charged := updateCurrRt_rtQuiet env s c
  simp only [classPutPrev, putPrevTaskRt, putPrevTaskWrr]
  cases env.kernel <;> split <;> try split
  all_goals first
    | exact charged
    | exact charged.trans (.of_eq rfl rfl)
    | exact .of_eq (by simp) (by simp)

theorem putPrevTask_rtQuiet : RtQuiet env s (putPrevTask env s c p) := by
  simp only [putPrevTask]
  split_ifs
  · exact RtQuiet.trans (.of_eq rfl rfl) (classPutPrev_rtQuiet env (updateRqClock env s c) c p)
  · exact classPutPrev_rtQuiet env s c p

@[simp] theorem setCurrTask_rt : (setCurrTask env s c).rt = s.rt := by
  simp only [setCurrTask, setCurrTaskRt, setCurrTaskWrr]
  split <;> simp

@[simp] theorem pickStamp_rt (picked : SchedClass × Pid) :
    (pickStamp env s c picked).rt = s.rt := by
  simp only [pickStamp]
  split <;> simp

@[simp] theorem pickStamp_task (picked : SchedClass × Pid) :
    (pickStamp env s c picked).task = s.task := by
  simp only [pickStamp]
  split <;> simp

@[simp] theorem pickStamp_rq (picked : SchedClass × Pid) :
    (pickStamp env s c picked).rq = s.rq := by
  simp only [pickStamp]
  split <;> simp

end Bookkeeping

section Requeue
variable (env : Env) (s : Sched) (c : Cpu) (p : Pid)

theorem requeueTaskWrr_quiet (head : Bool) (member : p ∈ (s.rq c).wrr.queue) :
    Quiet env s (requeueTaskWrr s c p head) := by
  refine Quiet.of_rq ⟨?_, rfl, rfl, rfl, rfl, rfl, rfl, rfl⟩
  have first := List.perm_cons_erase member
  cases head with
  | true => exact first
  | false => exact first.trans (List.perm_append_singleton p _).symm

theorem requeueTaskRt_quiet (head : Bool) : Quiet env s (requeueTaskRt env s c p head) :=
  Quiet.of_rt rfl rfl (.modifyRt _ (RtGroups.requeueTaskRt_still env.groups _ p head))

@[simp] theorem requeueTaskRt_task (head : Bool) :
    (requeueTaskRt env s c p head).task = s.task := rfl

@[simp] theorem requeueTaskRt_rq (head : Bool) :
    (requeueTaskRt env s c p head).rq = s.rq := rfl

theorem reschedTask_quiet : Quiet env s (reschedTask s p) := Quiet.of_eq rfl rfl rfl

theorem checkPreemptCurrRt_quiet : Quiet env s (checkPreemptCurrRt env s c p) := by
  simp only [checkPreemptCurrRt, checkPreemptEqualPrio]
  split_ifs
  · exact reschedTask_quiet env s _
  all_goals first
    | exact Quiet.refl env s
    | exact (requeueTaskRt_quiet env s c p true).trans (reschedTask_quiet env _ _)

theorem checkPreemptCurr_quiet : Quiet env s (checkPreemptCurr env s c p) := by
  simp only [checkPreemptCurr]
  split
  · split
    · exact Quiet.refl env s
    · exact checkPreemptCurrRt_quiet env s c p
    · exact Quiet.refl env s
    · split
      · exact reschedTask_quiet env s _
      · exact Quiet.refl env s
    · exact reschedTask_quiet env s _
  · split
    · exact reschedTask_quiet env s _
    · exact Quiet.refl env s

@[simp] theorem checkPreemptCurr_task : (checkPreemptCurr env s c p).task = s.task := by
  simp only [checkPreemptCurr, checkPreemptCurrRt, checkPreemptEqualPrio, checkPreemptCurrWrr]
  split_ifs <;> (try split) <;> simp

end Requeue

section Hooks
variable (env : Env) (s : Sched) (c : Cpu) (p : Pid)

theorem switchedToWrr_quiet : Quiet env s (switchedToWrr env s c p) := by
  simp only [switchedToWrr]
  split
  · have flagged : Quiet env s (if (s.task p).cpu = c ∧ ¬ rtPrio (rqCurr s c).prio
        then reschedTask s (s.rq c).curr else s) := by
      split
      · exact reschedTask_quiet env s _
      · exact Quiet.refl env s
    exact flagged.trans (Quiet.of_task ⟨rfl, Or.inr rfl, fun _ => id⟩)
  · exact Quiet.refl env s

theorem switchedTo_quiet : Quiet env s (switchedTo env s c p) := by
  simp only [switchedTo]
  split
  · simp only [switchedToRt]
    split
    · exact reschedTask_quiet env s _
    · exact Quiet.refl env s
  · exact switchedToWrr_quiet env s c p
  · split_ifs
    · exact reschedTask_quiet env s _
    · exact checkPreemptCurr_quiet env s c p
    · exact Quiet.refl env s
  · exact Quiet.refl env s
  · exact Quiet.refl env s

theorem prioChanged_quiet (oldprio : Int) : Quiet env s (prioChanged env s c p oldprio) := by
  simp only [prioChanged, prioChangedRt, prioChangedWrr]
  split
  · split_ifs <;> first | exact Quiet.refl env s | exact reschedTask_quiet env s _
  · exact Quiet.refl env s
  · split
    · exact reschedTask_quiet env s _
    · exact Quiet.refl env s
  · exact Quiet.refl env s
  · exact Quiet.refl env s

theorem checkClassChanged_quiet (prevClass : SchedClass) (oldprio : Int) :
    Quiet env s (checkClassChanged env s c p prevClass oldprio) := by
  simp only [checkClassChanged]
  split_ifs
  · exact switchedTo_quiet env s c p
  · exact prioChanged_quiet env s c p oldprio
  · exact Quiet.refl env s

/-- A tick requeues only a task that shares the queue, hence one that is on it. -/
theorem taskTickWrr_quiet : Quiet env s (taskTickWrr env s c p) := by
  have charged : Quiet env s (updateCurrWrr s c) := Quiet.of_eq (by simp) (by simp) (by simp)
  simp only [taskTickWrr]
  split_ifs with left shared
  · refine charged.trans (Quiet.of_task ⟨rfl, Or.inl rfl, fun _ _ => ?_⟩)
    exact Nat.one_le_iff_ne_zero.mpr left
  · refine charged.trans ((Quiet.of_task ⟨rfl, Or.inl rfl,
      fun hz _ => refillSlice_pos hz _⟩).trans
      ((requeueTaskWrr_quiet env _ c p false ?_).trans (reschedTask_quiet env _ p)))
    by_contra absent
    apply shared
    rw [RunList.ringNext_absent _ _ absent, RunList.ringPrev,
      RunList.ringNext_absent _ _ (by simpa using absent)]
  · exact charged.trans (Quiet.of_task ⟨rfl, Or.inl rfl, fun hz _ => refillSlice_pos hz _⟩)

theorem updateCurrRt_quiet : Quiet env s (updateCurrRt env s c) :=
  Quiet.of_rt (by simp) (by simp) (updateCurrRt_rtQuiet env s c)

theorem updateCurrFair_quiet : Quiet env s (updateCurrFair env s c) :=
  Quiet.of_eq (by simp) (by simp) (by simp)

theorem taskTickRt_quiet : Quiet env s (taskTickRt env s c p) := by
  have charged := updateCurrRt_quiet env s c
  simp only [taskTickRt]
  split_ifs
  · exact charged
  · exact charged.trans (Quiet.of_task ⟨rfl, Or.inl rfl, fun _ => id⟩)
  · exact charged.trans ((Quiet.of_task ⟨rfl, Or.inl rfl, fun _ => id⟩).trans
      ((requeueTaskRt_quiet env _ c p false).trans (reschedTask_quiet env _ p)))
  · exact charged.trans (Quiet.of_task ⟨rfl, Or.inl rfl, fun _ => id⟩)

theorem taskTick_quiet : Quiet env s (taskTick env s c p) := by
  simp only [taskTick]
  split
  · exact taskTickRt_quiet env s c p
  · exact taskTickWrr_quiet env s c p
  · have charged := updateCurrFair_quiet env s c
    split
    · exact charged.trans (reschedTask_quiet env _ p)
    · exact charged
  · exact Quiet.refl env s
  · exact Quiet.refl env s

theorem tickLocked_quiet : Quiet env s (tickLocked env s c) :=
  (Quiet.of_eq rfl rfl rfl : Quiet env s (updateRqClock env s c)).trans (taskTick_quiet env _ c _)

theorem schedYield_quiet
    (member : (rqCurr s c).schedClass = .wrr → (s.rq c).curr ∈ (s.rq c).wrr.queue) :
    Quiet env s (schedYield env s c) := by
  simp only [schedYield]
  split
  · exact requeueTaskRt_quiet env s c _ false
  · rename_i isWrr
    exact requeueTaskWrr_quiet env s c _ false (member isWrr)
  all_goals exact Quiet.refl env s

end Hooks

def enqueuedTask (env : Env) (task : TaskStruct) : TaskStruct :=
  if task.schedClass = .wrr then weighByPath env task else task

theorem enqueuedTask_ticked (env : Env) (task : TaskStruct) :
    task.Ticked env (enqueuedTask env task) := by
  simp only [enqueuedTask, weighByPath]
  split_ifs
  · exact .refl env task
  · exact ⟨rfl, Or.inr rfl, fun hz _ => pathTimeslice_pos hz _⟩
  · exact .refl env task

@[simp] theorem weighByPath_schedClass (env : Env) (task : TaskStruct) :
    (weighByPath env task).schedClass = task.schedClass := by
  simp only [weighByPath]
  split <;> rfl

theorem weighByPath_weight (env : Env) (task : TaskStruct) :
    (weighByPath env task).wrr.weight = pathWeight env (taskGroup env task) := by
  simp only [weighByPath]
  split
  · assumption
  · rfl

theorem enqueuedTask_weighed (env : Env) (task : TaskStruct)
    (isWrr : (enqueuedTask env task).schedClass = .wrr) :
    (enqueuedTask env task).wrr.weight =
      pathWeight env (taskGroup env (enqueuedTask env task)) := by
  have ticked := enqueuedTask_ticked env task
  rw [ticked.group]
  rw [ticked.schedClass] at isWrr
  rw [enqueuedTask, if_pos isWrr, weighByPath_weight]

section Moves
variable (env : Env) (s : Sched) (c : Cpu) (p : Pid) (head : Bool)

@[simp] theorem dequeueTask_task : (dequeueTask env s c p).task = s.task := by
  simp only [dequeueTask, dequeueTaskStop, dequeueTaskRt, dequeueTaskWrr, dequeueWrrEntity,
    dequeueTaskFair]
  split <;> simp

theorem dequeueTask_rq : (dequeueTask env s c p).rq =
    Function.update s.rq c ((s.rq c).dequeued env.kernel (s.task p) p) := by
  simp only [dequeueTask, dequeueTaskStop, dequeueTaskRt, dequeueTaskWrr, dequeueWrrEntity,
    dequeueTaskFair, Rq.dequeued]
  cases cls : (s.task p).schedClass <;> simp [cls]

theorem enqueueTask_task : (enqueueTask env s c p head).task =
    Function.update s.task p (enqueuedTask env (s.task p)) := by
  simp only [enqueueTask, enqueueTaskStop, enqueueTaskRt, enqueueTaskWrr, enqueueWrrEntity,
    enqueueTaskFair, enqueuedTask]
  cases cls : (s.task p).schedClass <;> simp [cls]

theorem enqueueTask_rq : (enqueueTask env s c p head).rq = Function.update s.rq c
    ((s.rq c).enqueued env.kernel head (enqueuedTask env (s.task p)) p) := by
  cases cls : (s.task p).schedClass <;>
    simp [enqueueTask, enqueueTaskStop, enqueueTaskRt, enqueueTaskWrr, enqueueWrrEntity,
      enqueueTaskFair, Rq.enqueued, cls, enqueuedTask]

theorem dequeueTask_rt (notRt : (s.task p).schedClass ≠ .rt) :
    (dequeueTask env s c p).rt = s.rt := by
  cases cls : (s.task p).schedClass
  case rt => exact absurd cls notRt
  all_goals
    simp [dequeueTask, dequeueTaskStop, dequeueTaskWrr, dequeueWrrEntity, dequeueTaskFair, cls]

theorem enqueueTask_rt (notRt : (s.task p).schedClass ≠ .rt) :
    (enqueueTask env s c p head).rt = s.rt := by
  cases cls : (s.task p).schedClass
  case rt => exact absurd cls notRt
  all_goals
    simp [enqueueTask, enqueueTaskStop, enqueueTaskWrr, enqueueWrrEntity, enqueueTaskFair, cls]

theorem deactivateTask_task : (deactivateTask env s c p).task = s.task := by
  simp [deactivateTask]

theorem deactivateTask_rq : (deactivateTask env s c p).rq =
    Function.update s.rq c ((s.rq c).taken env.kernel true (s.task p) p) := by
  simp [deactivateTask, dequeueTask_rq, Rq.taken]

theorem activateTask_task : (activateTask env s c p head).task =
    Function.update s.task p (enqueuedTask env (s.task p)) := by
  simp [activateTask, enqueueTask_task]

theorem activateTask_rq : (activateTask env s c p head).rq = Function.update s.rq c
    ((s.rq c).put env.kernel true head (enqueuedTask env (s.task p)) p) := by
  simp [activateTask, enqueueTask_rq, Rq.put]

end Moves

def takeOff (env : Env) (s : Sched) (c : Cpu) (p : Pid) (wrapped : Bool) : Sched :=
  if wrapped then deactivateTask env s c p else dequeueTask env s c p

def putOn (env : Env) (s : Sched) (c : Cpu) (p : Pid) (wrapped head : Bool) : Sched :=
  if wrapped then activateTask env s c p head else enqueueTask env s c p head

section TakePut
variable (env : Env) (s : Sched) (c : Cpu) (p : Pid) (wrapped head : Bool)

@[simp] theorem takeOff_task : (takeOff env s c p wrapped).task = s.task := by
  cases wrapped
  · exact dequeueTask_task env s c p
  · exact deactivateTask_task env s c p

theorem takeOff_rq : (takeOff env s c p wrapped).rq =
    Function.update s.rq c ((s.rq c).taken env.kernel wrapped (s.task p) p) := by
  cases wrapped
  · exact dequeueTask_rq env s c p
  · exact deactivateTask_rq env s c p

theorem putOn_task : (putOn env s c p wrapped head).task =
    Function.update s.task p (enqueuedTask env (s.task p)) := by
  cases wrapped
  · exact enqueueTask_task env s c p head
  · exact activateTask_task env s c p head

theorem putOn_rq : (putOn env s c p wrapped head).rq = Function.update s.rq c
    ((s.rq c).put env.kernel wrapped head (enqueuedTask env (s.task p)) p) := by
  cases wrapped
  · exact enqueueTask_rq env s c p head
  · exact activateTask_rq env s c p head

theorem requeueAround_eq (change : TaskStruct → TaskStruct) :
    requeueAround env s c p wrapped change head =
      (let off := if (s.task p).onRq then takeOff env s c p wrapped else s
       let put := if taskCurrent s c p then classPutPrev env off c p else off
       let changed := put.modifyTask p change
       let set := if taskCurrent s c p then setCurrTask env changed c else changed
       if (s.task p).onRq then putOn env set c p wrapped head else set) := rfl

theorem requeueAround_task (change : TaskStruct → TaskStruct) :
    (requeueAround env s c p wrapped change head).task = Function.update s.task p
      (if (s.task p).onRq then enqueuedTask env (change (s.task p)) else change (s.task p)) := by
  simp only [requeueAround_eq]
  split_ifs <;> simp [putOn_task]

theorem requeueAround_rq (change : TaskStruct → TaskStruct) :
    (requeueAround env s c p wrapped change head).rq =
      if (s.task p).onRq then Function.update s.rq c
        (((s.rq c).taken env.kernel wrapped (s.task p) p).put env.kernel wrapped head
          (enqueuedTask env (change (s.task p))) p)
      else s.rq := by
  simp only [requeueAround_eq]
  split_ifs <;> simp [putOn_rq, takeOff_rq]

end TakePut

def normalizeAround (env : Env) (s : Sched) (p : Pid) (waiter : Option Nat) : Sched :=
  let old := s.task p
  let c := old.cpu
  let s := if old.onRq then deactivateTask env s c p else s
  let s := s.modifyTask p (setscheduler waiter .normal 0)
  if old.onRq then reschedTask (activateTask env s c p false) (s.rq c).curr else s

section Normalize
variable (env : Env) (s : Sched) (p : Pid) (waiter : Option Nat)

theorem normalizeTask_eq : normalizeTask env s p waiter =
    checkClassChanged env (normalizeAround env s p waiter) (s.task p).cpu p
      (s.task p).schedClass (s.task p).prio := rfl

theorem normalizeAround_task :
    (normalizeAround env s p waiter).task = Function.update s.task p
      (if (s.task p).onRq then enqueuedTask env (setscheduler waiter .normal 0 (s.task p))
        else setscheduler waiter .normal 0 (s.task p)) := by
  simp only [normalizeAround]
  by_cases on : (s.task p).onRq = true
  · simp [if_pos on, activateTask_task, deactivateTask_task]
  · simp [if_neg on]

theorem normalizeAround_rq :
    (normalizeAround env s p waiter).rq =
      if (s.task p).onRq then Function.update s.rq (s.task p).cpu
        (((s.rq (s.task p).cpu).taken env.kernel true (s.task p) p).put env.kernel true false
          (enqueuedTask env (setscheduler waiter .normal 0 (s.task p))) p)
      else s.rq := by
  simp only [normalizeAround]
  by_cases on : (s.task p).onRq = true
  · simp [if_pos on, activateTask_rq, deactivateTask_rq, deactivateTask_task]
  · simp [if_neg on]

end Normalize

end AndroidKernel
