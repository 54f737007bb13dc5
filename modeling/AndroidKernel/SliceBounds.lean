import AndroidKernel.TaskEdits
import AndroidKernel.Boot

/-!
Weights and slices of 3.4. A slice between one tick and the quantum of the
weight beside it is kept by every edit, whatever class the task is in; so it is
there again when the task comes back to a WRR queue, where the weight is the
one of the group.
-/

namespace AndroidKernel

structure SliceOk (env : Env) (wrr : SchedWrrEntity) : Prop where
  one_le : 1 ≤ wrr.timeSlice
  le_quantum : wrr.timeSlice ≤ refillSlice env wrr

theorem SliceOk.initTask {env : Env} (hz : 100 ≤ env.hz) (wrr : SchedWrrEntity)
    (weight : wrr.weight = 0) (slice : wrr.timeSlice = rrTimeslice env) : SliceOk env wrr := by
  constructor
  · rw [slice, rrTimeslice]
    omega
  · rw [slice, refillSlice, weight]
    exact Nat.le_refl _

theorem refillSlice_path (env : Env) (group : Group) (wrr : SchedWrrEntity)
    (weight : wrr.weight = pathWeight env group) :
    refillSlice env wrr = pathTimeslice env group := by
  rw [refillSlice, weight, pathWeight, pathTimeslice]
  cases groupBackground env group with
  | true => rfl
  | false => rfl

theorem SliceOk.path {env : Env} (hz : 100 ≤ env.hz) (group : Group) (wrr : SchedWrrEntity) :
    SliceOk env { wrr with weight := pathWeight env group,
                           timeSlice := pathTimeslice env group } := by
  constructor
  · exact pathTimeslice_pos hz group
  · rw [refillSlice_path env group _ rfl]

/-- `--time_slice` does not wrap, and what it leaves is one tick or more unless
the slice is used up. -/
theorem SliceOk.ticked {env : Env} {wrr : SchedWrrEntity} (ok : SliceOk env wrr)
    (left : decTimeSlice wrr.timeSlice ≠ 0) :
    SliceOk env { wrr with timeSlice := decTimeSlice wrr.timeSlice } := by
  have one := ok.one_le
  have most := ok.le_quantum
  have less : decTimeSlice wrr.timeSlice = wrr.timeSlice - 1 := if_neg (by omega)
  constructor
  · exact Nat.one_le_iff_ne_zero.mpr left
  · change decTimeSlice wrr.timeSlice ≤ refillSlice env wrr
    omega

def KeepsSlice (env : Env) (before after : TaskStruct) : Prop :=
  SliceOk env before.wrr → SliceOk env after.wrr

theorem keepsSlice_respected {env : Env} (hz : 100 ≤ env.hz) :
    Respected env (KeepsSlice env) where
  refl _ := id
  trans one two := two ∘ one
  placed _ _ _ _ _ := id
  requeued _ _ := id
  rtSliced _ _ := id
  ticked _ left ok := ok.ticked left
  refilled task _ := ⟨refillSlice_pos hz task.wrr, Nat.le_refl _⟩
  weighed task _ := SliceOk.path hz (taskGroup env task) task.wrr
  enqueued task ok := by
    simp only [enqueuedTask, weighByPath]
    split
    · -- the branches of the enqueue: the weight fits already, or both are new
      split
      · exact ok
      · exact SliceOk.path hz (taskGroup env task) task.wrr
    · exact ok
  bound _ _ _ _ ok := ⟨ok.one_le, ok.le_quantum⟩
  grouped _ _ _ := id
  flagged _ _ := id

def SlicesOk (env : Env) (s : Sched) : Prop := ∀ p, SliceOk env (s.task p).wrr

theorem TaskStep.sliceOk {env : Env} {s : Sched} {op : Op} {p : Pid} {after : TaskStruct}
    (made : TaskStep env (KeepsSlice env) s op p after) (fine : SlicesOk env s) :
    SliceOk env after.wrr := by
  cases made with
  | kept same => exact same (fine p)
  | forked c is parent same =>
      have inherited : SliceOk env (schedFork env.kernel (rqCurr s c)).wrr := by
        rw [schedFork_wrr]
        exact fine _
      exact same inherited
  | set waiter policy prio ordinary small asked same => exact same (fine p)
  | boosted waiter is ordinary same => exact same (fine p)
  | niced nice low high real same => exact same (fine p)
  | reniced nice low high unreal same => exact same (fine p)

structure SliceSound (env : Env) (s : Sched) : Prop where
  sound : Sound env s
  slices : SlicesOk env s

theorem step_sliceSound {env : Env} {s next : Sched} {op : Op} (hz : 100 ≤ env.hz)
    (fine : SliceSound env s) (moved : step env s op = some next) : SliceSound env next := by
  constructor
  · exact step_sound fine.sound moved
  · intro p
    obtain ⟨allowed, rfl⟩ := step_some moved
    exact ((keepsSlice_respected hz).apply fine.sound op allowed p).sliceOk fine.slices

theorem run_sliceSound {env : Env} {ok : Sched → Op → Prop} {start s : Sched} {ops : List Op}
    (hz : 100 ≤ env.hz) (init : Init start) (slices : SlicesOk env start)
    (run : Transition.Run (step env) ok start ops s) : SliceSound env s := by
  apply run.invariant
  · intro state op next fine _ moved
    exact step_sliceSound hz fine moved
  · exact ⟨init_sound env init, slices⟩

structure WeightAndSlice (env : Env) (task : TaskStruct) : Prop where
  background : (env.groupPath task.schedTaskGroup)[1]? = some 'b' →
    task.wrr.weight = 1 ∧ task.wrr.timeSlice ≤ 10 * env.hz / 1000
  foreground : (env.groupPath task.schedTaskGroup)[1]? ≠ some 'b' →
    task.wrr.weight = 10 ∧ task.wrr.timeSlice ≤ 100 * env.hz / 1000
  one_le : 1 ≤ task.wrr.timeSlice

theorem SliceOk.of_weight {env : Env} {task : TaskStruct} (goldfish : env.kernel = .goldfish)
    (ok : SliceOk env task.wrr) (weight : task.wrr.weight = pathWeight env (taskGroup env task)) :
    WeightAndSlice env task := by
  have group : taskGroup env task = task.schedTaskGroup := by
    rw [taskGroup, goldfish]
  rw [group] at weight
  have quantum := ok.le_quantum
  rw [refillSlice_path env _ task.wrr weight] at quantum
  refine ⟨fun back => ?_, fun front => ?_, ok.one_le⟩
  · have isBack : groupBackground env task.schedTaskGroup = true := decide_eq_true back
    rw [pathWeight, isBack] at weight
    rw [pathTimeslice, isBack] at quantum
    exact ⟨weight, quantum⟩
  · have isFront : groupBackground env task.schedTaskGroup = false := decide_eq_false front
    rw [pathWeight, isFront] at weight
    rw [pathTimeslice, isFront] at quantum
    exact ⟨weight, quantum⟩

/-- In 3.4 every task on a WRR queue has the weight of its group and a slice
between one tick and the quantum of that weight, and a tick of a current WRR
task takes one from the slice without a wrap. -/
theorem weight_and_slice {env : Env} {ok : Sched → Op → Prop} {start s : Sched} {ops : List Op}
    (goldfish : env.kernel = .goldfish) (hz : 100 ≤ env.hz) (init : Init start)
    (slices : SlicesOk env start) (run : Transition.Run (step env) ok start ops s) (c : Cpu) :
    (∀ p ∈ (s.rq c).wrr.queue, WeightAndSlice env (s.task p)) ∧
    ((rqCurr s c).schedClass = .wrr →
      decTimeSlice (rqCurr s c).wrr.timeSlice + 1 = (rqCurr s c).wrr.timeSlice) := by
  have fine := run_sliceSound hz init slices run
  constructor
  · intro p member
    obtain ⟨on, -, isWrr⟩ := (has_entries _ _ _ _).mp
      (((fine.sound.queues c).wrr.lists.mem_iff p).mp member)
    exact (fine.slices p).of_weight goldfish (fine.sound.weighed goldfish p on isWrr)
  · intro _
    have one : 1 ≤ (rqCurr s c).wrr.timeSlice := (fine.slices (s.rq c).curr).one_le
    rw [decTimeSlice, if_neg (by omega)]
    omega

theorem Boot.slicesOk (kernel : Kernel) (smp : Bool) : SlicesOk (env kernel smp) state := by
  intro p
  have hz : 100 ≤ (env kernel smp).hz := Nat.le_refl 100
  rcases task_cases p with ⟨c, -, idle⟩ | user
  · exact .initTask hz _ (by simp [state, idle, idleTask])
      (by simp [state, idle, idleTask, rrTimeslice, env])
  · exact .initTask hz _ (by simp [state, user, userTask])
      (by simp [state, user, userTask, rrTimeslice, env])

def awayAndBack : List Op :=
  [.tryToWakeUp 1 1 0, .schedule 0 false false,
    .setscheduler Boot.root 1 Boot.userTask 6 0 true none, .schedulerTick 0,
    .setscheduler Boot.root 1 Boot.userTask 0 0 true none,
    .cgroupAttach 1 1, .schedMoveTask 1,
    .setscheduler Boot.root 1 Boot.userTask 6 0 true none]

theorem awayAndBack_done : (Boot.after .goldfish true awayAndBack).isSome := by decide +kernel

theorem weight_and_slice_back :
    let s := (Boot.after .goldfish true awayAndBack).get awayAndBack_done
    (∀ p ∈ (s.rq 0).wrr.queue, WeightAndSlice (Boot.env .goldfish true) (s.task p)) ∧
    ((rqCurr s 0).schedClass = .wrr →
      decTimeSlice (rqCurr s 0).wrr.timeSlice + 1 = (rqCurr s 0).wrr.timeSlice) :=
  weight_and_slice (by rfl) (by decide) Boot.state_init (Boot.slicesOk .goldfish true)
    (Boot.runs .goldfish true awayAndBack awayAndBack_done) 0

structure Expires (env : Env) (s : Sched) (p : Pid) : Prop where
  queued : (s.task p).onRq = true
  isWrr : (s.task p).schedClass = .wrr
  current : (s.rq (s.task p).cpu).curr = p
  last : decTimeSlice (s.task p).wrr.timeSlice = 0

theorem taskTickWrr_refill {env : Env} {s : Sched} {c : Cpu} {p : Pid}
    (last : decTimeSlice (s.task p).wrr.timeSlice = 0) :
    ((taskTickWrr env s c p).task p).wrr.timeSlice = refillSlice env (s.task p).wrr := by
  simp only [taskTickWrr, updateCurrWrr_task, last, ne_eq, not_true_eq_false, if_false]
  split
  · simp [TaskStruct.setWrrSlice, requeueTaskWrr]
  · simp [TaskStruct.setWrrSlice]

/-- The refill goes by the weight, so by the letter that chose the weight. -/
theorem Expires.refill {env : Env} {s : Sched} {p : Pid} (goldfish : env.kernel = .goldfish)
    (sound : Sound env s) (expires : Expires env s p) :
    ((taskTickWrr env s (s.task p).cpu p).task p).wrr.timeSlice =
      pathTimeslice env (s.task p).schedTaskGroup := by
  have weight := sound.weighed goldfish p expires.queued expires.isWrr
  rw [taskTickWrr_refill expires.last, refillSlice_path env _ _ weight, taskGroup, goldfish]

def SameVerdict (env : Env) (group : Group) : Prop :=
  (env.groupPath group)[1]? = none ∨ (env.groupPath group)[1]? = some 'b' ∨ env.hz < 10

theorem quanta_equal_iff (env : Env) : wrrBgTimeslice env = wrrFgTimeslice env ↔ env.hz < 10 := by
  rw [wrrBgTimeslice, wrrFgTimeslice]
  omega

theorem reported_eq_iff (env : Env) (group : Group) :
    (if (env.groupPath group)[1]? = none then wrrFgTimeslice env else wrrBgTimeslice env) =
      pathTimeslice env group ↔ SameVerdict env group := by
  rw [pathTimeslice, groupBackground, SameVerdict, ← quanta_equal_iff]
  by_cases root : (env.groupPath group)[1]? = none
  · simp [root]
  · by_cases back : (env.groupPath group)[1]? = some 'b'
    · simp [back]
    · simp [root, back]

/-- The interval reported for a queued WRR task of 3.4 is what the next expiry
refills exactly where both tests of the path agree: on the root group, and on the
groups that count as background. -/
theorem reported_interval_iff {env : Env} {ok : Sched → Op → Prop} {s t : Sched} {p : Pid}
    {ops : List Op} (goldfish : env.kernel = .goldfish) (reached : Reachable env ok s)
    (later : Transition.Run (step env) ok s ops t)
    (sameGroup : (t.task p).schedTaskGroup = (s.task p).schedTaskGroup)
    (expires : Expires env t p) :
    getRrIntervalWrr env s p = ((taskTickWrr env t (t.task p).cpu p).task p).wrr.timeSlice ↔
      SameVerdict env (s.task p).schedTaskGroup := by
  obtain ⟨start, early, init, run⟩ := reached
  have sound : Sound env t := reachable_sound ⟨start, early ++ ops, init, run.append later⟩
  rw [expires.refill goldfish sound, sameGroup, getRrIntervalWrr, taskGroup, goldfish]
  exact reported_eq_iff env (s.task p).schedTaskGroup

def nineTicks (group : Group) : List Op :=
  [.tryToWakeUp 1 1 0, .schedule 0 false false, .cgroupAttach 1 group, .schedMoveTask 1,
    .setscheduler Boot.root 1 Boot.userTask 6 0 true none] ++ List.replicate 9 (.schedulerTick 0)

theorem nineTicks_done (group : Group) (named : group = 0 ∨ group = 2) :
    (Boot.after .goldfish false (nineTicks group)).isSome := by
  rcases named with rfl | rfl <;> decide +kernel

theorem nineTicks_expires (group : Group) (named : group = 0 ∨ group = 2) :
    Expires (Boot.env .goldfish false)
      ((Boot.after .goldfish false (nineTicks group)).get (nineTicks_done group named)) 1 := by
  rcases named with rfl | rfl
  · constructor <;> decide +kernel
  · constructor <;> decide +kernel

theorem reported_interval_iff_root :
    let s := (Boot.after .goldfish false (nineTicks 0)).get (nineTicks_done 0 (.inl rfl))
    getRrIntervalWrr (Boot.env .goldfish false) s 1 =
        ((taskTickWrr (Boot.env .goldfish false) s (s.task 1).cpu 1).task 1).wrr.timeSlice ↔
      SameVerdict (Boot.env .goldfish false) (s.task 1).schedTaskGroup :=
  reported_interval_iff (by rfl)
    (Boot.reachable .goldfish false (nineTicks 0) (nineTicks_done 0 (.inl rfl))) (.refl _) rfl
    (nineTicks_expires 0 (.inl rfl))

/-- In the group `/fg` one tick is reported and ten are granted. -/
theorem foreground_misreported : ¬ ∀ env ok s p ops t, env.kernel = .goldfish →
    Reachable env ok s → (s.task p).onRq = true → (s.task p).schedClass = .wrr →
    Transition.Run (step env) ok s ops t →
    (t.task p).schedTaskGroup = (s.task p).schedTaskGroup → Expires env t p →
    getRrIntervalWrr env s p =
      ((taskTickWrr env t (t.task p).cpu p).task p).wrr.timeSlice := by
  intro always
  have reached := Boot.reachable .goldfish false (nineTicks 2) (nineTicks_done 2 (.inr rfl))
  have expires := nineTicks_expires 2 (.inr rfl)
  have same := always _ _ _ 1 [] _ rfl reached expires.queued expires.isWrr (.refl _) rfl expires
  rw [taskTickWrr_refill expires.last] at same
  exact absurd same (by decide +kernel)

end AndroidKernel
