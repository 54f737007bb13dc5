import AndroidKernel.Loop
import AndroidKernel.Placement
import AndroidKernel.PriorityInheritance
import AndroidKernel.RtHandOut

/-!
`migrate_tasks` of 3.1, which empties the runqueue of a dying CPU while its stop
thread runs. The loop takes what `pick_next_task` offers, asks
`select_fallback_rq` for a CPU and tries to move the task there; it ends when
`nr_running` is 1. A WRR task whose mask has no active CPU keeps its mask, as
its affinity hook is empty, so the move is refused and the same task is picked
again. RT tasks that a throttled group holds are never offered: only the root
is let loose before the loop, and the idle task is picked for ever.
-/

namespace AndroidKernel

/-- The body of the loop. `none` is a `BUG()`. -/
def migrateRound (topo : Topology) (env : Env) (dead : Cpu) (s : Sched) : Option Sched :=
  let next := pickNext env s dead
  let s := classPutPrev env (pickStamp env s dead next) dead next.2
  (selectFallbackRq topo env s dead next.2).map fun found =>
    (migrateTask env found.1 next.2 dead found.2).1

/-- The loop, given up after `fuel` tests of `nr_running`. -/
def migrateLoop (topo : Topology) (env : Env) (dead : Cpu) : Nat → Sched → Option Sched :=
  Loop.run (fun s => (s.rq dead).nrRunning ≠ 1) (migrateRound topo env dead)

/-- `rq->stop` is hidden from the picks and the root RT runqueue unthrottled. -/
def hideStop (env : Env) (s : Sched) (dead : Cpu) : Sched :=
  (s.modifyRq dead fun rq => { rq with stop := none }).modifyRt dead fun rt =>
    RtGroups.setThrottled rt env.groups.root false

def migrateTasks (topo : Topology) (env : Env) (fuel : Nat) (s : Sched) (dead : Cpu) :
    Option Sched :=
  (migrateLoop topo env dead fuel (hideStop env s dead)).map fun after =>
    after.modifyRq dead fun rq => { rq with stop := (s.rq dead).stop }

def Drained (s : Sched) (dead : Cpu) : Prop :=
  ∀ p, (s.task p).onRq = true → (s.task p).cpu = dead → p = (s.rq dead).curr

def HasActive (env : Env) (s : Sched) (p : Pid) : Prop :=
  ∃ cpu, cpu ∈ env.cpuActive ∧ cpu ∈ (s.task p).cpusAllowed

def WrrMovable (env : Env) (s : Sched) (dead : Cpu) : Prop :=
  ∀ p, (s.task p).onRq = true → (s.task p).cpu = dead → (s.task p).schedClass = .wrr →
    HasActive env s p

def RtHandsOut (env : Env) (s : Sched) (dead : Cpu) : Prop :=
  RtGroups.HandsOut env.groups (s.rtState dead)

/-- The stop thread runs and is hidden; everybody else on the CPU is ordinary. -/
structure Draining (env : Env) (dead : Cpu) (s : Sched) : Prop where
  queues : SchedOk env s.task s.rq
  rt : RtOk env s (QueuedRt s.task)
  prios : PriosOk s
  hidden : (s.rq dead).stop = none
  idle : (s.task (s.rq dead).idle).schedClass = .idle
  rests : (s.task (s.rq dead).idle).onRq = false
  stopper : (s.task (s.rq dead).curr).onRq = true ∧ (s.task (s.rq dead).curr).cpu = dead ∧
    (s.task (s.rq dead).curr).schedClass = .stop
  others : ∀ p, (s.task p).onRq = true → (s.task p).cpu = dead → p ≠ (s.rq dead).curr →
    Ordinary (s.task p)

section Picks
variable {env : Env} {s : Sched} {dead : Cpu} {p : Pid}

theorem Draining.ready (draining : Draining env dead s) : Ready env s dead :=
  ⟨draining.queues, fun p named => by simp [draining.hidden] at named, draining.idle,
    draining.rt⟩

theorem Draining.notRt (draining : Draining env dead s) :
    (s.task (s.rq dead).curr).schedClass ≠ .rt := by
  rw [draining.stopper.2.2]
  decide

/-- `nr_running` counts the stop thread, everybody else, and WRR tasks twice. -/
theorem Draining.nr_running (tegra : env.kernel = .tegra) (draining : Draining env dead s) :
    1 ≤ (s.rq dead).nrRunning ∧ ((s.rq dead).nrRunning = 1 ↔ Drained s dead) := by
  obtain ⟨total, counts, sum⟩ := (draining.queues dead).running
  obtain ⟨on, here, isStop⟩ := draining.stopper
  have wrr := (draining.queues dead).wrr
  have stopper : Has (entries s.task dead) (fun _ => True) (s.rq dead).curr :=
    (has_entries _ _ _ _).mpr ⟨on, here, trivial⟩
  have least := counts.pos _ stopper
  -- 3.1 counts a WRR task twice, so a count of one means the stop task alone
  rw [tegra, countedTwice, wrr.count] at sum
  refine ⟨by omega, fun one => ?_, fun drained => ?_⟩
  · have left := counts.remove _ stopper fun q => has_clear _ q
    intro p queued home
    by_contra other
    have zero : total - 1 = 0 := by omega
    exact left.zero_iff.mp zero p ((has_clear _ p).mpr
      ⟨(has_entries _ _ _ _).mpr ⟨queued, home, trivial⟩, other⟩)
  · have left := counts.remove _ stopper fun q => has_clear _ q
    have zero : total - 1 = 0 := by
      rw [left.zero_iff]
      intro p has
      obtain ⟨found, other⟩ := (has_clear _ p).mp has
      obtain ⟨queued, home, -⟩ := (has_entries _ _ _ _).mp found
      exact other (drained p queued home)
    have noWrr : (s.rq dead).wrr.queue = [] := by
      rw [List.eq_nil_iff_forall_not_mem]
      intro p member
      obtain ⟨queued, home, isWrr⟩ := (has_entries _ _ _ _).mp ((wrr.lists.mem_iff p).mp member)
      have same := drained p queued home
      subst same
      have cls : (s.task (s.rq dead).curr).schedClass = .wrr := isWrr
      rw [isStop] at cls
      cases cls
    rw [noWrr, List.length_nil] at sum
    omega

/-- The pick is somebody queued beside the stop thread, in the class that offers
it, or nobody but RT tasks that are not offered is left. -/
theorem Draining.picks (draining : Draining env dead s) :
    ((s.task (pickNextTask env s dead)).onRq = true ∧
        (s.task (pickNextTask env s dead)).cpu = dead ∧
        pickNextTask env s dead ≠ (s.rq dead).curr ∧
        ((s.task (pickNextTask env s dead)).schedClass = .rt →
          pickNextTaskRt env s dead = some (pickNextTask env s dead))) ∨
      pickNextTask env s dead = (s.rq dead).idle ∧ pickNextTaskRt env s dead = none ∧
        ∀ p, (s.task p).onRq = true → (s.task p).cpu = dead → p ≠ (s.rq dead).curr →
          (s.task p).schedClass = .rt := by
  have ready := draining.ready
  have spec := pickWalk_spec env s dead
  rw [← pickNext_walk ready] at spec
  rcases pickNext_runnable ready with isIdle | ⟨on, here, same⟩
  · right
    rw [isIdle] at spec
    refine ⟨congrArg Prod.snd isIdle, spec.2 .rt ?_, fun q on here other => ?_⟩
    · simp [SchedClass.precedes]
    by_contra notRt
    -- somebody of another class would have been offered before the idle task
    have ordinary := draining.others q on here other
    refine ready.offers draining.prios (fun isStop => absurd isStop ordinary.2) on here
      (fun isRt => absurd isRt notRt) (spec.2 _ ?_)
    cases cls : (s.task q).schedClass <;> simp [SchedClass.precedes]
    exact ordinary.1 cls
  · left
    have offered := spec.1
    rw [← same] at offered
    refine ⟨on, here, fun isCurr => ?_, fun isRt => ?_⟩
    · have isStop : (s.task (pickNext env s dead).2).schedClass = .stop := by
        rw [show (pickNext env s dead).2 = (s.rq dead).curr from isCurr]
        exact draining.stopper.2.2
      rw [isStop] at offered
      simp [classPick, draining.hidden] at offered
    · rwa [show (s.task (pickNext env s dead).2).schedClass = .rt from isRt] at offered

theorem Draining.none_left (draining : Draining env dead s) (hands : RtHandsOut env s dead)
    (offersNone : pickNextTaskRt env s dead = none) (p : Pid) : ¬ QueuedRt s.task dead p := by
  intro queued
  have on := ((draining.rt dead).2 p).mpr queued
  cases hands with
  | empty nobody => exact Bool.false_ne_true ((nobody p).symm.trans on)
  | next offered rest =>
      rw [pickNextTaskRt, offered] at offersNone
      exact Option.some_ne_none _ offersNone

theorem Draining.handsOut (draining : Draining env dead s) (drained : Drained s dead) :
    RtHandsOut env s dead := by
  refine .empty fun p => ?_
  by_contra on
  obtain ⟨queued, home, isRt⟩ := ((draining.rt dead).2 p).mp (by simpa using on)
  have isCurr := drained p queued home
  subst isCurr
  exact draining.notRt isRt

end Picks

section Columns
variable {env : Env} {s : Sched} {c d : Cpu}

theorem updateCurrRt_other (other : (s.task (s.rq c).curr).schedClass ≠ .rt) :
    updateCurrRt env s c = s := if_neg other

theorem classPutPrev_rt (p : Pid) (other : (s.task (s.rq c).curr).schedClass ≠ .rt) :
    (classPutPrev env s c p).rt = s.rt := by
  simp only [classPutPrev, putPrevTaskRt, updateCurrRt_other other, putPrevTaskWrr]
  split
  · rfl
  · split <;> rfl
  · simp
  · split <;> simp
  · rfl

theorem deactivateTask_rt (p : Pid) (other : (s.task (s.rq c).curr).schedClass ≠ .rt) :
    (deactivateTask env s c p).rt c = if (s.task p).schedClass = .rt then
      .ofState (RtGroups.dequeueRtEntity env.groups (s.rtState c) (.task p)) else s.rt c := by
  have clocked : updateCurrRt env (updateRqClock env s c) c = updateRqClock env s c :=
    updateCurrRt_other other
  split_ifs with isRt
  · have unfolded : dequeueTask env s c p = dequeueTaskRt env (updateRqClock env s c) c p := by
      simp only [dequeueTask, updateRqClock_task, isRt]
    have sameState : (updateRqClock env s c).rtState c = s.rtState c := rtState_of_eq rfl rfl c
    simp [deactivateTask, unfolded, dequeueTaskRt, clocked, sameState]
  · simp [deactivateTask, dequeueTask_rt env s c p isRt]

theorem activateTask_rt_other (away : d ≠ c) (p : Pid) (head : Bool) :
    (activateTask env s c p head).rt d = s.rt d := by
  by_cases isRt : (s.task p).schedClass = .rt
  · simp [activateTask, enqueueTask, isRt, enqueueTaskRt, Function.update_of_ne away]
  · simp [activateTask, enqueueTask_rt env s c p head isRt]

theorem checkPreemptCurr_rt_other (away : d ≠ c) (p : Pid) :
    (checkPreemptCurr env s c p).rt d = s.rt d := by
  have requeued (t : Sched) : (requeueTaskRt env t c p true).rt d = t.rt d := by
    simp [requeueTaskRt, Function.update_of_ne away]
  simp only [checkPreemptCurr, checkPreemptCurrRt, checkPreemptEqualPrio, checkPreemptCurrWrr]
  split_ifs <;> (try split) <;> simp [requeued]

theorem moveQueued_rt (away : c ≠ d) (p : Pid)
    (other : (s.task (s.rq c).curr).schedClass ≠ .rt) :
    (moveQueued env s p c d).rt c = if (s.task p).schedClass = .rt then
      .ofState (RtGroups.dequeueRtEntity env.groups (s.rtState c) (.task p)) else s.rt c := by
  rw [moveQueued, activateTask_rt_other away]
  exact deactivateTask_rt p other

theorem Rq.taken_nrRunning_lt (task : TaskStruct) (p : Pid) (rq : Rq) :
    (rq.taken .tegra true task p).nrRunning < rq.nrRunning := by
  cases cls : task.schedClass <;>
    simp only [Rq.taken, Rq.dequeued, Rq.wrapDecNrRunning, Rq.hookDecNrRunning, Rq.decNrRunning,
      cls, if_true] <;>
    omega

end Columns

/-- The round took the pick to another CPU. -/
structure RoundMoved (env : Env) (dead : Cpu) (s : Sched) (p : Pid) (next : Sched) : Prop where
  queues : SchedOk env next.task next.rq
  rtOk : RtOk env next (QueuedRt next.task)
  task : ∃ new, next.task = Function.update s.task p new ∧ new.cpu ≠ dead ∧
    SamePolicy env (s.task p) new
  roles : (s.rq dead).SameRoles (next.rq dead)
  lower : (next.rq dead).nrRunning < (s.rq dead).nrRunning
  rt : next.rt dead = if (s.task p).schedClass = .rt then
    .ofState (RtGroups.dequeueRtEntity env.groups (s.rtState dead) (.task p)) else s.rt dead
  movable : (s.task p).schedClass = .wrr → HasActive env s p

/-- A task got other CPUs to run on, and nothing else happened. -/
structure Rebound (s : Sched) (p : Pid) (next : Sched) : Prop where
  task : ∃ mask rtCpus wrrCpus, next.task = Function.update s.task p { s.task p with
    cpusAllowed := mask
    rt := { (s.task p).rt with nrCpusAllowed := rtCpus }
    wrr := { (s.task p).wrr with nrCpusAllowed := wrrCpus } }
  rq : next.rq = s.rq
  rt : next.rt = s.rt

section Rebound
variable {topo : Topology} {env : Env} {s next : Sched} {dead : Cpu} {p : Pid}

theorem Rebound.of_eq (p : Pid) (task : next.task = s.task) (rq : next.rq = s.rq)
    (rt : next.rt = s.rt) : Rebound s p next :=
  ⟨⟨_, _, _, task.trans (Function.update_eq_self p s.task).symm⟩, rq, rt⟩

theorem Rebound.others (rebound : Rebound s p next) {q : Pid} (other : q ≠ p) :
    next.task q = s.task q := by
  obtain ⟨mask, rtCpus, wrrCpus, task⟩ := rebound.task
  rw [task, Function.update_of_ne other]

theorem Rebound.same (rebound : Rebound s p next) (env : Env) (q : Pid) :
    (next.task q).onRq = (s.task q).onRq ∧ (next.task q).cpu = (s.task q).cpu ∧
      (next.task q).rt.rtRq = (s.task q).rt.rtRq ∧ SamePolicy env (s.task q) (next.task q) := by
  obtain ⟨mask, rtCpus, wrrCpus, task⟩ := rebound.task
  rw [task]
  by_cases here : q = p
  · subst here
    rw [Function.update_self]
    exact ⟨rfl, rfl, rfl, rfl, rfl, rfl, rfl, rfl, rfl, fun _ => id⟩
  · rw [Function.update_of_ne here]
    exact ⟨rfl, rfl, rfl, .refl env _⟩

theorem Rebound.queues (tegra : env.kernel = .tegra) (rebound : Rebound s p next)
    (queues : SchedOk env s.task s.rq) : SchedOk env next.task next.rq := by
  obtain ⟨mask, rtCpus, wrrCpus, task⟩ := rebound.task
  intro cpu
  have view : entries next.task cpu = entries s.task cpu := by
    rw [task, entries_update]
    exact Function.update_eq_self p (entries s.task cpu)
  rw [view, rebound.rq]
  apply (queues cpu).congr_weight
  intro goldfish
  rw [tegra] at goldfish
  cases goldfish

theorem Rebound.rtOk (rebound : Rebound s p next) (ok : RtOk env s (QueuedRt s.task)) :
    RtOk env next (QueuedRt next.task) := by
  refine (ok.edit rebound.rt fun c q _ => ?_).congr fun c q => ?_
  · obtain ⟨-, -, group, policy⟩ := rebound.same env q
    exact ⟨policy.prio, policy.normalPrio, group⟩
  · obtain ⟨onRq, cpu, -, policy⟩ := rebound.same env q
    rw [QueuedRt, QueuedRt, onRq, cpu, policy.schedClass]

theorem Rebound.draining (tegra : env.kernel = .tegra) (rebound : Rebound s p next)
    (draining : Draining env dead s) : Draining env dead next := by
  have same := rebound.same env
  constructor
  · exact rebound.queues tegra draining.queues
  · exact rebound.rtOk draining.rt
  · intro q ordinary
    obtain ⟨-, -, -, policy⟩ := same q
    rw [Ordinary, policy.schedClass] at ordinary
    exact (draining.prios q ordinary).same policy
  · rw [rebound.rq]
    exact draining.hidden
  · rw [rebound.rq, (same _).2.2.2.schedClass]
    exact draining.idle
  · rw [rebound.rq, (same _).1]
    exact draining.rests
  · rw [rebound.rq, (same _).1, (same _).2.1, (same _).2.2.2.schedClass]
    exact draining.stopper
  · intro q on here other
    rw [(same q).1] at on
    rw [(same q).2.1] at here
    rw [rebound.rq] at other
    rw [Ordinary, (same q).2.2.2.schedClass]
    exact draining.others q on here other

/-- A CPU that is taken down. The last field is what `cpuset.c` promises. -/
structure Dying (topo : Topology) (env : Env) (dead : Cpu) : Prop where
  tegra : env.kernel = .tegra
  inactive : dead ∉ env.cpuActive
  inRange : ∀ cpu ∈ env.cpuActive, cpu < env.nrCpuIds
  fallback : ∀ s p, (topo.cpusetCpusAllowedFallback s p).2 ∈ env.cpuActive ∧
    (topo.cpusetCpusAllowedFallback s p).2 ∈ (topo.cpusetCpusAllowedFallback s p).1

theorem doSetCpusAllowed_rebound (env : Env) (s : Sched) (p : Pid) (mask : Cpumask) :
    Rebound s p (doSetCpusAllowed env s p mask) := by
  simp only [doSetCpusAllowed]
  split
  · exact ⟨⟨mask, _, _, rfl⟩, rfl, rfl⟩
  · exact .of_eq p rfl rfl rfl
  · exact ⟨⟨mask, _, _, rfl⟩, rfl, rfl⟩

theorem doSetCpusAllowed_mask (tegra : env.kernel = .tegra)
    (other : (s.task p).schedClass ≠ .wrr) (mask : Cpumask) :
    ((doSetCpusAllowed env s p mask).task p).cpusAllowed = mask := by
  simp only [doSetCpusAllowed, tegra]
  cases cls : (s.task p).schedClass <;> simp_all [copyCpusAllowed]

theorem doSetCpusAllowed_wrr (tegra : env.kernel = .tegra)
    (isWrr : (s.task p).schedClass = .wrr) (mask : Cpumask) :
    doSetCpusAllowed env s p mask = s := by
  simp only [doSetCpusAllowed, tegra, isWrr]

/-- The fallback answers an active CPU. It is allowed, or the task is a WRR task
without one. -/
theorem Dying.fallbackRq (dying : Dying topo env dead) (s : Sched) (p : Pid) :
    ∃ found : Sched × Cpu, selectFallbackRq topo env s dead p = some found ∧
      found.2 ∈ env.cpuActive ∧ Rebound s p found.1 ∧
      -- a CPU the task may run on, or one outside the mask that the empty WRR hook kept
      (found.2 ∈ (found.1.task p).cpusAllowed ∧
          ((s.task p).schedClass = .wrr → HasActive env s p) ∨
        found.1 = s ∧ (s.task p).schedClass = .wrr ∧ ¬ HasActive env s p) := by
  have tegra := dying.tegra
  have fallback := dying.fallback s p
  have stays : Rebound s p s := .of_eq p rfl rfl rfl
  -- a CPU of the node, else one of the mask, else the mask of the cpuset is taken over
  simp only [selectFallbackRq, tegra]
  split
  · rename_i dest found
    have passes := List.find?_some found
    simp only [Bool.and_eq_true, decide_eq_true_eq] at passes
    exact ⟨(s, dest), rfl, passes.1.2, stays,
      Or.inl ⟨passes.2, fun _ => ⟨dest, passes.1.2, passes.2⟩⟩⟩
  · split
    · rename_i dest found
      have passes := List.find?_some found
      simp only [Bool.and_eq_true, decide_eq_true_eq] at passes
      exact ⟨(s, dest), rfl, passes.2, stays,
        Or.inl ⟨passes.1, fun _ => ⟨dest, passes.2, passes.1⟩⟩⟩
    · rename_i none
      have nowhere : ¬ HasActive env s p := by
        rintro ⟨cpu, active, allowed⟩
        have fails := List.find?_eq_none.mp none cpu (List.mem_range.mpr (dying.inRange cpu active))
        simp [active, allowed] at fails
      refine ⟨_, rfl, fallback.1, doSetCpusAllowed_rebound env s p _, ?_⟩
      by_cases isWrr : (s.task p).schedClass = .wrr
      · exact Or.inr ⟨doSetCpusAllowed_wrr tegra isWrr _, isWrr, nowhere⟩
      · refine Or.inl ⟨?_, fun is => absurd is isWrr⟩
        rw [doSetCpusAllowed_mask tegra isWrr]
        exact fallback.2

end Rebound

section Moves
variable {topo : Topology} {env : Env} {s next : Sched} {dead : Cpu} {p : Pid}

theorem moved_away {dest : Cpu} (tegra : env.kernel = .tegra) (queues : SchedOk env s.task s.rq)
    (rt : RtOk env s (QueuedRt s.task)) (on : (s.task p).onRq = true)
    (here : (s.task p).cpu = dead) (busy : (s.task p).schedClass ≠ .idle) (away : dest ≠ dead)
    (notRt : (s.task (s.rq dead).curr).schedClass ≠ .rt)
    (movable : (s.task p).schedClass = .wrr → HasActive env s p) :
    RoundMoved env dead s p (checkPreemptCurr env (moveQueued env s p dead dest) dest p) := by
  subst here
  have quiet := checkPreemptCurr_quiet env (moveQueued env s p (s.task p).cpu dest) dest p
  have ticked := enqueuedTask_ticked env ((s.task p).setCpu env dest)
  have reordered := quiet.rq (s.task p).cpu
  rw [moveQueued_rq, Function.update_of_ne away.symm, Function.update_self] at reordered
  constructor
  · refine SchedOk.quiet (queues.moveQueued p dest on busy) (fun goldfish => ?_) quiet
    rw [tegra] at goldfish
    cases goldfish
  · have moved := (moveQueued_rtOk rt p dest on).quiet quiet.rt
    rwa [checkPreemptCurr_task]
  · refine ⟨enqueuedTask env ((s.task p).setCpu env dest), ?_, ?_, ?_⟩
    · rw [checkPreemptCurr_task, moveQueued_task]
    · rw [ticked.cpu]
      exact away
    · refine SamePolicy.trans ?_ (.of_ticked ticked)
      exact ⟨rfl, rfl, rfl, rfl, rfl, rfl, fun _ => id⟩
  · exact (Rq.sameRoles_taken _ _ _ _ _).trans ⟨reordered.curr, reordered.idle, reordered.stop⟩
  · rw [tegra] at reordered
    rw [reordered.nrRunning]
    exact Rq.taken_nrRunning_lt _ _ _
  · rw [checkPreemptCurr_rt_other away.symm]
    exact moveQueued_rt away.symm p notRt
  · exact movable

end Moves

/-- Both halves of the condition, in the state of a round. -/
def Drainable (env : Env) (s : Sched) (dead : Cpu) : Prop :=
  WrrMovable env s dead ∧ RtHandsOut env s dead

section Rounds
variable {topo : Topology} {env : Env} {s next : Sched} {dead : Cpu} {p : Pid}

theorem Rebound.rtState (rebound : Rebound s p next) (cpu : Cpu) :
    next.rtState cpu = s.rtState cpu := by
  have same (q : Pid) : (next.task q).prio = (s.task q).prio ∧
      (next.task q).normalPrio = (s.task q).normalPrio ∧
      (next.task q).rt.rtRq = (s.task q).rt.rtRq := by
    obtain ⟨mask, rtCpus, wrrCpus, task⟩ := rebound.task
    by_cases here : q = p
    · subst here
      simp [task]
    · simp [rebound.others here]
  simp only [Sched.rtState, rebound.rt, same]

theorem Rebound.drainable (rebound : Rebound s p next)
    (kept : (s.task p).schedClass = .wrr → next.task p = s.task p) :
    Drainable env next dead ↔ Drainable env s dead := by
  have sameClass (q : Pid) := (rebound.same env q).2.2.2.schedClass
  have sameWrr (q : Pid) (isWrr : (s.task q).schedClass = .wrr) : next.task q = s.task q := by
    by_cases here : q = p
    · subst here
      exact kept isWrr
    · exact rebound.others here
  rw [Drainable, Drainable, RtHandsOut, RtHandsOut, rebound.rtState]
  refine and_congr_left fun _ => ?_
  constructor <;> intro movable q on here isWrr
  · rw [HasActive, ← sameWrr q isWrr]
    rw [← sameWrr q isWrr] at on here isWrr
    exact movable q on here isWrr
  · have same := sameWrr q (sameClass q ▸ isWrr)
    rw [HasActive, same]
    rw [same] at on here isWrr
    exact movable q on here isWrr

theorem Rebound.trans {middle : Sched} (one : Rebound s p middle) (two : Rebound middle p next) :
    Rebound s p next := by
  obtain ⟨mask, rtCpus, wrrCpus, task⟩ := one.task
  obtain ⟨mask', rtCpus', wrrCpus', task'⟩ := two.task
  refine ⟨⟨mask', rtCpus', wrrCpus', ?_⟩, two.rq.trans one.rq, two.rt.trans one.rt⟩
  rw [task', task, Function.update_idem, Function.update_self]

theorem RoundMoved.after {middle : Sched} (moved : RoundMoved env dead middle p next)
    (rebound : Rebound s p middle) (movable : (s.task p).schedClass = .wrr → HasActive env s p) :
    RoundMoved env dead s p next := by
  have policy := (rebound.same env p).2.2.2
  constructor
  · exact moved.queues
  · exact moved.rtOk
  · obtain ⟨mask, rtCpus, wrrCpus, edit⟩ := rebound.task
    obtain ⟨new, task, away, same⟩ := moved.task
    exact ⟨new, by rw [task, edit, Function.update_idem], away, policy.trans same⟩
  · rw [← rebound.rq]
    exact moved.roles
  · rw [← rebound.rq]
    exact moved.lower
  · rw [moved.rt, policy.schedClass, rebound.rtState, rebound.rt]
  · exact movable

theorem RoundMoved.gone (moved : RoundMoved env dead s p next) (q : Pid)
    (here : (next.task q).cpu = dead) : next.task q = s.task q ∧ q ≠ p := by
  obtain ⟨new, task, away, -⟩ := moved.task
  have other : q ≠ p := by
    rintro rfl
    rw [task, Function.update_self] at here
    exact away here
  exact ⟨by rw [task, Function.update_of_ne other], other⟩

theorem RoundMoved.stays (moved : RoundMoved env dead s p next) (q : Pid) (other : q ≠ p) :
    next.task q = s.task q := by
  obtain ⟨new, task, -⟩ := moved.task
  rw [task, Function.update_of_ne other]

theorem Draining.moved (draining : Draining env dead s) (moved : RoundMoved env dead s p next)
    (on : (s.task p).onRq = true) (here : (s.task p).cpu = dead) (other : p ≠ (s.rq dead).curr) :
    Draining env dead next := by
  obtain ⟨sameCurr, sameIdle, sameStop⟩ := moved.roles
  have ordinary := draining.others p on here other
  have notIdle : (s.rq dead).idle ≠ p := by
    rintro rfl
    exact ordinary.1 draining.idle
  constructor
  · exact moved.queues
  · exact moved.rtOk
  · intro q isOrdinary
    by_cases same : q = p
    · obtain ⟨new, task, -, policy⟩ := moved.task
      rw [same, task, Function.update_self]
      exact (draining.prios p ordinary).same policy
    · rw [moved.stays q same] at isOrdinary ⊢
      exact draining.prios q isOrdinary
  · rw [sameStop]
    exact draining.hidden
  · rw [sameIdle, moved.stays _ notIdle]
    exact draining.idle
  · rw [sameIdle, moved.stays _ notIdle]
    exact draining.rests
  · rw [sameCurr, moved.stays _ other.symm]
    exact draining.stopper
  · intro q queued home notCurr
    obtain ⟨same, -⟩ := moved.gone q home
    rw [same] at queued home ⊢
    rw [sameCurr] at notCurr
    exact draining.others q queued home notCurr

theorem RoundMoved.alike (draining : Draining env dead s) (moved : RoundMoved env dead s p next)
    (on : (s.task p).onRq = true) :
    RtGroups.Alike (if (s.task p).schedClass = .rt then
      RtGroups.dequeueRtEntity env.groups (s.rtState dead) (.task p) else s.rtState dead)
      (next.rtState dead) := by
  have others (q : Pid) (other : q ≠ p) : (next.rtState dead).prio q = (s.rtState dead).prio q ∧
      (next.rtState dead).normalPrio q = (s.rtState dead).normalPrio q ∧
      (next.rtState dead).group q = (s.rtState dead).group q := by
    simp [moved.stays q other]
  have rt := moved.rt
  obtain ⟨sound, queued⟩ := draining.rt dead
  split_ifs at rt ⊢ with isRt
  · obtain ⟨-, off, keeps⟩ := sound.dequeueTask p
    refine ⟨congrArg RtQueues.rq rt, congrArg RtQueues.onRtRq rt,
      congrArg RtQueues.leafRtRqList rt, congrArg RtQueues.warned rt, fun q left => ?_⟩
    rw [keeps.prio, keeps.normalPrio, keeps.group]
    apply others
    rintro rfl
    exact Bool.false_ne_true (off.symm.trans left)
  · refine ⟨congrArg RtQueues.rq rt, congrArg RtQueues.onRtRq rt,
      congrArg RtQueues.leafRtRqList rt, congrArg RtQueues.warned rt, fun q left => ?_⟩
    apply others
    rintro rfl
    exact isRt ((queued q).mp left).2.2

theorem RoundMoved.drainable (draining : Draining env dead s)
    (moved : RoundMoved env dead s p next) (on : (s.task p).onRq = true)
    (offered : (s.task p).schedClass = .rt → pickNextTaskRt env s dead = some p) :
    Drainable env next dead ↔ Drainable env s dead := by
  have alike := moved.alike draining on
  have sound := (draining.rt dead).1
  have later := (moved.rtOk dead).1
  refine and_congr ⟨fun movable q queued here isWrr => ?_, fun movable q queued here isWrr => ?_⟩ ?_
  · by_cases same : q = p
    · subst same
      exact moved.movable isWrr
    · rw [HasActive, ← moved.stays q same]
      rw [← moved.stays q same] at queued here isWrr
      exact movable q queued here isWrr
  · obtain ⟨same, -⟩ := moved.gone q here
    rw [HasActive, same]
    rw [same] at queued here isWrr
    exact movable q queued here isWrr
  · split_ifs at alike with isRt
    · rw [RtHandsOut, RtHandsOut,
        RtGroups.HandsOut.offered_iff sound (Option.join_eq_some_iff.mp (offered isRt))]
      exact (alike.handsOut_iff (sound.dequeueTask p).1 later).symm
    · exact (alike.handsOut_iff sound later).symm

/-- A round asks for a CPU for the pick. It gets an active one that the pick may
use, or the pick is a WRR task without one, which keeps its mask. -/
theorem Dying.round_asks (dying : Dying topo env dead)
    (notRt : (s.task (s.rq dead).curr).schedClass ≠ .rt) (picked : pickNextTask env s dead = p) :
    ∃ found : Sched × Cpu,
      migrateRound topo env dead s = some (migrateTask env found.1 p dead found.2).1 ∧
      found.2 ∈ env.cpuActive ∧ Rebound s p found.1 ∧
      (found.2 ∈ (found.1.task p).cpusAllowed ∧
          ((s.task p).schedClass = .wrr → HasActive env s p) ∨
        found.1.task = s.task ∧ (s.task p).schedClass = .wrr ∧ ¬ HasActive env s p) := by
  -- the pick and `put_prev_task` write run times only
  let start := classPutPrev env (pickStamp env s dead (pickNext env s dead)) dead p
  have sameTask : start.task = s.task := by simp [start]
  have sameRt : start.rt = s.rt := by
    rw [classPutPrev_rt, pickStamp_rt]
    simpa using notRt
  have stamped : Rebound s p start := .of_eq p sameTask (by simp [start]) sameRt
  obtain ⟨found, selected, active, rebound, fits⟩ := dying.fallbackRq start p
  refine ⟨found, ?_, active, stamped.trans rebound, ?_⟩
  · have unfolded : migrateRound topo env dead s =
        (selectFallbackRq topo env start dead p).map fun found =>
          (migrateTask env found.1 p dead found.2).1 := by
      subst picked
      rfl
    rw [unfolded, selected, Option.map_some]
  · rw [HasActive, sameTask] at fits
    exact fits.imp id fun ⟨kept, isWrr, nowhere⟩ => ⟨kept ▸ sameTask, isWrr, nowhere⟩

/-- A round in which a task is picked moves it, or the task is stuck. -/
theorem Draining.round_task (dying : Dying topo env dead) (draining : Draining env dead s)
    (on : (s.task p).onRq = true) (here : (s.task p).cpu = dead) (other : p ≠ (s.rq dead).curr)
    (offered : (s.task p).schedClass = .rt → pickNextTaskRt env s dead = some p)
    {found : Sched × Cpu} (active : found.2 ∈ env.cpuActive) (rebound : Rebound s p found.1)
    (fits : found.2 ∈ (found.1.task p).cpusAllowed ∧
        ((s.task p).schedClass = .wrr → HasActive env s p) ∨
      found.1.task = s.task ∧ (s.task p).schedClass = .wrr ∧ ¬ HasActive env s p) :
    let next := (migrateTask env found.1 p dead found.2).1
    Draining env dead next ∧ (Drainable env next dead ↔ Drainable env s dead) ∧
      ((next.rq dead).nrRunning < (s.rq dead).nrRunning ∨ ¬ Drainable env s dead) := by
  have tegra := dying.tegra
  have same := rebound.same env p
  rcases fits with ⟨allowed, movable⟩ | ⟨kept, isWrr, nowhere⟩
  · have away : found.2 ≠ dead := fun same => dying.inactive (same ▸ active)
    have home : (found.1.task p).cpu = dead ∧ (found.1.task p).onRq = true := by
      rw [same.1, same.2.1]
      exact ⟨here, on⟩
    have done : (migrateTask env found.1 p dead found.2).1 =
        checkPreemptCurr env (moveQueued env found.1 p dead found.2) found.2 p := by
      simp [migrateTask, active, allowed, home]
    have busy : (found.1.task p).schedClass ≠ .idle := by
      rw [same.2.2.2.schedClass]
      exact (draining.others p on here other).1
    have middle := rebound.draining tegra draining
    have moved := (moved_away tegra middle.queues middle.rt home.2 home.1 busy away
      middle.notRt fun _ => ⟨found.2, active, allowed⟩).after rebound movable
    rw [done]
    exact ⟨draining.moved moved on here other, moved.drainable draining on offered,
      .inl moved.lower⟩
  · -- the mask has no active CPU, so the destination is not in it
    have refused : found.2 ∉ (s.task p).cpusAllowed :=
      fun allowed => nowhere ⟨found.2, active, allowed⟩
    have done : (migrateTask env found.1 p dead found.2).1 = found.1 := by
      simp [migrateTask, active, kept, refused, here]
    rw [done]
    refine ⟨rebound.draining tegra draining, rebound.drainable fun _ => ?_, .inr ?_⟩
    · rw [kept]
    · exact fun both => nowhere (both.1 p on here isWrr)

/-- A round keeps the condition. It moves the pick, unless the condition fails. -/
theorem Draining.round (dying : Dying topo env dead) (draining : Draining env dead s)
    (more : ¬ Drained s dead) :
    ∃ next, migrateRound topo env dead s = some next ∧ Draining env dead next ∧
      (Drainable env next dead ↔ Drainable env s dead) ∧
      ((next.rq dead).nrRunning < (s.rq dead).nrRunning ∨ ¬ Drainable env s dead) := by
  obtain ⟨found, result, active, rebound, fits⟩ := dying.round_asks draining.notRt rfl
  refine ⟨_, result, ?_⟩
  have picks := draining.picks
  generalize pickNextTask env s dead = p at picks rebound fits
  rcases picks with ⟨on, here, other, offered⟩ | ⟨rfl, offersNone, onlyRt⟩
  · exact draining.round_task dying on here other offered active rebound fits
  · -- the idle task is on no queue, and the RT tasks that are left are not offered
    have off : (found.1.task (s.rq dead).idle).onRq = false :=
      (rebound.same env _).1.trans draining.rests
    have done : (migrateTask env found.1 (s.rq dead).idle dead found.2).1 = found.1 := by
      simp only [migrateTask, off, Bool.false_eq_true, if_false]
      split_ifs <;> rfl
    rw [done]
    refine ⟨rebound.draining dying.tegra draining, rebound.drainable fun isWrr => ?_,
      .inr fun both => ?_⟩
    · rw [draining.idle] at isWrr
      cases isWrr
    · simp only [Drained, not_forall] at more
      obtain ⟨q, on, here, other⟩ := more
      exact draining.none_left both.2 offersNone q ⟨on, here, onlyRt q on here other⟩

theorem migrateLoop_ends (dying : Dying topo env dead) (draining : Draining env dead s)
    (drainable : Drainable env s dead) :
    ∃ out, Drained out dead ∧ ∀ fuel, (s.rq dead).nrRunning.toNat < fuel →
      migrateLoop topo env dead fuel s = some out := by
  let inv (s : Sched) := Draining env dead s ∧ Drainable env s dead
  have round : ∀ s, inv s → decide ((s.rq dead).nrRunning ≠ 1) = true →
      ∃ next, migrateRound topo env dead s = some next ∧ inv next ∧
        (next.rq dead).nrRunning.toNat < (s.rq dead).nrRunning.toNat := by
    rintro s ⟨draining, drainable⟩ going
    have more : ¬ Drained s dead := fun drained =>
      of_decide_eq_true going ((draining.nr_running dying.tegra).2.mpr drained)
    obtain ⟨next, result, drainingNext, kept, lower | stuck⟩ := draining.round dying more
    · have positive := (drainingNext.nr_running dying.tegra).1
      exact ⟨next, result, ⟨drainingNext, kept.mpr drainable⟩, by omega⟩
    · exact absurd drainable stuck
  obtain ⟨out, ⟨draining, -⟩, ended, answers⟩ :=
    Loop.run_ends (fun s => (s.rq dead).nrRunning.toNat) round s ⟨draining, drainable⟩
  refine ⟨out, ?_, answers⟩
  rw [← (draining.nr_running dying.tegra).2]
  simpa using ended

/-- Whoever is stuck stays queued, so the loop goes on for ever. -/
theorem migrateLoop_diverges (dying : Dying topo env dead) (draining : Draining env dead s)
    (stuck : ¬ Drainable env s dead) (fuel : Nat) : migrateLoop topo env dead fuel s = none := by
  let inv (t : Sched) := Draining env dead t ∧ ¬ Drainable env t dead
  have notDrained : ∀ t, inv t → ¬ Drained t dead := by
    rintro t ⟨draining, stuck⟩ drained
    refine stuck ⟨fun p on here isWrr => ?_, draining.handsOut drained⟩
    have isCurr := drained p on here
    subst isCurr
    rw [draining.stopper.2.2] at isWrr
    cases isWrr
  have going : ∀ t, inv t → decide ((t.rq dead).nrRunning ≠ 1) = true := by
    rintro t holds
    have more := notDrained t holds
    rw [← (holds.1.nr_running dying.tegra).2] at more
    exact decide_eq_true more
  have round : ∀ t next, inv t → migrateRound topo env dead t = some next → inv next := by
    rintro t next ⟨draining, stuck⟩ made
    obtain ⟨after, result, drainingNext, kept, -⟩ :=
      draining.round dying (notDrained t ⟨draining, stuck⟩)
    obtain rfl := Option.some.inj (made.symm.trans result)
    exact ⟨drainingNext, fun drainable => stuck (kept.mp drainable)⟩
  exact Loop.run_diverges going round fuel s ⟨draining, stuck⟩

theorem hideStop_draining (fine : PrioSound env s)
    (stopRuns : (s.rq dead).stop = some (s.rq dead).curr) :
    Draining env dead (hideStop env s dead) := by
  obtain ⟨⟨queues, -, run, rt⟩, prios⟩ := fine
  have roles : ∀ cpu, ((hideStop env s dead).rq cpu).curr = (s.rq cpu).curr ∧
      ((hideStop env s dead).rq cpu).idle = (s.rq cpu).idle := by
    intro cpu
    by_cases here : cpu = dead
    · subst here
      simp [hideStop]
    · simp [hideStop, Function.update_of_ne here]
  have isStop := (run.stop_class dead _ stopRuns).1
  have curr := (roles dead).1
  constructor
  · intro cpu
    have same := queues cpu
    by_cases here : cpu = dead
    · subst here
      have hidden : RqOk env.kernel (weights s.task) (entries s.task cpu) 0
          { s.rq cpu with stop := none } := ⟨same.wrr, same.cfs, same.running⟩
      simpa [hideStop] using hidden
    · simpa [hideStop, Function.update_of_ne here] using same
  · have hidden : RtOk env (s.modifyRq dead fun rq => { rq with stop := none })
        (QueuedRt s.task) := rt.of_eq rfl rfl
    exact hidden.quiet (.modifyRt _ (RtGroups.setThrottled_root_still env.groups _ false))
  · exact prios
  · simp [hideStop]
  · rw [(roles dead).2]
    exact (run.idle_class dead).1
  · rw [(roles dead).2]
    exact (run.idle_rests _ (run.idle_class dead).1).2.2
  · rw [curr]
    refine ⟨?_, run.curr_cpu dead, isStop⟩
    rcases run.curr_on dead with on | idle
    · exact on
    · rw [idle, (run.idle_class dead).1] at isStop
      cases isStop
  · intro q on here other
    rw [curr] at other
    constructor
    · intro isIdle
      have off := (run.idle_rests q isIdle).2.2
      rw [show (s.task q).onRq = true from on] at off
      cases off
    · intro isStop
      have named := run.stop_unique q isStop
      rw [show (s.task q).cpu = dead from here, stopRuns, Option.some.injEq] at named
      exact other named.symm

/-- Whether all RT tasks of a CPU are handed out once the root is let loose. -/
def RtMovable (env : Env) (s : Sched) (dead : Cpu) : Prop :=
  RtGroups.HandsOut env.groups (RtGroups.setThrottled (s.rtState dead) env.groups.root false)

theorem hideStop_drainable : Drainable env (hideStop env s dead) dead ↔
    WrrMovable env s dead ∧ RtMovable env s dead := by
  have rtState : (hideStop env s dead).rtState dead =
      RtGroups.setThrottled (s.rtState dead) env.groups.root false :=
    modifyRt_rtState (RtGroups.setThrottled_sameTasks _ _ false)
  rw [Drainable, RtHandsOut, rtState]
  exact Iff.rfl

theorem migrateTasks_stuck (dying : Dying topo env dead) (fine : PrioSound env s)
    (stopRuns : (s.rq dead).stop = some (s.rq dead).curr)
    (stuck : ¬ (WrrMovable env s dead ∧ RtMovable env s dead)) (fuel : Nat) :
    migrateTasks topo env fuel s dead = none := by
  rw [← hideStop_drainable] at stuck
  rw [migrateTasks, migrateLoop_diverges dying (hideStop_draining fine stopRuns) stuck fuel]
  rfl

/-- An RT task that is not boosted has, in each throttled group of its path, a
boosted task whose priority is related to its own. -/
def RtOutlasted (env : Env) (s : Sched) (dead : Cpu) (related : Int → Int → Prop) : Prop :=
  ∀ p, QueuedRt s.task dead p → rtSeBoosted (s.task p) = false →
    ∀ g, g ≠ env.groups.root → RtGroups.OnPath env.groups (s.task p).rt.rtRq g →
      ((s.rt dead).rq g).rtThrottled = true →
        ∃ q, QueuedRt s.task dead q ∧ rtSeBoosted (s.task q) = true ∧
          RtGroups.OnPath env.groups (s.task q).rt.rtRq g ∧ related (s.task p).prio (s.task q).prio

theorem setThrottled_root (s : Sched) (dead : Cpu) {g : Group}
    (throttled : ((RtGroups.setThrottled (s.rtState dead) env.groups.root false).rq g).rtThrottled =
      true) : g ≠ env.groups.root ∧ ((s.rt dead).rq g).rtThrottled = true := by
  by_cases here : g = env.groups.root
  · simp [RtGroups.setThrottled, here] at throttled
  · simpa [RtGroups.setThrottled, Function.update_of_ne here, here] using throttled

/-- No RT task stays when a boosted task of a worse priority outlasts it in each
throttled group. -/
theorem RtOutlasted.movable (fine : PrioSound env s) (outlasts : RtOutlasted env s dead (· < ·)) :
    RtMovable env s dead := by
  obtain ⟨sound, held⟩ := fine.sound.rt dead
  have loose := (RtGroups.setThrottled_root_still env.groups (s.rtState dead) false).sound sound
  obtain ⟨total, ⟨tasks, -, listed, -⟩, -⟩ := (fine.sound.queues dead).running
  apply loose.handsOut tasks
  · intro p on
    obtain ⟨queued, home, -⟩ := (held p).mp on
    exact (listed p).mpr ((has_entries _ _ _ _).mpr ⟨queued, home, trivial⟩)
  · intro p on
    exact (fine.prios.rt_prios dead ((held p).mp on).2.2).2.2
  · intro p on plain g path throttled
    have queued := (held p).mp on
    have unboosted : rtSeBoosted (s.task p) = false := by
      rw [← Bool.not_eq_true, ← fine.prios.rt_boosted dead queued.2.2]
      exact not_not.mpr plain
    obtain ⟨notRoot, was⟩ := setThrottled_root s dead throttled
    obtain ⟨q, queuedQ, boosted, pathQ, worse⟩ := outlasts p queued unboosted g notRoot path was
    refine ⟨q, (held q).mpr queuedQ, ?_, pathQ, ?_⟩
    · exact (fine.prios.rt_boosted dead queuedQ.2.2).mpr boosted
    have prioP := (fine.prios.rt_prios dead queued.2.2).1
    have prioQ := (fine.prios.rt_prios dead queuedQ.2.2).1
    show (s.rtState dead).prio p < (s.rtState dead).prio q
    omega

/-- An RT task stays in a throttled group without a boosted task of the same or
a worse priority. -/
theorem RtMovable.outlasted (fine : PrioSound env s) (movable : RtMovable env s dead) :
    RtOutlasted env s dead (· ≤ ·) := by
  intro p queued _ g notRoot path throttled
  obtain ⟨sound, held⟩ := fine.sound.rt dead
  have loose := (RtGroups.setThrottled_root_still env.groups (s.rtState dead) false).sound sound
  obtain ⟨q, on, boosted, pathQ, worse⟩ :=
    RtGroups.HandsOut.outlasted movable loose ((held p).mpr queued) path (by
      simpa [RtGroups.setThrottled, Function.update_of_ne notRoot] using throttled)
  have queuedQ := (held q).mp on
  refine ⟨q, queuedQ, (fine.prios.rt_boosted dead queuedQ.2.2).mp boosted, pathQ, ?_⟩
  have prioP := (fine.prios.rt_prios dead queued.2.2).1
  have prioQ := (fine.prios.rt_prios dead queuedQ.2.2).1
  have order : (s.rtState dead).prio p ≤ (s.rtState dead).prio q := worse
  show (s.task p).prio ≤ (s.task q).prio
  omega

theorem migrateTasks_finishes (dying : Dying topo env dead) (fine : PrioSound env s)
    (stopRuns : (s.rq dead).stop = some (s.rq dead).curr) (wrr : WrrMovable env s dead)
    (rt : RtMovable env s dead) :
    ∃ bound out, Drained out dead ∧
      ∀ fuel, bound < fuel → migrateTasks topo env fuel s dead = some out := by
  obtain ⟨out, drained, answers⟩ := migrateLoop_ends dying (hideStop_draining fine stopRuns)
    (hideStop_drainable.mpr ⟨wrr, rt⟩)
  refine ⟨((hideStop env s dead).rq dead).nrRunning.toNat,
    out.modifyRq dead fun rq => { rq with stop := (s.rq dead).stop }, ?_, ?_⟩
  · intro p on here
    simpa using drained p on here
  · intro fuel enough
    rw [migrateTasks, answers fuel enough]
    rfl

/-- The CPU is emptied if and only if no WRR task queued there is stuck and no
throttled group keeps an RT task. A group keeps none when boosted tasks of worse
priorities outlast the others, and it keeps one that none outlasts. -/
theorem migrateTasks_drains (dying : Dying topo env dead) (fine : PrioSound env s)
    (stopRuns : (s.rq dead).stop = some (s.rq dead).curr) :
    ((∃ bound out, Drained out dead ∧
      ∀ fuel, bound < fuel → migrateTasks topo env fuel s dead = some out) ↔
        WrrMovable env s dead ∧ RtMovable env s dead) ∧
    (RtOutlasted env s dead (· < ·) → RtMovable env s dead) ∧
    (RtMovable env s dead → RtOutlasted env s dead (· ≤ ·)) := by
  refine ⟨⟨?_, fun ⟨wrr, rt⟩ => migrateTasks_finishes dying fine stopRuns wrr rt⟩,
    RtOutlasted.movable fine, RtMovable.outlasted fine⟩
  rintro ⟨bound, out, -, answers⟩
  by_contra stuck
  have never := migrateTasks_stuck dying fine stopRuns stuck (bound + 1)
  rw [answers (bound + 1) (Nat.lt_succ_self bound)] at never
  cases never

theorem PrioSound.cpuDown (fine : PrioSound env s) (active : Cpumask) :
    PrioSound { env with cpuActive := active } s :=
  ⟨⟨fine.sound.queues, fine.sound.weighed, fine.sound.running, fine.sound.rt⟩, fine.prios⟩

end Rounds

namespace Boot

def stopTask (c : Cpu) : TaskStruct :=
  { userTask with
    cpu := c
    prio := 0
    normalPrio := 0
    rtPriority := 99
    schedClass := .stop
    policy := .fifo
    cpusAllowed := {c}
    mm := false }

def stopState : Sched :=
  { state with
    task := fun p => if p % 4 = 1 then stopTask (p / 4) else task p
    rq := fun c => { emptyRq c with stop := some (4 * c + 1) } }

theorem stopState_cases (p : Pid) :
    (∃ c, p = 2 * c ∧ stopState.task p = idleTask c) ∨
      (∃ c, p = 4 * c + 1 ∧ stopState.task p = stopTask c) ∨
      p % 2 ≠ 0 ∧ stopState.task p = userTask := by
  by_cases isStop : p % 4 = 1
  · refine Or.inr (Or.inl ⟨p / 4, ?_, if_pos isStop⟩)
    have parts := Nat.div_add_mod p 4
    rw [isStop] at parts
    exact parts.symm
  · have other : stopState.task p = task p := if_neg isStop
    rw [other]
    by_cases even : p % 2 = 0
    · exact Or.inl ⟨p / 2, (Nat.mul_div_cancel' (Nat.dvd_of_mod_eq_zero even)).symm, if_pos even⟩
    · exact Or.inr (Or.inr ⟨even, if_neg even⟩)

theorem stopState_idle (c : Cpu) : stopState.task (2 * c) = idleTask c := by
  rcases stopState_cases (2 * c) with ⟨d, same, idle⟩ | ⟨d, same, -⟩ | ⟨odd, -⟩
  · rw [idle, Nat.mul_left_cancel Nat.two_pos same]
  · have parity := congrArg (· % 2) same
    simp [Nat.add_mod, Nat.mul_mod] at parity
  · simp at odd

theorem stopState_stop (c : Cpu) : stopState.task (4 * c + 1) = stopTask c := by
  have isStop : (4 * c + 1) % 4 = 1 := by simp [Nat.add_mod]
  have half : (4 * c + 1) / 4 = c := by
    rw [Nat.mul_add_div (by decide)]
    rfl
  show (if (4 * c + 1) % 4 = 1 then stopTask ((4 * c + 1) / 4) else _) = _
  rw [if_pos isStop, half]

theorem stopState_init : Init stopState where
  empty c := ⟨rfl, rfl, rfl, rfl⟩
  rt_empty := state_init.rt_empty
  asleep p := by
    rcases stopState_cases p with ⟨c, -, is⟩ | ⟨c, -, is⟩ | ⟨-, is⟩ <;> rw [is] <;> rfl
  idle_class c := by
    show (stopState.task (2 * c)).schedClass = _ ∧ (stopState.task (2 * c)).cpu = _ ∧
      (stopState.task (2 * c)).state = _
    rw [stopState_idle]
    exact ⟨rfl, rfl, rfl⟩
  idle_unique p isIdle := by
    rcases stopState_cases p with ⟨c, rfl, is⟩ | ⟨c, -, is⟩ | ⟨-, is⟩ <;> rw [is] at isIdle ⊢
    · rfl
    · cases isIdle
    · cases isIdle
  stop_class c p named := by
    obtain rfl : 4 * c + 1 = p := Option.some.inj named
    rw [stopState_stop]
    exact ⟨rfl, rfl⟩
  stop_unique p isStop := by
    rcases stopState_cases p with ⟨c, -, is⟩ | ⟨c, rfl, is⟩ | ⟨-, is⟩ <;> rw [is] at isStop ⊢
    · cases isStop
    · rfl
    · cases isStop
  -- the current tasks are the idle ones, and a stop task has an odd pid
  on_cpu p := by
    rcases stopState_cases p with ⟨c, rfl, is⟩ | ⟨c, rfl, is⟩ | ⟨odd, is⟩ <;> rw [is]
    · exact ⟨fun _ => rfl, fun _ => rfl⟩
    · constructor
      · rintro ⟨⟩
      · intro same
        have parity := congrArg (· % 2) (show 2 * c = 4 * c + 1 from same)
        simp [Nat.add_mod, Nat.mul_mod] at parity
    · constructor
      · rintro ⟨⟩
      · intro same
        exact absurd (show 0 = p from same) (by rintro rfl; exact odd rfl)
  no_charge _ _ := ⟨rfl, rfl⟩

theorem stopState_priosOk : PriosOk stopState := by
  intro p ordinary
  rcases stopState_cases p with ⟨c, -, is⟩ | ⟨c, -, is⟩ | ⟨-, is⟩ <;> rw [is] at ordinary ⊢
  · exact absurd rfl ordinary.1
  · exact absurd rfl ordinary.2
  · exact .plain rfl rfl rfl rfl (by decide) (by decide)

def topology : Topology where
  cpumaskOfNode _ := {0, 1}
  cpuPossible := {0, 1}
  cpusetCpusAllowedFallback _ _ := ({0, 1}, 1)
  selectOther _ _ := 0

def downEnv : Env := { env .tegra true with cpuActive := {1} }

theorem dying : Dying topology downEnv 0 where
  tegra := rfl
  inactive := by decide
  inRange := by decide
  fallback _ _ := by
    show 1 ∈ ({1} : Cpumask) ∧ 1 ∈ ({0, 1} : Cpumask)
    decide

def afterStop (ops : List Op) : Option Sched :=
  Transition.runActions (step (env .tegra true)) stopState ops

theorem afterStop_prioSound (ops : List Op) (done : (afterStop ops).isSome) :
    PrioSound downEnv ((afterStop ops).get done) := by
  have run := Transition.run_of_isSome stopState ops done
  have fine : PrioSound (env .tegra true) ((afterStop ops).get done) := by
    apply run.invariant _ ⟨init_sound _ stopState_init, stopState_priosOk⟩
    intro before op after fine _ moved
    exact step_prioSound fine moved
  exact fine.cpuDown {1}

end Boot

def drainOps : List Op :=
  [.setscheduler Boot.root 3 Boot.userTask 6 0 true none, .tryToWakeUp 3 1 0,
    .setscheduler Boot.root 7 Boot.userTask 1 10 true none, .tryToWakeUp 7 1 0,
    .tryToWakeUp 1 1 0, .schedule 0 false false]

def drainState : Sched := (Boot.afterStop drainOps).get (by decide)

theorem migrateTasks_drains_queued :
    ∃ bound out, Drained out 0 ∧ ∀ fuel, bound < fuel →
      migrateTasks Boot.topology Boot.downEnv fuel drainState 0 = some out := by
  have fine : PrioSound Boot.downEnv drainState := Boot.afterStop_prioSound drainOps (by decide)
  refine (migrateTasks_drains Boot.dying fine (by decide +kernel)).1.mpr ⟨?_, ?_⟩
  · intro p on here isWrr
    have member := ((fine.sound.queues 0).wrr.lists.mem_iff p).mpr
      ((has_entries _ _ _ _).mpr ⟨on, here, isWrr⟩)
    have queue : (drainState.rq 0).wrr.queue = [3] := by decide +kernel
    rw [queue, List.mem_singleton] at member
    subst member
    have mask : (drainState.task 3).cpusAllowed = {0, 1} := by decide +kernel
    rw [HasActive, mask]
    decide
  · have offered : RtGroups.pickNextTaskRt Boot.downEnv.groups
        (RtGroups.setThrottled (drainState.rtState 0) Boot.downEnv.groups.root false) =
          some (some 7) := by decide +kernel
    have loose := (RtGroups.setThrottled_root_still Boot.downEnv.groups
      (drainState.rtState 0) false).sound (fine.sound.rt 0).1
    exact .next offered ((loose.dequeueTask 7).1.handsOut_nil (by decide +kernel))

def pinnedOps : List Op := .setCpusAllowed 3 {0} :: drainOps

def pinnedState : Sched := (Boot.afterStop pinnedOps).get (by decide +kernel)

/-- The drain of CPU 0 never ends. -/
theorem pinned_wrr_stays :
    ¬ ∀ topo env s dead, Dying topo env dead → PrioSound env s →
      (s.rq dead).stop = some (s.rq dead).curr →
      ∃ bound out, Drained out dead ∧
        ∀ fuel, bound < fuel → migrateTasks topo env fuel s dead = some out := by
  intro claim
  have fine : PrioSound Boot.downEnv pinnedState :=
    Boot.afterStop_prioSound pinnedOps (by decide +kernel)
  have stopRuns : (pinnedState.rq 0).stop = some (pinnedState.rq 0).curr := by decide +kernel
  obtain ⟨bound, out, -, answers⟩ := claim _ _ _ _ Boot.dying fine stopRuns
  have pinned : (pinnedState.task 3).cpusAllowed = {0} := by decide +kernel
  have stuck : ¬ WrrMovable Boot.downEnv pinnedState 0 := by
    intro movable
    have active := movable 3 (by decide +kernel) (by decide +kernel) (by decide +kernel)
    rw [HasActive, pinned] at active
    exact absurd active (by decide)
  have never := migrateTasks_stuck Boot.dying fine stopRuns (fun both => stuck both.1) (bound + 1)
  rw [answers (bound + 1) (Nat.lt_succ_self bound)] at never
  cases never

end AndroidKernel
