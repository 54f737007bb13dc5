import AndroidKernel.Preemption

/-!
The uniprocessor build over whole runs. Four operations can lose a preemption:
a running RT task that turns WRR, a queued task that turns RT under a boosted
WRR task, the period timer that lifts the throttling under one, and the move of
a queued RT task out of a group that held it. `HooksHeard` excludes these and
nothing else.
-/

namespace AndroidKernel

section Timer
variable {env : Env} {s : Sched} {g : Group} {c : Cpu}

/-- The timer lets a group loose only under a current task that it compares
worse than the RT tasks of the group, or when none of them may run even then. -/
def TimerHeard (env : Env) (s : Sched) (g : Group) (c : Cpu) (overrun : Nat) : Prop :=
  let time := s.rtTime c g
  let rq := (s.rt c).rq g
  rq.rtThrottled = true → time.rtTime ≠ 0 →
    time.rtTime - min time.rtTime (overrun * time.rtRuntime) < time.rtRuntime →
    (rqCurr s c).schedClass = .wrr →
      rq.rtNrRunning = 0 ∨ s.needResched (s.rq c).curr = true ∨
        (rq.highestPrio : Int) < (rqCurr s c).prio ∨
        RtHeld env.groups (Function.update (rtThrottled s c) g false) s.task c

theorem schedRtRqEnqueue_flagsKept (env : Env) (s : Sched) (c : Cpu) (g : Group) :
    FlagsKept s (schedRtRqEnqueue env s c g) := by
  have queued := FlagsKept.shuffle s c (fun rt => RtGroups.schedRtRqEnqueue env.groups rt g)
    (RtGroups.schedRtRqEnqueue_shuffled env.groups _ g)
  simp only [schedRtRqEnqueue]
  split_ifs
  · exact queued.trans (.resched _ _)
  · exact queued
  · exact .refl s

theorem schedRtRqEnqueue_rtThrottled (env : Env) (s : Sched) (c : Cpu) (g : Group) (d : Cpu) :
    rtThrottled (schedRtRqEnqueue env s c g) d = rtThrottled s d := by
  funext h
  obtain ⟨here, elsewhere⟩ := schedRtRqEnqueue_rtState env s c g
  by_cases same : d = c
  · subst same
    have kept := (RtGroups.schedRtRqEnqueue_shuffled env.groups (s.rtState d) g).throttled h
    rw [← here] at kept
    exact kept
  · exact congrArg (fun state => (RtGroups.State.rq state h).rtThrottled) (elsewhere d same)

theorem schedRtRqEnqueue_flags (busy : ((s.rt c).rq g).rtNrRunning ≠ 0)
    (low : (((s.rt c).rq g).highestPrio : Int) < (rqCurr s c).prio) :
    (schedRtRqEnqueue env s c g).needResched (s.rq c).curr = true := by
  have same := RtGroups.schedRtRqEnqueue_rq_self env.groups (s.rtState c) g
  have low' : (((s.rt c).rq g).highestPrio : Int) < (s.task (s.rq c).curr).prio := low
  simp [schedRtRqEnqueue, busy, rqCurr, RtQueues.ofState, same, low']

/-- The state in which the timer enqueues a group that it lets loose. -/
structure Lifted (s lifted : Sched) (c : Cpu) (g : Group) : Prop where
  task : lifted.task = s.task
  rq : lifted.rq = s.rq
  flags : lifted.needResched = s.needResched
  rt : lifted.rtState c = RtGroups.setThrottled (s.rtState c) g false

theorem Lifted.own {lifted : Sched} (lift : Lifted s lifted c g) :
    ((lifted.rt c).rq g).rtNrRunning = ((s.rt c).rq g).rtNrRunning ∧
      ((lifted.rt c).rq g).highestPrio = ((s.rt c).rq g).highestPrio := by
  have same := congrArg (fun state => RtGroups.State.rq state g) lift.rt
  simp only [Sched.rtState_rq, RtGroups.setThrottled, Function.update_self] at same
  rw [same]
  exact ⟨rfl, rfl⟩

theorem Lifted.throttled {lifted : Sched} (lift : Lifted s lifted c g) :
    rtThrottled lifted c = Function.update (rtThrottled s c) g false := by
  funext h
  have same := congrArg (fun state => (RtGroups.State.rq state h).rtThrottled) lift.rt
  refine same.trans ?_
  by_cases here : h = g
  · subst here
    simp [RtGroups.setThrottled]
  · simp [RtGroups.setThrottled, Function.update_of_ne here, rtThrottled]

theorem Lifted.compares {lifted : Sched} (lift : Lifted s lifted c g)
    (busy : ((s.rt c).rq g).rtNrRunning ≠ 0)
    (less : (((s.rt c).rq g).highestPrio : Int) < (rqCurr s c).prio) :
    (schedRtRqEnqueue env lifted c g).needResched (s.rq c).curr = true := by
  rw [← lift.rq]
  apply schedRtRqEnqueue_flags
  · rw [lift.own.1]
    exact busy
  · rw [lift.own.2, rqCurr, lift.task, lift.rq]
    exact less

/-- A task of the group that may run afterwards counts in its `highest_prio`. -/
theorem Lifted.shows {lifted : Sched} (lift : Lifted s lifted c g) (prios : PriosOk s)
    (ok : RtOk env (schedRtRqEnqueue env lifted c g) (QueuedRt s.task)) {q : Pid}
    (queued : QueuedRt s.task c q) (path : RtGroups.OnPath env.groups (s.task q).rt.rtRq g)
    (eligible : RtEligible env.groups (entries s.task c)
      (Function.update (rtThrottled s c) g false) (s.task q).rt.rtRq) :
    ((s.rt c).rq g).rtNrRunning ≠ 0 ∧ (((s.rt c).rq g).highestPrio : Int) ≤ (s.task q).prio := by
  let next := schedRtRqEnqueue env lifted c g
  have task : next.task = s.task := by simp [next, lift.task]
  have ok' : RtOk env next (QueuedRt next.task) := by
    rw [task]
    exact ok
  have prios' : PriosOk next := by
    rw [PriosOk, task]
    exact prios
  have runs : RtGroups.Eligible env.groups (next.rtState c) q := by
    rw [ok'.eligible_iff prios' (task ▸ queued), task, schedRtRqEnqueue_rtThrottled,
      lift.throttled]
    exact eligible
  have counted := (ok' c).1.eligible_path_le runs (h := g) (by
    rw [Sched.rtState_group, task]
    exact path)
  have own := congrArg (fun state => RtGroups.State.rq state g)
    (schedRtRqEnqueue_rtState env lifted c g).1
  have prio := (prios'.rt_prios c (task ▸ queued.2.2)).1
  simp only [RtGroups.schedRtRqEnqueue_rq_self, Sched.rtState_rq] at own
  rw [task] at prio
  simp only [next] at prio
  simp only [Sched.rtState_rq, next, own, lift.own.1, lift.own.2] at counted
  exact ⟨counted.1, by omega⟩

/-- Once the group is let loose its RT tasks are compared with the current one. -/
theorem lifted_noMiss (prios : PriosOk s) (idle : IdlePrios s) {lifted : Sched}
    (lift : Lifted s lifted c g)
    (ok : RtOk env (schedRtRqEnqueue env lifted c g) (QueuedRt s.task))
    (heard : (rqCurr s c).schedClass = .wrr → ((s.rt c).rq g).rtNrRunning = 0 ∨
      s.needResched (s.rq c).curr = true ∨
      (((s.rt c).rq g).highestPrio : Int) < (rqCurr s c).prio ∨
      RtHeld env.groups (Function.update (rtThrottled s c) g false) s.task c)
    (miss : NoMissAt env s c) : NoMissAt env (schedRtRqEnqueue env lifted c g) c := by
  intro q urgent
  rw [rqCurr, schedRtRqEnqueue_rq, lift.rq, schedRtRqEnqueue_task, lift.task,
    schedRtRqEnqueue_rtThrottled, lift.throttled] at urgent
  rw [schedRtRqEnqueue_rq, lift.rq]
  obtain ⟨on, here, before, free⟩ := (has_entries _ _ _ _).mp urgent
  have already (set : s.needResched (s.rq c).curr = true) :
      (schedRtRqEnqueue env lifted c g).needResched (s.rq c).curr = true :=
    (schedRtRqEnqueue_flagsKept env lifted c g).flag _ (lift.flags ▸ set)
  have stays (eligible : (s.task q).schedClass = .rt →
      RtEligible env.groups (entries s.task c) (rtThrottled s c) (s.task q).rt.rtRq) :
      (schedRtRqEnqueue env lifted c g).needResched (s.rq c).curr = true :=
    already (miss q ((has_entries _ _ _ _).mpr ⟨on, here, before, eligible⟩))
  by_cases isRt : (s.task q).schedClass = .rt
  swap
  · exact stays fun isRt' => absurd isRt' isRt
  by_cases path : RtGroups.OnPath env.groups (s.task q).rt.rtRq g
  swap
  · -- another group than those of `q` was let loose
    refine stays fun _ h below was => free isRt h below ?_
    have other : h ≠ g := by
      rintro rfl
      exact path below
    rwa [Function.update_of_ne other]
  obtain ⟨busy, best⟩ := lift.shows prios ok ⟨on, here, isRt⟩ path (free isRt)
  by_cases isWrr : (rqCurr s c).schedClass = .wrr
  · rcases heard isWrr with none | set | less | held
    · exact absurd none busy
    · exact already set
    · exact lift.compares busy less
    · exact absurd (free isRt) (held.not_eligible ⟨on, here, isRt⟩)
  -- below WRR nobody has an RT priority, so priorities compare as the classes do
  · have plain := plain_after_wrr prios idle (after_wrr (isRt ▸ before) isWrr)
    have low : rtPrio (s.task q).prio := (prios q (by simp [Ordinary, isRt])).rt_prio isRt
    apply lift.compares busy
    rw [rtPrio_iff] at low plain
    rw [rqCurr]
    omega

theorem rtPeriodTimer_noMiss (sound : Sound env s) (prios : PriosOk s) (idle : IdlePrios s)
    (g : Group) (cpu : Cpu) (overrun : Nat) (heard : TimerHeard env s g cpu overrun)
    (miss : ∀ c, NoMissAt env s c) (c : Cpu) :
    NoMissAt env (doSchedRtPeriodTimer env s g cpu overrun) c := by
  have same : SameCpu s (doSchedRtPeriodTimer env s g cpu overrun) c :=
    .of_entries (fun p => by simp) (fun d => by simp) c
  have quiet := doSchedRtPeriodTimer_rtQuiet env s cpu g overrun
  simp only [doSchedRtPeriodTimer] at same quiet ⊢
  split_ifs at same quiet ⊢ with noBandwidth ran lifts busy
  · exact miss c
  · by_cases here : c = cpu
    · subst here
      refine lifted_noMiss prios idle ⟨rfl, rfl, rfl, ?_⟩ (sound.rt.quiet quiet)
        (heard lifts.1 ran lifts.2) (miss c)
      exact modifyRt_rtState (RtGroups.setThrottled_sameTasks _ g false)
    · intro q urgent
      rw [schedRtRqEnqueue_rtThrottled, same.view, same.cls] at urgent
      rw [same.curr]
      refine (schedRtRqEnqueue_flagsKept env _ cpu g).flag _ (miss c q ?_)
      refine urgent.weaken (fun h was => ?_) le_rfl
      simpa [rtThrottled, Function.update_of_ne here] using was
  · exact (miss c).same (.of_eq rfl rfl) same
  · exact (miss c).same (schedRtRqEnqueue_flagsKept env s cpu g) same
  · exact miss c

end Timer

def HooksHeard (env : Env) (s : Sched) : Op → Prop
  | .setscheduler caller p seen policy prio user waiter =>
      match setschedulerChecks caller seen policy prio user with
      | .error _ => True
      | .ok request =>
          PassApplies env s p request prio user →
            ChangeHeard env s p (setscheduler waiter request.policy prio.toNat (s.task p))
  | .rtMutexSetprio p waiter =>
      ChangeHeard env s p (setEffectivePrio (rtMutexGetprio waiter (s.task p)) (s.task p))
  | .schedMoveTask p => MoveHeard env s p (schedMoveGroup env (s.task p))
  | .rtPeriodTimer g c overrun => TimerHeard env s g c overrun
  | _ => True

structure Heard (env : Env) (s : Sched) : Prop extends PrioSound env s where
  idle : IdlePrios s
  miss : ∀ c, NoMissAt env s c

section Steps
variable {env : Env} {s : Sched}

theorem PolicyStep.idlePrio {op : Op} {p : Pid} {after : TaskStruct}
    (made : PolicyStep env s op p after) (idle : IdlePrios s)
    (isIdle : after.schedClass = .idle) : ¬ rtPrio after.prio := by
  have chosen : ∀ policy prio, classFor policy prio ≠ .idle := by
    intro policy prio
    rw [classFor]
    split_ifs <;> simp
  cases made with
  | kept same =>
      rw [same.prio]
      exact idle p (same.schedClass ▸ isIdle)
  | forked c is parent same =>
      exact absurd (same.schedClass ▸ isIdle) (schedFork_ordinary env.kernel _ parent).1
  | set waiter policy prio ordinary small asked same =>
      exact absurd (same.schedClass ▸ isIdle) (chosen _ _)
  | boosted waiter is ordinary same =>
      exact absurd (same.schedClass ▸ isIdle) (chosen _ _)
  | niced nice low high real same =>
      rw [same.prio]
      exact idle p (same.schedClass ▸ isIdle)
  | reniced nice low high unreal same =>
      rw [same.prio]
      have old : ¬ rtPrio (s.task p).prio := idle p (same.schedClass ▸ isIdle)
      rw [(effectivePrio_nice unreal).2, if_neg old]
      exact not_rtPrio (niceToPrio_ge low)

variable {p : Pid}

theorem setschedulerApply_noMiss (fine : Heard env s) (policy : Policy) (prio : Nat)
    (reset : Bool) (waiter : Option Nat) (ordinary : Ordinary (s.task p))
    (heard : ChangeHeard env s p (setscheduler waiter policy prio (s.task p))) (c : Cpu) :
    NoMissAt env (setschedulerApply env s p policy prio reset waiter) c := by
  have keeps := setscheduler_keeps waiter policy prio reset (s.task p) ordinary
  have chosen : Ordinary
      (setscheduler waiter policy prio { s.task p with schedResetOnFork := reset }) :=
    classFor_ordinary _ _ _ rfl
  have heard' : ChangeHeard env s p
      (setscheduler waiter policy prio { s.task p with schedResetOnFork := reset }) :=
    heard.congr rfl rfl rfl rfl rfl
  exact change_noMiss fine.sound fine.prios fine.idle fine.miss p (env.kernel = .tegra) false
    (fun task => setscheduler waiter policy prio { task with schedResetOnFork := reset })
    keeps ordinary chosen heard' c

theorem rtMutexSetprio_noMiss (fine : Heard env s) (prio : Int) (ordinary : Ordinary (s.task p))
    (heard : ChangeHeard env s p (setEffectivePrio prio (s.task p))) (c : Cpu) :
    NoMissAt env (rtMutexSetprio env s p prio) c := by
  have chosen : Ordinary (setEffectivePrio prio (s.task p)) := classFor_ordinary _ _ _ rfl
  simp only [rtMutexSetprio]
  split
  · exact fine.miss c
  · exact change_noMiss fine.sound fine.prios fine.idle fine.miss p false _
      (setEffectivePrio prio)
      ⟨rfl, rfl, rfl, Or.inl ⟨ordinary, chosen⟩, fun _ => rfl⟩ ordinary chosen heard c

/-- After a group move only an RT task that waits could get ahead. -/
theorem schedMoveTask_noMiss (fine : Heard env s) (ordinary : Ordinary (s.task p))
    (heard : MoveHeard env s p (schedMoveGroup env (s.task p))) (c : Cpu) :
    NoMissAt env (schedMoveTask env s p) c := by
  have sound := fine.sound
  have moved : (schedMoveGroup env (s.task p)).onRq = (s.task p).onRq ∧
      (schedMoveGroup env (s.task p)).cpu = (s.task p).cpu ∧
      (schedMoveGroup env (s.task p)).schedClass = (s.task p).schedClass := by
    simp only [schedMoveGroup]
    split <;> exact ⟨rfl, rfl, rfl⟩
  obtain ⟨new, ticked, task⟩ : ∃ new, (schedMoveGroup env (s.task p)).Ticked env new ∧
      (schedMoveTask env s p).task = Function.update s.task p new := by
    refine ⟨_, ?_, requeueAround_task env s _ p false false (schedMoveGroup env)⟩
    split
    · exact enqueuedTask_ticked env _
    · exact .refl env _
  have kept := requeueAround_flagsKept env s (s.task p).cpu p false false (schedMoveGroup env)
  have roles := requeueAround_sameRoles env s (s.task p).cpu p false false (schedMoveGroup env)
  have curr (d : Cpu) : ((schedMoveTask env s p).rq d).curr = (s.rq d).curr := (roles d).1
  have onRq : new.onRq = (s.task p).onRq := ticked.onRq.trans moved.1
  have home : new.cpu = (s.task p).cpu := ticked.cpu.trans moved.2.1
  have cls : new.schedClass = (s.task p).schedClass := ticked.schedClass.trans moved.2.2
  by_cases here : c = (s.task p).cpu
  swap
  · exact sound.away_noMiss task kept curr home here (fine.miss c)
  subst here
  by_cases on : (s.task p).onRq = true
  swap
  · exact sound.off_noMiss task kept curr onRq (by simpa using on) ordinary.1 (fine.miss _)
  have view : entries (schedMoveTask env s p).task (s.task p).cpu =
      Function.update (entries s.task (s.task p).cpu) p (some new.entry) := by
    rw [task, entries_update, if_pos ⟨onRq.trans on, home⟩]
  by_cases running : (s.rq (s.task p).cpu).curr = p
  · refine NoMissAt.turn (fine.miss _) kept (curr _) ?_ (view.trans (by rw [running])) ?_
    · rw [rqCurr, curr, task, running, Function.update_self]
      rfl
    · intro later
      rw [rqCurr, running, TaskStruct.entry, cls] at later
      exact absurd later (Nat.lt_irrefl _)
  refine (fine.miss _).put kept (curr _) ?_ view fun before free => ?_
  · rw [rqCurr, rqCurr, curr, task, Function.update_of_ne running]
  have before' : (s.task p).schedClass.precedes (rqCurr s (s.task p).cpu).schedClass := by
    rw [← cls]
    exact before
  by_cases isRt : (s.task p).schedClass = .rt
  · rcases heard running on isRt (isRt ▸ before') with set | nobody
    · exact kept.flag _ set
    · have nobody' := nobody.congr ticked.onRq ticked.cpu ticked.entry
      have eligible := (free (cls.trans isRt)).weaken (kept.throttled _)
      rw [view] at eligible
      exact (nobody'.refutes (onRq.trans on) home (cls.trans isRt) eligible).elim
  · refine kept.flag _ (fine.miss _ p ⟨_, entries_present on, before', fun isRt' => ?_⟩)
    exact absurd isRt' isRt

theorem apply_noMiss (single : env.smp = false) (fine : Heard env s) (op : Op)
    (allowed : Allowed env s op) (heard : HooksHeard env s op) (c : Cpu) :
    NoMissAt env (apply env s op) c := by
  have sound := fine.sound
  have miss := fine.miss
  have notSmp : env.smp ≠ true := by simp [single]
  cases op with
  | fork cpu child =>
      obtain ⟨-, ordinary, off⟩ := allowed
      exact forkTask_noMiss sound cpu child ordinary (by simpa using off) miss c
  | wakeUpNewTask p dest =>
      exact wakeUpNewTask_noMiss single sound dest allowed.1 (by simpa using allowed.2) miss c
  | tryToWakeUp p mask dest => exact tryToWakeUp_noMiss single sound mask dest allowed.1 miss c
  | ttwuQueueRemote p dest => exact absurd allowed.1 notSmp
  | schedTtwuPending p =>
      obtain ⟨ordinary, off, -⟩ := allowed
      simp only [apply, schedTtwuPending, ttwuDoActivate]
      exact (activate_noMiss sound (by simpa using off) ordinary.1 miss c).same (.of_eq rfl rfl)
        (.modifyTask _ p ⟨rfl, rfl, rfl⟩ c)
  | setCurrentState cpu state =>
      simp only [apply]
      exact (miss c).same (.of_eq rfl rfl) (.modifyTask s _ ⟨rfl, rfl, rfl⟩ c)
  | schedule cpu preemptActive signalPending =>
      exact schedule_noMiss sound fine.prios cpu preemptActive signalPending miss c
  | schedulerTick cpu =>
      have ticks : schedulerTick env s cpu = tickLocked env s cpu := by
        simp [schedulerTick, single]
      simp only [apply, ticks]
      exact (miss c).same (tickLocked_flagsKept env s cpu) (.quiet (tickLocked_quiet env s cpu) c)
  | schedYield cpu => exact schedYield_noMiss sound cpu miss c
  | setscheduler caller p seen policy prio user waiter =>
      simp only [apply]
      split
      · rename_i done
        rcases setschedulerPass_cases done with rfl | ⟨request, checks, -, applies, rfl⟩
        · exact miss c
        · have ordinary : Ordinary (s.task p) :=
            applies.ordinary sound allowed
          simp only [HooksHeard, checks] at heard
          exact setschedulerApply_noMiss fine request.policy prio.toNat request.resetOnFork waiter
            ordinary (heard applies) c
      · exact miss c
  | rtMutexSetprio p waiter =>
      exact rtMutexSetprio_noMiss fine _ allowed heard c
  | setUserNice p nice => exact setUserNice_noMiss sound fine.prios nice allowed miss c
  | cgroupAttach p group =>
      simp only [apply]
      exact (miss c).same (.of_eq rfl rfl) (.modifyTask s p ⟨rfl, rfl, rfl⟩ c)
  | schedMoveTask p => exact schedMoveTask_noMiss fine allowed heard c
  -- the moves between CPUs are SMP code
  | migrateTask p src dest => exact absurd allowed.1 notSmp
  | pushTask p dest => exact absurd allowed.1 notSmp
  | pullWrrTask dest => exact absurd allowed notSmp
  | rtPeriodTimer g cpu overrun =>
      exact rtPeriodTimer_noMiss sound fine.prios fine.idle g cpu overrun heard miss c
  | balanceRuntime g cpu runtime => exact absurd allowed notSmp
  | normalizeRtTask p waiter => exact normalizeRtTask_noMiss sound fine.prios waiter allowed miss c
  | setCpusAllowed p mask => exact absurd allowed notSmp

theorem step_heard {next : Sched} {op : Op} (single : env.smp = false) (fine : Heard env s)
    (heard : HooksHeard env s op) (moved : step env s op = some next) : Heard env next := by
  have prio := step_prioSound fine.toPrioSound moved
  obtain ⟨allowed, rfl⟩ := step_some moved
  exact ⟨prio, fun p => (apply_policy fine.sound op allowed p).idlePrio fine.idle,
    apply_noMiss single fine op allowed heard⟩

end Steps

theorem init_heard {env : Env} {s : Sched} (init : Init s) (prios : PriosOk s)
    (idle : IdlePrios s) : Heard env s := by
  refine ⟨⟨init_sound env init, prios⟩, idle, fun c p urgent => ?_⟩
  obtain ⟨on, -⟩ := (has_entries _ _ _ _).mp urgent
  simp [init.asleep p] at on

/-- In a uniprocessor run whose changes are heard, a queued task of an earlier
class finds the current task flagged, on every CPU and in every state reached. -/
theorem no_missed_preemption {env : Env} {start s : Sched} {ops : List Op}
    (single : env.smp = false) (init : Init start) (prios : PriosOk start)
    (idle : IdlePrios start) (run : Transition.Run (step env) (HooksHeard env) start ops s)
    (c : Cpu) : NoMissedPreemption env s c := by
  have fine : Heard env s := by
    apply run.invariant _ (init_heard init prios idle)
    intro before op after fine heard moved
    exact step_heard single fine heard moved
  exact (fine.sound.noMissed_iff fine.prios c).mpr (fine.miss c)

theorem Boot.idlePrios : IdlePrios Boot.state := by
  intro p isIdle
  rcases Boot.task_cases p with ⟨c, -, idle⟩ | user
  · simp [Boot.state, idle, Boot.idleTask, rtPrio_iff]
  · simp [Boot.state, user, Boot.userTask] at isIdle

def wokenOps : List Op := [.tryToWakeUp 1 1 0, .tryToWakeUp 3 1 0, .schedule 0 false false]

def heardOps : List Op :=
  wokenOps ++ [.setscheduler Boot.root 1 Boot.userTask 6 0 true none,
    .setscheduler Boot.root 3 Boot.userTask 1 10 true none, .rtPeriodTimer 0 0 1]

theorem no_missed_preemption_heard :
    NoMissedPreemption (Boot.env .goldfish false)
      ((Boot.after .goldfish false heardOps).get (by decide)) 0 := by
  have woken : Transition.Run (step (Boot.env .goldfish false))
      (fun _ op => ∀ s, HooksHeard (Boot.env .goldfish false) s op) Boot.state wokenOps _ :=
    (Boot.runs .goldfish false wokenOps (by decide)).of_actions (by simp [wokenOps, HooksHeard])
  have heard : Transition.Run (step (Boot.env .goldfish false))
      (HooksHeard (Boot.env .goldfish false)) Boot.state heardOps
      ((Boot.after .goldfish false heardOps).get (by decide)) := by
    refine (woken.weaken fun s op good => good s).append ?_
    -- the first task turns WRR while it runs, the second FIFO while it waits
    refine .next (fun _ => Or.inr ⟨fun _ isRt => absurd isRt ?_, fun other => absurd ?_ other⟩)
      (Option.some_get ?_).symm ?_
    · decide
    · decide
    · decide
    refine .next (fun _ => Or.inr ⟨fun runs => absurd runs ?_, fun _ _ _ _ => Or.inl ?_⟩)
      (Option.some_get ?_).symm ?_
    · decide
    · decide
    · decide
    exact .next (fun throttled => absurd throttled (by decide)) (Option.some_get (by decide)).symm
      (.refl _)
  exact no_missed_preemption rfl Boot.state_init Boot.priosOk Boot.idlePrios heard 0

def turnWrrOps : List Op :=
  [.setscheduler Boot.root 1 Boot.userTask 1 50 true none,
    .setscheduler Boot.root 3 Boot.userTask 1 10 true none, .tryToWakeUp 1 1 0,
    .schedule 0 false false, .tryToWakeUp 3 1 0,
    .setscheduler Boot.root 1 Boot.userTask 6 0 true none]

/-- The other FIFO task waits behind it, and no flag is set. -/
theorem fifo_waits_behind_wrr :
    ¬ ∀ s, Reachable (Boot.env .goldfish false) (fun _ _ => True) s → ∀ c,
      NoMissedPreemption (Boot.env .goldfish false) s c := by
  intro claim
  have law := claim _ (Boot.reachable .goldfish false turnWrrOps (by decide)) 0 3
    (by decide +kernel) (by decide +kernel) (by decide +kernel)
    (fun _ => by decide +kernel)
  exact absurd law (by decide +kernel)

end AndroidKernel
