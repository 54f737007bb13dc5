import AndroidKernel.SystemInvariant

/-!
Every state that runs of the scheduler reach is `Sound`. `__schedule` is the one
operation that changes the current task, so it comes first: what it picks is
queued on its CPU or is the idle task. The other operations are instances of
the shapes in `SystemInvariant`.
-/

namespace AndroidKernel

section Pick
variable {env : Env} {s : Sched} {c : Cpu}

/-- A picked task is the idle task, or it is queued on the CPU in the class
that offered it. -/
def Runnable (s : Sched) (c : Cpu) (picked : SchedClass × Pid) : Prop :=
  picked = (.idle, (s.rq c).idle) ∨
    (s.task picked.2).onRq = true ∧ (s.task picked.2).cpu = c ∧
      (s.task picked.2).schedClass = picked.1

structure Ready (env : Env) (s : Sched) (c : Cpu) : Prop where
  queues : SchedOk env s.task s.rq
  stops : ∀ p, (s.rq c).stop = some p → (s.task p).schedClass = .stop ∧ (s.task p).cpu = c
  idle : (s.task (s.rq c).idle).schedClass = .idle
  rt : RtOk env s (QueuedRt s.task)

theorem RtOk.pick_queued (ok : RtOk env s (QueuedRt s.task)) {p : Pid}
    (found : pickNextTaskRt env s c = some p) :
    QueuedRt s.task c p ∧ RtGroups.Eligible env.groups (s.rtState c) p ∧
      ∀ q, RtGroups.Eligible env.groups (s.rtState c) q →
        (s.rtState c).prio p ≤ (s.rtState c).prio q := by
  obtain ⟨eligible, best⟩ := (ok c).1.pick_eligible (Option.join_eq_some_iff.mp found)
  exact ⟨((ok c).2 p).mp eligible.1, eligible, best⟩

theorem classPick_runnable (ready : Ready env s c) (cls : SchedClass) (p : Pid)
    (found : classPick env s c cls = some p) : Runnable s c (cls, p) := by
  have ok := ready.queues c
  cases cls with
  | stop =>
      obtain ⟨named, on⟩ := Option.filter_eq_some_iff.mp found
      obtain ⟨isStop, here⟩ := ready.stops p named
      exact Or.inr ⟨by simpa using on, here, isStop⟩
  | rt =>
      exact Or.inr (ready.rt.pick_queued found).1
  | wrr =>
      simp only [classPick, pickNextTaskWrr] at found
      split at found
      · cases found
      · have member := List.mem_of_mem_head? (Option.mem_def.mpr found)
        obtain ⟨on, here, isWrr⟩ := (has_entries _ _ _ _).mp ((ok.wrr.lists.mem_iff p).mp member)
        exact Or.inr ⟨on, here, isWrr⟩
  | fair =>
      have member := env.fair.picks_queued s c p found
      obtain ⟨on, here, isFair⟩ := (has_entries _ _ _ _).mp ((ok.cfs.lists.mem_iff p).mp member)
      exact Or.inr ⟨on, here, isFair⟩
  | idle =>
      simp only [classPick, Option.some.injEq] at found
      exact Or.inl (by rw [found])

theorem pickWalk_runnable (ready : Ready env s c) :
    Runnable s c (pickWalk env s c) := by
  simp only [pickWalk]
  split
  · rename_i picked found
    obtain ⟨cls, -, offered⟩ := List.exists_of_findSome?_eq_some found
    obtain ⟨p, offers, rfl⟩ := Option.map_eq_some_iff.mp offered
    exact classPick_runnable ready cls p offers
  · exact Or.inl rfl

theorem pickNext_runnable (ready : Ready env s c) : Runnable s c (pickNext env s c) := by
  simp only [pickNext]
  split
  · split
    · rename_i p found
      exact classPick_runnable ready .fair p found
    · exact pickWalk_runnable ready
  · exact pickWalk_runnable ready

end Pick

section Schedule
variable {env : Env} {s : Sched}

/-- The three ends of the first part: nothing, awake again, or asleep. -/
theorem scheduleOut_cases (env : Env) (s : Sched) (c : Cpu)
    (preemptActive signalPending : Bool) :
    -- it runs on, or was preempted
    scheduleOut env s c preemptActive signalPending = s ∨
      (s.task (s.rq c).curr).state ≠ 0 ∧
        -- a signal wakes it, or it leaves the queue
        (scheduleOut env s c preemptActive signalPending =
            s.modifyTask (s.rq c).curr (fun task => { task with state := 0 }) ∨
          scheduleOut env s c preemptActive signalPending =
            (deactivateTask env s c (s.rq c).curr).modifyTask (s.rq c).curr
              fun task => { task with onRq := false }) := by
  simp only [scheduleOut]
  split_ifs with skip signal
  · exact Or.inl rfl
  · exact Or.inr ⟨fun zero => skip (Or.inl zero), Or.inl rfl⟩
  · exact Or.inr ⟨fun zero => skip (Or.inl zero), Or.inr rfl⟩

def switchTasks (task : Pid → TaskStruct) (prev next : Pid) : Pid → TaskStruct :=
  if prev = next then task
  else Function.update (Function.update task prev { task prev with onCpu := false }) next
    { task next with onCpu := true }

theorem contextSwitch_task (s : Sched) (c : Cpu) (prev next : Pid) :
    (contextSwitch s c prev next).task = switchTasks s.task prev next := by
  simp only [contextSwitch, switchTasks]
  split
  · rfl
  · rename_i differs
    simp [Function.update_of_ne (Ne.symm differs)]

@[simp] theorem contextSwitch_rt (s : Sched) (c : Cpu) (prev next : Pid) :
    (contextSwitch s c prev next).rt = s.rt := by
  simp only [contextSwitch]
  split_ifs <;> rfl

theorem contextSwitch_rq (s : Sched) (c : Cpu) (prev next : Pid)
    (current : (s.rq c).curr = prev) :
    (contextSwitch s c prev next).rq =
      Function.update s.rq c { s.rq c with curr := next } := by
  simp only [contextSwitch]
  split
  · rename_i same
    rw [← same, ← current]
    exact (Function.update_eq_self c s.rq).symm
  · simp

theorem switchTasks_same (task : Pid → TaskStruct) (prev next p : Pid) :
    switchTasks task prev next p =
      { task p with onCpu := (switchTasks task prev next p).onCpu } := by
  simp only [switchTasks]
  split
  · rfl
  · by_cases isNext : p = next
    · subst isNext
      simp
    · by_cases isPrev : p = prev
      · subst isPrev
        simp [Function.update_of_ne isNext]
      · simp [Function.update_of_ne isNext, Function.update_of_ne isPrev]

theorem entries_switchTasks (task : Pid → TaskStruct) (prev next : Pid) (c : Cpu) :
    entries (switchTasks task prev next) c = entries task c := by
  funext p
  rw [entries, entries, switchTasks_same task prev next p]
  rfl

theorem switch_queues {rq : Cpu → Rq} {task : Pid → TaskStruct} (queues : SchedOk env task rq)
    (weighed : Weighed env task) (c : Cpu) (prev next : Pid) :
    SchedOk env (switchTasks task prev next)
        (Function.update rq c { rq c with curr := next }) ∧
      Weighed env (switchTasks task prev next) := by
  have same := switchTasks_same task prev next
  constructor
  · intro d
    have sameWeights : weights (switchTasks task prev next) = weights task := by
      funext p
      rw [weights, weights, same p]
    rw [entries_switchTasks, sameWeights]
    have base := queues d
    by_cases here : d = c
    · subst here
      rw [Function.update_self]
      exact ⟨base.wrr, base.cfs, base.running⟩
    · rwa [Function.update_of_ne here]
  · intro goldfish p
    rw [same p]
    exact weighed goldfish p

structure PrevOnly (task task' : Pid → TaskStruct) (prev : Pid) : Prop where
  others : ∀ p, p ≠ prev → task' p = task p
  prevSame : ∃ state onRq, task' prev = { task prev with state := state, onRq := onRq }
  idleSame : (task prev).schedClass = .idle → task' prev = task prev

section PrevOnly
variable {task task' : Pid → TaskStruct} {prev : Pid}

theorem PrevOnly.place (only : PrevOnly task task' prev) (p : Pid) :
    (task' p).schedClass = (task p).schedClass ∧ (task' p).cpu = (task p).cpu ∧
      (task' p).onCpu = (task p).onCpu := by
  by_cases isPrev : p = prev
  · obtain ⟨state, onRq, prevEq⟩ := only.prevSame
    rw [isPrev, prevEq]
    exact ⟨rfl, rfl, rfl⟩
  · rw [only.others p isPrev]
    exact ⟨rfl, rfl, rfl⟩

theorem PrevOnly.idle (only : PrevOnly task task' prev) (p : Pid)
    (isIdle : (task p).schedClass = .idle) : task' p = task p := by
  by_cases isPrev : p = prev
  · subst isPrev
    exact only.idleSame isIdle
  · exact only.others p isPrev

/-- Who runs after the switch: on this CPU the next task, elsewhere who did. -/
theorem PrevOnly.switch_on_cpu {rq : Cpu → Rq} {c : Cpu} {next : Pid} (run : Running task rq)
    (only : PrevOnly task task' (rq c).curr) (here : (task' next).cpu = c) (p : Pid) :
    (switchTasks task' (rq c).curr next p).onCpu = true ↔
      (Function.update rq c { rq c with curr := next } (task p).cpu).curr = p := by
  have base := run.on_cpu p
  -- the task that comes, the one that goes, and the rest, which did not change
  by_cases isNext : p = next
  · subst isNext
    have home : (task p).cpu = c := (only.place p).2.1.symm.trans here
    rw [home] at base ⊢
    rw [Function.update_self]
    by_cases stays : (rq c).curr = p
    · have onCpu := (only.place p).2.2.trans (base.mpr stays)
      simp [switchTasks, stays, onCpu]
    · simp [switchTasks, stays]
  · by_cases isPrev : p = (rq c).curr
    · subst isPrev
      rw [run.curr_cpu c, Function.update_self]
      simp [switchTasks, isNext, Ne.symm isNext]
    · have plain : switchTasks task' (rq c).curr next p = task p := by
        simp only [switchTasks]
        split
        · exact only.others p isPrev
        · rw [Function.update_of_ne isNext, Function.update_of_ne isPrev, only.others p isPrev]
      rw [plain]
      by_cases isHere : (task p).cpu = c
      · rw [isHere] at base ⊢
        rw [Function.update_self]
        exact ⟨fun on => absurd (base.mp on).symm isPrev, fun now => absurd now.symm isNext⟩
      · rwa [Function.update_of_ne isHere]

end PrevOnly

theorem switch_running {task task' : Pid → TaskStruct} {rq : Cpu → Rq} (c : Cpu) (next : Pid)
    (run : Running task rq) (only : PrevOnly task task' (rq c).curr)
    (here : (task' next).cpu = c)
    (may : (task' next).onRq = true ∨ next = (rq c).idle) :
    Running (switchTasks task' (rq c).curr next)
      (Function.update rq c { rq c with curr := next }) := by
  have same := switchTasks_same task' (rq c).curr next
  have roles : ∀ d, (Function.update rq c { rq c with curr := next } d).idle = (rq d).idle ∧
      (Function.update rq c { rq c with curr := next } d).stop = (rq d).stop := by
    intro d
    by_cases isHere : d = c
    · subst isHere
      simp
    · simp [Function.update_of_ne isHere]
  constructor
  · intro d
    rw [same]
    by_cases isHere : d = c
    · subst isHere
      simpa using here
    · rw [Function.update_of_ne isHere]
      exact (only.place _).2.1.trans (run.curr_cpu d)
  · intro d
    rw [same]
    by_cases isHere : d = c
    · subst isHere
      simpa using may
    · -- another CPU runs another task, which has not changed
      have elsewhere : (rq d).curr ≠ (rq c).curr := by
        intro sameCurr
        have home := run.curr_cpu d
        rw [sameCurr, run.curr_cpu c] at home
        exact isHere home.symm
      rw [Function.update_of_ne isHere, only.others _ elsewhere]
      exact run.curr_on d
  · intro p
    have home : (switchTasks task' (rq c).curr next p).cpu = (task p).cpu := by
      rw [same]
      exact (only.place p).2.1
    rw [home]
    exact only.switch_on_cpu run here p
  · intro d
    obtain ⟨cls, cpu, -⟩ := only.place (rq d).idle
    rw [same, (roles d).1]
    exact ⟨cls.trans (run.idle_class d).1, cpu.trans (run.idle_class d).2⟩
  · intro p isIdle
    rw [same] at isIdle
    have once : (task p).schedClass = .idle := (only.place p).1.symm.trans isIdle
    rw [same, (roles _).1, only.idle p once]
    exact run.idle_rests p once
  · intro d p named
    rw [(roles d).2] at named
    rw [same]
    obtain ⟨cls, cpu⟩ := run.stop_class d p named
    exact ⟨(only.place p).1.trans cls, (only.place p).2.1.trans cpu⟩
  · intro p isStop
    rw [same] at isStop ⊢
    rw [(roles _).2]
    change (rq (task' p).cpu).stop = some p
    rw [(only.place p).2.1]
    exact run.stop_unique p ((only.place p).1.symm.trans isStop)

structure PrevOut (env : Env) (s : Sched) (c : Cpu) (out : Sched) : Prop where
  queues : SchedOk env out.task out.rq
  weighed : Weighed env out.task
  roles : ∀ d, (s.rq d).SameRoles (out.rq d)
  others : ∀ p, p ≠ (s.rq c).curr → out.task p = s.task p
  prevSame : ∃ state onRq, out.task (s.rq c).curr =
    { s.task (s.rq c).curr with state := state, onRq := onRq }
  idleSame : (s.task (s.rq c).curr).schedClass = .idle →
    out.task (s.rq c).curr = s.task (s.rq c).curr
  rt : RtOk env out (QueuedRt out.task)

theorem PrevOut.only {c : Cpu} {t : Sched} (out : PrevOut env s c t) :
    PrevOnly s.task t.task (s.rq c).curr :=
  ⟨out.others, out.prevSame, out.idleSame⟩

theorem scheduleOut_spec (sound : Sound env s) (c : Cpu) (preemptActive signalPending : Bool) :
    PrevOut env s c (scheduleOut env s c preemptActive signalPending) := by
  have sameRoles : ∀ d, (s.rq d).SameRoles (s.rq d) := fun _ => ⟨rfl, rfl, rfl⟩
  rcases scheduleOut_cases env s c preemptActive signalPending with same | ⟨wants, awake | asleep⟩
  · rw [same]
    exact ⟨sound.queues, sound.weighed, sameRoles, fun _ _ => rfl, ⟨_, _, rfl⟩, fun _ => rfl,
      sound.rt⟩
  · -- an idle task never has a state other than running
    have notIdle : (s.task (s.rq c).curr).schedClass ≠ .idle := fun isIdle =>
      wants (sound.running.idle_rests _ isIdle).2.1
    have edited : Sound env (s.modifyTask (s.rq c).curr fun task => { task with state := 0 }) :=
      sound.edit _ _ ⟨rfl, rfl, rfl, Or.inr rfl, fun isIdle => absurd isIdle notIdle⟩
        fun _ => ⟨rfl, fun _ => ⟨rfl, rfl⟩⟩
    rw [awake]
    refine ⟨edited.queues, edited.weighed, sameRoles, fun p differs => ?_,
      ⟨0, (s.task (s.rq c).curr).onRq, by simp⟩, fun isIdle => absurd isIdle notIdle, edited.rt⟩
    simp [Function.update_of_ne differs]
  · have notIdle : (s.task (s.rq c).curr).schedClass ≠ .idle := fun isIdle =>
      wants (sound.running.idle_rests _ isIdle).2.1
    have on : (s.task (s.rq c).curr).onRq = true := by
      rcases sound.running.curr_on c with on | isIdle
      · exact on
      · exact absurd (isIdle ▸ (sound.running.idle_class c).1) notIdle
    have home := sound.running.curr_cpu c
    have left := sound.queues.leave _ on notIdle
      { s.task (s.rq c).curr with onRq := false } rfl
    rw [home] at left
    have task : (scheduleOut env s c preemptActive signalPending).task =
        Function.update s.task (s.rq c).curr { s.task (s.rq c).curr with onRq := false } := by
      simp [asleep, deactivateTask_task]
    have rq : (scheduleOut env s c preemptActive signalPending).rq = Function.update s.rq c
        ((s.rq c).taken env.kernel true (s.task (s.rq c).curr) (s.rq c).curr) := by
      simp [asleep, deactivateTask_rq]
    refine ⟨by rwa [task, rq], ?_, fun d => ?_, fun p differs => ?_,
      ⟨(s.task (s.rq c).curr).state, false, by simp [task]⟩, fun isIdle => absurd isIdle notIdle,
      ?_⟩
    · rw [task]
      exact sound.weighed.update _ _ fun on => by simp at on
    · rw [rq]
      exact sameRoles_update (Rq.sameRoles_taken _ _ _ _ _) d
    · simp [task, Function.update_of_ne differs]
    · have gone := leave_rtOk sound.rt (s.rq c).curr
      rw [home] at gone
      rw [asleep]
      exact gone

def pickState (env : Env) (s : Sched) (c : Cpu) (preemptActive signalPending : Bool) : Sched :=
  putPrevTask env (scheduleOut env s c preemptActive signalPending) c (s.rq c).curr

theorem schedule_task (env : Env) (s : Sched) (c : Cpu) (preemptActive signalPending : Bool) :
    (schedule env s c preemptActive signalPending).task =
      switchTasks (scheduleOut env s c preemptActive signalPending).task (s.rq c).curr
        (pickNext env (pickState env s c preemptActive signalPending) c).2 := by
  simp [schedule, contextSwitch_task, pickState]

theorem Sound.ready (sound : Sound env s) (c : Cpu) : Ready env s c :=
  ⟨sound.queues, sound.running.stop_class c, (sound.running.idle_class c).1, sound.rt⟩

theorem pickState_ready (sound : Sound env s) (c : Cpu) (preemptActive signalPending : Bool) :
    Ready env (pickState env s c preemptActive signalPending) c := by
  have out := scheduleOut_spec sound c preemptActive signalPending
  have kept := out.only.place
  constructor
  · simpa [pickState] using out.queues
  · intro p named
    simp only [pickState, putPrevTask_rq, putPrevTask_task] at named ⊢
    rw [(out.roles c).2.2] at named
    rw [(kept p).1, (kept p).2.1]
    exact sound.running.stop_class c p named
  · simp only [pickState, putPrevTask_rq, putPrevTask_task]
    rw [(out.roles c).2.1, (kept _).1]
    exact (sound.running.idle_class c).1
  · rw [pickState, putPrevTask_task]
    exact out.rt.quiet (putPrevTask_rtQuiet env _ c _)

theorem schedule_sound (sound : Sound env s) (c : Cpu) (preemptActive signalPending : Bool) :
    Sound env (schedule env s c preemptActive signalPending) := by
  have out := scheduleOut_spec sound c preemptActive signalPending
  obtain ⟨sameCurr, sameIdle, sameStop⟩ := out.roles c
  have task := schedule_task env s c preemptActive signalPending
  have rq : (schedule env s c preemptActive signalPending).rq =
      Function.update (scheduleOut env s c preemptActive signalPending).rq c
        { (scheduleOut env s c preemptActive signalPending).rq c with
          curr := (pickNext env (pickState env s c preemptActive signalPending) c).2 } := by
    rw [schedule, contextSwitch_rq]
    · simp [pickState]
    · simpa using sameCurr
  have runnable : Runnable (scheduleOut env s c preemptActive signalPending) c
      (pickNext env (pickState env s c preemptActive signalPending) c) := by
    have looked := pickNext_runnable (pickState_ready sound c preemptActive signalPending)
    simpa [Runnable, pickState] using looked
  have switched := switch_queues out.queues out.weighed c (s.rq c).curr
    (pickNext env (pickState env s c preemptActive signalPending) c).2
  -- the switch writes `curr` and `on_cpu` alone, which no queue or counter depends on
  refine ⟨?_, ?_, ?_, ?_⟩
  · rw [task, rq]
    exact switched.1
  · rw [task]
    exact switched.2
  · rw [task, rq]
    have run := sound.running.roles out.roles
    rw [← sameCurr]
    apply switch_running c _ run
    · rw [sameCurr]
      exact out.only
    · rcases runnable with isIdle | ⟨-, here, -⟩
      · rw [isIdle, (out.only.place _).2.1]
        exact (run.idle_class c).2
      · exact here
    · rcases runnable with isIdle | ⟨on, -, -⟩
      · exact Or.inr (by rw [isIdle])
      · exact Or.inl on
  · have ready := (pickState_ready sound c preemptActive signalPending).rt
    have same := switchTasks_same (scheduleOut env s c preemptActive signalPending).task
      (s.rq c).curr (pickNext env (pickState env s c preemptActive signalPending) c).2
    rw [task]
    refine (ready.edit ?_ fun d q _ => ?_).congr fun d q => ?_
    · simp [schedule, pickState]
    · rw [task, same, pickState, putPrevTask_task]
      exact ⟨rfl, rfl, rfl⟩
    · rw [QueuedRt, QueuedRt, same, pickState, putPrevTask_task]

end Schedule

section Operations
variable {env : Env} {s : Sched}

theorem Sound.curr_queued (sound : Sound env s) (c : Cpu)
    (isWrr : (rqCurr s c).schedClass = .wrr) : (s.rq c).curr ∈ (s.rq c).wrr.queue := by
  refine ((sound.queues c).wrr.lists.mem_iff _).mpr ((has_entries _ _ _ _).mpr ⟨?_, ?_, isWrr⟩)
  · rcases sound.running.curr_on c with on | isIdle
    · exact on
    · rw [rqCurr, isIdle, (sound.running.idle_class c).1] at isWrr
      cases isWrr
  · exact sound.running.curr_cpu c

theorem checkPreemptCurr_sound (sound : Sound env s) (c : Cpu) (p : Pid) :
    Sound env (checkPreemptCurr env s c p) :=
  sound.quiet (checkPreemptCurr_quiet env s c p)

theorem ttwuDoWakeup_sound (sound : Sound env s) (c : Cpu) (p : Pid)
    (busy : (s.task p).schedClass ≠ .idle) : Sound env (ttwuDoWakeup env s c p) := by
  refine (checkPreemptCurr_sound sound c p).edit p _ ?_ fun _ => ⟨rfl, fun _ => ⟨rfl, rfl⟩⟩
  refine ⟨rfl, rfl, rfl, Or.inr rfl, fun isIdle => absurd isIdle ?_⟩
  rwa [checkPreemptCurr_task]

theorem ttwuActivate_task (env : Env) (s : Sched) (c : Cpu) (p : Pid) :
    (ttwuActivate env s c p).task = Function.update s.task p
      { enqueuedTask env (s.task p) with onRq := true } := by
  simp [ttwuActivate, activateTask_task]

theorem ttwuDoActivate_sound (sound : Sound env s) (p : Pid) (off : (s.task p).onRq = false)
    (busy : (s.task p).schedClass ≠ .idle) :
    Sound env (ttwuDoActivate env s (s.task p).cpu p) := by
  refine ttwuDoWakeup_sound (ttwuActivate_sound sound p off busy) _ p ?_
  rw [ttwuActivate_task, Function.update_self]
  simpa using (enqueuedTask_ticked env (s.task p)).schedClass ▸ busy

theorem ttwuPlace_sound (sound : Sound env s) (p : Pid) (dest : Cpu)
    (off : (s.task p).onRq = false) (busy : (s.task p).schedClass ≠ .idle)
    (stopHome : (s.task p).schedClass = .stop → dest = (s.task p).cpu) :
    Sound env (ttwuPlace env s p dest) := by
  have idles := sound.running.not_current p off busy (s.task p).cpu
  have placed (f : TaskStruct → TaskStruct) (off' : (f (s.task p)).onRq = false)
      (onCpu : (f (s.task p)).onCpu = (s.task p).onCpu)
      (cls : (f (s.task p)).schedClass = (s.task p).schedClass)
      (cpu : (s.task p).schedClass = .stop → (f (s.task p)).cpu = (s.task p).cpu) :
      Sound env (s.modifyTask p f) := by
    refine sound.place p f off off' busy (onCpu.trans (sound.offCpu p idles)) ?_
    by_cases isStop : (s.task p).schedClass = .stop
    · exact Or.inr ⟨cls, cpu isStop⟩
    · refine Or.inl ⟨⟨busy, isStop⟩, ?_⟩
      rw [Ordinary, cls]
      exact ⟨busy, isStop⟩
  rcases ttwuPlace_cases env s p dest with same | same | same <;> rw [same]
  · exact sound
  · exact placed _ off rfl rfl fun _ => rfl
  · exact placed _ off rfl rfl stopHome

theorem ttwuPlace_task_self (env : Env) (s : Sched) (p : Pid) (dest : Cpu) :
    ((ttwuPlace env s p dest).task p).onRq = (s.task p).onRq ∧
      ((ttwuPlace env s p dest).task p).schedClass = (s.task p).schedClass := by
  rcases ttwuPlace_cases env s p dest with same | same | same <;> rw [same] <;> simp

theorem tryToWakeUp_sound (sound : Sound env s) (p : Pid) (mask : Nat) (dest : Cpu)
    (busy : (s.task p).schedClass ≠ .idle)
    (stopHome : (s.task p).schedClass = .stop → dest = (s.task p).cpu) :
    Sound env (tryToWakeUp env s p mask dest) := by
  simp only [tryToWakeUp]
  split_ifs with unmatched on
  · exact sound
  · exact ttwuDoWakeup_sound sound _ p busy
  · have off : (s.task p).onRq = false := by simpa using on
    have same := ttwuPlace_task_self env s p dest
    exact ttwuDoActivate_sound (ttwuPlace_sound sound p dest off busy stopHome) p
      (same.1.trans off) (same.2 ▸ busy)

theorem schedFork_off (kernel : Kernel) (current : TaskStruct) :
    (schedFork kernel current).onRq = false ∧ (schedFork kernel current).onCpu = false := by
  cases kernel <;> simp only [schedFork, schedForkGoldfish, schedForkTegra] <;>
    split_ifs <;> exact ⟨rfl, rfl⟩

theorem schedFork_ordinary (kernel : Kernel) (current : TaskStruct)
    (ordinary : Ordinary current) : Ordinary (schedFork kernel current) := by
  obtain ⟨notIdle, notStop⟩ := ordinary
  cases kernel <;> simp only [schedFork, schedForkGoldfish, schedForkTegra] <;>
    split_ifs <;> simp [Ordinary, notIdle, notStop]

theorem forkTask_sound (sound : Sound env s) (c : Cpu) (child : Pid)
    (parent : Ordinary (rqCurr s c)) (ordinary : Ordinary (s.task child))
    (off : (s.task child).onRq = false) : Sound env (forkTask env s c child) := by
  have born := schedFork_off env.kernel (rqCurr s c)
  have copied := schedFork_ordinary env.kernel _ parent
  have placed : Sound env (s.modifyTask child fun _ =>
      if env.smp then (schedFork env.kernel (rqCurr s c)).setCpu env c
      else { schedFork env.kernel (rqCurr s c) with cpu := c }) := by
    apply sound.place child _ off _ ordinary.1
    all_goals split_ifs
    · exact born.2
    · exact born.2
    · exact Or.inl ⟨ordinary, copied⟩
    · exact Or.inl ⟨ordinary, copied⟩
    · exact born.1
    · exact born.1
  exact placed.of_eq rfl rfl rfl

structure Placed (env : Env) (before after : TaskStruct) : Prop where
  onRq : after.onRq = before.onRq
  onCpu : after.onCpu = before.onCpu
  state : after.state = before.state
  policy : after.policy = before.policy
  schedClass : after.schedClass = before.schedClass
  prio : after.prio = before.prio
  staticPrio : after.staticPrio = before.staticPrio
  normalPrio : after.normalPrio = before.normalPrio
  rtPriority : after.rtPriority = before.rtPriority
  slice : before.SliceKept env after

theorem placeNewTask_effect (env : Env) (s : Sched) (p : Pid) (dest : Cpu) :
    ∃ new, (placeNewTask env s p dest).task = Function.update s.task p new ∧
      (placeNewTask env s p dest).rq = s.rq ∧ (placeNewTask env s p dest).rt = s.rt ∧
      Placed env (s.task p) new := by
  have moved : Placed env (s.task p) ((s.task p).setCpu env dest) :=
    ⟨rfl, rfl, rfl, rfl, rfl, rfl, rfl, rfl, rfl, fun _ => id⟩
  simp only [placeNewTask, setTaskCpu]
  split_ifs
  · exact ⟨weighNew env ((s.task p).setCpu env dest), by simp, rfl, rfl,
      ⟨rfl, rfl, rfl, rfl, rfl, rfl, rfl, rfl, rfl, fun hz _ => pathTimeslice_pos hz _⟩⟩
  · exact ⟨(s.task p).setCpu env dest, rfl, rfl, rfl, moved⟩
  · exact ⟨weighNew env (s.task p), rfl, rfl, rfl,
      ⟨rfl, rfl, rfl, rfl, rfl, rfl, rfl, rfl, rfl, fun hz _ => pathTimeslice_pos hz _⟩⟩
  · exact ⟨s.task p, (Function.update_eq_self p s.task).symm, rfl, rfl,
      ⟨rfl, rfl, rfl, rfl, rfl, rfl, rfl, rfl, rfl, fun _ => id⟩⟩

theorem placeNewTask_sound (sound : Sound env s) (p : Pid) (dest : Cpu)
    (ordinary : Ordinary (s.task p)) (off : (s.task p).onRq = false) :
    Sound env (placeNewTask env s p dest) := by
  obtain ⟨new, task, rq, rt, fields⟩ := placeNewTask_effect env s p dest
  have idles := sound.running.not_current p off ordinary.1 (s.task p).cpu
  have placed : Sound env (s.modifyTask p fun _ => new) := by
    refine sound.place p _ off (fields.onRq.trans off) ordinary.1
      (fields.onCpu.trans (sound.offCpu p idles)) (Or.inl ⟨ordinary, ?_⟩)
    rw [Ordinary, fields.schedClass]
    exact ordinary
  exact placed.of_eq task rq rt

theorem placeNewTask_self (env : Env) (s : Sched) (p : Pid) (dest : Cpu) :
    Placed env (s.task p) ((placeNewTask env s p dest).task p) := by
  obtain ⟨new, task, -, -, fields⟩ := placeNewTask_effect env s p dest
  rwa [task, Function.update_self]

theorem wakeUpNewTask_sound (sound : Sound env s) (p : Pid) (dest : Cpu)
    (ordinary : Ordinary (s.task p)) (off : (s.task p).onRq = false) :
    Sound env (wakeUpNewTask env s p dest) := by
  have placed := placeNewTask_sound sound p dest ordinary off
  have fields := placeNewTask_self env s p dest
  refine checkPreemptCurr_sound (ttwuActivate_sound placed p (fields.onRq.trans off) ?_) _ p
  rw [fields.schedClass]
  exact ordinary.1

theorem migrateTask_sound (sound : Sound env s) (p : Pid) (src dest : Cpu)
    (ordinary : Ordinary (s.task p)) (idles : (s.rq (s.task p).cpu).curr ≠ p) :
    Sound env (migrateTask env s p src dest).1 := by
  have here : (s.task p).cpu = src → (s.task p).onRq = true →
      Sound env (checkPreemptCurr env (moveQueued env s p src dest) dest p) := by
    rintro rfl on
    exact checkPreemptCurr_sound (moveQueued_sound sound p dest on ordinary idles) dest p
  simp only [migrateTask]
  split
  · exact sound
  · split
    · exact sound
    · rename_i home
      split
      · exact sound
      · split
        · rename_i on
          exact here (by simpa using home) on
        · exact sound

theorem pullSource_spec {dest src : Cpu} {p : Pid}
    (found : pullSource env s dest = some (src, p)) :
    src ≠ dest ∧ p ∈ (s.rq src).wrr.queue ∧ pullable env s src dest p = true := by
  obtain ⟨cpu, scanned, offered⟩ := List.exists_of_findSome?_eq_some found
  obtain ⟨q, taken, same⟩ := Option.map_eq_some_iff.mp offered
  obtain ⟨rfl, rfl⟩ := Prod.mk.injEq .. ▸ same
  have other := (List.mem_filter.mp scanned).2
  exact ⟨(of_decide_eq_true other).2, List.mem_of_find?_eq_some taken, List.find?_some taken⟩

theorem pullable_idles (sound : Sound env s) (smp : env.smp = true) {src dest : Cpu} {p : Pid}
    (takes : pullable env s src dest p = true) : (s.rq (s.task p).cpu).curr ≠ p := by
  intro current
  have onCpu := (sound.running.on_cpu p).mpr current
  simp [pullable, taskRunning, smp, onCpu] at takes

theorem pullWrrTask_sound (sound : Sound env s) (smp : env.smp = true) (dest : Cpu) :
    Sound env (pullWrrTask env s dest) := by
  simp only [pullWrrTask]
  split
  · exact sound
  · split
    · exact sound
    · rename_i src p found
      obtain ⟨-, member, takes⟩ := pullSource_spec found
      obtain ⟨on, home, isWrr⟩ :=
        (has_entries _ _ _ _).mp (((sound.queues src).wrr.lists.mem_iff p).mp member)
      have isWrr' : (s.task p).schedClass = .wrr := isWrr
      have ordinary : Ordinary (s.task p) := by simp [Ordinary, isWrr']
      have idles := pullable_idles sound smp takes
      subst home
      exact checkPreemptCurr_sound (moveQueued_sound sound p dest on ordinary idles) dest p

theorem schedulerTick_sound (sound : Sound env s) (c : Cpu) :
    Sound env (schedulerTick env s c) := by
  have ticked := sound.quiet (tickLocked_quiet env s c)
  simp only [schedulerTick]
  split
  · rename_i pulls
    exact pullWrrTask_sound ticked (by simpa using pulls.1) c
  · exact ticked

theorem classFor_ordinary (policy : Policy) (prio : Int) (task : TaskStruct)
    (chosen : task.schedClass = classFor policy prio) : Ordinary task := by
  rw [Ordinary, chosen, classFor]
  split_ifs <;> simp

theorem setscheduler_keeps (waiter : Option Nat) (policy : Policy) (prio : Nat) (reset : Bool)
    (task : TaskStruct) (ordinary : Ordinary task) :
    Keeps task (setscheduler waiter policy prio { task with schedResetOnFork := reset }) :=
  ⟨rfl, rfl, rfl, Or.inl ⟨ordinary, classFor_ordinary _ _ _ rfl⟩, fun _ => rfl⟩

theorem checkClassChanged_sound (sound : Sound env s) (c : Cpu) (p : Pid)
    (prevClass : SchedClass) (oldprio : Int) :
    Sound env (checkClassChanged env s c p prevClass oldprio) :=
  sound.quiet (checkClassChanged_quiet env s c p prevClass oldprio)

theorem setschedulerApply_sound (sound : Sound env s) (p : Pid) (policy : Policy) (prio : Nat)
    (reset : Bool) (waiter : Option Nat) (ordinary : Ordinary (s.task p)) :
    Sound env (setschedulerApply env s p policy prio reset waiter) :=
  checkClassChanged_sound (requeueAround_sound sound p ordinary.1 _
    (setscheduler_keeps waiter policy prio reset _ ordinary) _ _) _ p _ _

/-- The stop task of a CPU is refused, so whoever is changed is ordinary. -/
theorem PassApplies.ordinary {p : Pid} {request : Request} {prio : Int} {user : Bool}
    (applies : PassApplies env s p request prio user) (sound : Sound env s)
    (busy : (s.task p).schedClass ≠ .idle) : Ordinary (s.task p) :=
  ⟨busy, fun isStop => applies.not_stop (sound.running.stop_unique p isStop)⟩

theorem setschedulerPass_sound (sound : Sound env s) (caller : Caller) (p : Pid)
    (seen : TaskStruct) (policy prio : Int) (user : Bool) (waiter : Option Nat)
    (busy : (s.task p).schedClass ≠ .idle) {code : Int} {next : Sched}
    (done : setschedulerPass env s caller p seen policy prio user waiter = .ret code next) :
    Sound env next := by
  rcases setschedulerPass_cases done with rfl | ⟨request, -, -, applies, rfl⟩
  · exact sound
  · exact setschedulerApply_sound sound p _ _ _ waiter (applies.ordinary sound busy)

theorem rtMutexSetprio_sound (sound : Sound env s) (p : Pid) (prio : Int)
    (ordinary : Ordinary (s.task p)) : Sound env (rtMutexSetprio env s p prio) := by
  simp only [rtMutexSetprio]
  split
  · exact sound
  · exact checkClassChanged_sound (requeueAround_sound sound p ordinary.1 _
      ⟨rfl, rfl, rfl, Or.inl ⟨ordinary, classFor_ordinary _ _ _ rfl⟩, fun _ => rfl⟩ _ _) _ p _ _

theorem schedMoveTask_sound (sound : Sound env s) (p : Pid) (ordinary : Ordinary (s.task p)) :
    Sound env (schedMoveTask env s p) := by
  refine requeueAround_sound sound p ordinary.1 _ ?_ _ _
  simp only [schedMoveGroup]
  split <;> exact ⟨rfl, rfl, rfl, Or.inr rfl, fun _ => rfl⟩

theorem setUserNice_sound (sound : Sound env s) (p : Pid) (nice : Int)
    (ordinary : Ordinary (s.task p)) : Sound env (setUserNice env s p nice) := by
  let edited : TaskStruct := effectivePrio { s.task p with staticPrio := niceToPrio nice }
  have keeps : Keeps (s.task p) edited := ⟨rfl, rfl, rfl, Or.inr rfl, fun _ => rfl⟩
  simp only [setUserNice]
  split
  · exact sound
  · split
    · exact sound.edit p _ ⟨rfl, rfl, rfl, Or.inr rfl, fun _ => rfl⟩ fun _ =>
        ⟨rfl, fun _ => ⟨rfl, rfl⟩⟩
    · cases on : (s.task p).onRq with
      | false =>
          simp only [Bool.false_eq_true, if_false]
          exact sound.edit p _ keeps fun queued => by simp [on] at queued
      | true =>
          simp only [if_true]
          have back : Sound env (enqueueTask env
              ((dequeueTask env s (s.task p).cpu p).modifyTask p fun task =>
                effectivePrio { task with staticPrio := niceToPrio nice })
              (s.task p).cpu p false) := by
            refine sound.requeue p on ordinary.1 edited keeps false false ?_ ?_
              (requeue_rtOk sound.rt on _ rfl rfl false false)
            · simp [enqueueTask_task, edited]
            · simp [enqueueTask_rq, dequeueTask_rq, Rq.taken, Rq.put, edited]
          split
          · exact back.of_eq rfl rfl rfl
          · exact back

theorem normalizeTask_sound (sound : Sound env s) (p : Pid) (waiter : Option Nat)
    (ordinary : Ordinary (s.task p)) : Sound env (normalizeTask env s p waiter) := by
  let changed := setscheduler waiter .normal 0 (s.task p)
  have keeps : Keeps (s.task p) changed :=
    setscheduler_keeps waiter .normal 0 (s.task p).schedResetOnFork _ ordinary
  have task := normalizeAround_task env s p waiter
  have rq := normalizeAround_rq env s p waiter
  rw [normalizeTask_eq]
  refine checkClassChanged_sound ?_ _ p _ _
  by_cases on : (s.task p).onRq = true
  · rw [if_pos on] at task rq
    refine sound.requeue p on ordinary.1 changed keeps true false task rq ?_
    simp only [normalizeAround, if_pos on]
    exact (requeue_rtOk sound.rt on (setscheduler waiter .normal 0) rfl rfl true false).of_eq
      rfl rfl
  · rw [if_neg on] at task rq
    have rt : (normalizeAround env s p waiter).rt = s.rt := by simp [normalizeAround, on]
    exact (sound.edit p _ keeps fun queued => absurd queued on).of_eq task rq rt

theorem normalizeRtTask_sound (sound : Sound env s) (p : Pid) (waiter : Option Nat)
    (ordinary : Ordinary (s.task p)) : Sound env (normalizeRtTask env s p waiter) := by
  have stamped : Sound env (s.modifySe p fun se => { se with execStart := 0 }) :=
    sound.of_eq rfl rfl rfl
  simp only [normalizeRtTask]
  split
  · exact sound
  · split
    · split
      · exact setUserNice_sound stamped p 0 ordinary
      · exact stamped
    · exact normalizeTask_sound stamped p waiter ordinary

theorem doSetCpusAllowed_sound (sound : Sound env s) (p : Pid) (mask : Cpumask) :
    Sound env (doSetCpusAllowed env s p mask) := by
  have copies : Sound env (s.modifyTask p (copyCpusAllowed mask)) :=
    sound.edit p _ ⟨rfl, rfl, rfl, Or.inr rfl, fun _ => rfl⟩ fun _ =>
      ⟨rfl, fun _ => ⟨rfl, rfl⟩⟩
  simp only [doSetCpusAllowed]
  split
  · exact sound.edit p _ ⟨rfl, rfl, rfl, Or.inr rfl, fun _ => rfl⟩ fun _ =>
      ⟨rfl, fun _ => ⟨rfl, rfl⟩⟩
  · exact sound
  · exact copies

theorem apply_sound (sound : Sound env s) (op : Op) (allowed : Allowed env s op) :
    Sound env (apply env s op) := by
  cases op with
  | fork c child =>
      obtain ⟨parent, ordinary, off⟩ := allowed
      exact forkTask_sound sound c child parent ordinary (by simpa using off)
  | wakeUpNewTask p dest =>
      exact wakeUpNewTask_sound sound p dest allowed.1 (by simpa using allowed.2)
  | tryToWakeUp p mask dest => exact tryToWakeUp_sound sound p mask dest allowed.1 allowed.2
  | ttwuQueueRemote p dest =>
      obtain ⟨-, ordinary, off⟩ := allowed
      exact ttwuPlace_sound sound p dest (by simpa using off) ordinary.1
        fun isStop => absurd isStop ordinary.2
  | schedTtwuPending p =>
      obtain ⟨ordinary, off, -⟩ := allowed
      exact ttwuDoActivate_sound sound p (by simpa using off) ordinary.1
  | setCurrentState c state =>
      exact sound.edit (s.rq c).curr (fun task => { task with state := state })
        ⟨rfl, rfl, rfl, Or.inr rfl, fun isIdle => absurd isIdle allowed⟩
        fun _ => ⟨rfl, fun _ => ⟨rfl, rfl⟩⟩
  | schedule c preemptActive signalPending =>
      exact schedule_sound sound c preemptActive signalPending
  | schedulerTick c => exact schedulerTick_sound sound c
  | schedYield c => exact sound.quiet (schedYield_quiet env s c (sound.curr_queued c))
  | setscheduler caller p seen policy prio user waiter =>
      simp only [apply]
      split
      · rename_i done
        exact setschedulerPass_sound sound caller p seen policy prio user waiter allowed done
      · exact sound
  | rtMutexSetprio p waiter => exact rtMutexSetprio_sound sound p _ allowed
  | setUserNice p nice => exact setUserNice_sound sound p nice allowed
  | cgroupAttach p group =>
      exact sound.edit p (fun task => { task with cpuCgroup := group })
        ⟨rfl, rfl, rfl, Or.inr rfl, fun _ => rfl⟩ fun _ =>
        ⟨rfl, fun goldfish => ⟨rfl, by simp [taskGroup, goldfish]⟩⟩
  | schedMoveTask p => exact schedMoveTask_sound sound p allowed
  | migrateTask p src dest => exact migrateTask_sound sound p src dest allowed.2.1 allowed.2.2
  | pushTask p dest =>
      obtain ⟨-, ordinary, on, idles, -⟩ := allowed
      exact (moveQueued_sound sound p dest on ordinary idles).of_eq rfl rfl rfl
  | pullWrrTask dest => exact pullWrrTask_sound sound allowed dest
  -- throttling is a flag of the runqueue; the queued tasks stay queued
  | rtPeriodTimer g c overrun =>
      exact sound.quiet (.of_rt (by simp [apply]) (by simp [apply])
        (doSchedRtPeriodTimer_rtQuiet env s c g overrun))
  | balanceRuntime g c runtime => exact sound.of_eq rfl rfl rfl
  | normalizeRtTask p waiter => exact normalizeRtTask_sound sound p waiter allowed
  | setCpusAllowed p mask => exact doSetCpusAllowed_sound sound p mask

theorem step_sound {next : Sched} {op : Op} (sound : Sound env s)
    (moved : step env s op = some next) : Sound env next := by
  obtain ⟨allowed, rfl⟩ := step_some moved
  exact apply_sound sound op allowed

end Operations

theorem init_sound (env : Env) {s : Sched} (init : Init s) : Sound env s := by
  -- no task is on a runqueue, so every list is empty and every counter zero
  have nothing : ∀ c (test : Entry → Prop) p, ¬ Has (entries s.task c) test p := fun c test p =>
    has_none p (entries_absent (Or.inl (init.asleep p)))
  refine ⟨fun c => ?_, fun _ p on => ?_, ?_, fun c => ⟨?_, fun p => ?_⟩⟩
  · obtain ⟨running, cfs, wrr, -⟩ := init.empty c
    refine ⟨⟨?_, ?_, fun _ => ?_⟩, ⟨?_, ?_⟩, 0, ?_, ?_⟩
    · rw [wrr]
      exact ⟨List.nodup_nil, fun p => by simp [initWrrRq, nothing]⟩
    · rw [wrr]
      rfl
    · rw [wrr]
      rfl
    · rw [cfs]
      exact ⟨List.nodup_nil, fun p => by simp [nothing]⟩
    · rw [cfs]
      rfl
    · exact RunList.Counts.none _ (nothing c _)
    · rw [running, wrr]
      cases env.kernel <;> rfl
  · simp [init.asleep p] at on
  · refine ⟨fun c => ?_, fun c => Or.inr (init.empty c).2.2.2, init.on_cpu,
      fun c => ⟨(init.idle_class c).1, (init.idle_class c).2.1⟩, fun p isIdle => ?_,
      init.stop_class, init.stop_unique⟩
    · rw [(init.empty c).2.2.2]
      exact (init.idle_class c).2.1
    · have named := init.idle_unique p isIdle
      refine ⟨named, ?_, init.asleep p⟩
      have rests := (init.idle_class (s.task p).cpu).2.2
      rwa [named] at rests
  · obtain ⟨rq, off, leaf⟩ := init.rt_empty c
    exact RtGroups.empty_sound (s.rtState c) rq off leaf False.elim
  · rw [(init.rt_empty c).onRtRq]
    refine iff_of_false Bool.false_ne_true fun queued => ?_
    exact Bool.false_ne_true ((init.asleep p).symm.trans queued.1)

/-- Every state that the operations reach is sound, whatever they were. -/
theorem reachable_sound {env : Env} {ok : Sched → Op → Prop} {s : Sched}
    (reached : Reachable env ok s) : Sound env s := by
  obtain ⟨start, ops, init, run⟩ := reached
  exact run.invariant (fun _ _ _ sound _ moved => step_sound sound moved) (init_sound env init)

end AndroidKernel
