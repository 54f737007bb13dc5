import AndroidKernel.Effects

/-!
Two columns that only grow between calls of `__schedule`: a need-resched flag
that is set stays set, and a throttled RT runqueue stays throttled until its
period timer. One lemma a function, and then what the class-change hooks set.
-/

namespace AndroidKernel

def rtThrottled (s : Sched) (c : Cpu) (g : Group) : Bool := ((s.rt c).rq g).rtThrottled

structure FlagsKept (before after : Sched) : Prop where
  flag : ∀ p, before.needResched p = true → after.needResched p = true
  throttled : ∀ c g, rtThrottled before c g = true → rtThrottled after c g = true

section Kept
variable {s next last : Sched}

theorem FlagsKept.refl (s : Sched) : FlagsKept s s := ⟨fun _ => id, fun _ _ => id⟩

theorem FlagsKept.trans (one : FlagsKept s next) (two : FlagsKept next last) :
    FlagsKept s last :=
  ⟨fun p set => two.flag p (one.flag p set),
    fun c g was => two.throttled c g (one.throttled c g was)⟩

theorem rtThrottled_of_eq (rt : next.rt = s.rt) (c : Cpu) :
    rtThrottled next c = rtThrottled s c := by
  funext g
  rw [rtThrottled, rtThrottled, rt]

theorem FlagsKept.of_eq (flags : next.needResched = s.needResched) (rt : next.rt = s.rt) :
    FlagsKept s next :=
  ⟨fun _ => flags ▸ id, fun c _ => rtThrottled_of_eq rt c ▸ id⟩

theorem FlagsKept.resched (s : Sched) (p : Pid) : FlagsKept s (reschedTask s p) := by
  refine ⟨fun q set => ?_, fun _ _ => id⟩
  by_cases same : q = p
  · subst same
    simp
  · simpa [Function.update_of_ne same] using set

theorem FlagsKept.modifyRt (s : Sched) (c : Cpu)
    (f : RtGroups.State Group → RtGroups.State Group)
    (keeps : ∀ g, rtThrottled s c g = true → ((f (s.rtState c)).rq g).rtThrottled = true) :
    FlagsKept s (s.modifyRt c f) := by
  refine ⟨fun _ => id, fun d g was => ?_⟩
  by_cases here : d = c
  · subst here
    simpa [rtThrottled, RtQueues.ofState] using keeps g was
  · simpa [rtThrottled, Function.update_of_ne here] using was

theorem FlagsKept.shuffle (s : Sched) (c : Cpu)
    (f : RtGroups.State Group → RtGroups.State Group)
    (shuffled : RtGroups.Shuffled (s.rtState c) (f (s.rtState c))) :
    FlagsKept s (s.modifyRt c f) :=
  .modifyRt s c f fun g was => (shuffled.throttled g).trans was

end Kept

section Hooks
variable (env : Env) (s : Sched) (c : Cpu) (p : Pid)

theorem schedRtRuntimeExceeded_flagsKept (g : Group) :
    FlagsKept s (schedRtRuntimeExceeded env s c g).1 := by
  simp only [schedRtRuntimeExceeded]
  split_ifs
  · exact .refl s
  · exact .refl s
  · exact .refl s
  · exact .modifyRt s c (fun rt => RtGroups.throttle env.groups rt g) fun _ was =>
      RtGroups.throttle_throttled env.groups _ g was
  · exact .of_eq rfl rfl
  · exact .refl s

theorem rtCharge_flagsKept (delta : Nat) (g : Group) :
    FlagsKept s (rtCharge env c delta s g) := by
  have charged : FlagsKept s (s.modifyRtTime c g fun time =>
      { time with rtTime := time.rtTime + delta }) := .of_eq rfl rfl
  have exceeded := charged.trans (schedRtRuntimeExceeded_flagsKept env _ c g)
  simp only [rtCharge]
  split_ifs
  · exact .refl s
  · exact exceeded.trans (.resched _ _)
  · exact exceeded

theorem rtCharges_flagsKept (delta : Nat) (groups : List Group) :
    FlagsKept s (groups.foldl (rtCharge env c delta) s) := by
  induction groups generalizing s with
  | nil => exact .refl s
  | cons g rest ih => exact (rtCharge_flagsKept env s c delta g).trans (ih _)

theorem updateCurrRt_flagsKept : FlagsKept s (updateCurrRt env s c) := by
  have stamped (f : SchedEntity → SchedEntity) : FlagsKept s (s.modifySe (s.rq c).curr f) :=
    .of_eq rfl rfl
  simp only [updateCurrRt]
  split_ifs
  · exact (stamped _).trans (rtCharges_flagsKept env _ c _ _)
  · exact stamped _
  · exact .refl s

theorem takeOff_flagsKept (wrapped : Bool) : FlagsKept s (takeOff env s c p wrapped) := by
  have clocked : FlagsKept s (updateRqClock env s c) := .of_eq rfl rfl
  have bare : FlagsKept s (dequeueTask env s c p) := by
    simp only [dequeueTask]
    split
    · exact .of_eq rfl rfl
    · have charged := clocked.trans (updateCurrRt_flagsKept env _ c)
      have shuffled := FlagsKept.shuffle (updateCurrRt env (updateRqClock env s c) c) c
        (fun rt => RtGroups.dequeueRtEntity env.groups rt (.task p))
        (RtGroups.dequeueRtEntity_shuffled env.groups _ (.task p))
      exact (charged.trans shuffled).trans (.of_eq rfl rfl)
    · exact .of_eq (by simp [dequeueTaskWrr, dequeueWrrEntity])
        (by simp [dequeueTaskWrr, dequeueWrrEntity])
    · exact .of_eq (by simp [dequeueTaskFair]) (by simp [dequeueTaskFair])
    · exact .of_eq rfl rfl
  cases wrapped with
  | false => exact bare
  | true => exact bare.trans (.of_eq rfl rfl)

theorem putOn_flagsKept (wrapped head : Bool) :
    FlagsKept s (putOn env s c p wrapped head) := by
  have clocked : FlagsKept s (updateRqClock env s c) := .of_eq rfl rfl
  have bare : FlagsKept s (enqueueTask env s c p head) := by
    simp only [enqueueTask]
    split
    · exact .of_eq rfl rfl
    · have shuffled := FlagsKept.shuffle (updateRqClock env s c) c
        (fun rt => RtGroups.enqueueRtEntity env.groups rt (.task p) head)
        (RtGroups.enqueueRtEntity_shuffled env.groups _ (.task p) head)
      exact (clocked.trans shuffled).trans (.of_eq rfl rfl)
    · exact .of_eq rfl rfl
    · exact .of_eq (by simp [enqueueTaskFair]) (by simp [enqueueTaskFair])
    · exact .of_eq rfl rfl
  cases wrapped with
  | false => exact bare
  | true => exact bare.trans (.of_eq rfl rfl)

theorem classPutPrev_flagsKept : FlagsKept s (classPutPrev env s c p) := by
  simp only [classPutPrev]
  split
  · exact .refl s
  · simp only [putPrevTaskRt]
    split
    · exact updateCurrRt_flagsKept env s c
    · exact (updateCurrRt_flagsKept env s c).trans (.of_eq rfl rfl)
  · exact .of_eq (by simp [putPrevTaskWrr]) (by simp [putPrevTaskWrr])
  · split
    · exact .of_eq (by simp) (by simp)
    · exact .refl s
  · exact .refl s

theorem setCurrTask_flagsKept : FlagsKept s (setCurrTask env s c) := by
  simp only [setCurrTask]
  split
  · exact .refl s
  · exact .of_eq rfl rfl
  · exact .of_eq rfl rfl
  · exact .of_eq (by simp) (by simp)
  · exact .refl s

theorem requeueAround_flagsKept (wrapped head : Bool) (change : TaskStruct → TaskStruct) :
    FlagsKept s (requeueAround env s c p wrapped change head) := by
  have changed : ∀ t : Sched, FlagsKept t (t.modifyTask p change) := fun _ => .of_eq rfl rfl
  -- put, change and set, in any state
  have set : ∀ t : Sched,
      FlagsKept t (setCurrTask env ((classPutPrev env t c p).modifyTask p change) c) := fun t =>
    ((classPutPrev_flagsKept env t c p).trans (changed _)).trans (setCurrTask_flagsKept env _ c)
  have off := takeOff_flagsKept env s c p wrapped
  have back : ∀ t, FlagsKept t (putOn env t c p wrapped head) := fun t =>
    putOn_flagsKept env t c p wrapped head
  rw [requeueAround_eq]
  dsimp only
  split_ifs
  · exact (off.trans (set _)).trans (back _)
  · exact (off.trans (changed _)).trans (back _)
  · exact set s
  · exact changed s

theorem requeueTaskRt_flagsKept (head : Bool) : FlagsKept s (requeueTaskRt env s c p head) :=
  .shuffle s c (fun rt => RtGroups.requeueTaskRt env.groups rt p head)
    (RtGroups.requeueTaskRt_shuffled env.groups _ p head)

theorem checkPreemptCurr_flagsKept : FlagsKept s (checkPreemptCurr env s c p) := by
  have requeued := requeueTaskRt_flagsKept env s c p true
  simp only [checkPreemptCurr, checkPreemptCurrRt, checkPreemptEqualPrio, checkPreemptCurrWrr]
  split_ifs <;> (try split) <;>
    first
    | exact .refl s
    | exact .resched s _
    | exact requeued.trans (.resched _ _)

theorem checkPreemptCurr_flags
    (before : (s.task p).schedClass.precedes (rqCurr s c).schedClass) :
    (checkPreemptCurr env s c p).needResched (s.rq c).curr = true := by
  have differs : (s.task p).schedClass ≠ (s.task (s.rq c).curr).schedClass := by
    intro same
    rw [rqCurr, ← same] at before
    exact absurd before (Nat.lt_irrefl _)
  have walk : preemptWalk (s.task (s.rq c).curr).schedClass (s.task p).schedClass
      forEachClass = true := (preemptWalk_iff _ _).mpr before
  rw [checkPreemptCurr, if_neg differs, if_pos walk]
  simp

theorem checkClassChanged_flagsKept (prevClass : SchedClass) (oldprio : Int) :
    FlagsKept s (checkClassChanged env s c p prevClass oldprio) := by
  have wrr : FlagsKept s (switchedToWrr env s c p) := by
    simp only [switchedToWrr]
    split
    · split
      · exact (FlagsKept.resched s _).trans (.of_eq rfl rfl)
      · exact .of_eq rfl rfl
    · exact .refl s
  simp only [checkClassChanged, switchedTo, switchedToRt, prioChanged, prioChangedRt,
    prioChangedWrr]
  split_ifs <;> (try split) <;>
    first
    | exact .refl s
    | exact .resched s _
    | exact wrr
    | exact checkPreemptCurr_flagsKept env s c p

end Hooks

section Changes
variable {env : Env} {s : Sched} {c : Cpu} {p : Pid} {prevClass : SchedClass} {oldprio : Int}

/-- A task that turned RT, or stayed RT with another priority, is compared with
the current one by priority. -/
theorem checkClassChanged_flags_rt (isRt : (s.task p).schedClass = .rt)
    (on : (s.task p).onRq = true) (other : (s.rq c).curr ≠ p)
    (low : (s.task p).prio < (rqCurr s c).prio)
    (seen : prevClass ≠ .rt ∨ oldprio ≠ (s.task p).prio) :
    (checkClassChanged env s c p prevClass oldprio).needResched (s.rq c).curr = true := by
  have low' : (s.task p).prio < (s.task (s.rq c).curr).prio := low
  simp only [checkClassChanged, isRt]
  by_cases turned : prevClass ≠ .rt
  · rw [if_pos turned]
    simp [switchedTo, isRt, switchedToRt, on, other, low']
  · rw [if_neg turned, if_pos (seen.resolve_left turned)]
    simp [prioChanged, isRt, prioChangedRt, on, other, low']

/-- A task that turned WRR flags a current one without RT priority. -/
theorem checkClassChanged_flags_wrr (isWrr : (s.task p).schedClass = .wrr)
    (turned : prevClass ≠ .wrr) (on : (s.task p).onRq = true) (here : (s.task p).cpu = c)
    (other : (s.rq c).curr ≠ p) (plain : ¬ rtPrio (rqCurr s c).prio) :
    (checkClassChanged env s c p prevClass oldprio).needResched (s.rq c).curr = true := by
  simp only [checkClassChanged, isWrr, if_pos turned]
  simp [switchedTo, isWrr, switchedToWrr, on, here, other, plain]

/-- A task that turned fair flags itself when it runs, and otherwise checks. -/
theorem checkClassChanged_flags_fair (isFair : (s.task p).schedClass = .fair)
    (turned : prevClass ≠ .fair) (on : (s.task p).onRq = true)
    (before : (s.rq c).curr = p ∨ SchedClass.precedes .fair (rqCurr s c).schedClass) :
    (checkClassChanged env s c p prevClass oldprio).needResched (s.rq c).curr = true := by
  simp only [checkClassChanged, isFair, if_pos turned]
  by_cases runs : (s.rq c).curr = p
  · simp [switchedTo, isFair, on, runs]
  · have checks := checkPreemptCurr_flags env s c p
      (by rw [isFair]; exact before.resolve_left runs)
    simpa [switchedTo, isFair, on, runs] using checks

end Changes

end AndroidKernel
