import AndroidKernel.Scheduling
import AndroidKernel.PolicySteps
import AndroidKernel.Boot

/-!
How long a queued WRR task waits. Whatever wakes, sleeps, yields, is reniced or
moves, the ticks that WRR tasks are charged before the waiting one is picked are
paid by the slices in front of it: those of the tasks ahead of it in the queue
and that of the current task. The potential is the sum of these slices.
-/

namespace AndroidKernel

open RunList

def inFront (s : Sched) (c : Cpu) (target : Pid) : List Pid :=
  ahead target (s.rq c).wrr.queue ++
    if (rqCurr s c).schedClass = .wrr ∧ (s.rq c).curr ≠ target ∧
        (s.rq c).curr ∉ ahead target (s.rq c).wrr.queue
    then [(s.rq c).curr] else []

def sliceOf (s : Sched) (p : Pid) : Nat := (s.task p).wrr.timeSlice

theorem mem_inFront {s : Sched} {c : Cpu} {target p : Pid} :
    p ∈ inFront s c target ↔ p ∈ ahead target (s.rq c).wrr.queue ∨
      p = (s.rq c).curr ∧ (rqCurr s c).schedClass = .wrr ∧ p ≠ target := by
  simp only [inFront, List.mem_append]
  split
  · rename_i added
    simp only [List.mem_singleton]
    constructor
    · rintro (front | rfl)
      · exact Or.inl front
      · exact Or.inr ⟨rfl, added.1, added.2.1⟩
    · rintro (front | ⟨rfl, -⟩)
      · exact Or.inl front
      · exact Or.inr rfl
  · rename_i notAdded
    simp only [List.not_mem_nil, or_false]
    constructor
    · exact Or.inl
    · rintro (front | ⟨rfl, isWrr, differs⟩)
      · exact front
      · by_contra absent
        exact notAdded ⟨isWrr, differs, absent⟩

theorem inFront_nodup {env : Env} {s : Sched} (sound : Sound env s) (c : Cpu) (target : Pid) :
    (inFront s c target).Nodup := by
  have unique : (ahead target (s.rq c).wrr.queue).Nodup :=
    (sound.queues c).wrr.lists.unique.sublist (List.takeWhile_sublist _)
  simp only [inFront]
  split
  · rename_i added
    exact List.nodup_append.mpr ⟨unique, List.nodup_singleton _, fun p front q single => by
      rintro rfl
      exact added.2.2 (List.mem_singleton.mp single ▸ front)⟩
  · rwa [List.append_nil]

structure Shrinks (c : Cpu) (target : Pid) (before after : Sched) : Prop where
  queued : target ∈ (after.rq c).wrr.queue → target ∈ (before.rq c).wrr.queue
  members : target ∈ (after.rq c).wrr.queue → inFront after c target ⊆ inFront before c target
  slices : target ∈ (after.rq c).wrr.queue → ∀ p ∈ inFront after c target,
    sliceOf after p ≤ sliceOf before p

section Shrinks
variable {c : Cpu} {target : Pid} {s next last : Sched}

theorem Shrinks.trans (one : Shrinks c target s next) (two : Shrinks c target next last) :
    Shrinks c target s last where
  queued still := one.queued (two.queued still)
  members still := List.Subset.trans (two.members still) (one.members (two.queued still))
  slices still p front := (two.slices still p front).trans
    (one.slices (two.queued still) p (two.members still front))

theorem Shrinks.one (p : Pid) (new : TaskStruct)
    (task : next.task = Function.update s.task p new)
    (curr : (next.rq c).curr = (s.rq c).curr)
    (currClass : (s.rq c).curr = p → new.schedClass = (s.task p).schedClass)
    (queue : target ∈ (next.rq c).wrr.queue → target ∈ (s.rq c).wrr.queue ∧
      ahead target (next.rq c).wrr.queue ⊆ ahead target (s.rq c).wrr.queue)
    (own : target ∈ (next.rq c).wrr.queue →
      p ∈ ahead target (next.rq c).wrr.queue ∨ p = (s.rq c).curr →
      new.wrr.timeSlice ≤ sliceOf s p) : Shrinks c target s next := by
  have sameClass : (rqCurr next c).schedClass = (rqCurr s c).schedClass := by
    rw [rqCurr, rqCurr, curr, task]
    by_cases isP : (s.rq c).curr = p
    · rw [isP, Function.update_self]
      exact currClass isP
    · rw [Function.update_of_ne isP]
  constructor
  · exact fun still => (queue still).1
  · intro still q front
    rw [mem_inFront] at front ⊢
    rcases front with front | ⟨isCurr, isWrr, differs⟩
    · exact Or.inl ((queue still).2 front)
    · exact Or.inr ⟨isCurr.trans curr, sameClass ▸ isWrr, differs⟩
  · intro still q front
    rw [sliceOf, task]
    by_cases isP : q = p
    · subst isP
      rw [Function.update_self]
      refine own still ?_
      rcases mem_inFront.mp front with front | ⟨isCurr, -⟩
      · exact Or.inl front
      · exact Or.inr (isCurr.trans curr)
    · rw [Function.update_of_ne isP]
      exact le_rfl

theorem Shrinks.of_same (wrr : (next.rq c).wrr = (s.rq c).wrr)
    (curr : (next.rq c).curr = (s.rq c).curr) (slice : ∀ p, sliceOf next p = sliceOf s p)
    (schedClass : ∀ p, (next.task p).schedClass = (s.task p).schedClass) :
    Shrinks c target s next := by
  constructor
  · intro still
    rwa [wrr] at still
  · intro _ p front
    rw [mem_inFront, wrr, rqCurr, curr, schedClass] at front
    exact mem_inFront.mpr front
  · intro _ p _
    exact (slice p).le

structure Silent (before after : Sched) : Prop where
  wrr : ∀ d, (after.rq d).wrr = (before.rq d).wrr
  curr : ∀ d, (after.rq d).curr = (before.rq d).curr
  slice : ∀ p, sliceOf after p = sliceOf before p
  schedClass : ∀ p, (after.task p).schedClass = (before.task p).schedClass

theorem Silent.trans (one : Silent s next) (two : Silent next last) : Silent s last :=
  ⟨fun d => (two.wrr d).trans (one.wrr d), fun d => (two.curr d).trans (one.curr d),
    fun p => (two.slice p).trans (one.slice p),
    fun p => (two.schedClass p).trans (one.schedClass p)⟩

theorem Silent.of_eq (task : next.task = s.task) (rq : next.rq = s.rq) : Silent s next := by
  constructor <;> intro <;> simp [sliceOf, task, rq]

theorem Silent.of_task {p : Pid} {new : TaskStruct}
    (task : next.task = Function.update s.task p new) (rq : next.rq = s.rq)
    (slice : new.wrr.timeSlice = sliceOf s p)
    (schedClass : new.schedClass = (s.task p).schedClass) : Silent s next := by
  constructor
  · intro d
    rw [rq]
  · intro d
    rw [rq]
  · intro q
    rw [sliceOf, task]
    by_cases isP : q = p
    · subst isP
      rw [Function.update_self, slice]
    · rw [Function.update_of_ne isP, sliceOf]
  · intro q
    rw [task]
    by_cases isP : q = p
    · subst isP
      rw [Function.update_self, schedClass]
    · rw [Function.update_of_ne isP]

theorem Silent.edit (p : Pid) (f : TaskStruct → TaskStruct)
    (slice : (f (s.task p)).wrr.timeSlice = (s.task p).wrr.timeSlice)
    (schedClass : (f (s.task p)).schedClass = (s.task p).schedClass) :
    Silent s (s.modifyTask p f) :=
  .of_task (Sched.modifyTask_task s p f) rfl slice schedClass

theorem Silent.refl (s : Sched) : Silent s s := .of_eq rfl rfl

theorem Silent.resched (s : Sched) (p : Pid) : Silent s (reschedTask s p) := .of_eq rfl rfl

theorem Silent.shrinks (silent : Silent s next) : Shrinks c target s next :=
  .of_same (silent.wrr c) (silent.curr c) silent.slice silent.schedClass

end Shrinks

section Silent
variable (env : Env) (s : Sched) (c : Cpu) (p : Pid)

theorem requeueTaskRt_silent (head : Bool) : Silent s (requeueTaskRt env s c p head) :=
  .of_eq rfl rfl

theorem checkPreemptCurr_silent : Silent s (checkPreemptCurr env s c p) := by
  simp only [checkPreemptCurr, checkPreemptCurrRt, checkPreemptEqualPrio, checkPreemptCurrWrr]
  split_ifs <;> (try split) <;> exact .of_eq rfl rfl

theorem switchedTo_silent : Silent s (switchedTo env s c p) := by
  have resched : ∀ q : Pid, Silent s (reschedTask s q) := fun q => .of_eq rfl rfl
  simp only [switchedTo, switchedToRt, switchedToWrr]
  split
  · split
    · exact resched _
    · exact .of_eq rfl rfl
  · split
    · split
      · exact (resched (s.rq c).curr).trans (.of_task rfl rfl rfl rfl)
      · exact .of_task rfl rfl rfl rfl
    · exact .of_eq rfl rfl
  · split
    · exact .of_eq rfl rfl
    · split
      · exact resched p
      · exact checkPreemptCurr_silent env s c p
  · exact .of_eq rfl rfl
  · exact .of_eq rfl rfl

theorem prioChanged_silent (oldprio : Int) : Silent s (prioChanged env s c p oldprio) := by
  simp only [prioChanged, prioChangedRt, prioChangedWrr]
  split <;> (try split_ifs) <;> exact .of_eq rfl rfl

theorem checkClassChanged_silent (prevClass : SchedClass) (oldprio : Int) :
    Silent s (checkClassChanged env s c p prevClass oldprio) := by
  simp only [checkClassChanged]
  split_ifs
  · exact switchedTo_silent env s c p
  · exact prioChanged_silent env s c p oldprio
  · exact .of_eq rfl rfl

theorem ttwuDoWakeup_silent : Silent s (ttwuDoWakeup env s c p) :=
  (checkPreemptCurr_silent env s c p).trans (.of_task rfl rfl rfl rfl)

theorem ttwuPlace_silent (dest : Cpu) : Silent s (ttwuPlace env s p dest) := by
  rcases ttwuPlace_cases env s p dest with same | same | same <;> rw [same]
  · exact .of_eq rfl rfl
  · exact .of_task rfl rfl rfl rfl
  · exact .of_task rfl rfl rfl rfl

theorem doSetCpusAllowed_silent (mask : Cpumask) : Silent s (doSetCpusAllowed env s p mask) := by
  simp only [doSetCpusAllowed]
  split
  · exact .of_task rfl rfl rfl rfl
  · exact .of_eq rfl rfl
  · exact .of_task rfl rfl rfl rfl

end Silent

def NoPassing (target : Pid) (before after : List Pid) : Prop :=
  target ∈ after → target ∈ before ∧ ahead target after ⊆ ahead target before

theorem NoPassing.refl (target : Pid) (queue : List Pid) : NoPassing target queue queue :=
  fun still => ⟨still, List.Subset.refl _⟩

theorem NoPassing.trans {target : Pid} {first second third : List Pid}
    (one : NoPassing target first second) (two : NoPassing target second third) :
    NoPassing target first third := fun still =>
  ⟨(one (two still).1).1, List.Subset.trans (two still).2 (one (two still).1).2⟩

theorem NoPassing.push {target p : Pid} (differs : p ≠ target) (queue : List Pid) :
    NoPassing target queue (queue ++ [p]) := by
  intro still
  have member : target ∈ queue := by
    rcases List.mem_append.mp still with inside | last
    · exact inside
    · exact absurd (List.mem_singleton.mp last).symm differs
  refine ⟨member, ?_⟩
  rw [ahead_append target queue [p] member]
  exact List.Subset.refl _

theorem NoPassing.leave {queue : List Pid} (unique : queue.Nodup) (target p : Pid) :
    NoPassing target queue (queue.erase p) := by
  intro still
  obtain ⟨differs, member⟩ := unique.mem_erase_iff.mp still
  refine ⟨member, ?_⟩
  rw [ahead_erase target p queue member differs.symm]
  exact List.erase_subset

theorem not_ahead_push {target p : Pid} {queue : List Pid} (absent : p ∉ queue)
    (differs : p ≠ target) (still : target ∈ queue ++ [p]) :
    p ∉ ahead target (queue ++ [p]) := fun front =>
  absent (ahead_subset target queue ((NoPassing.push differs queue still).2 front))

section Moves
variable {env : Env} {c : Cpu} {target : Pid} {s : Sched}

theorem put_noPassing {rq : Cpu → Rq} (d : Cpu) (kernel : Kernel) (wrapped : Bool)
    (task : TaskStruct) {p : Pid} (differs : p ≠ target) (absent : p ∉ (rq c).wrr.queue) :
    NoPassing target (rq c).wrr.queue
        (Function.update rq d ((rq d).put kernel wrapped false task p) c).wrr.queue ∧
      (target ∈ (Function.update rq d ((rq d).put kernel wrapped false task p) c).wrr.queue →
        p ∉ ahead target
          (Function.update rq d ((rq d).put kernel wrapped false task p) c).wrr.queue) := by
  have stays : NoPassing target (rq c).wrr.queue (rq c).wrr.queue ∧
      (target ∈ (rq c).wrr.queue → p ∉ ahead target (rq c).wrr.queue) :=
    ⟨.refl _ _, fun _ front => absent (ahead_subset _ _ front)⟩
  by_cases here : c = d
  · subst here
    rw [Function.update_self, put_queue]
    split
    · exact ⟨.push differs _, not_ahead_push absent differs⟩
    · exact stays
  · rwa [Function.update_of_ne here]

theorem taken_noPassing {rq : Cpu → Rq} (unique : (rq c).wrr.queue.Nodup) (d : Cpu)
    (kernel : Kernel) (wrapped : Bool) (task : TaskStruct) (p : Pid) :
    NoPassing target (rq c).wrr.queue
      (Function.update rq d ((rq d).taken kernel wrapped task p) c).wrr.queue := by
  by_cases here : c = d
  · subst here
    rw [Function.update_self, taken_queue]
    split
    · exact .leave unique target p
    · exact .refl _ _
  · rw [Function.update_of_ne here]
    exact .refl _ _

theorem ttwuActivate_shrinks (d : Cpu) (p : Pid) (differs : p ≠ target)
    (absent : p ∉ (s.rq c).wrr.queue) (idles : (s.rq c).curr ≠ p) :
    Shrinks c target s (ttwuActivate env s d p) := by
  have rq : (ttwuActivate env s d p).rq = Function.update s.rq d
      ((s.rq d).put env.kernel true false (enqueuedTask env (s.task p)) p) := by
    simp [ttwuActivate, activateTask_rq]
  obtain ⟨passing, behind⟩ := put_noPassing d env.kernel true
    (enqueuedTask env (s.task p)) differs absent
  have curr : ((ttwuActivate env s d p).rq c).curr = (s.rq c).curr := by
    rw [rq]
    exact (sameRoles_update (Rq.sameRoles_put _ _ _ _ _ _) c).1
  apply Shrinks.one p _ (ttwuActivate_task env s d p) curr
  · exact fun isCurr => absurd isCurr idles
  · rwa [rq]
  · rw [rq]
    rintro still (front | isCurr)
    · exact absurd front (behind still)
    · exact absurd isCurr.symm idles

theorem requeued_shrinks (sound : Sound env s) {next : Sched} (p : Pid) (differs : p ≠ target)
    (new putTask : TaskStruct) (dest : Cpu) (wrapped : Bool)
    (task : next.task = Function.update s.task p new)
    (rq : next.rq = Function.update
      (Function.update s.rq (s.task p).cpu
        ((s.rq (s.task p).cpu).taken env.kernel wrapped (s.task p) p)) dest
      ((Function.update s.rq (s.task p).cpu
        ((s.rq (s.task p).cpu).taken env.kernel wrapped (s.task p) p) dest).put env.kernel wrapped
          false putTask p))
    (current : (s.rq c).curr = p → new.schedClass = (s.task p).schedClass ∧
      new.wrr.timeSlice ≤ sliceOf s p) : Shrinks c target s next := by
  have off : NoPassing target (s.rq c).wrr.queue _ := taken_noPassing
    (sound.queues c).wrr.lists.unique (s.task p).cpu env.kernel wrapped (s.task p) p
  obtain ⟨on, behind⟩ := put_noPassing dest env.kernel wrapped putTask differs
    (absent_after_taken sound c p wrapped)
  rw [← rq] at on behind
  have curr : (next.rq c).curr = (s.rq c).curr := by
    rw [rq]
    exact ((sameRoles_update (Rq.sameRoles_taken _ _ _ _ _) c).trans
      (sameRoles_update (Rq.sameRoles_put _ _ _ _ _ _) c)).1
  apply Shrinks.one p new task curr
  · exact fun isCurr => (current isCurr).1
  · exact off.trans on
  · rintro still (front | isCurr)
    · exact absurd front (behind still)
    · exact (current isCurr.symm).2

theorem edited_shrinks (sound : Sound env s) {next : Sched} (p : Pid)
    (off : (s.task p).onRq = false) (idles : (s.rq c).curr ≠ p) (new : TaskStruct)
    (task : next.task = Function.update s.task p new) (rq : next.rq = s.rq) :
    Shrinks c target s next := by
  apply Shrinks.one p new task
  · rw [rq]
  · exact fun isCurr => absurd isCurr idles
  · rw [rq]
    exact NoPassing.refl _ _
  · rw [rq]
    rintro - (front | isCurr)
    · have on := (sound.queued_at (ahead_subset _ _ front)).1
      rw [off] at on
      cases on
    · exact absurd isCurr.symm idles

/-- The target may be moved away itself, and then no longer waits here. -/
theorem moveQueued_shrinks (sound : Sound env s) (p : Pid) (dest : Cpu)
    (idles : (s.rq c).curr ≠ p) (queued : target ∈ (s.rq c).wrr.queue)
    (away : p = target → dest ≠ c) :
    Shrinks c target s (moveQueued env s p (s.task p).cpu dest) := by
  by_cases isTarget : p = target
  · subst isTarget
    obtain ⟨-, here, isWrr⟩ := sound.queued_at queued
    have gone : p ∉ ((moveQueued env s p (s.task p).cpu dest).rq c).wrr.queue := by
      rw [moveQueued_rq, Function.update_of_ne (away rfl).symm]
      exact absent_after_taken sound c p true
    exact ⟨fun still => absurd still gone, fun still => absurd still gone,
      fun still => absurd still gone⟩
  · exact requeued_shrinks sound p isTarget _ _ dest true (moveQueued_task env s p _ dest)
      (moveQueued_rq env s p _ dest) fun isCurr => absurd isCurr idles

theorem pullWrrTask_shrinks (sound : Sound env s) (smp : env.smp = true) (dest : Cpu)
    (queued : target ∈ (s.rq c).wrr.queue) : Shrinks c target s (pullWrrTask env s dest) := by
  simp only [pullWrrTask]
  split
  · exact (Silent.of_eq rfl rfl).shrinks
  · split
    · exact (Silent.of_eq rfl rfl).shrinks
    · rename_i src p found
      obtain ⟨otherCpu, member, takes⟩ := pullSource_spec found
      obtain ⟨-, home, -⟩ := sound.queued_at member
      have idles := sound.running.nowhere (pullable_idles sound smp takes) c
      subst home
      refine (moveQueued_shrinks sound p dest idles queued ?_).trans
        (checkPreemptCurr_silent env _ dest p).shrinks
      rintro rfl
      rw [← (sound.queued_at queued).2.1]
      exact otherCpu.symm

end Moves

section Schedule
variable {env : Env} {s : Sched} {c : Cpu} {target : Pid}

structure Scheduled (s next : Sched) (c d : Cpu) : Prop where
  queue : ∀ target, NoPassing target (s.rq c).wrr.queue (next.rq c).wrr.queue
  slice : ∀ p, sliceOf next p = sliceOf s p
  schedClass : ∀ p, (next.task p).schedClass = (s.task p).schedClass
  other : c ≠ d → next.rq c = s.rq c
  head : c = d → (rqCurr next c).schedClass = .wrr →
    (next.rq c).wrr.queue.head? = some (next.rq c).curr

theorem scheduleOut_fields (env : Env) (s : Sched) (d : Cpu)
    (preemptActive signalPending : Bool) (p : Pid) :
    ((scheduleOut env s d preemptActive signalPending).task p).wrr = (s.task p).wrr ∧
      ((scheduleOut env s d preemptActive signalPending).task p).schedClass =
        (s.task p).schedClass := by
  have edited : ∀ (task : Pid → TaskStruct) (q : Pid) (new : TaskStruct), task = s.task →
      new.wrr = (s.task q).wrr → new.schedClass = (s.task q).schedClass →
      (Function.update task q new p).wrr = (s.task p).wrr ∧
        (Function.update task q new p).schedClass = (s.task p).schedClass := by
    rintro task q new rfl wrr cls
    by_cases isQ : p = q
    · subst isQ
      rw [Function.update_self]
      exact ⟨wrr, cls⟩
    · rw [Function.update_of_ne isQ]
      exact ⟨rfl, rfl⟩
  rcases scheduleOut_cases env s d preemptActive signalPending with same | ⟨-, awake | asleep⟩
  · rw [same]
    exact ⟨rfl, rfl⟩
  · rw [awake]
    exact edited _ _ _ rfl rfl rfl
  · rw [asleep]
    refine edited _ _ _ (deactivateTask_task env s d _) ?_ ?_ <;> simp [deactivateTask_task]

theorem schedule_scheduled (sound : Sound env s) (c d : Cpu) (preemptActive signalPending : Bool) :
    Scheduled s (schedule env s d preemptActive signalPending) c d := by
  let out := scheduleOut env s d preemptActive signalPending
  let next := schedule env s d preemptActive signalPending
  have fields : ∀ p, (next.task p).wrr = (s.task p).wrr ∧
      (next.task p).schedClass = (s.task p).schedClass := by
    intro p
    have kept := scheduleOut_fields env s d preemptActive signalPending p
    simp only [next, schedule_task]
    rw [switchTasks_same]
    exact kept
  have outQueue : ∀ target, NoPassing target (s.rq c).wrr.queue (out.rq c).wrr.queue := by
    intro target
    rcases scheduleOut_cases env s d preemptActive signalPending with same | ⟨-, awake | asleep⟩
    · rw [show out = s from same]
      exact .refl _ _
    · rw [show out = _ from awake]
      exact .refl _ _
    · rw [show out = _ from asleep, Sched.modifyTask_rq, deactivateTask_rq]
      exact taken_noPassing (sound.queues c).wrr.lists.unique d _ _ _ _
  have queue : (next.rq c).wrr.queue = (out.rq c).wrr.queue := by
    simp only [next, schedule_rq]
    by_cases here : c = d
    · subst here
      rw [Function.update_self]
    · rw [Function.update_of_ne here]
  refine ⟨fun target => ?_, fun p => ?_, fun p => (fields p).2, fun other => ?_, ?_⟩
  · rw [show ((schedule env s d preemptActive signalPending).rq c).wrr.queue = _ from queue]
    exact outQueue target
  · rw [sliceOf, (fields p).1]
    rfl
  · rw [schedule_rq, Function.update_of_ne other]
    rcases scheduleOut_cases env s d preemptActive signalPending with same | ⟨-, awake | asleep⟩
    · rw [same]
    · rw [awake]
      rfl
    · rw [asleep, Sched.modifyTask_rq, deactivateTask_rq, Function.update_of_ne other]
  · rintro rfl isWrr
    have curr := schedule_curr env s c preemptActive signalPending
    have picked : ((pickState env s c preemptActive signalPending).task
        (pickNext env (pickState env s c preemptActive signalPending) c).2).schedClass = .wrr := by
      rw [rqCurr, curr, (fields _).2] at isWrr
      simp only [pickState, putPrevTask_task]
      rw [(scheduleOut_fields env s c preemptActive signalPending _).2]
      exact isWrr
    -- a WRR pick is the head of the queue, whatever the previous task did
    have head := pickNext_wrr_head (pickState_ready sound c preemptActive signalPending) picked
    rw [show ((schedule env s c preemptActive signalPending).rq c).wrr.queue = _ from queue, curr,
      ← head]
    simp [pickState, out]

/-- On the CPU itself only tasks that were ahead are in front afterwards. -/
theorem schedule_front (sound : Sound env s) (preemptActive signalPending : Bool)
    (still : target ∈ ((schedule env s c preemptActive signalPending).rq c).wrr.queue) :
    inFront (schedule env s c preemptActive signalPending) c target ⊆
      ahead target (s.rq c).wrr.queue := by
  have spec := schedule_scheduled sound c c preemptActive signalPending
  intro p front
  rcases mem_inFront.mp front with inside | ⟨rfl, isWrr, differs⟩
  · exact (spec.queue target still).2 inside
  · have head := spec.head rfl isWrr
    rcases head_ahead_or_target target _ still with first | ⟨-, first⟩
    · rw [head] at first
      exact (spec.queue target still).2 (List.mem_of_mem_head? (Option.mem_def.mpr first.symm))
    · rw [head, Option.some.injEq] at first
      exact absurd first differs

theorem schedule_shrinks (sound : Sound env s) (d : Cpu) (preemptActive signalPending : Bool) :
    Shrinks c target s (schedule env s d preemptActive signalPending) := by
  have spec := schedule_scheduled sound c d preemptActive signalPending
  by_cases here : c = d
  · subst here
    constructor
    · exact fun still => (spec.queue target still).1
    · intro still p front
      exact mem_inFront.mpr (Or.inl (schedule_front sound _ _ still front))
    · exact fun _ p _ => (spec.slice p).le
  · have same := spec.other here
    exact .of_same (by rw [same]) (by rw [same]) spec.slice spec.schedClass

theorem reschedule_sound (sound : Sound env s) (d : Cpu) (passes : List (Bool × Bool)) :
    Sound env (reschedule env d passes s) := by
  induction passes generalizing s with
  | nil => exact sound
  | cons flags passes ih =>
      simp only [reschedule]
      split
      · exact ih (schedule_sound sound d _ _)
      · exact sound

theorem reschedule_shrinks (sound : Sound env s) (d : Cpu) (passes : List (Bool × Bool)) :
    Shrinks c target s (reschedule env d passes s) := by
  induction passes generalizing s with
  | nil => exact (Silent.of_eq rfl rfl).shrinks
  | cons flags passes ih =>
      simp only [reschedule]
      split
      · exact (schedule_shrinks sound d _ _).trans (ih (schedule_sound sound d _ _))
      · exact (Silent.of_eq rfl rfl).shrinks

end Schedule

section Ticks
variable {env : Env} {s : Sched} {c : Cpu} {target : Pid}

theorem tickLocked_silent (d : Cpu) (other : (rqCurr s d).schedClass ≠ .wrr) :
    Silent s (tickLocked env s d) := by
  let p := (s.rq d).curr
  have clocked : Silent s (updateRqClock env s d) := .of_eq rfl rfl
  refine clocked.trans ?_
  -- an RT tick counts the other slice, and the fair tick is a matter of its class
  have ticks : ∀ t : Sched, (t.task p).schedClass ≠ .wrr → Silent t (taskTick env t d p) := by
    intro t notWrr
    simp only [taskTick]
    split
    · simp only [taskTickRt]
      have charged : Silent t (updateCurrRt env t d) := .of_eq (by simp) (by simp)
      have refilled : Silent t ((updateCurrRt env t d).modifyTask p
          (TaskStruct.setRtSlice (rrTimeslice env))) := charged.trans (.of_task rfl rfl rfl rfl)
      split_ifs
      · exact charged
      · exact charged.trans (.of_task rfl rfl rfl rfl)
      · exact (refilled.trans (requeueTaskRt_silent env _ d p false)).trans (.of_eq rfl rfl)
      · exact refilled
    · rename_i isWrr
      exact absurd isWrr notWrr
    · have charged : Silent t (updateCurrFair env t d) := .of_eq (by simp) (by simp)
      split
      · exact charged.trans (.of_eq rfl rfl)
      · exact charged
    · exact .of_eq rfl rfl
    · exact .of_eq rfl rfl
  exact ticks (updateRqClock env s d) other

inductive WrrTick (env : Env) (s : Sched) (d : Cpu) (p : Pid) (next : Sched) : Prop
  | used (more : 2 ≤ sliceOf s p)
      (task : next.task = Function.update s.task p ((s.task p).setWrrSlice (sliceOf s p - 1)))
      (rq : next.rq = s.rq)
  | refilled (last : sliceOf s p = 1)
      (task : next.task = Function.update s.task p
        ((s.task p).setWrrSlice (refillSlice env (s.task p).wrr)))
      (turned : (s.rq d).wrr.queue.length < 2 ∧ next.rq = s.rq ∨
        next.rq = Function.update s.rq d { s.rq d with wrr := (s.rq d).wrr.requeue false p } ∧
          next.needResched p = true)

theorem taskTickWrr_ends {d : Cpu} {p : Pid} (positive : 1 ≤ sliceOf s p)
    (unique : (s.rq d).wrr.queue.Nodup) (member : p ∈ (s.rq d).wrr.queue) :
    WrrTick env s d p (taskTickWrr env s d p) := by
  by_cases more : 2 ≤ (s.task p).wrr.timeSlice
  · rw [taskTickWrr_more more]
    exact .used more (by simp [sliceOf]) (by simp)
  · have last : (s.task p).wrr.timeSlice = 1 := by
      rw [sliceOf] at positive
      omega
    rw [taskTickWrr_last last unique member]
    split
    · exact .refilled last (by simp [requeueTaskWrr])
        (Or.inr ⟨by simp [requeueTaskWrr], by simp⟩)
    · rename_i short
      exact .refilled last (by simp) (Or.inl ⟨by simpa using short, by simp⟩)

theorem schedulerTick_ends (sound : Sound env s) (positive : SlicesPositive s) (d : Cpu)
    (isWrr : (rqCurr s d).schedClass = .wrr) :
    WrrTick env s d (s.rq d).curr (schedulerTick env s d) := by
  rw [schedulerTick_wrr sound isWrr]
  have unique := (sound.queues d).wrr.lists.unique
  have ends : WrrTick env (updateRqClock env s d) d (s.rq d).curr
      (taskTickWrr env (updateRqClock env s d) d (s.rq d).curr) :=
    taskTickWrr_ends (positive (s.rq d).curr) unique (sound.curr_queued d isWrr)
  obtain ⟨more, task, rq⟩ | ⟨last, task, turned⟩ := ends
  · exact .used more task rq
  · exact .refilled last task turned

/-- A tick that charges no WRR task of this CPU. It may pull the target away. -/
theorem schedulerTick_shrinks (sound : Sound env s) (positive : SlicesPositive s) (d : Cpu)
    (queued : target ∈ (s.rq c).wrr.queue) (elsewhere : c ≠ d ∨ (rqCurr s d).schedClass ≠ .wrr) :
    Shrinks c target s (schedulerTick env s d) := by
  by_cases isWrr : (rqCurr s d).schedClass = .wrr
  · have other : c ≠ d := elsewhere.resolve_right fun notWrr => notWrr isWrr
    have written : ∃ n, (schedulerTick env s d).task =
        Function.update s.task (s.rq d).curr ((s.task (s.rq d).curr).setWrrSlice n) := by
      obtain ⟨-, task, -⟩ | ⟨-, task, -⟩ := schedulerTick_ends sound positive d isWrr
      · exact ⟨_, task⟩
      · exact ⟨_, task⟩
    have rq : (schedulerTick env s d).rq c = s.rq c := by
      obtain ⟨-, -, same⟩ | ⟨-, -, ⟨-, same⟩ | ⟨turned, -⟩⟩ :=
        schedulerTick_ends sound positive d isWrr
      · rw [same]
      · rw [same]
      · rw [turned, Function.update_of_ne other]
    -- the charged task is current on another CPU, so it is neither current here nor queued here
    obtain ⟨n, task⟩ := written
    have home := sound.running.curr_cpu d
    have notHere : (s.rq c).curr ≠ (s.rq d).curr := by
      intro same
      have here := sound.running.curr_cpu c
      rw [same, home] at here
      exact other here.symm
    apply Shrinks.one (s.rq d).curr _ task
    · rw [rq]
    · exact fun same => absurd same notHere
    · rw [rq]
      exact NoPassing.refl _ _
    · rw [rq]
      rintro - (front | same)
      · have here := (sound.queued_at (ahead_subset _ _ front)).2.1
        rw [home] at here
        exact absurd here.symm other
      · exact absurd same.symm notHere
  · have ticked : Silent s (tickLocked env s d) := tickLocked_silent d isWrr
    simp only [schedulerTick]
    split
    · rename_i pulls
      refine ticked.shrinks.trans (pullWrrTask_shrinks (sound.quiet (tickLocked_quiet env s d))
        (by simpa using pulls.1) d ?_)
      rwa [ticked.wrr]
    · exact ticked.shrinks

end Ticks

/-- The operations of the waiting period: no change of group, no enqueue at the
head, and no change of the target or of the policy of the current task. -/
def Harmless (c : Cpu) (target : Pid) (s : Sched) : Op → Prop
  | .setUserNice p _ | .pushTask p _ | .migrateTask p _ _ => p ≠ target
  | .setscheduler _ p _ _ _ _ _ => p ≠ target ∧ p ≠ (s.rq c).curr
  | .rtMutexSetprio _ _ | .cgroupAttach _ _ | .schedMoveTask _ | .normalizeRtTask _ _
  | .schedulerTick _ => False
  | .fork _ _ | .wakeUpNewTask _ _ | .tryToWakeUp _ _ _ | .ttwuQueueRemote _ _
  | .schedTtwuPending _ | .setCurrentState _ _ | .schedule _ _ _ | .schedYield _
  | .pullWrrTask _ | .rtPeriodTimer _ _ _ | .balanceRuntime _ _ _ | .setCpusAllowed _ _ => True

section Operations
variable {env : Env} {s : Sched} {c : Cpu} {target : Pid}

theorem schedYield_shrinks (sound : Sound env s) (d : Cpu) (idles : (s.rq c).curr ≠ target) :
    Shrinks c target s (schedYield env s d) := by
  simp only [schedYield]
  split
  · exact (requeueTaskRt_silent env s d _ false).shrinks
  · rename_i isWrr
    have task : (yieldTaskWrr s d).task = Function.update s.task (s.rq d).curr
        (s.task (s.rq d).curr) := (Function.update_eq_self _ _).symm
    -- on its own CPU the yielding task goes to the tail, behind the target
    by_cases here : c = d
    · subst here
      have unique := (sound.queues c).wrr.lists.unique
      have queue : ((yieldTaskWrr s c).rq c).wrr.queue =
          (s.rq c).wrr.queue.erase (s.rq c).curr ++ [(s.rq c).curr] := by
        simp [yieldTaskWrr, requeueTaskWrr, WrrRq.requeue]
      apply Shrinks.one _ _ task
      · simp [yieldTaskWrr, requeueTaskWrr]
      · exact fun _ => rfl
      · rw [queue]
        exact (NoPassing.leave unique target _).trans (.push idles _)
      · exact fun _ _ => le_rfl
    · apply Shrinks.one _ _ task
      · simp [yieldTaskWrr, requeueTaskWrr, Function.update_of_ne here]
      · exact fun _ => rfl
      · simp only [yieldTaskWrr, requeueTaskWrr, Sched.modifyRq_rq, Function.update_of_ne here]
        exact NoPassing.refl _ _
      · exact fun _ _ => le_rfl
  all_goals exact (Silent.of_eq rfl rfl).shrinks

/-- A task that weighs what its group says keeps its slice. -/
theorem enqueuedTask_slice {task : TaskStruct}
    (weighs : task.schedClass = .wrr → task.wrr.weight = pathWeight env (taskGroup env task)) :
    (enqueuedTask env task).wrr.timeSlice = task.wrr.timeSlice := by
  simp only [enqueuedTask]
  split
  · rename_i isWrr
    rw [weighByPath, if_pos (weighs isWrr)]
  · rfl

/-- Even the current task may be reniced: it goes to the tail with its slice. -/
theorem setUserNice_shrinks (sound : Sound env s) (goldfish : env.kernel = .goldfish) (p : Pid)
    (nice : Int) (differs : p ≠ target) : Shrinks c target s (setUserNice env s p nice) := by
  let edited : TaskStruct := effectivePrio { s.task p with staticPrio := niceToPrio nice }
  simp only [setUserNice]
  split
  · exact (Silent.refl s).shrinks
  · split
    · exact (Silent.edit p _ rfl rfl).shrinks
    · cases on : (s.task p).onRq with
      | false =>
          simp only [Bool.false_eq_true, if_false]
          exact (Silent.edit p _ rfl rfl).shrinks
      | true =>
          simp only [if_true]
          have back : Shrinks c target s (enqueueTask env
              ((dequeueTask env s (s.task p).cpu p).modifyTask p fun task =>
                effectivePrio { task with staticPrio := niceToPrio nice })
              (s.task p).cpu p false) := by
            apply requeued_shrinks sound p differs (enqueuedTask env edited)
              (enqueuedTask env edited) (s.task p).cpu false
            · simp [enqueueTask_task, edited]
            · simp [enqueueTask_rq, dequeueTask_rq, Rq.taken, Rq.put, edited]
            · intro _
              refine ⟨(enqueuedTask_ticked env edited).schedClass, le_of_eq ?_⟩
              exact enqueuedTask_slice fun isWrr => sound.weighed goldfish p on isWrr
          split
          · exact back.trans (Silent.resched _ _).shrinks
          · exact back

theorem requeueAround_shrinks (sound : Sound env s) (p : Pid) (differs : p ≠ target)
    (idles : (s.rq c).curr ≠ p) (wrapped : Bool) (change : TaskStruct → TaskStruct) :
    Shrinks c target s (requeueAround env s (s.task p).cpu p wrapped change false) := by
  have task := requeueAround_task env s (s.task p).cpu p wrapped false change
  have rq := requeueAround_rq env s (s.task p).cpu p wrapped false change
  cases on : (s.task p).onRq with
  | false =>
      rw [on] at task rq
      exact edited_shrinks sound p on idles (change (s.task p)) task rq
  | true =>
      rw [on, if_pos rfl] at task rq
      apply requeued_shrinks sound p differs _ (enqueuedTask env (change (s.task p)))
        (s.task p).cpu wrapped task
      · rw [rq, Function.update_idem, Function.update_self]
      · exact fun isCurr => absurd isCurr idles

theorem ttwuDoActivate_shrinks (d : Cpu) (p : Pid) (differs : p ≠ target)
    (absent : p ∉ (s.rq c).wrr.queue) (idles : (s.rq c).curr ≠ p) :
    Shrinks c target s (ttwuDoActivate env s d p) :=
  (ttwuActivate_shrinks d p differs absent idles).trans (ttwuDoWakeup_silent env _ d p).shrinks

theorem wakeUpNewTask_shrinks (sound : Sound env s) (p : Pid) (dest : Cpu) (differs : p ≠ target)
    (off : (s.task p).onRq = false) (busy : (s.task p).schedClass ≠ .idle) :
    Shrinks c target s (wakeUpNewTask env s p dest) := by
  obtain ⟨new, task, rq, -⟩ := placeNewTask_effect env s p dest
  have idles := sound.running.not_current p off busy c
  have placed : Shrinks c target s (placeNewTask env s p dest) :=
    edited_shrinks sound p off idles new task rq
  have absent : p ∉ (s.rq c).wrr.queue := fun member => by
    simp [(sound.queued_at member).1] at off
  refine (placed.trans (ttwuActivate_shrinks _ p differs ?_ ?_)).trans
    (checkPreemptCurr_silent env _ _ p).shrinks
  · rwa [rq]
  · rwa [rq]

theorem migrateTask_shrinks (sound : Sound env s) (p : Pid) (src dest : Cpu)
    (queued : target ∈ (s.rq c).wrr.queue) (differs : p ≠ target)
    (idles : (s.rq (s.task p).cpu).curr ≠ p) :
    Shrinks c target s (migrateTask env s p src dest).1 := by
  have moves : (s.task p).cpu = src →
      Shrinks c target s (checkPreemptCurr env (moveQueued env s p src dest) dest p) := by
    rintro rfl
    have moved : Shrinks c target s (moveQueued env s p (s.task p).cpu dest) :=
      moveQueued_shrinks sound p dest (sound.running.nowhere idles c) queued
        fun same => absurd same differs
    exact moved.trans (checkPreemptCurr_silent env _ dest p).shrinks
  simp only [migrateTask]
  split
  · exact (Silent.refl s).shrinks
  · split
    · exact (Silent.refl s).shrinks
    · rename_i home
      split
      · exact (Silent.refl s).shrinks
      · split
        · exact moves (by simpa using home)
        · exact (Silent.refl s).shrinks

/-- No harmless operation puts anything in front of the target. -/
theorem op_shrinks (sound : Sound env s) (goldfish : env.kernel = .goldfish)
    (queued : target ∈ (s.rq c).wrr.queue) (idles : (s.rq c).curr ≠ target) (op : Op)
    (allowed : Allowed env s op) (harmless : Harmless c target s op) :
    Shrinks c target s (apply env s op) := by
  have still := (sound.queued_at queued).1
  have fresh : ∀ p, (s.task p).onRq = false → p ≠ target ∧ p ∉ (s.rq c).wrr.queue := by
    intro p off
    have absent : p ∉ (s.rq c).wrr.queue := fun member => by
      simp [(sound.queued_at member).1] at off
    exact ⟨fun same => absent (same ▸ queued), absent⟩
  cases op with
  | fork d child =>
      obtain ⟨-, ordinary, off⟩ := allowed
      have off' : (s.task child).onRq = false := by simpa using off
      exact edited_shrinks sound child off' (sound.running.not_current child off' ordinary.1 c) _
        rfl rfl
  | wakeUpNewTask p dest =>
      obtain ⟨ordinary, off⟩ := allowed
      have off' : (s.task p).onRq = false := by simpa using off
      exact wakeUpNewTask_shrinks sound p dest (fresh p off').1 off' ordinary.1
  | tryToWakeUp p mask dest =>
      -- a task that is queued only changes its state, one that was off joins at the tail
      simp only [apply, tryToWakeUp]
      split
      · exact (Silent.refl s).shrinks
      · split
        · exact (ttwuDoWakeup_silent env s _ p).shrinks
        · rename_i off
          have off' : (s.task p).onRq = false := by simpa using off
          have placed := ttwuPlace_silent env s p dest
          have idle := sound.running.not_current p off' allowed.1 c
          refine placed.shrinks.trans (ttwuDoActivate_shrinks _ p (fresh p off').1 ?_ ?_)
          · rw [placed.wrr]
            exact (fresh p off').2
          · rwa [placed.curr]
  | ttwuQueueRemote p dest => exact (ttwuPlace_silent env s p dest).shrinks
  | schedTtwuPending p =>
      obtain ⟨ordinary, off, -⟩ := allowed
      have off' : (s.task p).onRq = false := by simpa using off
      exact ttwuDoActivate_shrinks _ p (fresh p off').1 (fresh p off').2
        (sound.running.not_current p off' ordinary.1 c)
  | setCurrentState d state =>
      exact (Silent.edit (s.rq d).curr (fun task => { task with state := state }) rfl rfl).shrinks
  | schedule d preemptActive signalPending => exact schedule_shrinks sound d _ _
  | schedulerTick d => exact harmless.elim
  | schedYield d => exact schedYield_shrinks sound d idles
  | setscheduler caller p seen policy prio user waiter =>
      simp only [apply]
      split
      · rename_i done
        rcases setschedulerPass_cases done with same | ⟨request, -, -, -, same⟩
        · rw [same]
          exact (Silent.refl s).shrinks
        · rw [same]
          exact (requeueAround_shrinks sound p harmless.1 harmless.2.symm _ _).trans
            (checkClassChanged_silent env _ _ p _ _).shrinks
      · exact (Silent.refl s).shrinks
  | rtMutexSetprio p waiter => exact harmless.elim
  | setUserNice p nice => exact setUserNice_shrinks sound goldfish p nice harmless
  | cgroupAttach p group => exact harmless.elim
  | schedMoveTask p => exact harmless.elim
  | migrateTask p src dest => exact migrateTask_shrinks sound p src dest queued harmless allowed.2.2
  | pushTask p dest =>
      -- a pushed task leaves this queue or joins it at the tail
      obtain ⟨-, -, -, idle, -⟩ := allowed
      have moved : Shrinks c target s (moveQueued env s p (s.task p).cpu dest) :=
        moveQueued_shrinks sound p dest (sound.running.nowhere idle c) queued
          fun same => absurd same harmless
      exact moved.trans (Silent.resched _ _).shrinks
  | pullWrrTask dest => exact pullWrrTask_shrinks sound allowed dest queued
  | rtPeriodTimer g d overrun =>
      have silent : Silent s (apply env s (.rtPeriodTimer g d overrun)) :=
        .of_eq (by simp [apply]) (by simp [apply])
      exact silent.shrinks
  | balanceRuntime g d runtime =>
      have silent : Silent s (apply env s (.balanceRuntime g d runtime)) := .of_eq rfl rfl
      exact silent.shrinks
  | normalizeRtTask p waiter => exact harmless.elim
  | setCpusAllowed p mask => exact (doSetCpusAllowed_silent env s p mask).shrinks

end Operations

inductive WaitEvent where
  | tick (d : Cpu) (passes : List (Bool × Bool))
  | op (op : Op)

def waitStep (env : Env) (s : Sched) : WaitEvent → Option Sched
  | .tick d passes => tickAndSchedule env d passes s
  | .op op => step env s op

def Waits (c : Cpu) (target : Pid) (s : Sched) : Prop :=
  target ∈ (s.rq c).wrr.queue ∧ (s.rq c).curr ≠ target

def HarmlessEvent (c : Cpu) (target : Pid) (s : Sched) : WaitEvent → Prop
  | .tick _ _ => True
  | .op op => Harmless c target s op

def chargedTicks (c : Cpu) (s : Sched) : WaitEvent → Nat
  | .tick d _ => if d = c ∧ (rqCurr s c).schedClass = .wrr then 1 else 0
  | .op _ => 0

/-- The slices ahead of the target, and that of the current task if it is a WRR
task that is not ahead. -/
def waitBound (s : Sched) (c : Cpu) (target : Pid) : Nat :=
  ((ahead target (s.rq c).wrr.queue).map (sliceOf s)).sum +
    if (rqCurr s c).schedClass = .wrr ∧ (s.rq c).curr ∉ ahead target (s.rq c).wrr.queue
    then sliceOf s (s.rq c).curr else 0

def frontSlices (s : Sched) (c : Cpu) (target : Pid) : Nat :=
  ((inFront s c target).map (sliceOf s)).sum

theorem waitBound_eq {s : Sched} {c : Cpu} {target : Pid} (idles : (s.rq c).curr ≠ target) :
    waitBound s c target = frontSlices s c target := by
  simp only [waitBound, frontSlices, inFront, List.map_append, List.sum_append, ne_eq, idles,
    not_false_eq_true, true_and]
  split <;> simp

section Events
variable {env : Env} {s next : Sched} {c : Cpu} {target : Pid}

theorem Shrinks.le (shrinks : Shrinks c target s next) (sound : Sound env next)
    (still : target ∈ (next.rq c).wrr.queue) :
    frontSlices next c target ≤ frontSlices s c target :=
  sum_le_of_subset _ _ (inFront_nodup sound c target) (shrinks.members still) _ _
    (shrinks.slices still)

theorem reschedule_slices (hz : 100 ≤ env.hz) (d : Cpu) (passes : List (Bool × Bool))
    (positive : SlicesPositive s) : SlicesPositive (reschedule env d passes s) := by
  induction passes generalizing s with
  | nil => exact positive
  | cons flags passes ih =>
      simp only [reschedule]
      split
      · exact ih fun p => ((samePolicy_respected env).schedule d _ _ p).slice hz (positive p)
      · exact positive

theorem tickAndSchedule_eq {d : Cpu} {passes : List (Bool × Bool)}
    (moved : tickAndSchedule env d passes s = some next) :
    next = reschedule env d passes (schedulerTick env s d) ∧
      next.needResched (next.rq d).curr = false := by
  simp only [tickAndSchedule] at moved
  split at moved
  · cases moved
  · rename_i quiet
    cases moved
    exact ⟨rfl, by simpa using quiet⟩

/-- The current task has some of its slice left and stays in front, or leaves. -/
theorem used_pays (positive : SlicesPositive s) (waits : Waits c target s)
    (isWrr : (rqCurr s c).schedClass = .wrr) {ticked : Sched}
    (more : 2 ≤ sliceOf s (s.rq c).curr)
    (task : ticked.task = Function.update s.task (s.rq c).curr
      ((s.task (s.rq c).curr).setWrrSlice (sliceOf s (s.rq c).curr - 1)))
    (rq : ticked.rq = s.rq) (sound : Sound env next) (shrinks : Shrinks c target ticked next)
    (still : target ∈ (next.rq c).wrr.queue) :
    1 + frontSlices next c target ≤ frontSlices s c target := by
  have own : sliceOf ticked (s.rq c).curr = sliceOf s (s.rq c).curr - 1 := by
    rw [sliceOf, task, Function.update_self]
    rfl
  have le : ∀ p, sliceOf ticked p ≤ sliceOf s p := by
    intro p
    by_cases isCurr : p = (s.rq c).curr
    · rw [isCurr, own]
      exact Nat.sub_le _ _
    · rw [sliceOf, task, Function.update_of_ne isCurr, sliceOf]
  have same : inFront ticked c target ⊆ inFront s c target := by
    intro p front
    rw [mem_inFront, rqCurr, rq] at front
    rw [mem_inFront]
    exact front.imp_right fun both => ⟨both.1, isWrr, both.2.2⟩
  have payer : (s.rq c).curr ∈ inFront s c target :=
    mem_inFront.mpr (Or.inr ⟨rfl, isWrr, waits.2⟩)
  refine sum_lt_of_subset _ _ (inFront_nodup sound c target)
    (List.Subset.trans (shrinks.members still) same) _ _
    (fun p front => (shrinks.slices still p front).trans (le p)) _ payer ?_
  by_cases stays : (s.rq c).curr ∈ inFront next c target
  · right
    have less := shrinks.slices still _ stays
    exact ⟨stays, by omega⟩
  · exact Or.inl ⟨stays, positive _⟩

/-- The current task used its slice up and is behind the target after `__schedule`,
which the tick asked for. -/
theorem refilled_pays (positive : SlicesPositive s) (waits : Waits c target s)
    (isWrr : (rqCurr s c).schedClass = .wrr) {ticked : Sched} {n : Nat}
    (task : ticked.task = Function.update s.task (s.rq c).curr
      ((s.task (s.rq c).curr).setWrrSlice n))
    (queue : (ticked.rq c).wrr.queue =
      (s.rq c).wrr.queue.erase (s.rq c).curr ++ [(s.rq c).curr])
    (soundBefore : Sound env s) (soundTicked : Sound env ticked) (sound : Sound env next)
    (preemptActive signalPending : Bool)
    (shrinks : Shrinks c target (schedule env ticked c preemptActive signalPending) next)
    (still : target ∈ (next.rq c).wrr.queue) :
    1 + frontSlices next c target ≤ frontSlices s c target := by
  have unique := (soundBefore.queues c).wrr.lists.unique
  have spec := schedule_scheduled soundTicked c c preemptActive signalPending
  have passed : target ∈ (s.rq c).wrr.queue.erase (s.rq c).curr :=
    (List.mem_erase_of_ne waits.2.symm).mpr waits.1
  have front : ∀ p ∈ inFront next c target,
      p ∈ ahead target (s.rq c).wrr.queue ∧ p ≠ (s.rq c).curr := by
    intro p inside
    have before := schedule_front soundTicked preemptActive signalPending (shrinks.queued still)
      (shrinks.members still inside)
    rw [queue, ahead_append target _ _ passed, ahead_erase target _ _ waits.1 waits.2] at before
    have uniqueAhead := unique.sublist (List.takeWhile_sublist fun other => other != target)
    exact (uniqueAhead.mem_erase_iff.mp before).symm
  have payer : (s.rq c).curr ∈ inFront s c target :=
    mem_inFront.mpr (Or.inr ⟨rfl, isWrr, waits.2⟩)
  refine sum_lt_of_subset _ _ (inFront_nodup sound c target)
    (fun p inside => mem_inFront.mpr (Or.inl (front p inside).1)) _ _ ?_ _ payer
    (Or.inl ⟨fun inside => (front _ inside).2 rfl, positive _⟩)
  intro p inside
  calc sliceOf next p ≤ sliceOf (schedule env ticked c preemptActive signalPending) p :=
        shrinks.slices still p inside
    _ = sliceOf ticked p := spec.slice p
    _ ≤ sliceOf s p := by
        rw [sliceOf, task, Function.update_of_ne (front p inside).2, sliceOf]

theorem tick_pays (sound : Sound env s) (positive : SlicesPositive s)
    (waits : Waits c target s) (isWrr : (rqCurr s c).schedClass = .wrr)
    {passes : List (Bool × Bool)} (moved : tickAndSchedule env c passes s = some next)
    (still : target ∈ (next.rq c).wrr.queue) :
    1 + frontSlices next c target ≤ frontSlices s c target := by
  obtain ⟨same, quiet⟩ := tickAndSchedule_eq moved
  have soundTicked : Sound env (schedulerTick env s c) := schedulerTick_sound sound c
  have soundNext : Sound env next := same ▸ reschedule_sound soundTicked c passes
  obtain ⟨more, task, rq⟩ | ⟨last, task, ⟨short, -⟩ | ⟨turned, flagged⟩⟩ :=
    schedulerTick_ends sound positive c isWrr
  · exact used_pays positive waits isWrr more task rq soundNext
      (same ▸ reschedule_shrinks soundTicked c passes) still
  · -- the target and the current task share the queue
    have two : [(s.rq c).curr, target].length ≤ (s.rq c).wrr.queue.length := by
      apply List.Nodup.length_le_of_subset
      · simp [waits.2]
      · intro p member
        rcases List.mem_pair.mp member with rfl | rfl
        · exact sound.curr_queued c isWrr
        · exact waits.1
    simp only [List.length_cons, List.length_nil] at two
    omega
  · have curr : ((schedulerTick env s c).rq c).curr = (s.rq c).curr := by
      rw [turned, Function.update_self]
    have queue : ((schedulerTick env s c).rq c).wrr.queue =
        (s.rq c).wrr.queue.erase (s.rq c).curr ++ [(s.rq c).curr] := by
      rw [turned, Function.update_self]
      rfl
    cases passes with
    | nil =>
        rw [same, reschedule, curr, flagged] at quiet
        cases quiet
    | cons flags passes =>
        rw [reschedule, curr, if_pos flagged] at same
        exact refilled_pays positive waits isWrr task queue sound soundTicked soundNext _ _
          (same ▸ reschedule_shrinks (schedule_sound soundTicked c _ _) c passes) still

structure Fit (env : Env) (s : Sched) : Prop where
  sound : Sound env s
  slices : SlicesPositive s

/-- One event: the invariants stay, and the slices in front pay for the tick. -/
theorem event_pays (goldfish : env.kernel = .goldfish) (hz : 100 ≤ env.hz) {event : WaitEvent}
    (fit : Fit env s) (waits : Waits c target s)
    (harmless : HarmlessEvent c target s event) (moved : waitStep env s event = some next) :
    Fit env next ∧ chargedTicks c s event ≤ frontSlices s c target ∧
      (target ∈ (next.rq c).wrr.queue →
        chargedTicks c s event + frontSlices next c target ≤ frontSlices s c target) := by
  obtain ⟨sound, positive⟩ := fit
  cases event with
  | tick d passes =>
      obtain ⟨same, -⟩ := tickAndSchedule_eq moved
      have soundTicked : Sound env (schedulerTick env s d) := schedulerTick_sound sound d
      have soundNext : Sound env next := same ▸ reschedule_sound soundTicked d passes
      have positiveNext : SlicesPositive next := by
        rw [same]
        exact reschedule_slices hz d passes fun p =>
          ((samePolicy_respected env).schedulerTick d p).slice hz (positive p)
      refine ⟨⟨soundNext, positiveNext⟩, ?_⟩
      by_cases charged : d = c ∧ (rqCurr s c).schedClass = .wrr
      · obtain ⟨rfl, isWrr⟩ := charged
        have payer : (s.rq d).curr ∈ inFront s d target :=
          mem_inFront.mpr (Or.inr ⟨rfl, isWrr, waits.2⟩)
        rw [chargedTicks, if_pos ⟨rfl, isWrr⟩]
        exact ⟨(positive _).trans (le_sum _ _ (sliceOf s) payer),
          tick_pays sound positive waits isWrr moved⟩
      · have shrinks : Shrinks c target s next := by
          rw [same]
          refine (schedulerTick_shrinks sound positive d waits.1 ?_).trans
            (reschedule_shrinks soundTicked d passes)
          by_cases here : c = d
          · subst here
            exact Or.inr fun isWrr => charged ⟨rfl, isWrr⟩
          · exact Or.inl here
        rw [chargedTicks, if_neg charged]
        exact ⟨Nat.zero_le _, fun still => by simpa using shrinks.le soundNext still⟩
  | op op =>
      obtain ⟨allowed, rfl⟩ := step_some moved
      have soundNext := apply_sound sound op allowed
      refine ⟨⟨soundNext, step_slices sound hz positive moved⟩, Nat.zero_le _, fun still => ?_⟩
      have shrinks := op_shrinks sound goldfish waits.1 waits.2 op allowed harmless
      simpa [chargedTicks] using shrinks.le soundNext still

end Events

/-- From any reachable state in which the target waits, the ticks that WRR tasks
are charged until it is picked, dequeued or requeued are at most the slices that
were in front of it. -/
theorem bounded_waiting {env : Env} {ok : Sched → Op → Prop} {start s after : Sched}
    {ops : List Op} {c : Cpu} {target : Pid} {events : List WaitEvent}
    (goldfish : env.kernel = .goldfish) (hz : 100 ≤ env.hz) (init : Init start)
    (slices : SlicesPositive start) (reached : Transition.Run (step env) ok start ops s)
    (waits : Waits c target s)
    (run : Transition.Run (waitStep env)
      (fun state event => Waits c target state ∧ HarmlessEvent c target state event)
      s events after) :
    Transition.totalCost (waitStep env) (chargedTicks c) s events ≤ waitBound s c target := by
  have boot : Fit env start := ⟨init_sound env init, slices⟩
  have fit : Fit env s := by
    apply reached.invariant _ boot
    rintro state op next fit - moved
    exact ⟨step_sound fit.sound moved, step_slices fit.sound hz fit.slices moved⟩
  rw [waitBound_eq waits.2]
  apply run.cost_le_potential _ fit
  intro state event next fit waiting harmless moved
  obtain ⟨kept, single, paid⟩ := event_pays goldfish hz fit waiting harmless moved
  exact ⟨kept, single, fun still => paid still.1⟩

instance (c : Cpu) (target : Pid) (s : Sched) : Decidable (Waits c target s) :=
  inferInstanceAs (Decidable (_ ∧ _))

instance (c : Cpu) (target : Pid) (s : Sched) : (op : Op) → Decidable (Harmless c target s op)
  | .setUserNice _ _ | .pushTask _ _ | .migrateTask _ _ _ => inferInstanceAs (Decidable (_ ≠ _))
  | .setscheduler _ _ _ _ _ _ _ => inferInstanceAs (Decidable (_ ∧ _))
  | .rtMutexSetprio _ _ | .cgroupAttach _ _ | .schedMoveTask _ | .normalizeRtTask _ _
  | .schedulerTick _ => inferInstanceAs (Decidable False)
  | .fork _ _ | .wakeUpNewTask _ _ | .tryToWakeUp _ _ _ | .ttwuQueueRemote _ _
  | .schedTtwuPending _ | .setCurrentState _ _ | .schedule _ _ _ | .schedYield _
  | .pullWrrTask _ | .rtPeriodTimer _ _ _ | .balanceRuntime _ _ _ | .setCpusAllowed _ _ =>
      inferInstanceAs (Decidable True)

instance (c : Cpu) (target : Pid) (s : Sched) :
    (event : WaitEvent) → Decidable (HarmlessEvent c target s event)
  | .tick _ _ => inferInstanceAs (Decidable True)
  | .op op => inferInstanceAs (Decidable (Harmless c target s op))

def waitOps : List Op :=
  [.tryToWakeUp 1 1 0, .tryToWakeUp 3 1 0,
    .setscheduler Boot.root 1 Boot.userTask 6 0 true none,
    .setscheduler Boot.root 3 Boot.userTask 6 0 true none, .schedule 0 false false]

def waitState : Sched := (Boot.after .goldfish false waitOps).get (by decide)

def waitEvents : List WaitEvent :=
  [.tick 0 [(true, false)], .op (.setUserNice 1 5), .op (.tryToWakeUp 5 1 0),
    .tick 0 [(true, false)]]

theorem bounded_waiting_two :
    Transition.totalCost (waitStep (Boot.env .goldfish false)) (chargedTicks 0) waitState
      waitEvents ≤ waitBound waitState 0 3 := by
  have slices : SlicesPositive Boot.state := by
    intro p
    rcases Boot.task_cases p with ⟨c, -, idle⟩ | user
    · simp [Boot.state, idle, Boot.idleTask]
    · simp [Boot.state, user, Boot.userTask]
  exact bounded_waiting rfl (by decide) Boot.state_init slices
    (Transition.run_of_isSome Boot.state waitOps (by decide)) (by decide)
    ((Transition.run_of_isSome waitState waitEvents (by decide +kernel)).of_allAllowed
      (by decide +kernel))

end AndroidKernel
