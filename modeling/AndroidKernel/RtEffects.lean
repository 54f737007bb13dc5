import AndroidKernel.Effects

/-!
What the real-time runqueues hold after a task is taken off, put on, changed in
between or moved to another CPU: in each case the queued tasks of the real-time
class, which is part of the invariant of the whole system.
-/

namespace AndroidKernel

section RtOk
variable {env : Env} {s : Sched} {on : Cpu → Pid → Prop}

theorem dequeueTask_rtOk (ok : RtOk env s on) (c : Cpu) (p : Pid)
    (isRt : on c p → (s.task p).schedClass = .rt) :
    RtOk env (dequeueTask env s c p) fun d q => on d q ∧ ¬ (d = c ∧ q = p) := by
  by_cases rtClass : (s.task p).schedClass = .rt
  · have unfolded : dequeueTask env s c p =
        dequeueTaskRt env (updateRqClock env s c) c p := by
      simp only [dequeueTask, updateRqClock_task, rtClass]
    have clocked : RtOk env (updateRqClock env s c) on := ok.of_eq rfl rfl
    rw [unfolded]
    exact clocked.dequeueTaskRt c p
  · have same := ok.of_eq (dequeueTask_task env s c p) (dequeueTask_rt env s c p rtClass)
    refine same.congr fun d q => ⟨fun queued => ⟨queued, ?_⟩, And.left⟩
    rintro ⟨rfl, rfl⟩
    exact rtClass (isRt queued)

theorem enqueueTask_rtOk (ok : RtOk env s on) (c : Cpu) {p : Pid} (fresh : ∀ d, ¬ on d p)
    (head : Bool) : RtOk env (enqueueTask env s c p head) fun d q =>
      on d q ∨ (s.task p).schedClass = .rt ∧ d = c ∧ q = p := by
  by_cases rtClass : (s.task p).schedClass = .rt
  · have unfolded : enqueueTask env s c p head =
        enqueueTaskRt env (updateRqClock env s c) c p head := by
      simp only [enqueueTask, updateRqClock_task, rtClass]
    have clocked : RtOk env (updateRqClock env s c) on := ok.of_eq rfl rfl
    rw [unfolded]
    simpa only [rtClass, true_and] using clocked.enqueueTaskRt c p head
  · have edited : RtOk env (enqueueTask env s c p head) on := by
      refine (ok.modifyTask fresh fun _ => enqueuedTask env (s.task p)).of_eq ?_ ?_
      · exact enqueueTask_task env s c p head
      · exact enqueueTask_rt env s c p head rtClass
    exact edited.congr fun d q => by simp [rtClass]

theorem takeOff_rtOk (ok : RtOk env s on) (c : Cpu) (p : Pid) (wrapped : Bool)
    (isRt : on c p → (s.task p).schedClass = .rt) :
    RtOk env (takeOff env s c p wrapped) fun d q => on d q ∧ ¬ (d = c ∧ q = p) := by
  cases wrapped with
  | false => exact dequeueTask_rtOk ok c p isRt
  | true => exact (dequeueTask_rtOk ok c p isRt).of_eq rfl rfl

theorem putOn_rtOk (ok : RtOk env s on) (c : Cpu) {p : Pid} (fresh : ∀ d, ¬ on d p)
    (wrapped head : Bool) : RtOk env (putOn env s c p wrapped head) fun d q =>
      on d q ∨ (s.task p).schedClass = .rt ∧ d = c ∧ q = p := by
  cases wrapped with
  | false => exact enqueueTask_rtOk ok c fresh head
  | true => exact (enqueueTask_rtOk ok c fresh head).of_eq rfl rfl

end RtOk

def QueuedRt (task : Pid → TaskStruct) (c : Cpu) (p : Pid) : Prop :=
  (task p).onRq = true ∧ (task p).cpu = c ∧ (task p).schedClass = .rt

section QueuedRt
variable {env : Env} {s next : Sched}

theorem queuedRt_update (task : Pid → TaskStruct) (p : Pid) (new : TaskStruct) (d : Cpu)
    (q : Pid) : QueuedRt (Function.update task p new) d q ↔
      (QueuedRt task d q ∧ q ≠ p) ∨
        q = p ∧ new.onRq = true ∧ new.cpu = d ∧ new.schedClass = .rt := by
  by_cases same : q = p
  · subst same
    simp [QueuedRt]
  · simp [QueuedRt, same]

theorem RtOk.place (ok : RtOk env s (QueuedRt s.task)) {p : Pid} (f : TaskStruct → TaskStruct)
    (off : (s.task p).onRq = false) (stays : (f (s.task p)).onRq = false) :
    RtOk env (s.modifyTask p f) (QueuedRt (s.modifyTask p f).task) := by
  have absent (c : Cpu) : ¬ QueuedRt s.task c p := fun queued =>
    Bool.false_ne_true (off.symm.trans queued.1)
  refine (ok.modifyTask absent f).congr fun d q => ?_
  rw [Sched.modifyTask_task, queuedRt_update, stays]
  constructor
  · rintro queued
    refine .inl ⟨queued, ?_⟩
    rintro rfl
    exact absent d queued
  · rintro (⟨queued, -⟩ | ⟨-, on, -⟩)
    · exact queued
    · exact absurd on Bool.false_ne_true

theorem RtOk.taken (ok : RtOk env s (QueuedRt s.task)) (p : Pid) (wrapped : Bool) :
    RtOk env (takeOff env s (s.task p).cpu p wrapped) fun d q => QueuedRt s.task d q ∧ q ≠ p := by
  refine (takeOff_rtOk ok (s.task p).cpu p wrapped fun queued => queued.2.2).congr fun d q => ?_
  constructor
  · rintro ⟨queued, elsewhere⟩
    refine ⟨queued, ?_⟩
    rintro rfl
    exact elsewhere ⟨queued.2.1.symm, rfl⟩
  · rintro ⟨queued, other⟩
    exact ⟨queued, fun both => other both.2⟩

theorem RtOk.put {task : Pid → TaskStruct} {p : Pid}
    (ok : RtOk env s fun d q => QueuedRt task d q ∧ q ≠ p) (c : Cpu) (wrapped head : Bool)
    (new : TaskStruct) (on : new.onRq = true) (cpu : new.cpu = c)
    (cls : new.schedClass = (s.task p).schedClass) :
    RtOk env (putOn env s c p wrapped head) (QueuedRt (Function.update task p new)) := by
  refine (putOn_rtOk ok c (fun d queued => queued.2 rfl) wrapped head).congr fun d q => ?_
  rw [queuedRt_update, on, cpu, cls]
  constructor
  · rintro (kept | ⟨isRt, rfl, rfl⟩)
    · exact .inl kept
    · exact .inr ⟨rfl, rfl, rfl, isRt⟩
  · rintro (kept | ⟨rfl, -, rfl, isRt⟩)
    · exact .inl kept
    · exact .inr ⟨isRt, rfl, rfl⟩

theorem requeueAround_rtOk (ok : RtOk env s (QueuedRt s.task)) (p : Pid) (wrapped head : Bool)
    (change : TaskStruct → TaskStruct) (onRq : (change (s.task p)).onRq = (s.task p).onRq)
    (cpu : (change (s.task p)).cpu = (s.task p).cpu) :
    RtOk env (requeueAround env s (s.task p).cpu p wrapped change head)
      (QueuedRt (requeueAround env s (s.task p).cpu p wrapped change head).task) := by
  have running (t : Sched) (on : Cpu → Pid → Prop) (off : ∀ d, ¬ on d p)
      (base : RtOk env t on) (current : Bool) :
      let put := if current then classPutPrev env t (s.task p).cpu p else t
      let changed := put.modifyTask p change
      let set := if current then setCurrTask env changed (s.task p).cpu else changed
      RtOk env set on := by
    cases current with
    | false => exact base.modifyTask off change
    | true =>
        have put := base.quiet (classPutPrev_rtQuiet env t (s.task p).cpu p)
        exact (put.modifyTask off change).of_eq (by simp) (by simp)
  rw [requeueAround_task, requeueAround_eq]
  simp only
  cases on : (s.task p).onRq with
  | false =>
      have absent (d : Cpu) : ¬ QueuedRt s.task d p := fun queued =>
        Bool.false_ne_true (on.symm.trans queued.1)
      simp only [Bool.false_eq_true, if_false]
      refine (running s _ absent ok _).congr fun d q => ?_
      rw [queuedRt_update, onRq, on]
      constructor
      · rintro queued
        refine .inl ⟨queued, ?_⟩
        rintro rfl
        exact absent d queued
      · rintro (⟨queued, -⟩ | ⟨-, clash, -⟩)
        · exact queued
        · exact absurd clash Bool.false_ne_true
  | true =>
      have ticked := enqueuedTask_ticked env (change (s.task p))
      simp only [if_true]
      refine (running _ _ (fun d queued => queued.2 rfl) (ok.taken p wrapped) _).put _ _ _ _
        (ticked.onRq.trans (onRq.trans on)) (ticked.cpu.trans cpu) ?_
      rw [ticked.schedClass]
      split_ifs <;> simp

theorem requeue_rtOk (ok : RtOk env s (QueuedRt s.task)) {p : Pid} (on : (s.task p).onRq = true)
    (change : TaskStruct → TaskStruct) (onRq : (change (s.task p)).onRq = (s.task p).onRq)
    (cpu : (change (s.task p)).cpu = (s.task p).cpu) (wrapped head : Bool) :
    let next := putOn env ((takeOff env s (s.task p).cpu p wrapped).modifyTask p change)
      (s.task p).cpu p wrapped head
    RtOk env next (QueuedRt next.task) := by
  have off := (ok.taken p wrapped).modifyTask (fun d queued => queued.2 rfl) change
  have ticked := enqueuedTask_ticked env (change (s.task p))
  have task : (putOn env ((takeOff env s (s.task p).cpu p wrapped).modifyTask p change)
      (s.task p).cpu p wrapped head).task =
        Function.update s.task p (enqueuedTask env (change (s.task p))) := by
    simp [putOn_task]
  intro next
  rw [task]
  refine off.put _ wrapped head _ (ticked.onRq.trans (onRq.trans on)) (ticked.cpu.trans cpu) ?_
  rw [ticked.schedClass]
  simp

theorem leave_rtOk (ok : RtOk env s (QueuedRt s.task)) (p : Pid) :
    let next := (deactivateTask env s (s.task p).cpu p).modifyTask p fun task =>
      { task with onRq := false }
    RtOk env next (QueuedRt next.task) := by
  have off := (ok.taken p true).modifyTask (fun d queued => queued.2 rfl)
    fun task => { task with onRq := false }
  refine off.congr fun d q => ?_
  rw [Sched.modifyTask_task, deactivateTask_task, queuedRt_update]
  simp

theorem ttwuActivate_rtOk (ok : RtOk env s (QueuedRt s.task)) (p : Pid)
    (off : (s.task p).onRq = false) :
    RtOk env (ttwuActivate env s (s.task p).cpu p)
      (QueuedRt (ttwuActivate env s (s.task p).cpu p).task) := by
  have absent (d : Cpu) (q : Pid) : QueuedRt s.task d q ↔ QueuedRt s.task d q ∧ q ≠ p := by
    refine ⟨fun queued => ⟨queued, ?_⟩, And.left⟩
    rintro rfl
    exact Bool.false_ne_true (off.symm.trans queued.1)
  have ticked := enqueuedTask_ticked env (s.task p)
  have task : (ttwuActivate env s (s.task p).cpu p).task =
      Function.update s.task p { enqueuedTask env (s.task p) with onRq := true } := by
    simp [ttwuActivate, activateTask_task]
  have put := (ok.congr absent).put (s.task p).cpu true false
    { enqueuedTask env (s.task p) with onRq := true } rfl ticked.cpu ticked.schedClass
  rw [task]
  refine put.edit rfl fun c q _ => ?_
  rw [task, putOn_task]
  by_cases same : q = p
  · subst same
    simp
  · simp [Function.update_of_ne same]

theorem moveQueued_rtOk (ok : RtOk env s (QueuedRt s.task)) (p : Pid) (dest : Cpu)
    (on : (s.task p).onRq = true) :
    RtOk env (moveQueued env s p (s.task p).cpu dest)
      (QueuedRt (moveQueued env s p (s.task p).cpu dest).task) := by
  have off := (ok.taken p true).modifyTask (fun d queued => queued.2 rfl)
    (TaskStruct.setCpu env dest)
  have ticked := enqueuedTask_ticked env ((s.task p).setCpu env dest)
  have task : (moveQueued env s p (s.task p).cpu dest).task = Function.update s.task p
      (enqueuedTask env ((s.task p).setCpu env dest)) := by
    simp [moveQueued, activateTask_task, setTaskCpu, deactivateTask_task]
  rw [task]
  refine off.put dest true false _ (ticked.onRq.trans on) ticked.cpu ?_
  rw [ticked.schedClass]
  simp

end QueuedRt

end AndroidKernel
