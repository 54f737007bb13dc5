import AndroidKernel.RtEffects

/-!
The invariant of the whole system, kept by every operation: the queues agree
with the tasks, queued WRR tasks of 3.4 weigh what their group says, and each
CPU runs a task of its own that is queued or is its idle task. The proofs follow
the shapes of the operations: quiet, requeueing, joining, moving, scheduling.
-/

namespace AndroidKernel

structure Running (task : Pid → TaskStruct) (rq : Cpu → Rq) : Prop where
  curr_cpu : ∀ c, (task (rq c).curr).cpu = c
  curr_on : ∀ c, (task (rq c).curr).onRq = true ∨ (rq c).curr = (rq c).idle
  on_cpu : ∀ p, (task p).onCpu = true ↔ (rq (task p).cpu).curr = p
  idle_class : ∀ c, (task (rq c).idle).schedClass = .idle ∧ (task (rq c).idle).cpu = c
  idle_rests : ∀ p, (task p).schedClass = .idle →
    (rq (task p).cpu).idle = p ∧ (task p).state = 0 ∧ (task p).onRq = false
  stop_class : ∀ c p, (rq c).stop = some p → (task p).schedClass = .stop ∧ (task p).cpu = c
  stop_unique : ∀ p, (task p).schedClass = .stop → (rq (task p).cpu).stop = some p

def Rq.SameRoles (before after : Rq) : Prop :=
  after.curr = before.curr ∧ after.idle = before.idle ∧ after.stop = before.stop

theorem Rq.sameRoles_taken (kernel : Kernel) (wrapped : Bool) (task : TaskStruct) (p : Pid)
    (rq : Rq) : rq.SameRoles (rq.taken kernel wrapped task p) := by
  cases wrapped <;> cases kernel <;> cases cls : task.schedClass <;>
    simp [Rq.SameRoles, Rq.taken, Rq.dequeued, Rq.wrapDecNrRunning, Rq.hookDecNrRunning,
      Rq.decNrRunning, cls]

theorem Rq.sameRoles_put (kernel : Kernel) (wrapped head : Bool) (task : TaskStruct) (p : Pid)
    (rq : Rq) : rq.SameRoles (rq.put kernel wrapped head task p) := by
  cases wrapped <;> cases kernel <;> cases cls : task.schedClass <;>
    simp [Rq.SameRoles, Rq.put, Rq.enqueued, Rq.wrapIncNrRunning, Rq.hookIncNrRunning,
      Rq.incNrRunning, cls]

theorem Rq.SameRoles.trans {first second third : Rq} (one : first.SameRoles second)
    (two : second.SameRoles third) : first.SameRoles third :=
  ⟨two.1.trans one.1, two.2.1.trans one.2.1, two.2.2.trans one.2.2⟩

theorem sameRoles_update {rq : Cpu → Rq} {c : Cpu} {new : Rq} (same : (rq c).SameRoles new)
    (d : Cpu) : (rq d).SameRoles (Function.update rq c new d) := by
  by_cases here : d = c
  · subst here
    simpa using same
  · simp [Function.update_of_ne here, Rq.SameRoles]

theorem requeueAround_sameRoles (env : Env) (s : Sched) (c : Cpu) (p : Pid) (wrapped head : Bool)
    (change : TaskStruct → TaskStruct) (d : Cpu) :
    (s.rq d).SameRoles ((requeueAround env s c p wrapped change head).rq d) := by
  rw [requeueAround_rq]
  split
  · apply sameRoles_update
    exact (Rq.sameRoles_taken _ _ _ _ _).trans (Rq.sameRoles_put _ _ _ _ _ _)
  · exact ⟨rfl, rfl, rfl⟩

section Running
variable {task : Pid → TaskStruct} {rq rq' : Cpu → Rq}

theorem Running.roles (run : Running task rq) (same : ∀ c, (rq c).SameRoles (rq' c)) :
    Running task rq' where
  curr_cpu c := (same c).1 ▸ run.curr_cpu c
  curr_on c := by
    rw [(same c).1, (same c).2.1]
    exact run.curr_on c
  on_cpu p := by
    rw [(same _).1]
    exact run.on_cpu p
  idle_class c := (same c).2.1 ▸ run.idle_class c
  idle_rests p isIdle := by
    rw [(same _).2.1]
    exact run.idle_rests p isIdle
  stop_class c p named := run.stop_class c p ((same c).2.2 ▸ named)
  stop_unique p isStop := by
    rw [(same _).2.2]
    exact run.stop_unique p isStop

/-- A current task that is neither queued nor ordinary is the idle task, so an
ordinary task off the queues runs nowhere. -/
theorem Running.not_current (run : Running task rq) (p : Pid) (off : (task p).onRq = false)
    (busy : (task p).schedClass ≠ .idle) (c : Cpu) : (rq c).curr ≠ p := by
  rintro rfl
  rcases run.curr_on c with on | idle
  · simp [off] at on
  · exact busy (idle ▸ (run.idle_class c).1)

theorem Running.nowhere (run : Running task rq) {p : Pid} (idles : (rq (task p).cpu).curr ≠ p)
    (c : Cpu) : (rq c).curr ≠ p := by
  rintro rfl
  rw [run.curr_cpu c] at idles
  exact idles rfl

structure Keeps (before after : TaskStruct) : Prop where
  cpu : after.cpu = before.cpu
  onCpu : after.onCpu = before.onCpu
  onRq : after.onRq = before.onRq
  kind : Ordinary before ∧ Ordinary after ∨ after.schedClass = before.schedClass
  state : before.schedClass = .idle → after.state = before.state

theorem Keeps.idle_iff {before after : TaskStruct} (keeps : Keeps before after) :
    after.schedClass = .idle ↔ before.schedClass = .idle := by
  rcases keeps.kind with ⟨old, new⟩ | same
  · exact ⟨fun now => absurd now new.1, fun once => absurd once old.1⟩
  · rw [same]

theorem Keeps.stop_iff {before after : TaskStruct} (keeps : Keeps before after) :
    after.schedClass = .stop ↔ before.schedClass = .stop := by
  rcases keeps.kind with ⟨old, new⟩ | same
  · exact ⟨fun now => absurd now new.2, fun once => absurd once old.2⟩
  · rw [same]

theorem Running.keeps {task' : Pid → TaskStruct} (run : Running task rq)
    (keeps : ∀ p, Keeps (task p) (task' p)) : Running task' rq where
  curr_cpu c := (keeps _).cpu.trans (run.curr_cpu c)
  curr_on c := by
    rw [(keeps _).onRq]
    exact run.curr_on c
  on_cpu p := by
    rw [(keeps p).onCpu, (keeps p).cpu]
    exact run.on_cpu p
  idle_class c := by
    rw [(keeps _).idle_iff, (keeps _).cpu]
    exact run.idle_class c
  idle_rests p isIdle := by
    have once := (keeps p).idle_iff.mp isIdle
    rw [(keeps p).cpu, (keeps p).state once, (keeps p).onRq]
    exact run.idle_rests p once
  stop_class c p named := by
    rw [(keeps p).stop_iff, (keeps p).cpu]
    exact run.stop_class c p named
  stop_unique p isStop := by
    rw [(keeps p).cpu]
    exact run.stop_unique p ((keeps p).stop_iff.mp isStop)

/-- A task that runs nowhere may go anywhere and be queued or not. A stop task
stays on its CPU. -/
theorem Running.place (run : Running task rq) (p : Pid) (new : TaskStruct)
    (idles : (rq (task p).cpu).curr ≠ p) (busy : (task p).schedClass ≠ .idle)
    (offCpu : new.onCpu = false)
    (kind : Ordinary (task p) ∧ Ordinary new ∨
      new.schedClass = (task p).schedClass ∧ new.cpu = (task p).cpu) :
    Running (Function.update task p new) rq := by
  have nowhere := run.nowhere idles
  have notIdle : ∀ c, (rq c).idle ≠ p := by
    rintro c rfl
    exact busy (run.idle_class c).1
  have newBusy : new.schedClass ≠ .idle := by
    rcases kind with ⟨-, fine⟩ | ⟨same, -⟩
    · exact fine.1
    · rwa [same]
  refine ⟨fun c => ?_, fun c => ?_, fun q => ?_, fun c => ?_, fun q isIdle => ?_,
    fun c q named => ?_, fun q isStop => ?_⟩
  · rw [Function.update_of_ne (nowhere c)]
    exact run.curr_cpu c
  · rw [Function.update_of_ne (nowhere c)]
    exact run.curr_on c
  · by_cases same : q = p
    · subst same
      simp only [Function.update_self, offCpu]
      simpa using nowhere new.cpu
    · rw [Function.update_of_ne same]
      exact run.on_cpu q
  · rw [Function.update_of_ne (notIdle c)]
    exact run.idle_class c
  · by_cases same : q = p
    · subst same
      rw [Function.update_self] at isIdle
      exact absurd isIdle newBusy
    · rw [Function.update_of_ne same] at isIdle ⊢
      exact run.idle_rests q isIdle
  · have once := run.stop_class c q named
    by_cases same : q = p
    · subst same
      rw [Function.update_self]
      rcases kind with ⟨old, -⟩ | ⟨sameClass, sameCpu⟩
      · exact absurd once.1 old.2
      · rw [sameClass, sameCpu]
        exact once
    · rwa [Function.update_of_ne same]
  -- a stop task keeps its class and its CPU, so it stays the one its runqueue names
  · by_cases same : q = p
    · subst same
      rw [Function.update_self] at isStop ⊢
      rcases kind with ⟨-, fine⟩ | ⟨sameClass, sameCpu⟩
      · exact absurd isStop fine.2
      · rw [sameCpu]
        exact run.stop_unique q (sameClass ▸ isStop)
    · rw [Function.update_of_ne same] at isStop ⊢
      exact run.stop_unique q isStop

end Running

structure Sound (env : Env) (s : Sched) : Prop where
  queues : SchedOk env s.task s.rq
  weighed : Weighed env s.task
  running : Running s.task s.rq
  rt : RtOk env s (QueuedRt s.task)

theorem Keeps.of_ticked {env : Env} {before after : TaskStruct}
    (ticked : before.Ticked env after) : Keeps before after :=
  ⟨ticked.cpu, ticked.onCpu, ticked.onRq, Or.inr ticked.schedClass, fun _ => ticked.state⟩

theorem Keeps.refl (task : TaskStruct) : Keeps task task :=
  ⟨rfl, rfl, rfl, Or.inr rfl, fun _ => rfl⟩

theorem Keeps.ticked {env : Env} {before middle after : TaskStruct} (keeps : Keeps before middle)
    (ticked : middle.Ticked env after) : Keeps before after := by
  refine ⟨ticked.cpu.trans keeps.cpu, ticked.onCpu.trans keeps.onCpu,
    ticked.onRq.trans keeps.onRq, ?_, fun isIdle => ticked.state.trans (keeps.state isIdle)⟩
  have sameClass := ticked.schedClass
  rcases keeps.kind with ⟨old, new⟩ | same
  · exact Or.inl ⟨old, sameClass ▸ new.1, sameClass ▸ new.2⟩
  · exact Or.inr (sameClass.trans same)

theorem keeps_update {task : Pid → TaskStruct} {p : Pid} {new : TaskStruct}
    (keeps : Keeps (task p) new) (q : Pid) : Keeps (task q) (Function.update task p new q) := by
  by_cases same : q = p
  · subst same
    simpa using keeps
  · simpa [Function.update_of_ne same] using Keeps.refl (task q)

theorem Weighed.update {env : Env} {task : Pid → TaskStruct} (weighed : Weighed env task)
    (p : Pid) (new : TaskStruct)
    (fits : new.onRq = true → new.schedClass = .wrr →
      new.wrr.weight = pathWeight env (taskGroup env new)) :
    Weighed env (Function.update task p new) := by
  intro goldfish q
  by_cases same : q = p
  · subst same
    simpa using fits
  · simpa [Function.update_of_ne same] using weighed goldfish q

section Sound
variable {env : Env} {s next : Sched}

theorem Sound.quiet (sound : Sound env s) (quiet : Quiet env s next) : Sound env next where
  queues := sound.queues.quiet sound.weighed quiet
  weighed := sound.weighed.quiet quiet
  running := (sound.running.keeps fun p => .of_ticked (quiet.task p)).roles fun c =>
    ⟨(quiet.rq c).curr, (quiet.rq c).idle, (quiet.rq c).stop⟩
  rt := (sound.rt.quiet quiet.rt).congr fun c p => by
    simp only [QueuedRt, (quiet.task p).onRq, (quiet.task p).cpu, (quiet.task p).schedClass]

theorem Sound.queued_at (sound : Sound env s) {c : Cpu} {p : Pid}
    (member : p ∈ (s.rq c).wrr.queue) :
    (s.task p).onRq = true ∧ (s.task p).cpu = c ∧ (s.task p).schedClass = .wrr :=
  (has_entries _ _ _ _).mp (((sound.queues c).wrr.lists.mem_iff p).mp member)

/-- Taken off one CPU and put on one, the task is on no queue in between. -/
theorem absent_after_taken (sound : Sound env s) (c : Cpu) (p : Pid) (wrapped : Bool) :
    p ∉ (Function.update s.rq (s.task p).cpu
      ((s.rq (s.task p).cpu).taken env.kernel wrapped (s.task p) p) c).wrr.queue := by
  by_cases here : c = (s.task p).cpu
  · subst here
    rw [Function.update_self, taken_queue]
    split
    · exact (sound.queues _).wrr.lists.unique.not_mem_erase
    · rename_i notWrr
      exact fun member => notWrr (sound.queued_at member).2.2
  · rw [Function.update_of_ne here]
    exact fun member => here (sound.queued_at member).2.1.symm

theorem Sound.of_eq (sound : Sound env s) (sameTask : next.task = s.task)
    (sameRq : next.rq = s.rq) (sameRt : next.rt = s.rt) : Sound env next :=
  sound.quiet (Quiet.of_eq sameTask sameRq sameRt)

theorem Sound.of_others (sound : Sound env s) (sameTask : next.task = s.task)
    (sameRq : next.rq = s.rq) (rt : RtOk env next (QueuedRt next.task)) : Sound env next where
  queues := by
    rw [sameTask, sameRq]
    exact sound.queues
  weighed := by
    rw [sameTask]
    exact sound.weighed
  running := by
    rw [sameTask, sameRq]
    exact sound.running
  rt := rt

theorem Sound.edit (sound : Sound env s) (p : Pid) (f : TaskStruct → TaskStruct)
    (keeps : Keeps (s.task p) (f (s.task p)))
    (view : (s.task p).onRq = true → (f (s.task p)).entry = (s.task p).entry ∧
      (env.kernel = .goldfish → (f (s.task p)).wrr.weight = (s.task p).wrr.weight ∧
        taskGroup env (f (s.task p)) = taskGroup env (s.task p))) :
    Sound env (s.modifyTask p f) := by
  refine ⟨?_, ?_, sound.running.keeps (keeps_update keeps), ?_⟩
  · cases on : (s.task p).onRq with
    | false => exact sound.queues.edit p _ on (keeps.onRq.trans on)
    | true =>
        intro c
        have sameEntries : entries (s.modifyTask p f).task c = entries s.task c := by
          rw [Sched.modifyTask_task, entries_update, keeps.onRq, keeps.cpu, (view on).1]
          exact Function.update_eq_self p (entries s.task c)
        rw [sameEntries]
        refine (sound.queues c).congr_weight fun goldfish q _ => ?_
        by_cases same : q = p
        · subst same
          simp [weights, ((view on).2 goldfish).1]
        · exact (weights_update_of_ne p q _ same).symm
  · intro goldfish
    refine sound.weighed.update p _ (fun on isWrr => ?_) goldfish
    rw [keeps.onRq] at on
    obtain ⟨sameEntry, sameWeight, sameGroup⟩ := And.imp_right (· goldfish) (view on)
    have sameClass : (f (s.task p)).schedClass = (s.task p).schedClass :=
      congrArg Entry.cls sameEntry
    rw [sameWeight, sameGroup]
    exact sound.weighed goldfish p on (sameClass ▸ isWrr)
  · cases on : (s.task p).onRq with
    | false => exact sound.rt.place f on (keeps.onRq.trans on)
    | true =>
        have same := (view on).1
        have still : RtOk env (s.modifyTask p f) (QueuedRt s.task) := by
          refine sound.rt.edit rfl fun c q _ => ?_
          by_cases here : q = p
          · subst here
            rw [Sched.modifyTask_task, Function.update_self]
            exact ⟨congrArg Entry.prio same, congrArg Entry.normalPrio same,
              congrArg Entry.group same⟩
          · rw [Sched.modifyTask_task, Function.update_of_ne here]
            exact ⟨rfl, rfl, rfl⟩
        refine still.congr fun c q => ?_
        have sameClass : (f (s.task p)).schedClass = (s.task p).schedClass :=
          congrArg Entry.cls same
        rw [Sched.modifyTask_task, queuedRt_update, keeps.onRq, keeps.cpu, sameClass]
        by_cases here : q = p
        · subst here
          simp [QueuedRt]
        · simp [here]

theorem Sound.requeue (sound : Sound env s) (p : Pid) (on : (s.task p).onRq = true)
    (busy : (s.task p).schedClass ≠ .idle) (changed : TaskStruct)
    (keeps : Keeps (s.task p) changed) (wrapped head : Bool)
    (task : next.task = Function.update s.task p (enqueuedTask env changed))
    (rq : next.rq = Function.update s.rq (s.task p).cpu
      (((s.rq (s.task p).cpu).taken env.kernel wrapped (s.task p) p).put env.kernel wrapped head
        (enqueuedTask env changed) p))
    (rt : RtOk env next (QueuedRt next.task)) : Sound env next := by
  have keeps' := keeps.ticked (enqueuedTask_ticked env changed)
  have still : (enqueuedTask env changed).schedClass ≠ .idle := fun isIdle =>
    busy (keeps'.idle_iff.mp isIdle)
  refine ⟨?_, ?_, ?_, rt⟩
  · rw [task, rq]
    exact sound.queues.requeue p on busy _ (keeps'.onRq.trans on) keeps'.cpu still wrapped head
  · rw [task]
    exact sound.weighed.update p _ fun _ isWrr => enqueuedTask_weighed env changed isWrr
  · rw [task, rq]
    refine (sound.running.keeps (keeps_update keeps')).roles fun c => sameRoles_update ?_ c
    exact (Rq.sameRoles_taken _ _ _ _ _).trans (Rq.sameRoles_put _ _ _ _ _ _)

theorem requeueAround_sound (sound : Sound env s) (p : Pid)
    (busy : (s.task p).schedClass ≠ .idle) (change : TaskStruct → TaskStruct)
    (keeps : Keeps (s.task p) (change (s.task p))) (wrapped head : Bool) :
    Sound env (requeueAround env s (s.task p).cpu p wrapped change head) := by
  cases on : (s.task p).onRq with
  | true =>
      refine sound.requeue p on busy (change (s.task p)) keeps wrapped head ?_ ?_ ?_
      · rw [requeueAround_task, on, if_pos rfl]
      · rw [requeueAround_rq, on, if_pos rfl]
      · exact requeueAround_rtOk sound.rt p wrapped head change keeps.onRq keeps.cpu
  | false =>
      have edited : Sound env (s.modifyTask p change) :=
        sound.edit p change keeps fun queued => by simp [on] at queued
      refine edited.of_others ?_ ?_ ?_
      · simp [requeueAround_task, on]
      · simp [requeueAround_rq, on]
      · exact requeueAround_rtOk sound.rt p wrapped head change keeps.onRq keeps.cpu

theorem ttwuActivate_sound (sound : Sound env s) (p : Pid) (off : (s.task p).onRq = false)
    (busy : (s.task p).schedClass ≠ .idle) : Sound env (ttwuActivate env s (s.task p).cpu p) := by
  let new : TaskStruct := { enqueuedTask env (s.task p) with onRq := true }
  have ticked := enqueuedTask_ticked env (s.task p)
  have task : (ttwuActivate env s (s.task p).cpu p).task = Function.update s.task p new := by
    simp [ttwuActivate, activateTask_task, new]
  have rq : (ttwuActivate env s (s.task p).cpu p).rq = Function.update s.rq new.cpu
      ((s.rq new.cpu).put env.kernel true false new p) := by
    have sameCpu : new.cpu = (s.task p).cpu := ticked.cpu
    rw [sameCpu]
    simp only [ttwuActivate, Sched.modifyTask_rq, activateTask_rq]
    rfl
  have newClass : new.schedClass = (s.task p).schedClass := ticked.schedClass
  refine ⟨?_, ?_, ?_, ttwuActivate_rtOk sound.rt p off⟩
  · rw [task, rq]
    exact sound.queues.join p off new rfl (by rwa [newClass]) false
  · rw [task]
    exact sound.weighed.update p new fun _ isWrr => enqueuedTask_weighed env _ isWrr
  · rw [task, rq]
    have idles := sound.running.not_current p off busy (s.task p).cpu
    have offCpu : (s.task p).onCpu = false := by
      cases onCpu : (s.task p).onCpu with
      | false => rfl
      | true => exact absurd ((sound.running.on_cpu p).mp onCpu) idles
    refine (sound.running.place p new idles busy ?_ (Or.inr ⟨newClass, ticked.cpu⟩)).roles
      fun c => sameRoles_update (Rq.sameRoles_put _ _ _ _ _ _) c
    exact ticked.onCpu.trans offCpu

theorem Sound.offCpu (sound : Sound env s) (p : Pid)
    (idles : (s.rq (s.task p).cpu).curr ≠ p) : (s.task p).onCpu = false := by
  cases onCpu : (s.task p).onCpu with
  | false => rfl
  | true => exact absurd ((sound.running.on_cpu p).mp onCpu) idles

theorem Sound.place (sound : Sound env s) (p : Pid) (f : TaskStruct → TaskStruct)
    (off : (s.task p).onRq = false) (stays : (f (s.task p)).onRq = false)
    (busy : (s.task p).schedClass ≠ .idle) (offCpu : (f (s.task p)).onCpu = false)
    (kind : Ordinary (s.task p) ∧ Ordinary (f (s.task p)) ∨
      (f (s.task p)).schedClass = (s.task p).schedClass ∧ (f (s.task p)).cpu = (s.task p).cpu) :
    Sound env (s.modifyTask p f) where
  queues := sound.queues.edit p _ off stays
  weighed := sound.weighed.update p _ fun on => by simp [stays] at on
  running := sound.running.place p _ (sound.running.not_current p off busy _) busy offCpu kind
  rt := sound.rt.place f off stays

theorem moveQueued_task (env : Env) (s : Sched) (p : Pid) (src dest : Cpu) :
    (moveQueued env s p src dest).task = Function.update s.task p
      (enqueuedTask env ((s.task p).setCpu env dest)) := by
  simp [moveQueued, activateTask_task, setTaskCpu, deactivateTask_task]

theorem moveQueued_rq (env : Env) (s : Sched) (p : Pid) (src dest : Cpu) :
    (moveQueued env s p src dest).rq =
      Function.update
        (Function.update s.rq src ((s.rq src).taken env.kernel true (s.task p) p)) dest
        ((Function.update s.rq src ((s.rq src).taken env.kernel true (s.task p) p) dest).put
          env.kernel true false (enqueuedTask env ((s.task p).setCpu env dest)) p) := by
  simp [moveQueued, activateTask_rq, setTaskCpu, deactivateTask_rq, deactivateTask_task]

theorem moveQueued_sameRoles (env : Env) (s : Sched) (p : Pid) (src dest : Cpu) (c : Cpu) :
    (s.rq c).SameRoles ((moveQueued env s p src dest).rq c) := by
  rw [moveQueued_rq]
  refine (sameRoles_update ?_ c).trans (sameRoles_update ?_ c)
  · exact Rq.sameRoles_taken _ _ _ _ _
  · exact Rq.sameRoles_put _ _ _ _ _ _

theorem SchedOk.moveQueued (queues : SchedOk env s.task s.rq) (p : Pid) (dest : Cpu)
    (on : (s.task p).onRq = true) (busy : (s.task p).schedClass ≠ .idle) :
    SchedOk env (moveQueued env s p (s.task p).cpu dest).task
      (moveQueued env s p (s.task p).cpu dest).rq := by
  let new := enqueuedTask env ((s.task p).setCpu env dest)
  have ticked : ((s.task p).setCpu env dest).Ticked env new :=
    enqueuedTask_ticked env _
  have newClass : new.schedClass = (s.task p).schedClass := ticked.schedClass
  have newCpu : new.cpu = dest := ticked.cpu
  let off : TaskStruct := { s.task p with onRq := false }
  have left := queues.leave p on busy off rfl
  have joined := left.join p (by simp [off]) new (ticked.onRq.trans on)
    (by rwa [newClass]) false
  rw [Function.update_idem, newCpu] at joined
  rw [moveQueued_task, moveQueued_rq]
  exact joined

theorem moveQueued_sound (sound : Sound env s) (p : Pid) (dest : Cpu)
    (on : (s.task p).onRq = true) (ordinary : Ordinary (s.task p))
    (idles : (s.rq (s.task p).cpu).curr ≠ p) :
    Sound env (moveQueued env s p (s.task p).cpu dest) := by
  let new := enqueuedTask env ((s.task p).setCpu env dest)
  have ticked : ((s.task p).setCpu env dest).Ticked env new :=
    enqueuedTask_ticked env _
  have newClass : new.schedClass = (s.task p).schedClass := ticked.schedClass
  have task : (moveQueued env s p (s.task p).cpu dest).task =
      Function.update s.task p new := moveQueued_task env s p _ dest
  have rq := moveQueued_rq env s p (s.task p).cpu dest
  refine ⟨sound.queues.moveQueued p dest on ordinary.1, ?_, ?_, moveQueued_rtOk sound.rt p dest on⟩
  · rw [task]
    exact sound.weighed.update p new fun _ isWrr => enqueuedTask_weighed env _ isWrr
  · rw [task, rq]
    have newOrdinary : Ordinary new := by
      rw [Ordinary, newClass]
      exact ordinary
    have placed := sound.running.place p new idles ordinary.1
      (ticked.onCpu.trans (sound.offCpu p idles)) (Or.inl ⟨ordinary, newOrdinary⟩)
    apply placed.roles
    intro c
    rw [← rq]
    exact moveQueued_sameRoles env s p _ dest c

end Sound

end AndroidKernel
