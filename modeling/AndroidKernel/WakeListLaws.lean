import AndroidKernel.Effects
import AndroidKernel.WakeListRuns

/-!
No wake-up is lost or done twice on its way through another CPU's list, in any
interleaving and across CPUs that go down. The activation of a task that was
taken from a list is the step `sched_ttwu_pending` of the scheduler, with what
its caller promises.
-/

namespace AndroidKernel.WakeList

variable {nrCpuIds : Nat} {start s : State} {ops : List Op}

def Op.carries : Op → Prop
  | .remote _ | .queue _ _ _ | .push _ | .send _ | .interrupt _ | .take _ | .drain _ => True
  | _ => False

def Agrees (sched : Sched) (s : State) : Prop :=
  ∀ p, (sched.task p).state = s.state p ∧ (sched.task p).onRq = s.onRq p ∧
    (sched.task p).cpu = s.cpu p

theorem agrees_activate (env : Env) {sched : Sched} (agrees : Agrees sched s) (c : Cpu)
    (p : Pid) :
    Agrees (AndroidKernel.ttwuDoActivate env sched c p) (ttwuDoActivate s p) := by
  intro q
  obtain ⟨state, onRq, cpu⟩ := agrees q
  by_cases same : q = p
  · subst same
    have kept := (enqueuedTask_ticked env (sched.task q)).cpu
    simp [ttwuDoActivate, AndroidKernel.ttwuDoActivate, ttwuDoWakeup, ttwuActivate,
      activateTask_task, kept, cpu]
  · simp [ttwuDoActivate, AndroidKernel.ttwuDoActivate, ttwuDoWakeup, ttwuActivate,
      activateTask_task, Function.update_of_ne same, state, onRq, cpu]

theorem Sound.draining {place : Pid → Place} {contents taken : Cpu → List Pid} {c : Cpu}
    {p : Pid} (sound : Sound nrCpuIds s place contents taken)
    (at_ : s.pc c = .draining (some p)) :
    s.state p = taskWaking ∧ s.onRq p = false ∧ s.cpu p = c := by
  obtain ⟨-, spot⟩ := sound.head at_
  have somewhere : place p ≠ .nowhere := by simp [spot]
  exact ⟨(sound.waking p).mpr somewhere, sound.off p somewhere, sound.home p c (.inr spot)⟩

/-- One turn of the loop over a list is the step of the scheduler for that task, which
may be taken. -/
theorem drainOne_scheduler (env : Env) {sched : Sched} (agrees : Agrees sched s)
    {place : Pid → Place} {contents taken : Cpu → List Pid} {c : Cpu} {p : Pid}
    (sound : Sound nrCpuIds s place contents taken) (at_ : s.pc c = .draining (some p)) :
    ((sched.task p).state = taskWaking ∧ ¬ (sched.task p).onRq) ∧
      Agrees (schedTtwuPending env sched p) (drainOne s c p) := by
  obtain ⟨waking, off, -⟩ := sound.draining at_
  obtain ⟨state, onRq, -⟩ := agrees p
  refine ⟨⟨state.trans waking, by simp [onRq, off]⟩, ?_⟩
  exact agrees_activate (s := setPc s c (.draining (s.wakeEntry p))) env agrees _ p

/-- A wake-up that has set `TASK_WAKING` activates its task once, and a task that is about
to be activated is not on a runqueue. -/
theorem wakeups_once (init : Init start)
    (run : Transition.Run (step nrCpuIds) (fun _ _ => True) start ops s) :
    (∀ p, s.begun p = s.activated p + if s.state p = taskWaking then 1 else 0) ∧
      (∀ w p, s.pc w = .placing p → s.state p = taskWaking ∧ s.onRq p = false) ∧
      ∀ c p, s.pc c = .draining (some p) →
        s.state p = taskWaking ∧ s.onRq p = false ∧ s.cpu p = c := by
  obtain ⟨place, contents, taken, sound⟩ := reachable_sound init run
  refine ⟨?_, ?_, fun c p at_ => sound.draining at_⟩
  · intro p
    rw [sound.count p]
    by_cases spot : place p = .nowhere
    · have awake : s.state p ≠ taskWaking := fun waking => (sound.waking p).mp waking spot
      rw [if_pos spot, if_neg awake]
    · rw [if_neg spot, if_pos ((sound.waking p).mpr spot)]
  · intro w p at_
    have inHand : place p = .waker w := (sound.inHand w p).mp (by rw [at_]; rfl)
    have somewhere : place p ≠ .nowhere := by simp [inHand]
    exact ⟨(sound.waking p).mpr somewhere, sound.off p somewhere⟩

theorem busy_steps {c : Cpu} (busy : s.pc c ≠ .free) {dest : Cpu}
    (up : s.online dest = true) : ∃ op : Op, op.carries ∧ (step nrCpuIds s op).isSome := by
  cases at_ : s.pc c with
  | free => exact absurd at_ busy
  | checked p => exact ⟨.remote c, trivial, by simp [step, at_]⟩
  | placing p => exact ⟨.queue c dest true, trivial, by simp [step, at_, up]⟩
  | pushing p there link => exact ⟨.push c, trivial, by simp [step, at_]⟩
  | sending p there => exact ⟨.send c, trivial, by simp [step, at_]⟩
  | entered => exact ⟨.take c, trivial, by simp [step, at_]⟩
  | draining list => cases list <;> exact ⟨.drain c, trivial, by simp [step, at_]⟩

/-- A list that is not empty belongs to a CPU that is online and has been announced to it,
or will be; while a task is in `TASK_WAKING` some CPU can carry a wake-up on. -/
theorem waking_not_stuck (init : Init start)
    (run : Transition.Run (step nrCpuIds) (fun _ _ => True) start ops s) :
    (∀ c, s.wakeList c ≠ none → s.online c = true ∧
        (s.ipi c = true ∨ s.pc c = .entered ∨ ∃ w p, s.pc w = .sending p c)) ∧
      ∀ p dest, s.state p = taskWaking → s.online dest = true →
        ∃ op : Op, op.carries ∧ (step nrCpuIds s op).isSome := by
  obtain ⟨place, contents, taken, sound⟩ := reachable_sound init run
  have listed (c : Cpu) (some_ : contents c ≠ []) : s.online c = true ∧
      (s.ipi c = true ∨ s.pc c = .entered ∨ ∃ w p, s.pc w = .sending p c) := by
    refine ⟨?_, sound.announced c some_⟩
    by_contra off
    exact some_ (sound.down c (Bool.eq_false_iff.mpr off))
  refine ⟨?_, ?_⟩
  · intro c some_
    apply listed c
    intro none_
    have chain := sound.listed c
    rw [none_] at chain
    exact some_ chain
  · intro p dest waking up
    cases spot : place p with
    | nowhere => exact absurd spot ((sound.waking p).mp waking)
    | waker w =>
        have inHand := (sound.inHand w p).mpr spot
        refine busy_steps (c := w) ?_ up
        intro free
        simp [free, held] at inHand
    | taken c =>
        have inside := (sound.onTaken c p).mpr spot
        refine busy_steps (c := c) ?_ up
        intro free
        have chain := sound.drained c
        rw [free] at chain
        rw [chain_none.mp chain] at inside
        exact absurd inside List.not_mem_nil
    | listed c =>
        have inside := (sound.onList c p).mpr spot
        obtain ⟨alive, pending | entered | ⟨w, q, sends⟩⟩ :=
          listed c (List.ne_nil_of_mem inside)
        · by_cases free : s.pc c = .free
          · exact ⟨.interrupt c, trivial, by simp [step, pending, free, alive]⟩
          · exact busy_steps free up
        · exact busy_steps (c := c) (by simp [entered]) up
        · exact busy_steps (c := w) (by simp [sends]) up

structure Activated (s next : State) (c : Cpu) (nodes : List Pid) : Prop where
  done : ∀ p ∈ nodes, next.onRq p = true ∧ next.state p = 0 ∧
    next.activated p = s.activated p + 1
  others : ∀ p ∉ nodes, next.onRq p = s.onRq p ∧ next.state p = s.state p ∧
    next.activated p = s.activated p
  same : next.cpu = s.cpu ∧ next.wakeList = s.wakeList ∧ next.ipi = s.ipi
  idle : next.pc = Function.update s.pc c .free

/-- The loop, when nobody interferes, by induction on the list. -/
theorem drain_run (nrCpuIds : Nat) {c : Cpu} {head : Option Pid} {nodes : List Pid}
    (at_ : s.pc c = .draining head) (chain : Chain s.wakeEntry head nodes)
    (unique : nodes.Nodup) :
    ∃ next, Transition.Run (step nrCpuIds) (fun _ _ => True) s
      (List.replicate (nodes.length + 1) (.drain c)) next ∧ Activated s next c nodes := by
  induction nodes generalizing s head with
  | nil =>
      obtain rfl : head = none := chain
      have moved : step nrCpuIds s (.drain c) = some (setPc s c .free) := by simp [step, at_]
      refine ⟨setPc s c .free, .next trivial moved (.refl _), ?_⟩
      exact ⟨fun _ inside => absurd inside List.not_mem_nil, fun _ _ => ⟨rfl, rfl, rfl⟩,
        ⟨rfl, rfl, rfl⟩, rfl⟩
  | cons p rest ih =>
      obtain ⟨rfl, tail⟩ := chain
      obtain ⟨apart, unique⟩ := List.nodup_cons.mp unique
      have moved : step nrCpuIds s (.drain c) = some (drainOne s c p) := by simp [step, at_]
      have at' : (drainOne s c p).pc c = .draining (s.wakeEntry p) :=
        Function.update_self ..
      obtain ⟨next, run, after⟩ := ih at' tail unique
      refine ⟨next, .next trivial moved run, ?_⟩
      refine ⟨?_, ?_, after.same, ?_⟩
      · intro q inside
        rcases List.mem_cons.mp inside with rfl | inside
        · obtain ⟨queued, state, count⟩ := after.others q apart
          simp only [drainOne, ttwuDoActivate, Function.update_self] at queued state count
          exact ⟨queued, state, count⟩
        · have other : q ≠ p := fun same => apart (same ▸ inside)
          obtain ⟨queued, state, count⟩ := after.done q inside
          refine ⟨queued, state, count.trans ?_⟩
          simp [drainOne, ttwuDoActivate, setPc, Function.update_of_ne other]
      · intro q outside
        rw [List.mem_cons, not_or] at outside
        obtain ⟨queued, state, count⟩ := after.others q outside.2
        simp only [drainOne, ttwuDoActivate, setPc, Function.update_of_ne outside.1]
          at queued state count
        exact ⟨queued, state, count⟩
      · rw [after.idle]
        exact Function.update_idem ..

def QueuedFor (s : State) (c : Cpu) (p : Pid) : Prop :=
  s.state p = taskWaking ∧ s.cpu p = c ∧ ∀ w, held (s.pc w) ≠ some p

theorem Sound.queuedFor {place : Pid → Place} {contents taken : Cpu → List Pid} {c : Cpu}
    (sound : Sound nrCpuIds s place contents taken) (idle : s.pc c = .free) (p : Pid) :
    p ∈ contents c ↔ QueuedFor s c p := by
  constructor
  · intro inside
    have spot := (sound.onList c p).mp inside
    refine ⟨(sound.waking p).mpr (by simp [spot]), sound.home p c (.inl spot), ?_⟩
    intro w holds
    have inHand := (sound.inHand w p).mp holds
    rw [spot] at inHand
    exact Place.noConfusion inHand
  · rintro ⟨waking, home, free⟩
    cases spot : place p with
    | nowhere => exact absurd spot ((sound.waking p).mp waking)
    | waker w => exact absurd ((sound.inHand w p).mpr spot) (free w)
    | listed d =>
        obtain rfl : d = c := (sound.home p d (.inl spot)).symm.trans home
        exact (sound.onList d p).mpr spot
    | taken d =>
        obtain rfl : d = c := (sound.home p d (.inr spot)).symm.trans home
        have inside := (sound.onTaken d p).mpr spot
        have chain := sound.drained d
        rw [idle] at chain
        rw [chain_none.mp chain] at inside
        exact absurd inside List.not_mem_nil

/-- `scheduler_ipi` on a CPU that nobody disturbs activates just the tasks that were queued
for it, whatever happened before, and leaves its list empty. -/
theorem interrupt_activates (init : Init start)
    (run : Transition.Run (step nrCpuIds) (fun _ _ => True) start ops s) {c : Cpu}
    (pending : s.ipi c = true) (idle : s.pc c = .free) (alive : s.online c = true) :
    ∃ turns next, Transition.Run (step nrCpuIds) (fun _ _ => True) s
        (.interrupt c :: .take c :: List.replicate turns (.drain c)) next ∧
      next.pc = s.pc ∧ next.cpu = s.cpu ∧
      next.wakeList = Function.update s.wakeList c none ∧
      next.ipi = Function.update s.ipi c false ∧
      (∀ p, QueuedFor s c p → next.onRq p = true ∧ next.state p = 0 ∧
        next.activated p = s.activated p + 1) ∧
      ∀ p, ¬ QueuedFor s c p → next.onRq p = s.onRq p ∧ next.state p = s.state p ∧
        next.activated p = s.activated p := by
  obtain ⟨place, contents, taken, sound⟩ := reachable_sound init run
  let before := setPc { s with ipi := Function.update s.ipi c false } c .entered
  have inside : before.pc c = .entered := Function.update_self ..
  have first : step nrCpuIds s (.interrupt c) = some before := if_pos ⟨pending, idle, alive⟩
  have second : step nrCpuIds before (.take c) = some (takeList before c) :=
    if_pos inside
  have at_ : (takeList before c).pc c = .draining (s.wakeList c) := Function.update_self ..
  obtain ⟨next, drains, after⟩ :=
    drain_run nrCpuIds at_ (sound.listed c) (sound.unique c).1
  obtain ⟨cpu, wakeList, ipi⟩ := after.same
  refine ⟨_, next, .next trivial first (.next trivial second drains), ?_, cpu, wakeList, ipi,
    ?_, ?_⟩
  · rw [after.idle]
    have back : Function.update s.pc c .free = s.pc := Function.update_eq_self_iff.mpr idle.symm
    simpa [takeList, setPc, before] using back
  · intro p queued
    exact after.done p ((sound.queuedFor idle p).mpr queued)
  · intro p other
    exact after.others p fun inside => other ((sound.queuedFor idle p).mp inside)

def sleeping : State where
  state _ := 1
  onRq _ := false
  cpu _ := 0
  wakeEntry _ := none
  piLock _ := none
  wakeList _ := none
  ipi _ := false
  online _ := true
  pc _ := .free
  begun _ := 0
  activated _ := 0

theorem sleeping_init : Init sleeping where
  state _ := by simp [sleeping, taskWaking]
  piLock _ := rfl
  wakeList _ := rfl
  pc _ := rfl
  begun _ := rfl
  activated _ := rfl

def queueing : List Op :=
  [.wake 0 5 1, .wake 1 6 1, .remote 0, .remote 1, .queue 0 2 true, .queue 1 2 true, .push 0,
    .push 1, .push 1, .send 0]

def queued : State := (Transition.runActions (step 3) sleeping queueing).getD sleeping

theorem queued_run : Transition.Run (step 3) (fun _ _ => True) sleeping queueing queued :=
  Transition.run_of_actions rfl

theorem wakeups_once_queued :
    (∀ p, queued.begun p = queued.activated p + if queued.state p = taskWaking then 1 else 0) ∧
      (∀ w p, queued.pc w = .placing p → queued.state p = taskWaking ∧ queued.onRq p = false) ∧
      ∀ c p, queued.pc c = .draining (some p) →
        queued.state p = taskWaking ∧ queued.onRq p = false ∧ queued.cpu p = c :=
  wakeups_once sleeping_init queued_run

theorem waking_not_stuck_queued :
    (∀ c, queued.wakeList c ≠ none → queued.online c = true ∧
        (queued.ipi c = true ∨ queued.pc c = .entered ∨ ∃ w p, queued.pc w = .sending p c)) ∧
      ∀ p dest, queued.state p = taskWaking → queued.online dest = true →
        ∃ op : Op, op.carries ∧ (step 3 queued op).isSome :=
  waking_not_stuck sleeping_init queued_run

theorem interrupt_activates_queued :
    ∃ turns next, Transition.Run (step 3) (fun _ _ => True) queued
        (.interrupt 2 :: .take 2 :: List.replicate turns (.drain 2)) next ∧
      next.pc = queued.pc ∧ next.cpu = queued.cpu ∧
      next.wakeList = Function.update queued.wakeList 2 none ∧
      next.ipi = Function.update queued.ipi 2 false ∧
      (∀ p, QueuedFor queued 2 p → next.onRq p = true ∧ next.state p = 0 ∧
        next.activated p = queued.activated p + 1) ∧
      ∀ p, ¬ QueuedFor queued 2 p → next.onRq p = queued.onRq p ∧
        next.state p = queued.state p ∧ next.activated p = queued.activated p :=
  interrupt_activates sleeping_init queued_run rfl rfl rfl

/-- The second push failed once. Task 6, pushed last, is drained first. -/
example : (Transition.runActions (step 3) queued
    [.interrupt 2, .take 2, .drain 2]).map (fun s => (s.state 5, s.state 6, s.onRq 6)) =
      some (taskWaking, 0, true) := by decide

end AndroidKernel.WakeList
