import AndroidKernel.RunqueueInvariant
import AndroidKernel.System

/-!
The runqueues of the whole system agree with the tasks: `SchedOk`. Every
function is first given its effect on the columns `task` and `rq`. Functions
that move nothing are `Quiet`; the others take a task off, put one on, or do
both around a change, and the invariant follows from the rules of one runqueue.
-/

namespace AndroidKernel

open RunList

def entries (task : Pid → TaskStruct) (c : Cpu) (p : Pid) : Option Entry :=
  if (task p).onRq ∧ (task p).cpu = c then some (task p).entry else none

def weights (task : Pid → TaskStruct) (p : Pid) : Nat := (task p).wrr.weight

theorem has_entries (task : Pid → TaskStruct) (c : Cpu) (test : Entry → Prop) (p : Pid) :
    Has (entries task c) test p ↔
      (task p).onRq = true ∧ (task p).cpu = c ∧ test (task p).entry := by
  by_cases queued : (task p).onRq = true ∧ (task p).cpu = c
  · simp [Has, entries, queued]
  · simp only [Has, entries, if_neg queued, reduceCtorEq, false_and, exists_false, false_iff]
    exact fun all => queued ⟨all.1, all.2.1⟩

theorem entries_update (task : Pid → TaskStruct) (c : Cpu) (p : Pid) (new : TaskStruct) :
    entries (Function.update task p new) c = Function.update (entries task c) p
      (if new.onRq ∧ new.cpu = c then some new.entry else none) := by
  funext q
  by_cases same : q = p
  · subst same
    simp [entries]
  · simp [entries, Function.update_of_ne same]

theorem entries_absent {task : Pid → TaskStruct} {c : Cpu} {p : Pid}
    (off : (task p).onRq = false ∨ (task p).cpu ≠ c) : entries task c p = none := by
  rcases off with off | off <;> simp [entries, off]

theorem entries_present {task : Pid → TaskStruct} {p : Pid} (on : (task p).onRq = true) :
    entries task (task p).cpu p = some (task p).entry := by
  simp [entries, on]

def SchedOk (env : Env) (task : Pid → TaskStruct) (rq : Cpu → Rq) : Prop :=
  ∀ c, RqOk env.kernel (weights task) (entries task c) 0 (rq c)

/-- In 3.4 a queued WRR task has the weight of its group. -/
def Weighed (env : Env) (task : Pid → TaskStruct) : Prop :=
  env.kernel = .goldfish → ∀ p, (task p).onRq = true → (task p).schedClass = .wrr →
    (task p).wrr.weight = pathWeight env (taskGroup env (task p))

def Rq.taken (kernel : Kernel) (wrapped : Bool) (task : TaskStruct) (p : Pid) (rq : Rq) : Rq :=
  if wrapped then (rq.dequeued kernel task p).wrapDecNrRunning kernel
  else rq.dequeued kernel task p

def Rq.put (kernel : Kernel) (wrapped head : Bool) (task : TaskStruct) (p : Pid) (rq : Rq) :
    Rq :=
  if wrapped then (rq.enqueued kernel head task p).wrapIncNrRunning kernel
  else rq.enqueued kernel head task p

theorem Rq.taken_wrr (kernel : Kernel) (wrapped : Bool) (task : TaskStruct) (p : Pid) (rq : Rq) :
    (rq.taken kernel wrapped task p).wrr =
      if task.schedClass = .wrr then rq.wrr.dequeue p task.wrr.weight else rq.wrr := by
  cases wrapped <;> cases kernel <;> cases cls : task.schedClass <;>
    simp [Rq.taken, Rq.dequeued, Rq.wrapDecNrRunning, Rq.hookDecNrRunning, Rq.decNrRunning, cls]

theorem Rq.put_wrr (kernel : Kernel) (wrapped head : Bool) (task : TaskStruct) (p : Pid)
    (rq : Rq) : (rq.put kernel wrapped head task p).wrr =
      if task.schedClass = .wrr then rq.wrr.enqueue head p task.wrr.weight else rq.wrr := by
  cases wrapped <;> cases kernel <;> cases cls : task.schedClass <;>
    simp [Rq.put, Rq.enqueued, Rq.wrapIncNrRunning, Rq.hookIncNrRunning, Rq.incNrRunning, cls]

theorem taken_queue (kernel : Kernel) (wrapped : Bool) (task : TaskStruct) (p : Pid) (rq : Rq) :
    (rq.taken kernel wrapped task p).wrr.queue =
      if task.schedClass = .wrr then rq.wrr.queue.erase p else rq.wrr.queue := by
  rw [Rq.taken_wrr, apply_ite WrrRq.queue]
  rfl

theorem put_queue (kernel : Kernel) (wrapped : Bool) (task : TaskStruct) (p : Pid) (rq : Rq) :
    (rq.put kernel wrapped false task p).wrr.queue =
      if task.schedClass = .wrr then rq.wrr.queue ++ [p] else rq.wrr.queue := by
  rw [Rq.put_wrr, apply_ite WrrRq.queue]
  rfl

def bareUnit (kernel : Kernel) (wrapped : Bool) : Int := if wrapped then 0 else wrapUnit kernel

section One
variable {kernel : Kernel} {weight : Pid → Nat} {view : Pid → Option Entry} {slack : Int}
  {rq : Rq} {task : TaskStruct}

theorem RqOk.taken (ok : RqOk kernel weight view slack rq) (wrapped : Bool) (p : Pid)
    (found : view p = some task.entry) (busy : task.schedClass ≠ .idle)
    (weighs : weight p = task.wrr.weight) :
    RqOk kernel weight (Function.update view p none) (slack + bareUnit kernel wrapped)
      (rq.taken kernel wrapped task p) := by
  have base := ok.dequeued p found busy weighs
  cases wrapped with
  | false => exact base
  | true =>
      obtain ⟨total, counts, sum⟩ := base.running
      cases kernel with
      | goldfish => exact base
      | tegra =>
          refine ⟨base.wrr, base.cfs, total, counts, ?_⟩
          simp only [Rq.taken, Rq.wrapDecNrRunning, Rq.decNrRunning, if_true, countedTwice,
            wrapUnit, bareUnit] at sum ⊢
          omega

theorem RqOk.put (ok : RqOk kernel weight view slack rq) (wrapped head : Bool) (p : Pid)
    (absent : view p = none) (busy : task.schedClass ≠ .idle)
    (weighs : weight p = task.wrr.weight) :
    RqOk kernel weight (Function.update view p (some task.entry))
      (slack - bareUnit kernel wrapped) (rq.put kernel wrapped head task p) := by
  have base := ok.enqueued p head absent busy weighs
  cases wrapped with
  | false => exact base
  | true =>
      obtain ⟨total, counts, sum⟩ := base.running
      cases kernel with
      | goldfish => exact base
      | tegra =>
          refine ⟨base.wrr, base.cfs, total, counts, ?_⟩
          simp only [Rq.put, Rq.wrapIncNrRunning, Rq.incNrRunning, if_true, countedTwice,
            wrapUnit, bareUnit] at sum ⊢
          omega

end One

section System
variable {env : Env} {task : Pid → TaskStruct} {rq : Cpu → Rq}

theorem weights_update_of_ne (p q : Pid) (new : TaskStruct) (differs : q ≠ p) :
    weights (Function.update task p new) q = weights task q := by
  simp [weights, Function.update_of_ne differs]

/-- A change to a task that is on no queue, before and after, is free. -/
theorem SchedOk.edit (ok : SchedOk env task rq) (p : Pid) (new : TaskStruct)
    (off : (task p).onRq = false) (stays : new.onRq = false) :
    SchedOk env (Function.update task p new) rq := by
  intro c
  have absent : entries task c p = none := entries_absent (Or.inl off)
  rw [entries_update, stays]
  simp only [Bool.false_eq_true, false_and, if_false]
  rw [← absent, Function.update_eq_self]
  refine (ok c).congr_weight fun _ q has => (weights_update_of_ne p q new ?_).symm
  rintro rfl
  exact has_none q absent has

theorem SchedOk.leave (ok : SchedOk env task rq) (p : Pid) (on : (task p).onRq = true)
    (busy : (task p).schedClass ≠ .idle) (new : TaskStruct) (stays : new.onRq = false) :
    SchedOk env (Function.update task p new)
      (Function.update rq (task p).cpu ((rq (task p).cpu).taken env.kernel true (task p) p)) := by
  intro c
  rw [entries_update, stays]
  simp only [Bool.false_eq_true, false_and, if_false]
  have weightless : ∀ q, Has (Function.update (entries task c) p none)
      (fun entry => entry.cls = .wrr) q → weights task q =
        weights (Function.update task p new) q := fun q has =>
    (weights_update_of_ne p q new ((has_clear p q).mp has).2).symm
  by_cases here : c = (task p).cpu
  · subst here
    rw [Function.update_self]
    have base := (ok (task p).cpu).taken true p (entries_present on) busy rfl
    exact (by simpa [bareUnit] using base : RqOk _ _ _ 0 _).congr_weight fun _ => weightless
  · rw [Function.update_of_ne here]
    have absent : entries task c p = none := entries_absent (Or.inr fun same => here same.symm)
    have same : Function.update (entries task c) p none = entries task c := by
      rw [← absent, Function.update_eq_self]
    rw [same] at weightless ⊢
    exact (ok c).congr_weight fun _ => weightless

theorem SchedOk.join (ok : SchedOk env task rq) (p : Pid) (off : (task p).onRq = false)
    (new : TaskStruct) (on : new.onRq = true) (busy : new.schedClass ≠ .idle) (head : Bool) :
    SchedOk env (Function.update task p new)
      (Function.update rq new.cpu ((rq new.cpu).put env.kernel true head new p)) := by
  intro c
  have absent : entries task c p = none := entries_absent (Or.inl off)
  have moved : RqOk env.kernel (weights (Function.update task p new)) (entries task c) 0 (rq c) :=
    (ok c).congr_weight fun _ q has => (weights_update_of_ne p q new (by
      rintro rfl
      exact has_none q absent has)).symm
  rw [entries_update]
  by_cases here : c = new.cpu
  · subst here
    rw [Function.update_self]
    have base := moved.put true head p absent busy (by simp [weights])
    simpa [bareUnit, on] using base
  · rw [Function.update_of_ne here]
    have elsewhere : ¬ (new.onRq = true ∧ new.cpu = c) := fun both => here both.2.symm
    rw [if_neg elsewhere, ← absent, Function.update_eq_self]
    exact moved

theorem SchedOk.requeue (ok : SchedOk env task rq) (p : Pid) (on : (task p).onRq = true)
    (busy : (task p).schedClass ≠ .idle) (new : TaskStruct) (stays : new.onRq = true)
    (home : new.cpu = (task p).cpu) (still : new.schedClass ≠ .idle) (wrapped head : Bool) :
    SchedOk env (Function.update task p new) (Function.update rq (task p).cpu
      (((rq (task p).cpu).taken env.kernel wrapped (task p) p).put env.kernel wrapped head
        new p)) := by
  intro c
  rw [entries_update]
  by_cases here : c = (task p).cpu
  · subst here
    rw [Function.update_self]
    have off := (ok (task p).cpu).taken wrapped p (entries_present on) busy rfl
    have moved : RqOk env.kernel (weights (Function.update task p new)) _ _ _ :=
      off.congr_weight fun _ q has => (weights_update_of_ne p q new ((has_clear p q).mp has).2).symm
    have base := moved.put wrapped head p (by simp) still (by simp [weights])
    simpa [stays, home] using base
  · have absent : entries task c p = none := entries_absent (Or.inr fun same => here same.symm)
    have elsewhere : ¬ (new.onRq = true ∧ new.cpu = c) := fun both =>
      here (both.2.symm.trans home)
    rw [Function.update_of_ne here, if_neg elsewhere, ← absent, Function.update_eq_self]
    refine (ok c).congr_weight fun _ q has => (weights_update_of_ne p q new ?_).symm
    rintro rfl
    exact has_none q absent has

end System

end AndroidKernel
