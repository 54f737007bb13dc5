import Mathlib.Algebra.BigOperators.Group.Finset.Piecewise
import Mathlib.Algebra.BigOperators.Ring.Finset
import Mathlib.Tactic.Abel
import AndroidKernel.LoadCounts

/-!
What one step does to the sums of the counters. A task step changes the sum over
the runqueues by the share of that task, wherever it is; a fold moves a change
from one place to the next.
-/

namespace AndroidKernel.LoadCounts

open LoadAverage (Word)

section Sums
variable {Node Value : Type*} [DecidableEq Node] [AddCommGroup Value]

theorem sum_change (nodes : Finset Node) {node : Node} (inside : node ∈ nodes)
    {before after : Node → Value} (others : ∀ x, x ≠ node → after x = before x) :
    ∑ x ∈ nodes, after x = ∑ x ∈ nodes, before x + (after node - before node) := by
  rw [← Finset.add_sum_erase nodes after inside, ← Finset.add_sum_erase nodes before inside,
    Finset.sum_congr rfl fun x member => others x (Finset.ne_of_mem_erase member)]
  abel

theorem sum_update_eq (nodes : Finset Node) {node : Node} (inside : node ∈ nodes)
    (values : Node → Value) (value : Value) :
    ∑ x ∈ nodes, Function.update values node value x =
      ∑ x ∈ nodes, values x + (value - values node) := by
  rw [sum_change nodes inside fun x other => Function.update_of_ne other value values,
    Function.update_self]

end Sums

def one (counts : Bool) : Word := if counts then 1 else 0

theorem sum_one (tasks : Finset Pid) (counts : Pid → Bool) :
    ∑ p ∈ tasks, one (counts p) = BitVec.ofNat 32 (tasks.filter fun p => counts p).card := by
  simp only [one, Finset.sum_boole]
  rfl

def counted (s : State) (p : Pid) : Bool :=
  if s.onRq p then s.lifted p && taskContributesToLoad s p
  else if s.state p = taskWaking then s.schedContributesToLoad p
  else taskContributesToLoad s p

theorem activateTask_eq (s : State) (c : Cpu) (p : Pid) : activateTask s c p = { s with
      nrUninterruptible := Function.update s.nrUninterruptible c
        (s.nrUninterruptible c - one (taskContributesToLoad s p)) } := by
  unfold activateTask
  cases taskContributesToLoad s p <;> simp [one]

theorem deactivateTask_eq (s : State) (c : Cpu) (p : Pid) : deactivateTask s c p = { s with
      nrUninterruptible := Function.update s.nrUninterruptible c
        (s.nrUninterruptible c + one (taskContributesToLoad s p)) } := by
  unfold deactivateTask
  cases taskContributesToLoad s p <;> simp [one]

def columns (s : State) (p : Pid) : Nat × Bool × Bool × Bool × Cpu × Bool × Bool :=
  (s.state p, s.frozen p, s.onRq p, s.onCpu p, s.cpu p, s.schedContributesToLoad p, s.lifted p)

theorem columns_eq {s next : State} {p : Pid} (same : columns next p = columns s p) :
    next.state p = s.state p ∧ next.frozen p = s.frozen p ∧ next.onRq p = s.onRq p ∧
      next.onCpu p = s.onCpu p ∧ next.cpu p = s.cpu p ∧
      next.schedContributesToLoad p = s.schedContributesToLoad p ∧
      next.lifted p = s.lifted p := by
  simpa [columns] using same

theorem counted_columns {s next : State} {p : Pid} (same : columns next p = columns s p) :
    counted next p = counted s p := by
  obtain ⟨state, frozen, onRq, -, -, schedContributes, lifted⟩ := columns_eq same
  simp [counted, taskContributesToLoad, state, frozen, onRq, schedContributes, lifted]

structure TaskOk (m : Machine) (s : State) (p : Pid) : Prop where
  home : s.cpu p ∈ m.cpus
  awake : s.onRq p = true → s.state p ≠ taskWaking
  lifted : s.lifted p = true → s.onRq p = true ∧ (m.kernel = .goldfish → s.onCpu p = false)

theorem TaskOk.congr {m : Machine} {s next : State} {p : Pid} (ok : TaskOk m s p)
    (same : columns next p = columns s p) : TaskOk m next p := by
  obtain ⟨state, -, onRq, onCpu, cpu, -, lifted⟩ := columns_eq same
  refine ⟨?_, ?_, ?_⟩
  · rw [cpu]
    exact ok.home
  · rw [onRq, state]
    exact ok.awake
  · rw [lifted, onRq, onCpu]
    exact ok.lifted

structure TaskLaw (m : Machine) (s : State) : Prop where
  uninterruptible : ∑ c ∈ m.cpus, s.nrUninterruptible c = ∑ p ∈ m.tasks, one (counted s p)
  tasks : ∀ p ∈ m.tasks, TaskOk m s p

section Tasks
variable {m : Machine} {s next : State} {p : Pid}

theorem TaskLaw.change (law : TaskLaw m s) (inside : p ∈ m.tasks)
    (others : ∀ q, q ≠ p → columns next q = columns s q)
    (sum : ∑ c ∈ m.cpus, next.nrUninterruptible c =
      ∑ c ∈ m.cpus, s.nrUninterruptible c + (one (counted next p) - one (counted s p)))
    (self : TaskOk m next p) : TaskLaw m next where
  uninterruptible := by
    have counts : ∀ q, q ≠ p → one (counted next q) = one (counted s q) :=
      fun q other => congrArg one (counted_columns (others q other))
    rw [sum, law.uninterruptible, sum_change m.tasks inside counts]
  tasks q member := by
    by_cases same : q = p
    · exact same ▸ self
    · exact (law.tasks q member).congr (others q same)

theorem TaskLaw.still (law : TaskLaw m s) (inside : p ∈ m.tasks)
    (others : ∀ q, q ≠ p → columns next q = columns s q)
    (counters : next.nrUninterruptible = s.nrUninterruptible)
    (share : counted next p = counted s p) (self : TaskOk m next p) : TaskLaw m next := by
  apply law.change inside others
  · rw [counters, share, sub_self, add_zero]
  · exact self

theorem TaskLaw.congr (law : TaskLaw m s) (same : ∀ q, columns next q = columns s q)
    (sum : ∑ c ∈ m.cpus, next.nrUninterruptible c = ∑ c ∈ m.cpus, s.nrUninterruptible c) :
    TaskLaw m next where
  uninterruptible := by
    rw [sum, law.uninterruptible]
    exact Finset.sum_congr rfl fun q _ => congrArg one (counted_columns (same q)).symm
  tasks q member := (law.tasks q member).congr (same q)

theorem counted_onRq (queued : s.onRq p = true) :
    counted s p = (s.lifted p && taskContributesToLoad s p) := by
  rw [counted, if_pos queued]

theorem counted_asleep (off : s.onRq p = false) (asleep : s.state p ≠ taskWaking) :
    counted s p = taskContributesToLoad s p := by
  rw [counted, if_neg (by simp [off]), if_neg asleep]

theorem contributes_running (running : s.state p = 0) : taskContributesToLoad s p = false := by
  simp [taskContributesToLoad, running]

theorem TaskOk.not_lifted (ok : TaskOk m s p) (off : s.onRq p = false) : s.lifted p = false := by
  by_contra lifted
  have queued := (ok.lifted (Bool.eq_true_of_not_eq_false lifted)).1
  rw [off] at queued
  exact Bool.noConfusion queued

theorem TaskLaw.edit (law : TaskLaw m s) (inside : p ∈ m.tasks)
    (others : ∀ q, q ≠ p → columns next q = columns s q)
    (counters : next.nrUninterruptible = s.nrUninterruptible)
    (same : next.onRq p = s.onRq p ∧ next.onCpu p = s.onCpu p ∧ next.cpu p = s.cpu p ∧
      next.lifted p = s.lifted p) (queued : s.onRq p = true)
    (awake : next.state p ≠ taskWaking)
    (steady : s.lifted p = true → taskContributesToLoad next p = taskContributesToLoad s p) :
    TaskLaw m next := by
  obtain ⟨onRq, onCpu, cpu, lifted⟩ := same
  have ok := law.tasks p inside
  apply law.still inside others counters
  · rw [counted_onRq (onRq.trans queued), counted_onRq queued, lifted]
    cases up : s.lifted p with
    | false => rfl
    | true => rw [steady up]
  · refine ⟨?_, fun _ => awake, ?_⟩
    · rw [cpu]
      exact ok.home
    · rw [lifted, onRq, onCpu]
      exact ok.lifted

theorem TaskLaw.deactivate (law : TaskLaw m s) (inside : p ∈ m.tasks)
    (none_ : counted s p = false) (others : ∀ q, q ≠ p → columns next q = columns s q)
    (counters : next.nrUninterruptible = (deactivateTask s (s.cpu p) p).nrUninterruptible)
    (share : counted next p = taskContributesToLoad s p) (self : TaskOk m next p) :
    TaskLaw m next := by
  apply law.change inside others
  · rw [counters, deactivateTask_eq, sum_update_eq m.cpus (law.tasks p inside).home, share, none_,
      add_sub_cancel_left]
    exact congrArg _ (sub_zero _).symm
  · exact self

theorem counted_awake (queued : s.onRq p = true) (down : s.lifted p = false) :
    counted s p = false := by
  rw [counted_onRq queued, down, Bool.false_and]

theorem TaskLaw.sleep (law : TaskLaw m s) (inside : p ∈ m.tasks) (queued : s.onRq p = true)
    (down : s.lifted p = false) :
    TaskLaw m (setOnRq (deactivateTask s (s.cpu p) p) p false) := by
  have ok := law.tasks p inside
  apply law.deactivate inside (counted_awake queued down)
  · intro q other
    simp [columns, setOnRq, deactivateTask_eq, Function.update_of_ne other]
  · rfl
  · rw [deactivateTask_eq]
    exact counted_asleep (Function.update_self ..) (ok.awake queued)
  · rw [deactivateTask_eq]
    exact ⟨ok.home, by simp [setOnRq], by simp [setOnRq, down]⟩

theorem TaskLaw.lift (law : TaskLaw m s) (inside : p ∈ m.tasks) (queued : s.onRq p = true)
    (down : s.lifted p = false) (rests : m.kernel = .goldfish → s.onCpu p = false) :
    TaskLaw m (setLifted (deactivateTask s (s.cpu p) p) p true) := by
  have ok := law.tasks p inside
  apply law.deactivate inside (counted_awake queued down)
  · intro q other
    simp [columns, setLifted, deactivateTask_eq, Function.update_of_ne other]
  · rfl
  · simp [counted, setLifted, deactivateTask_eq, queued, taskContributesToLoad]
  · rw [deactivateTask_eq]
    exact ⟨ok.home, ok.awake, fun _ => ⟨queued, rests⟩⟩

theorem TaskLaw.activate (law : TaskLaw m s) (inside : p ∈ m.tasks) {dest : Cpu}
    (home : dest ∈ m.cpus) (share : counted s p = taskContributesToLoad s p)
    (others : ∀ q, q ≠ p → columns next q = columns s q)
    (counters : next.nrUninterruptible = Function.update s.nrUninterruptible dest
      (s.nrUninterruptible dest - one (taskContributesToLoad s p)))
    (gone : counted next p = false) (self : TaskOk m next p) : TaskLaw m next := by
  apply law.change inside others
  · rw [counters, sum_update_eq m.cpus home, gone, share, sub_sub_cancel_left]
    exact congrArg _ (zero_sub _).symm
  · exact self

theorem TaskLaw.drop (law : TaskLaw m s) (inside : p ∈ m.tasks) (queued : s.onRq p = true)
    (up : s.lifted p = true) {dest : Cpu} (home : dest ∈ m.cpus) :
    TaskLaw m (setLifted (activateTask (setTaskCpu s p dest) dest p) p false) := by
  rw [activateTask_eq]
  apply law.activate inside home
  · rw [counted_onRq queued, up, Bool.true_and]
  · intro q other
    simp [columns, setLifted, setTaskCpu, Function.update_of_ne other]
  · rfl
  · exact counted_awake queued (Function.update_self ..)
  · refine ⟨?_, (law.tasks p inside).awake, ?_⟩
    · simpa [setLifted, setTaskCpu] using home
    · simp [setLifted]

theorem TaskLaw.wake (law : TaskLaw m s) (inside : p ∈ m.tasks) (off : s.onRq p = false)
    (asleep : s.state p ≠ taskWaking) : TaskLaw m (ttwuActivate s (s.cpu p) p) := by
  have ok := law.tasks p inside
  have down := ok.not_lifted off
  rw [ttwuActivate, activateTask_eq]
  apply law.activate inside ok.home (counted_asleep off asleep)
  · intro q other
    simp [columns, setState, setOnRq, Function.update_of_ne other]
  · rfl
  · exact counted_awake (Function.update_self ..) down
  · refine ⟨ok.home, ?_, ?_⟩
    · simp [setState, taskWaking]
    · simp [setState, setOnRq, down]

/-- The share that `try_to_wake_up` has put down is taken off, and no other. -/
theorem TaskLaw.doActivate (law : TaskLaw m s) (inside : p ∈ m.tasks) (off : s.onRq p = false)
    (waking : m.smp = true ↔ s.state p = taskWaking) :
    TaskLaw m (ttwuDoActivate m s (s.cpu p) p) := by
  have ok := law.tasks p inside
  have down := ok.not_lifted off
  cases smp : m.smp with
  | false =>
      have asleep : s.state p ≠ taskWaking := by simp [← waking, smp]
      simpa [ttwuDoActivate, smp] using law.wake inside off asleep
  | true =>
      have at_ : s.state p = taskWaking := waking.mp smp
      have share : counted s p = s.schedContributesToLoad p := by
        rw [counted, if_neg (by simp [off]), if_pos at_]
      have form : ttwuDoActivate m s (s.cpu p) p = setState (setOnRq { s with
          nrUninterruptible := Function.update s.nrUninterruptible (s.cpu p)
            (s.nrUninterruptible (s.cpu p) - one (s.schedContributesToLoad p)) } p true) p 0 := by
        rw [ttwuDoActivate, ttwuActivate, activateTask_eq]
        cases s.schedContributesToLoad p <;>
          simp [smp, one, taskContributesToLoad, at_, taskWaking, Completion.taskUninterruptible]
      rw [form]
      apply law.change inside
      · intro q other
        simp [columns, setState, setOnRq, Function.update_of_ne other]
      · have gone : counted (setState (setOnRq { s with
            nrUninterruptible := Function.update s.nrUninterruptible (s.cpu p)
              (s.nrUninterruptible (s.cpu p) - one (s.schedContributesToLoad p)) } p true) p 0) p =
            false := counted_awake (Function.update_self ..) down
        rw [gone, share]
        change ∑ c ∈ m.cpus, Function.update s.nrUninterruptible _ _ c = _
        rw [sum_update_eq m.cpus ok.home, sub_sub_cancel_left]
        exact congrArg _ (zero_sub _).symm
      · refine ⟨ok.home, ?_, ?_⟩
        · simp [setState, taskWaking]
        · simp [setState, setOnRq, down]

theorem TaskLaw.place (law : TaskLaw m s) (inside : p ∈ m.tasks) (off : s.onRq p = false)
    (asleep : s.state p ≠ taskWaking) {dest : Cpu} (home : dest ∈ m.cpus) :
    TaskLaw m (ttwuPlace s p dest) := by
  have down := (law.tasks p inside).not_lifted off
  apply law.still inside
  · intro q other
    simp [columns, ttwuPlace, setTaskCpu, setState, Function.update_of_ne other]
  · rfl
  · rw [counted_asleep off asleep]
    simp [counted, ttwuPlace, setTaskCpu, setState, off]
  · refine ⟨?_, ?_, ?_⟩
    · simpa [ttwuPlace, setTaskCpu] using home
    · simp [ttwuPlace, setTaskCpu, setState, off]
    · simp [ttwuPlace, setTaskCpu, setState, down]

theorem TaskLaw.fork (law : TaskLaw m s) (inside : p ∈ m.tasks) (off : s.onRq p = false)
    (asleep : s.state p ≠ taskWaking) (light : taskContributesToLoad s p = false)
    (frozen : Bool) :
    TaskLaw m (setState { s with frozen := Function.update s.frozen p frozen } p 0) := by
  have ok := law.tasks p inside
  have down := ok.not_lifted off
  apply law.still inside
  · intro q other
    simp [columns, setState, Function.update_of_ne other]
  · rfl
  · rw [counted_asleep off asleep, light]
    simp [counted, setState, off, taskWaking, taskContributesToLoad]
  · exact ⟨ok.home, by simp [setState, taskWaking], by simp [setState, down]⟩

theorem TaskLaw.wakeNew (law : TaskLaw m s) (inside : p ∈ m.tasks) (off : s.onRq p = false)
    (fresh : s.state p = 0) {dest : Cpu} (home : dest ∈ m.cpus) :
    TaskLaw m
      (setOnRq (activateTask (setTaskCpu s p dest) dest p) p true) := by
  have down := (law.tasks p inside).not_lifted off
  rw [activateTask_eq]
  apply law.activate inside home (counted_asleep off (by simp [fresh, taskWaking]))
  · intro q other
    simp [columns, setOnRq, setTaskCpu, Function.update_of_ne other]
  · rfl
  · exact counted_awake (Function.update_self ..) down
  · refine ⟨?_, ?_, ?_⟩
    · simpa [setOnRq, setTaskCpu] using home
    · simp [setOnRq, setTaskCpu, fresh, taskWaking]
    · simp [setOnRq, setTaskCpu, down]

theorem TaskLaw.dying (law : TaskLaw m s) {c dest : Cpu} (inside : c ∈ m.cpus)
    (target : dest ∈ m.cpus) (other : dest ≠ c) : TaskLaw m (cpuDying s c dest) := by
  apply law.congr
  · exact fun _ => rfl
  · simp only [cpuDying]
    rw [sum_update_eq m.cpus inside, sum_update_eq m.cpus target,
      Function.update_of_ne (Ne.symm other)]
    abel

end Tasks

def Steady (m : Machine) (s : State) (op : Op) : Prop :=
  ∀ p ∈ m.tasks, s.lifted p = true →
    taskContributesToLoad (apply m s op) p = taskContributesToLoad s p

section Step
variable {m : Machine} {s : State} {op : Op}

theorem TaskLaw.step (law : TaskLaw m s) (enabled : Enabled m s op)
    (steady : m.kernel = .tegra → Steady m s op) : TaskLaw m (apply m s op) := by
  -- a lifted task does not run in 3.4, so what it does is for 3.1 alone
  have current {p : Pid} (inside : p ∈ m.tasks) (runs : s.onCpu p = true)
      (up : s.lifted p = true) :
      taskContributesToLoad (apply m s op) p = taskContributesToLoad s p := by
    cases kernel : m.kernel with
    | goldfish =>
        have rests := ((law.tasks p inside).lifted up).2 kernel
        rw [runs] at rests
        exact Bool.noConfusion rests
    | tegra => exact steady kernel p inside up
  cases op with
  | setCurrentState p state =>
      obtain ⟨inside, queued, runs, proper⟩ := enabled
      apply law.edit inside
      · intro q other
        simp [columns, apply, setState, Function.update_of_ne other]
      · rfl
      · exact ⟨rfl, rfl, rfl, rfl⟩
      · exact queued
      · simpa [apply, setState] using proper
      · exact current inside runs
  | freeze p frozen =>
      obtain ⟨inside, queued, runs⟩ := enabled
      apply law.edit inside
      · intro q other
        simp [columns, apply, Function.update_of_ne other]
      · rfl
      · exact ⟨rfl, rfl, rfl, rfl⟩
      · exact queued
      · exact (law.tasks p inside).awake queued
      · exact current inside runs
  | switchIn p =>
      obtain ⟨inside, queued, down⟩ := enabled
      have ok := law.tasks p inside
      apply law.still inside
      · intro q other
        simp [columns, apply, Function.update_of_ne other]
      · rfl
      · rfl
      · exact ⟨ok.home, ok.awake, fun up => absurd up down⟩
  | switchOut p =>
      have ok := law.tasks p enabled
      apply law.still enabled
      · intro q other
        simp [columns, apply, Function.update_of_ne other]
      · rfl
      · rfl
      · refine ⟨ok.home, ok.awake, fun up => ⟨(ok.lifted up).1, fun _ => ?_⟩⟩
        simp [apply]
  | sleep p =>
      obtain ⟨inside, queued, -, down, -⟩ := enabled
      exact law.sleep inside queued (Bool.eq_false_iff.mpr down)
  | lift p =>
      obtain ⟨inside, queued, down, rests⟩ := enabled
      exact law.lift inside queued (Bool.eq_false_iff.mpr down)
        fun kernel => Bool.eq_false_iff.mpr (rests kernel)
  | drop p dest =>
      obtain ⟨inside, queued, up, home⟩ := enabled
      exact law.drop inside queued up home
  | ttwuRemote p =>
      obtain ⟨inside, queued, down⟩ := enabled
      apply law.edit inside
      · intro q other
        simp [columns, apply, setState, Function.update_of_ne other]
      · rfl
      · exact ⟨rfl, rfl, rfl, rfl⟩
      · exact queued
      · simp [apply, setState, taskWaking]
      · exact fun up => absurd up down
  | ttwuPlace p dest =>
      obtain ⟨inside, -, off, -, -, asleep, home⟩ := enabled
      exact law.place inside (Bool.eq_false_iff.mpr off) asleep home
  | ttwuDoActivate p =>
      obtain ⟨inside, off, -, waking⟩ := enabled
      exact law.doActivate inside (Bool.eq_false_iff.mpr off) waking
  | tryToWakeUpLocal p =>
      obtain ⟨inside, off, -, asleep⟩ := enabled
      exact law.wake inside (Bool.eq_false_iff.mpr off) asleep
  | fork p frozen =>
      obtain ⟨inside, off, -, asleep, light⟩ := enabled
      exact law.fork inside (Bool.eq_false_iff.mpr off) asleep light frozen
  | wakeUpNewTask p dest =>
      obtain ⟨inside, off, fresh, home⟩ := enabled
      exact law.wakeNew inside (Bool.eq_false_iff.mpr off) fresh home
  | cpuDying c dest =>
      obtain ⟨inside, target, other⟩ := enabled
      exact law.dying inside target other
  | setRunning c nr | foldActive c | foldIdle c idx | addTasks c | addIdle c idx =>
      exact law.congr (fun _ => rfl) rfl

end Step

def LoadLaw (m : Machine) (s : State) : Prop :=
  s.calcLoadTasks + (s.calcLoadIdle false + s.calcLoadIdle true) + ∑ c ∈ m.cpus, s.carried c =
    ∑ c ∈ m.cpus, s.calcLoadActive c

def loads (s : State) : Word × (Bool → Word) × (Cpu → Word) × (Cpu → Word) :=
  (s.calcLoadTasks, s.calcLoadIdle, s.carried, s.calcLoadActive)

section Loads
variable {m : Machine} {s next : State} {op : Op} {c : Cpu}

theorem LoadLaw.congr (law : LoadLaw m s) (same : loads next = loads s) : LoadLaw m next := by
  simp only [loads, Prod.mk.injEq] at same
  obtain ⟨tasks, idle, carried, active⟩ := same
  rw [LoadLaw, tasks, idle, carried, active]
  exact law

theorem idle_update (idle : Bool → Word) (idx : Bool) (value : Word) :
    Function.update idle idx value false + Function.update idle idx value true =
      idle false + idle true + (value - idle idx) := by
  cases idx with
  | false =>
      simp
      abel
  | true => simp

theorem LoadLaw.step (law : LoadLaw m s) (enabled : Enabled m s op) :
    LoadLaw m (apply m s op) := by
  rw [LoadLaw] at law
  cases op with
  | foldActive c =>
      change _ + _ + ∑ d ∈ m.cpus, Function.update s.carried c _ d =
        ∑ d ∈ m.cpus, Function.update s.calcLoadActive c _ d
      rw [sum_update_eq m.cpus enabled, sum_update_eq m.cpus enabled, ← law]
      simp only [apply, calcLoadFoldActive]
      abel
  | foldIdle c idx =>
      change _ + (Function.update s.calcLoadIdle idx 0 false +
          Function.update s.calcLoadIdle idx 0 true) +
        ∑ d ∈ m.cpus, Function.update s.carried c _ d = ∑ d ∈ m.cpus, s.calcLoadActive d
      rw [sum_update_eq m.cpus enabled, idle_update, ← law]
      simp only [apply, calcLoadFoldIdle]
      abel
  | addTasks c =>
      change s.calcLoadTasks + s.carried c + _ + ∑ d ∈ m.cpus, Function.update s.carried c _ d =
        ∑ d ∈ m.cpus, s.calcLoadActive d
      rw [sum_update_eq m.cpus enabled, ← law]
      simp only [apply, addTasks]
      abel
  | addIdle c idx =>
      change _ + (Function.update s.calcLoadIdle idx _ false +
          Function.update s.calcLoadIdle idx _ true) +
        ∑ d ∈ m.cpus, Function.update s.carried c _ d = ∑ d ∈ m.cpus, s.calcLoadActive d
      rw [sum_update_eq m.cpus enabled, idle_update, ← law]
      simp only [apply, addIdle]
      abel
  | cpuDying c dest =>
      change s.calcLoadTasks - s.calcLoadActive c + _ + ∑ d ∈ m.cpus, s.carried d =
        ∑ d ∈ m.cpus, Function.update s.calcLoadActive c _ d
      rw [sum_update_eq m.cpus enabled.1, ← law]
      simp only [apply, cpuDying]
      abel
  | sleep p | lift p | drop p dest | tryToWakeUpLocal p | wakeUpNewTask p dest =>
      apply LoadLaw.congr law
      simp [loads, apply, setOnRq, setLifted, setTaskCpu, setState, ttwuActivate,
        activateTask_eq, deactivateTask_eq]
  | ttwuDoActivate p =>
      apply LoadLaw.congr law
      simp only [loads, apply, ttwuDoActivate, ttwuActivate, activateTask_eq, setState, setOnRq]
      split <;> rfl
  | setCurrentState p state | freeze p frozen | switchIn p | switchOut p | ttwuRemote p
  | ttwuPlace p dest | fork p frozen | setRunning c nr => exact law

end Loads

end AndroidKernel.LoadCounts
