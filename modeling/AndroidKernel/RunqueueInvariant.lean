import AndroidKernel.Operations

/-!
What a runqueue is for, stated without the hooks: a CPU has a set of runnable
tasks, each in one class, and its queues list them and its counters count them.
`view` gives the entry of each runnable task of the CPU. Taking a task off
clears its entry and putting it back fills it, and the hooks keep the queues and
counters in step with the entries. `slack` is what the 3.1 kernel has counted
too much between a bare dequeue and the enqueue that follows.
-/

namespace AndroidKernel

open RunList

structure Entry where
  cls : SchedClass
  prio : Int
  normalPrio : Int
  group : Group

def TaskStruct.entry (task : TaskStruct) : Entry where
  cls := task.schedClass
  prio := task.prio
  normalPrio := task.normalPrio
  group := task.rt.rtRq

def Has (view : Pid → Option Entry) (test : Entry → Prop) (p : Pid) : Prop :=
  ∃ entry, view p = some entry ∧ test entry

section Has
variable {view : Pid → Option Entry} {test : Entry → Prop}

theorem has_clear (p q : Pid) :
    Has (Function.update view p none) test q ↔ Has view test q ∧ q ≠ p := by
  by_cases same : q = p
  · subst same
    simp [Has]
  · simp [Has, same]

theorem has_fill (p q : Pid) {entry : Entry} (fits : test entry) :
    Has (Function.update view p (some entry)) test q ↔ Has view test q ∨ q = p := by
  by_cases same : q = p
  · subst same
    simp [Has, fits]
  · simp [Has, same]

/-- Writing an entry does not matter for a test that neither the old nor the
new entry passes. -/
theorem has_update_other (p q : Pid) {new : Option Entry}
    (oldFails : ¬ Has view test p) (newFails : ∀ entry, new = some entry → ¬ test entry) :
    Has (Function.update view p new) test q ↔ Has view test q := by
  by_cases same : q = p
  · subst same
    constructor
    · rintro ⟨entry, found, fits⟩
      rw [Function.update_self] at found
      exact absurd fits (newFails entry found)
    · intro has
      exact absurd has oldFails
  · simp [Has, Function.update_of_ne same]

theorem has_not (p : Pid) {entry : Entry} (found : view p = some entry) (fails : ¬ test entry) :
    ¬ Has view test p := by
  rintro ⟨other, found', fits⟩
  rw [found, Option.some.injEq] at found'
  exact fails (found' ▸ fits)

theorem has_none (p : Pid) (absent : view p = none) : ¬ Has view test p := by
  rintro ⟨entry, found, -⟩
  rw [absent] at found
  cases found

end Has

structure WrrOk (kernel : Kernel) (weight : Pid → Nat) (queued : Pid → Prop) (wrr : WrrRq) :
    Prop where
  lists : Lists wrr.queue queued
  count : wrr.wrrNrRunning = wrr.queue.length
  /-- In 3.1 the group of a queued task can change its weight. -/
  total : kernel = .goldfish → wrr.totalWeight = (wrr.queue.map fun p => (weight p : Int)).sum

structure CfsOk (queued : Pid → Prop) (cfs : CfsRq) : Prop where
  lists : Lists cfs.queue queued
  count : cfs.hNrRunning = cfs.queue.length

/-- What `nr_running` has on top of one for each task: 3.1 counts a queued WRR
task in the hook and in `activate_task`. -/
def countedTwice (kernel : Kernel) (wrr : WrrRq) : Int :=
  match kernel with
  | .goldfish => 0
  | .tegra => wrr.wrrNrRunning

def wrapUnit : Kernel → Int
  | .goldfish => 0
  | .tegra => 1

structure RqOk (kernel : Kernel) (weight : Pid → Nat) (view : Pid → Option Entry) (slack : Int)
    (rq : Rq) : Prop where
  wrr : WrrOk kernel weight (Has view fun entry => entry.cls = .wrr) rq.wrr
  cfs : CfsOk (Has view fun entry => entry.cls = .fair) rq.cfs
  running : ∃ total, Counts total (Has view fun _ => True) ∧
    rq.nrRunning = total + countedTwice kernel rq.wrr + slack

section Steps
variable {kernel : Kernel} {weight : Pid → Nat} {view : Pid → Option Entry}

theorem WrrOk.congr {queued queued' : Pid → Prop} {wrr : WrrRq}
    (ok : WrrOk kernel weight queued wrr) (same : ∀ p, queued p ↔ queued' p) :
    WrrOk kernel weight queued' wrr :=
  ⟨ok.lists.congr same, ok.count, ok.total⟩

theorem CfsOk.congr {queued queued' : Pid → Prop} {cfs : CfsRq}
    (ok : CfsOk queued cfs) (same : ∀ p, queued p ↔ queued' p) : CfsOk queued' cfs :=
  ⟨ok.lists.congr same, ok.count⟩

theorem WrrOk.dequeue {queued after : Pid → Prop} {wrr : WrrRq}
    (ok : WrrOk kernel weight queued wrr) (p : Pid) (member : queued p)
    (left : ∀ q, after q ↔ queued q ∧ q ≠ p) :
    WrrOk kernel weight after (wrr.dequeue p (weight p)) := by
  have inside : p ∈ wrr.queue := (ok.lists.mem_iff p).mpr member
  refine ⟨ok.lists.erase p left, ?_, fun goldfish => ?_⟩
  · have size := List.length_erase_of_mem inside
    have long := List.length_pos_of_mem inside
    simp only [WrrRq.dequeue, ok.count, size]
    omega
  · simp only [WrrRq.dequeue, ok.total goldfish]
    exact (sum_erase wrr.queue p _ inside).symm

theorem WrrOk.enqueue {queued after : Pid → Prop} {wrr : WrrRq}
    (ok : WrrOk kernel weight queued wrr) (p : Pid) (head : Bool) (fresh : ¬ queued p)
    (joined : ∀ q, after q ↔ queued q ∨ q = p) :
    WrrOk kernel weight after (wrr.enqueue head p (weight p)) := by
  refine ⟨ok.lists.push p head fresh joined, ?_, fun goldfish => ?_⟩
  · cases head <;> simp [WrrRq.enqueue, ok.count]
  · cases head <;> simp [WrrRq.enqueue, ok.total goldfish, add_comm]

theorem CfsOk.dequeue {queued after : Pid → Prop} {cfs : CfsRq} (ok : CfsOk queued cfs)
    (p : Pid) (member : queued p) (left : ∀ q, after q ↔ queued q ∧ q ≠ p) :
    CfsOk after (cfs.dequeue p) := by
  have inside : p ∈ cfs.queue := (ok.lists.mem_iff p).mpr member
  refine ⟨ok.lists.erase p left, ?_⟩
  have size := List.length_erase_of_mem inside
  have long := List.length_pos_of_mem inside
  simp only [CfsRq.dequeue, ok.count, size]
  omega

theorem CfsOk.enqueue {queued after : Pid → Prop} {cfs : CfsRq} (ok : CfsOk queued cfs)
    (p : Pid) (fresh : ¬ queued p) (joined : ∀ q, after q ↔ queued q ∨ q = p) :
    CfsOk after (cfs.enqueue p) :=
  ⟨ok.lists.push p false fresh joined, by simp [CfsRq.enqueue, ok.count]⟩

end Steps

def Rq.dequeued (kernel : Kernel) (task : TaskStruct) (p : Pid) (rq : Rq) : Rq :=
  match task.schedClass with
  | .stop | .rt => rq.hookDecNrRunning kernel
  | .wrr => Rq.decNrRunning { rq with wrr := rq.wrr.dequeue p task.wrr.weight }
  | .fair => Rq.hookDecNrRunning kernel { rq with cfs := rq.cfs.dequeue p }
  | .idle => rq

def Rq.enqueued (kernel : Kernel) (head : Bool) (task : TaskStruct) (p : Pid) (rq : Rq) : Rq :=
  match task.schedClass with
  | .stop | .rt => rq.hookIncNrRunning kernel
  | .wrr => Rq.incNrRunning { rq with wrr := rq.wrr.enqueue head p task.wrr.weight }
  | .fair => Rq.hookIncNrRunning kernel { rq with cfs := rq.cfs.enqueue p }
  | .idle => rq

section Whole
variable {kernel : Kernel} {weight : Pid → Nat} {view : Pid → Option Entry} {slack : Int}
  {rq : Rq}

theorem RqOk.congr_weight {weight' : Pid → Nat} (ok : RqOk kernel weight view slack rq)
    (same : kernel = .goldfish →
      ∀ p, Has view (fun entry => entry.cls = .wrr) p → weight p = weight' p) :
    RqOk kernel weight' view slack rq := by
  refine ⟨⟨ok.wrr.lists, ok.wrr.count, fun goldfish => ?_⟩, ok.cfs, ok.running⟩
  rw [ok.wrr.total goldfish]
  refine sum_congr _ _ _ fun p member => ?_
  rw [same goldfish p ((ok.wrr.lists.mem_iff p).mp member)]

theorem Rq.dequeued_wrr (task : TaskStruct) (p : Pid) : (rq.dequeued kernel task p).wrr =
    if task.schedClass = .wrr then rq.wrr.dequeue p task.wrr.weight else rq.wrr := by
  cases kernel <;> cases cls : task.schedClass <;>
    simp [Rq.dequeued, Rq.hookDecNrRunning, Rq.decNrRunning, cls]

theorem Rq.dequeued_cfs (task : TaskStruct) (p : Pid) : (rq.dequeued kernel task p).cfs =
    if task.schedClass = .fair then rq.cfs.dequeue p else rq.cfs := by
  cases kernel <;> cases cls : task.schedClass <;>
    simp [Rq.dequeued, Rq.hookDecNrRunning, Rq.decNrRunning, cls]

theorem Rq.dequeued_running (kernel : Kernel) (rq : Rq) {task : TaskStruct} (p : Pid)
    (busy : task.schedClass ≠ .idle) :
    (rq.dequeued kernel task p).nrRunning -
        countedTwice kernel (rq.dequeued kernel task p).wrr =
      rq.nrRunning - countedTwice kernel rq.wrr - 1 + wrapUnit kernel := by
  cases cls : task.schedClass with
  | idle => exact absurd cls busy
  | stop | rt | fair =>
      cases kernel <;>
        simp only [Rq.dequeued, cls, Rq.hookDecNrRunning, Rq.decNrRunning, countedTwice,
          wrapUnit] <;> omega
  | wrr =>
      cases kernel <;>
        simp only [Rq.dequeued, cls, Rq.decNrRunning, countedTwice, wrapUnit,
          WrrRq.dequeue] <;> omega

theorem RqOk.dequeued {task : TaskStruct} (ok : RqOk kernel weight view slack rq) (p : Pid)
    (found : view p = some task.entry) (busy : task.schedClass ≠ .idle)
    (weighs : weight p = task.wrr.weight) :
    RqOk kernel weight (Function.update view p none) (slack + wrapUnit kernel)
      (rq.dequeued kernel task p) := by
  have other : ∀ {test : Entry → Prop}, ¬ test task.entry → ∀ q,
      Has view test q ↔ Has (Function.update view p none) test q := fun fails q =>
    (has_update_other p q (has_not p found fails) (by simp)).symm
  constructor
  · rw [Rq.dequeued_wrr]
    split
    · rename_i isWrr
      rw [← weighs]
      exact ok.wrr.dequeue p ⟨_, found, isWrr⟩ fun q => has_clear p q
    · rename_i notWrr
      exact ok.wrr.congr (other notWrr)
  · rw [Rq.dequeued_cfs]
    split
    · rename_i isFair
      exact ok.cfs.dequeue p ⟨_, found, isFair⟩ fun q => has_clear p q
    · rename_i notFair
      exact ok.cfs.congr (other notFair)
  · obtain ⟨total, counts, sum⟩ := ok.running
    have count := Rq.dequeued_running kernel rq p busy
    exact ⟨total - 1, counts.remove p ⟨_, found, trivial⟩ fun q => has_clear p q, by omega⟩

theorem Rq.enqueued_wrr (head : Bool) (task : TaskStruct) (p : Pid) :
    (rq.enqueued kernel head task p).wrr =
      if task.schedClass = .wrr then rq.wrr.enqueue head p task.wrr.weight else rq.wrr := by
  cases kernel <;> cases cls : task.schedClass <;>
    simp [Rq.enqueued, Rq.hookIncNrRunning, Rq.incNrRunning, cls]

theorem Rq.enqueued_cfs (head : Bool) (task : TaskStruct) (p : Pid) :
    (rq.enqueued kernel head task p).cfs =
      if task.schedClass = .fair then rq.cfs.enqueue p else rq.cfs := by
  cases kernel <;> cases cls : task.schedClass <;>
    simp [Rq.enqueued, Rq.hookIncNrRunning, Rq.incNrRunning, cls]

theorem Rq.enqueued_running (kernel : Kernel) (rq : Rq) {task : TaskStruct} (head : Bool)
    (p : Pid) (busy : task.schedClass ≠ .idle) :
    (rq.enqueued kernel head task p).nrRunning -
        countedTwice kernel (rq.enqueued kernel head task p).wrr =
      rq.nrRunning - countedTwice kernel rq.wrr + 1 - wrapUnit kernel := by
  cases cls : task.schedClass with
  | idle => exact absurd cls busy
  | stop | rt | fair =>
      cases kernel <;>
        simp only [Rq.enqueued, cls, Rq.hookIncNrRunning, Rq.incNrRunning, countedTwice,
          wrapUnit] <;> omega
  | wrr =>
      cases kernel <;>
        simp only [Rq.enqueued, cls, Rq.incNrRunning, countedTwice, wrapUnit,
          WrrRq.enqueue] <;> omega

theorem RqOk.enqueued {task : TaskStruct} (ok : RqOk kernel weight view slack rq) (p : Pid)
    (head : Bool) (absent : view p = none) (busy : task.schedClass ≠ .idle)
    (weighs : weight p = task.wrr.weight) :
    RqOk kernel weight (Function.update view p (some task.entry)) (slack - wrapUnit kernel)
      (rq.enqueued kernel head task p) := by
  have other : ∀ {test : Entry → Prop}, ¬ test task.entry → ∀ q,
      Has view test q ↔ Has (Function.update view p (some task.entry)) test q := fun fails q =>
    (has_update_other p q (has_none p absent) (by rintro entry ⟨⟩; exact fails)).symm
  constructor
  · rw [Rq.enqueued_wrr]
    split
    · rename_i isWrr
      rw [← weighs]
      exact ok.wrr.enqueue p head (has_none p absent) fun q => has_fill p q isWrr
    · rename_i notWrr
      exact ok.wrr.congr (other notWrr)
  · rw [Rq.enqueued_cfs]
    split
    · rename_i isFair
      exact ok.cfs.enqueue p (has_none p absent) fun q => has_fill p q isFair
    · rename_i notFair
      exact ok.cfs.congr (other notFair)
  · obtain ⟨total, counts, sum⟩ := ok.running
    have count := Rq.enqueued_running kernel rq head p busy
    exact ⟨total + 1, counts.add p (has_none p absent) fun q => has_fill p q trivial, by omega⟩

structure Rq.Reordered (before after : Rq) : Prop where
  wrr : before.wrr.queue.Perm after.wrr.queue
  wrrNrRunning : after.wrr.wrrNrRunning = before.wrr.wrrNrRunning
  totalWeight : after.wrr.totalWeight = before.wrr.totalWeight
  cfs : after.cfs = before.cfs
  nrRunning : after.nrRunning = before.nrRunning
  curr : after.curr = before.curr
  idle : after.idle = before.idle
  stop : after.stop = before.stop

theorem Rq.Reordered.refl (rq : Rq) : rq.Reordered rq :=
  ⟨.refl _, rfl, rfl, rfl, rfl, rfl, rfl, rfl⟩

theorem Rq.Reordered.trans {first second third : Rq} (one : first.Reordered second)
    (two : second.Reordered third) : first.Reordered third :=
  ⟨one.wrr.trans two.wrr, two.wrrNrRunning.trans one.wrrNrRunning,
    two.totalWeight.trans one.totalWeight, two.cfs.trans one.cfs,
    two.nrRunning.trans one.nrRunning, two.curr.trans one.curr, two.idle.trans one.idle,
    two.stop.trans one.stop⟩

theorem RqOk.reordered {after : Rq} (ok : RqOk kernel weight view slack rq)
    (same : rq.Reordered after) : RqOk kernel weight view slack after := by
  refine ⟨⟨ok.wrr.lists.perm same.wrr, ?_, fun goldfish => ?_⟩, same.cfs ▸ ok.cfs, ?_⟩
  · rw [same.wrrNrRunning, ok.wrr.count, same.wrr.length_eq]
  · rw [same.totalWeight, ok.wrr.total goldfish]
    exact (same.wrr.map _).sum_eq
  · obtain ⟨total, counts, sum⟩ := ok.running
    refine ⟨total, counts, ?_⟩
    rw [same.nrRunning, sum]
    cases kernel <;> simp [countedTwice, same.wrrNrRunning]

end Whole

end AndroidKernel
