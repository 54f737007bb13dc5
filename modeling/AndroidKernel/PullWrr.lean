import Mathlib.Algebra.BigOperators.Group.Finset.Basic
import AndroidKernel.RunQueueLaws

/-!
`pull_wrr_task` takes the first task it may take from the first CPU that has one,
in the order of the scan, and puts it at the tail of the queue of the destination.
The counters of the two runqueues move with it, so what is summed over all CPUs
stays, and every other task stays where it is.
-/

namespace AndroidKernel

open RunList

structure Eligible (env : Env) (s : Sched) (dest src : Cpu) (p : Pid) : Prop where
  online : src ∈ env.cpuOnline
  other : src ≠ dest
  queued : p ∈ (s.rq src).wrr.queue
  stands : taskRunning env s src p = false
  policy : (s.task p).policy = .wrr
  allowed : dest ∈ (s.task p).cpusAllowed

structure FirstEligible (env : Env) (s : Sched) (dest src : Cpu) (p : Pid) : Prop where
  eligible : Eligible env s dest src p
  first_cpu : ∀ before < src, ∀ q, ¬ Eligible env s dest before q
  first_task : ∃ front back, (s.rq src).wrr.queue = front ++ p :: back ∧
    ∀ q ∈ front, ¬ Eligible env s dest src q

structure MovesOne (s next : Sched) (src dest : Cpu) (p : Pid) : Prop where
  cpu : (next.task p).cpu = dest
  source : ∃ front back, (s.rq src).wrr.queue = front ++ p :: back ∧
    (next.rq src).wrr.queue = front ++ back
  target : (next.rq dest).wrr.queue = (s.rq dest).wrr.queue ++ [p]
  other_queues : ∀ c, c ≠ src → c ≠ dest → (next.rq c).wrr = (s.rq c).wrr
  other_tasks : ∀ q, q ≠ p → next.task q = s.task q

structure Conserves (env : Env) (s next : Sched) : Prop where
  running : ∀ p, taskRunning env s (s.task p).cpu p = true → next.task p = s.task p
  curr : ∀ c, (next.rq c).curr = (s.rq c).curr
  queues : ∀ c, WrrRunQueueLaw next c
  queued : ∀ p, (∃ c, p ∈ (next.rq c).wrr.queue) ↔ ∃ c, p ∈ (s.rq c).wrr.queue
  total_weight : ∑ c ∈ Finset.range env.nrCpuIds, (next.rq c).wrr.totalWeight =
    ∑ c ∈ Finset.range env.nrCpuIds, (s.rq c).wrr.totalWeight
  nr_running : ∑ c ∈ Finset.range env.nrCpuIds, (next.rq c).wrr.wrrNrRunning =
    ∑ c ∈ Finset.range env.nrCpuIds, (s.rq c).wrr.wrrNrRunning
  entity : ∀ p, (next.task p).wrr = (s.task p).wrr

def PathsUnchanged (env : Env) (s : Sched) : Prop :=
  ∀ c, ∀ p ∈ (s.rq c).wrr.queue,
    (s.task p).wrr.weight = pathWeight env (taskGroup env (s.task p))

section Scan
variable {env : Env} {s : Sched} {dest : Cpu}

theorem pullable_iff (laws : ∀ c, WrrRunQueueLaw s c) {src : Cpu} (online : src ∈ env.cpuOnline)
    (other : src ≠ dest) {p : Pid} (queued : p ∈ (s.rq src).wrr.queue) :
    pullable env s src dest p = true ↔ Eligible env s dest src p := by
  have on := (((laws src).mem_iff p).mp queued).1
  rw [pullable, on]
  constructor
  · intro takes
    simp only [Bool.and_eq_true, Bool.not_eq_true', decide_eq_true_eq] at takes
    obtain ⟨⟨⟨stands, policy⟩, allowed⟩, -⟩ := takes
    exact ⟨online, other, queued, stands, policy, allowed⟩
  · intro eligible
    simp [eligible.stands, eligible.policy, eligible.allowed]

def pullScan (env : Env) (dest : Cpu) : List Cpu :=
  (List.range env.nrCpuIds).filter fun src => src ∈ env.cpuOnline ∧ src ≠ dest

def pullFrom (env : Env) (s : Sched) (dest src : Cpu) : Option (Cpu × Pid) :=
  ((s.rq src).wrr.queue.find? (pullable env s src dest)).map (src, ·)

theorem mem_pullScan (inRange : ∀ cpu ∈ env.cpuOnline, cpu < env.nrCpuIds) (src : Cpu) :
    src ∈ pullScan env dest ↔ src ∈ env.cpuOnline ∧ src ≠ dest := by
  rw [pullScan, List.mem_filter, List.mem_range, decide_eq_true_eq]
  constructor
  · intro scanned
    exact scanned.2
  · intro fits
    exact ⟨inRange src fits.1, fits⟩

theorem pullFrom_none (laws : ∀ c, WrrRunQueueLaw s c) {src : Cpu} (online : src ∈ env.cpuOnline)
    (other : src ≠ dest) (found : pullFrom env s dest src = none) (p : Pid) :
    ¬ Eligible env s dest src p := by
  intro eligible
  rw [pullFrom, Option.map_eq_none_iff, List.find?_eq_none] at found
  exact found p eligible.queued ((pullable_iff laws online other eligible.queued).mpr eligible)

theorem pullSource_none (laws : ∀ c, WrrRunQueueLaw s c)
    (inRange : ∀ cpu ∈ env.cpuOnline, cpu < env.nrCpuIds)
    (found : pullSource env s dest = none) (src : Cpu) (p : Pid) :
    ¬ Eligible env s dest src p := by
  intro eligible
  have scanned := (mem_pullScan inRange src).mpr ⟨eligible.online, eligible.other⟩
  have missed : pullFrom env s dest src = none := List.findSome?_eq_none_iff.mp found src scanned
  exact pullFrom_none laws eligible.online eligible.other missed p eligible

/-- The scan ends at the first task: the CPUs before were searched in vain, and so
were the tasks before in the queue. -/
theorem pullSource_first (laws : ∀ c, WrrRunQueueLaw s c)
    (inRange : ∀ cpu ∈ env.cpuOnline, cpu < env.nrCpuIds) {src : Cpu} {p : Pid}
    (found : pullSource env s dest = some (src, p)) : FirstEligible env s dest src p := by
  obtain ⟨early, cpu, late, split, offered, vain⟩ := List.findSome?_eq_some_iff.mp found
  obtain ⟨q, taken, same⟩ := Option.map_eq_some_iff.mp offered
  obtain ⟨rfl, rfl⟩ := Prod.mk.inj same
  have scanned : cpu ∈ pullScan env dest := by
    rw [pullScan, split]
    exact List.mem_append_right _ List.mem_cons_self
  obtain ⟨online, other⟩ := (mem_pullScan inRange cpu).mp scanned
  obtain ⟨takes, front, back, queue, passed⟩ := List.find?_eq_some_iff_append.mp taken
  have queued : q ∈ (s.rq cpu).wrr.queue := List.mem_of_find?_eq_some taken
  constructor
  · exact (pullable_iff laws online other queued).mp takes
  · intro before below r eligible
    have early' : before ∈ early := by
      have inScan := (mem_pullScan inRange before).mpr ⟨eligible.online, eligible.other⟩
      have sorted : (pullScan env dest).Pairwise (· < ·) := List.pairwise_lt_range.filter _
      rw [pullScan, split] at inScan sorted
      rcases List.mem_append.mp inScan with inside | late'
      · exact inside
      · -- from `cpu` on the scan goes up
        have after := (List.pairwise_append.mp sorted).2.1
        rcases List.mem_cons.mp late' with rfl | later
        · exact absurd below (Nat.lt_irrefl _)
        · exact absurd (List.rel_of_pairwise_cons after later) (Nat.lt_asymm below)
    exact pullFrom_none laws eligible.online eligible.other (vain before early') r eligible
  · refine ⟨front, back, queue, ?_⟩
    intro r inFront eligible
    have wanted := (pullable_iff laws online other eligible.queued).mpr eligible
    have refused := passed r inFront
    rw [wanted] at refused
    exact absurd refused (by decide)

end Scan

theorem sum_transfer (places : Finset Nat) (before after : Nat → Int) (src dest : Nat)
    (amount : Int) (differs : src ≠ dest) (srcIn : src ∈ places) (destIn : dest ∈ places)
    (gives : after src = before src - amount) (takes : after dest = before dest + amount)
    (others : ∀ place, place ≠ src → place ≠ dest → after place = before place) :
    ∑ place ∈ places, after place = ∑ place ∈ places, before place := by
  have destLeft : dest ∈ places.erase src := Finset.mem_erase.mpr ⟨differs.symm, destIn⟩
  have rest : ∑ place ∈ (places.erase src).erase dest, after place =
      ∑ place ∈ (places.erase src).erase dest, before place := by
    apply Finset.sum_congr rfl
    intro place member
    obtain ⟨notDest, inside⟩ := Finset.mem_erase.mp member
    exact others place (Finset.mem_erase.mp inside).1 notDest
  rw [← Finset.add_sum_erase places after srcIn, ← Finset.add_sum_erase places before srcIn,
    ← Finset.add_sum_erase _ after destLeft, ← Finset.add_sum_erase _ before destLeft, rest,
    gives, takes]
  omega

/-- No queue and no current task changes when a WRR task is compared with the
current one. -/
theorem checkPreemptCurr_wrr_rq (env : Env) (s : Sched) (c : Cpu) (p : Pid)
    (isWrr : (s.task p).schedClass = .wrr) : (checkPreemptCurr env s c p).rq = s.rq := by
  simp only [checkPreemptCurr, isWrr, checkPreemptCurrWrr]
  split
  · rfl
  · split <;> rfl

structure Pull (env : Env) (s next : Sched) (src dest : Cpu) (p : Pid) : Prop where
  task : next.task = Function.update s.task p ((s.task p).setCpu env dest)
  source : (next.rq src).wrr = (s.rq src).wrr.dequeue p (s.task p).wrr.weight
  target : (next.rq dest).wrr = (s.rq dest).wrr.enqueue false p (s.task p).wrr.weight
  others : ∀ c, c ≠ src → c ≠ dest → (next.rq c).wrr = (s.rq c).wrr
  curr : ∀ c, (next.rq c).curr = (s.rq c).curr

section Move
variable {env : Env} {s next : Sched} {src dest : Cpu} {p : Pid}

theorem moveQueued_pull (isWrr : (s.task p).schedClass = .wrr) (differs : src ≠ dest)
    (weight : (s.task p).wrr.weight = pathWeight env (taskGroup env (s.task p))) :
    Pull env s (checkPreemptCurr env (moveQueued env s p src dest) dest p) src dest p := by
  let new : TaskStruct := (s.task p).setCpu env dest
  -- the weight is right already, so the enqueue hook leaves it and the slice alone
  have kept : enqueuedTask env new = new := by
    have sameWeight : new.wrr.weight = pathWeight env (taskGroup env new) := weight
    have sameClass : new.schedClass = .wrr := isWrr
    rw [enqueuedTask, if_pos sameClass, weighByPath, if_pos sameWeight]
  have task : (moveQueued env s p src dest).task = Function.update s.task p new := by
    rw [moveQueued_task, kept]
  have rq := moveQueued_rq env s p src dest
  rw [kept, Function.update_of_ne differs.symm] at rq
  have same : (checkPreemptCurr env (moveQueued env s p src dest) dest p).rq =
      (moveQueued env s p src dest).rq := by
    apply checkPreemptCurr_wrr_rq
    rw [task, Function.update_self]
    exact isWrr
  constructor
  · rw [checkPreemptCurr_task, task]
  · rw [same, rq, Function.update_of_ne differs, Function.update_self, Rq.taken_wrr, if_pos isWrr]
  · have newWrr : new.schedClass = .wrr := isWrr
    rw [same, rq, Function.update_self, Rq.put_wrr, if_pos newWrr]
    rfl
  · intro c notSrc notDest
    rw [same, rq, Function.update_of_ne notDest, Function.update_of_ne notSrc]
  · intro c
    rw [same]
    exact (moveQueued_sameRoles env s p src dest c).1

theorem Pull.task_self (pull : Pull env s next src dest p) :
    next.task p = (s.task p).setCpu env dest := by
  rw [pull.task, Function.update_self]

theorem Pull.task_other (pull : Pull env s next src dest p) (q : Pid) (other : q ≠ p) :
    next.task q = s.task q := by
  rw [pull.task, Function.update_of_ne other]

theorem Pull.entity (pull : Pull env s next src dest p) (q : Pid) :
    (next.task q).wrr = (s.task q).wrr := by
  by_cases moved : q = p
  · rw [moved, pull.task_self]
    rfl
  · rw [pull.task_other q moved]

theorem Pull.queuedWrr_iff (pull : Pull env s next src dest p) (queued : QueuedWrr s src p)
    (c : Cpu) (q : Pid) :
    QueuedWrr next c q ↔ if q = p then c = dest else QueuedWrr s c q := by
  by_cases moved : q = p
  · rw [if_pos moved, moved, QueuedWrr, pull.task_self]
    constructor
    · rintro ⟨-, -, here⟩
      exact here.symm
    · intro here
      exact ⟨queued.1, queued.2.1, here.symm⟩
  · rw [if_neg moved, QueuedWrr, pull.task_other q moved, QueuedWrr]

theorem Pull.laws (pull : Pull env s next src dest p) (laws : ∀ c, WrrRunQueueLaw s c)
    (differs : src ≠ dest) (queued : p ∈ (s.rq src).wrr.queue) (c : Cpu) :
    WrrRunQueueLaw next c := by
  have home : QueuedWrr s src p := ((laws src).mem_iff p).mp queued
  have moved := pull.queuedWrr_iff home
  have weights : weights next.task = weights s.task := by
    funext q
    rw [AndroidKernel.weights, pull.entity q, AndroidKernel.weights]
  rw [wrrRunQueueLaw_iff, weights]
  have before := (wrrRunQueueLaw_iff s c).mp (laws c)
  -- the source loses the task, the destination gains it, and no other queue held it
  by_cases isSrc : c = src
  · subst isSrc
    rw [pull.source]
    apply before.dequeue p home
    intro q
    rw [moved]
    split
    · rename_i same
      simp [same, differs]
    · rename_i other
      simp [other]
  · have away : ¬ QueuedWrr s c p := fun here => isSrc (here.2.2.symm.trans home.2.2)
    by_cases isDest : c = dest
    · subst isDest
      rw [pull.target]
      apply before.enqueue p false away
      intro q
      rw [moved]
      split
      · rename_i same
        simp [same]
      · rename_i other
        simp [other]
    · rw [pull.others c isSrc isDest]
      apply before.congr
      intro q
      rw [moved]
      split
      · rename_i same
        rw [same]
        exact ⟨fun here => absurd here away, fun here => absurd here isDest⟩
      · exact Iff.rfl

theorem Pull.conserves (pull : Pull env s next src dest p) (laws : ∀ c, WrrRunQueueLaw s c)
    (inRange : ∀ cpu ∈ env.cpuOnline, cpu < env.nrCpuIds) (online : dest ∈ env.cpuOnline)
    (eligible : Eligible env s dest src p) : Conserves env s next := by
  have home : QueuedWrr s src p := ((laws src).mem_iff p).mp eligible.queued
  have srcIn : src ∈ Finset.range env.nrCpuIds :=
    Finset.mem_range.mpr (inRange src eligible.online)
  have destIn : dest ∈ Finset.range env.nrCpuIds := Finset.mem_range.mpr (inRange dest online)
  have after := pull.laws laws eligible.other eligible.queued
  constructor
  · intro q runs
    apply pull.task_other
    rintro rfl
    rw [home.2.2, eligible.stands] at runs
    cases runs
  · exact pull.curr
  · exact after
  · intro q
    -- by the law of the queues, a task is on one of them when it is runnable and WRR
    have somewhere (s : Sched) (laws : ∀ c, WrrRunQueueLaw s c) :
        (∃ c, q ∈ (s.rq c).wrr.queue) ↔
          (s.task q).onRq = true ∧ (s.task q).schedClass = .wrr := by
      constructor
      · rintro ⟨c, member⟩
        have here := ((laws c).mem_iff q).mp member
        exact ⟨here.1, here.2.1⟩
      · rintro ⟨on, isWrr⟩
        exact ⟨_, ((laws _).mem_iff q).mpr ⟨on, isWrr, rfl⟩⟩
    rw [somewhere next after, somewhere s laws]
    by_cases moved : q = p
    · rw [moved, pull.task_self]
      rfl
    · rw [pull.task_other q moved]
  · apply sum_transfer _ _ _ src dest ((s.task p).wrr.weight : Int) eligible.other srcIn destIn
    · rw [pull.source]
      rfl
    · rw [pull.target]
      rfl
    · intro c notSrc notDest
      rw [pull.others c notSrc notDest]
  · apply sum_transfer _ _ _ src dest 1 eligible.other srcIn destIn
    · rw [pull.source]
      rfl
    · rw [pull.target]
      rfl
    · intro c notSrc notDest
      rw [pull.others c notSrc notDest]
  · exact pull.entity

theorem Pull.moves_one (pull : Pull env s next src dest p) (laws : ∀ c, WrrRunQueueLaw s c)
    (queued : p ∈ (s.rq src).wrr.queue) : MovesOne s next src dest p := by
  constructor
  · rw [pull.task_self]
    rfl
  · obtain ⟨front, back, split⟩ := List.append_of_mem queued
    have unique := (laws src).nodup
    rw [split] at unique
    have early : p ∉ front := fun inFront =>
      (List.nodup_append.mp unique).2.2 p inFront p List.mem_cons_self rfl
    refine ⟨front, back, split, ?_⟩
    rw [pull.source, WrrRq.dequeue, split, List.erase_append_right _ early, List.erase_cons_head]
  · rw [pull.target]
    rfl
  · exact pull.others
  · exact pull.task_other

end Move

theorem Conserves.refl {env : Env} {s : Sched} (laws : ∀ c, WrrRunQueueLaw s c) :
    Conserves env s s where
  running _ _ := rfl
  curr _ := rfl
  queues := laws
  queued _ := Iff.rfl
  total_weight := rfl
  nr_running := rfl
  entity _ := rfl

/-- `pull_wrr_task` moves the first task there is to move, and nothing else. -/
theorem pull_wrr_task_moves_one {env : Env} {s : Sched} (laws : ∀ c, WrrRunQueueLaw s c)
    (unchanged : PathsUnchanged env s) (inRange : ∀ cpu ∈ env.cpuOnline, cpu < env.nrCpuIds)
    (dest : Cpu) :
    (dest ∈ env.cpuOnline → (∃ src p, Eligible env s dest src p) →
      ∃ src p, FirstEligible env s dest src p ∧
        MovesOne s (pullWrrTask env s dest) src dest p) ∧
    (¬ (dest ∈ env.cpuOnline ∧ ∃ src p, Eligible env s dest src p) →
      pullWrrTask env s dest = s) ∧
    Conserves env s (pullWrrTask env s dest) := by
  by_cases online : dest ∈ env.cpuOnline
  · rw [pullWrrTask, if_neg (not_not.mpr online)]
    cases found : pullSource env s dest with
    | none =>
        have none := pullSource_none laws inRange found
        refine ⟨?_, fun _ => rfl, .refl laws⟩
        rintro - ⟨src, p, eligible⟩
        exact absurd eligible (none src p)
    | some taken =>
        obtain ⟨src, p⟩ := taken
        have first := pullSource_first laws inRange found
        have queued := first.eligible.queued
        have isWrr := (((laws src).mem_iff p).mp queued).2.1
        have pull := moveQueued_pull isWrr first.eligible.other (unchanged src p queued)
        refine ⟨?_, ?_, pull.conserves laws inRange online first.eligible⟩
        · intro _ _
          exact ⟨src, p, first, pull.moves_one laws queued⟩
        · intro vain
          exact absurd ⟨online, src, p, first.eligible⟩ vain
  · rw [pullWrrTask, if_pos online]
    refine ⟨?_, fun _ => rfl, .refl laws⟩
    intro wrong
    exact absurd wrong online

theorem Sound.paths_unchanged {env : Env} {s : Sched} (sound : Sound env s)
    (goldfish : env.kernel = .goldfish) : PathsUnchanged env s := by
  intro c p queued
  have home := ((sound.wrr_law goldfish c).mem_iff p).mp queued
  exact sound.weighed goldfish p home.1 home.2.1

def pullOps : List Op :=
  [.tryToWakeUp 1 1 0, .schedule 0 false false,
    .setscheduler Boot.root 1 Boot.userTask 6 0 true none, .tryToWakeUp 3 1 0,
    .setscheduler Boot.root 3 Boot.userTask 6 0 true none]

theorem pullOps_sound : Sound (Boot.env .goldfish true)
    ((Boot.after .goldfish true pullOps).get (by decide)) :=
  reachable_sound (Boot.reachable .goldfish true pullOps (by decide))

theorem pull_wrr_task_moves_one_two :
    ∃ src p, FirstEligible (Boot.env .goldfish true)
        ((Boot.after .goldfish true pullOps).get (by decide)) 1 src p ∧
      MovesOne ((Boot.after .goldfish true pullOps).get (by decide))
        (pullWrrTask (Boot.env .goldfish true)
          ((Boot.after .goldfish true pullOps).get (by decide)) 1) src 1 p :=
  (pull_wrr_task_moves_one (pullOps_sound.wrr_law rfl) (pullOps_sound.paths_unchanged rfl)
    (by decide) 1).1 (by decide)
    ⟨0, 3, by decide, by decide, by decide, by decide, by decide, by decide⟩

end AndroidKernel
