import AndroidKernel.ReachableStates
import AndroidKernel.Boot

/-!
What the counters of a runqueue say in every reachable state. In 3.4 the WRR
queue and its two counters are exact. In 3.1 `nr_running` is exact on the CPUs
without a queued WRR task and only there, because the WRR hooks count although
`activate_task` and `deactivate_task` count already.
-/

namespace AndroidKernel

open RunList

/-- The WRR queue of a CPU against the tasks. The last two fields say that no
decrement of either counter goes below zero. -/
structure WrrRunQueueLaw (s : Sched) (c : Cpu) : Prop where
  nodup : (s.rq c).wrr.queue.Nodup
  mem_iff : ∀ p, p ∈ (s.rq c).wrr.queue ↔
    (s.task p).onRq = true ∧ (s.task p).schedClass = .wrr ∧ (s.task p).cpu = c
  nr_running : (s.rq c).wrr.wrrNrRunning = (s.rq c).wrr.queue.length
  total_weight : (s.rq c).wrr.totalWeight =
    ((s.rq c).wrr.queue.map fun p => ((s.task p).wrr.weight : Int)).sum
  weight_le : ∀ p ∈ (s.rq c).wrr.queue, ((s.task p).wrr.weight : Int) ≤ (s.rq c).wrr.totalWeight
  one_le : ∀ p ∈ (s.rq c).wrr.queue, 1 ≤ (s.rq c).wrr.wrrNrRunning

def QueuedWrr (s : Sched) (c : Cpu) (p : Pid) : Prop :=
  (s.task p).onRq = true ∧ (s.task p).schedClass = .wrr ∧ (s.task p).cpu = c

theorem wrrRunQueueLaw_iff (s : Sched) (c : Cpu) :
    WrrRunQueueLaw s c ↔ WrrOk .goldfish (weights s.task) (QueuedWrr s c) (s.rq c).wrr := by
  constructor
  · intro law
    exact ⟨⟨law.nodup, law.mem_iff⟩, law.nr_running, fun _ => law.total_weight⟩
  · intro ok
    have total := ok.total rfl
    refine ⟨ok.lists.unique, ok.lists.mem_iff, ok.count, total, ?_, ?_⟩
    · intro p member
      rw [total]
      exact le_sum_cast (s.rq c).wrr.queue p (weights s.task) member
    · intro p member
      rw [ok.count]
      have filled := List.length_pos_of_mem member
      omega

theorem Sound.wrr_law {env : Env} {s : Sched} (sound : Sound env s)
    (goldfish : env.kernel = .goldfish) (c : Cpu) : WrrRunQueueLaw s c := by
  rw [wrrRunQueueLaw_iff]
  have wrr := (sound.queues c).wrr
  rw [goldfish] at wrr
  apply wrr.congr
  intro p
  rw [has_entries]
  constructor
  · rintro ⟨on, here, isWrr⟩
    exact ⟨on, isWrr, here⟩
  · rintro ⟨on, isWrr, here⟩
    exact ⟨on, here, isWrr⟩

/-- In 3.4 the WRR runqueue is exact on every CPU in every reachable state. -/
theorem wrr_run_queue_law {env : Env} {ok : Sched → Op → Prop} {s : Sched}
    (goldfish : env.kernel = .goldfish) (reached : Reachable env ok s) (c : Cpu) :
    WrrRunQueueLaw s c :=
  (reachable_sound reached).wrr_law goldfish c

def wrrOps : List Op :=
  [.tryToWakeUp 1 1 0, .tryToWakeUp 3 1 0, .schedule 0 false false,
    .setscheduler Boot.root 1 Boot.userTask 6 0 true none,
    .setscheduler Boot.root 3 Boot.userTask 6 0 true none, .schedulerTick 0, .schedYield 0,
    .schedule 0 false false]

theorem wrr_run_queue_law_two :
    WrrRunQueueLaw ((Boot.after .goldfish false wrrOps).get (by decide)) 0 :=
  wrr_run_queue_law (by rfl) (Boot.reachable .goldfish false wrrOps (by decide)) 0

def QueuedOn (s : Sched) (c : Cpu) (p : Pid) : Prop :=
  (s.task p).onRq = true ∧ (s.task p).cpu = c

def NrRunningExact (s : Sched) (c : Cpu) : Prop := Counts (s.rq c).nrRunning (QueuedOn s c)

theorem SchedOk.nr_running {env : Env} {s : Sched} (queues : SchedOk env s.task s.rq) (c : Cpu) :
    ∃ total, Counts total (QueuedOn s c) ∧
      (s.rq c).nrRunning = total + countedTwice env.kernel (s.rq c).wrr := by
  obtain ⟨total, counts, sum⟩ := (queues c).running
  refine ⟨total, counts.congr fun p => ?_, by omega⟩
  rw [has_entries]
  simp [QueuedOn]

theorem Sound.nr_running_exact {env : Env} {s : Sched} (sound : Sound env s)
    (tegra : env.kernel = .tegra) (c : Cpu) :
    NrRunningExact s c ↔ ∀ p, QueuedOn s c p → (s.task p).schedClass ≠ .wrr := by
  obtain ⟨total, counts, sum⟩ := sound.queues.nr_running c
  have wrr := (sound.queues c).wrr
  rw [tegra, countedTwice, wrr.count] at sum
  constructor
  · intro exact' p queued isWrr
    have same := Counts.unique exact' counts
    have member : p ∈ (s.rq c).wrr.queue :=
      (wrr.lists.mem_iff p).mpr ((has_entries _ _ _ _).mpr ⟨queued.1, queued.2, isWrr⟩)
    have := List.length_pos_of_mem member
    omega
  · intro none
    have empty : (s.rq c).wrr.queue = [] := by
      rw [List.eq_nil_iff_forall_not_mem]
      intro p member
      obtain ⟨on, here, isWrr⟩ := (has_entries _ _ _ _).mp ((wrr.lists.mem_iff p).mp member)
      exact none p ⟨on, here⟩ isWrr
    have same : (s.rq c).nrRunning = total := by simpa [empty] using sum
    rw [NrRunningExact, same]
    exact counts

/-- In 3.1 `nr_running` of a reachable state is exact on a CPU if and only if no
WRR task is queued there. -/
theorem nr_running_exact_iff {env : Env} {ok : Sched → Op → Prop} {s : Sched}
    (tegra : env.kernel = .tegra) (reached : Reachable env ok s) (c : Cpu) :
    NrRunningExact s c ↔ ∀ p, QueuedOn s c p → (s.task p).schedClass ≠ .wrr :=
  (reachable_sound reached).nr_running_exact tegra c

theorem nr_running_exact_iff_two :
    NrRunningExact ((Boot.after .tegra true wrrOps).get (by decide)) 1 ↔
      ∀ p, QueuedOn ((Boot.after .tegra true wrrOps).get (by decide)) 1 p →
        (((Boot.after .tegra true wrrOps).get (by decide)).task p).schedClass ≠ .wrr :=
  nr_running_exact_iff (by rfl) (Boot.reachable .tegra true wrrOps (by decide)) 1

/-- One woken task that turns WRR is counted twice. -/
theorem nr_running_counts_wrr_twice :
    ¬ ∀ s, Reachable (Boot.env .tegra true) (fun _ _ => True) s → ∀ c, NrRunningExact s c := by
  intro claim
  have reached := Boot.reachable .tegra true
    [.tryToWakeUp 1 1 0, .setscheduler Boot.root 1 Boot.userTask 6 0 true none] (by decide)
  have none := ((reachable_sound reached).nr_running_exact rfl 0).mp (claim _ reached 0)
  exact none 1 ⟨by decide, by decide⟩ (by decide)

end AndroidKernel
