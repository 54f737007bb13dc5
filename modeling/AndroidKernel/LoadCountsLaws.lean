import AndroidKernel.LoadCountsInvariant

/-!
The counters of all runqueues together are right in every run, though none of
them is on its own: they add up to the tasks that sleep uninterruptibly, and
what the CPUs have folded is in the tasks, in an idle counter or on its way. In
3.1 this needs that a task does not change its state while it is taken off to
be changed; where it does, the sum is wrong for good.
-/

namespace AndroidKernel.LoadCounts

section Runs
variable {m : Machine} {start s : State} {ops : List Op}

theorem Init.taskLaw (init : Init m start) : TaskLaw m start where
  uninterruptible := by
    have none_ : ∀ p ∈ m.tasks, one (counted start p) = 0 := by
      intro p inside
      have light := contributes_running (init.state p inside)
      simp [counted, init.onRq p inside, init.state p inside, light, one, taskWaking]
    rw [Finset.sum_eq_zero init.nrUninterruptible, Finset.sum_eq_zero none_]
  tasks p inside := by
    refine ⟨init.cpu p inside, ?_, ?_⟩
    · simp [init.onRq p inside]
    · simp [init.lifted p inside]

theorem Init.loadLaw (init : Init m start) : LoadLaw m start := by
  rw [LoadLaw, Finset.sum_eq_zero init.carried, Finset.sum_eq_zero init.calcLoadActive,
    init.calcLoadTasks, init.calcLoadIdle, init.calcLoadIdle]
  rfl

theorem reachable_laws (init : Init m start)
    (run : Transition.Run (step m) (fun s op => m.kernel = .tegra → Steady m s op) start ops s) :
    TaskLaw m s ∧ LoadLaw m s := by
  apply run.invariant
  · rintro before op after ⟨tasks, loads⟩ steady moved
    simp only [step] at moved
    split at moved
    next enabled =>
      obtain rfl := Option.some.inj moved
      exact ⟨tasks.step enabled steady, loads.step enabled⟩
    next => cases moved
  · exact ⟨init.taskLaw, init.loadLaw⟩

def counting (m : Machine) (s : State) : Nat := (m.tasks.filter fun p => counted s p).card

theorem uninterruptible_sum (init : Init m start)
    (run : Transition.Run (step m) (fun s op => m.kernel = .tegra → Steady m s op)
      start ops s) :
    ∑ c ∈ m.cpus, s.nrUninterruptible c = BitVec.ofNat 32 (counting m s) := by
  have law := (reachable_laws init run).1.uninterruptible
  rwa [sum_one] at law

/-- The counters of all CPUs add up to the tasks that sleep uninterruptibly, and so
`nr_uninterruptible` never has to cut a negative sum off. -/
theorem uninterruptible_counted (init : Init m start)
    (run : Transition.Run (step m) (fun s op => m.kernel = .tegra → Steady m s op)
      start ops s) :
    ∑ c ∈ m.cpus, s.nrUninterruptible c = BitVec.ofNat 32 (counting m s) ∧
      (m.tasks.card < 2 ^ 31 → (nrUninterruptible m s).toNat = counting m s) := by
  have law := uninterruptible_sum init run
  refine ⟨law, fun few => ?_⟩
  have small : counting m s < 2 ^ 31 := (Finset.card_filter_le _ _).trans_lt few
  have positive : ¬ (BitVec.ofNat 32 (counting m s)).toInt < 0 := by
    rw [BitVec.toInt_eq_toNat_bmod, BitVec.toNat_ofNat, Int.bmod_def]
    omega
  have value : nrUninterruptible m s = BitVec.ofNat 32 (counting m s) := by
    simp only [nrUninterruptible]
    rw [law]
    exact if_neg positive
  rw [value, BitVec.toNat_ofNat, Nat.mod_eq_of_lt (by omega)]

/-- What the CPUs have folded is in `calc_load_tasks`, in an idle counter or on its way;
once each has folded its present share and nothing is on its way, the counters hold the
tasks that run and those that sleep uninterruptibly. -/
theorem load_conserved (init : Init m start)
    (run : Transition.Run (step m) (fun s op => m.kernel = .tegra → Steady m s op)
      start ops s) :
    s.calcLoadTasks + (s.calcLoadIdle false + s.calcLoadIdle true) +
        ∑ c ∈ m.cpus, s.carried c = ∑ c ∈ m.cpus, s.calcLoadActive c ∧
      ((∀ c ∈ m.cpus, s.carried c = 0 ∧
          s.calcLoadActive c = s.nrRunning c + s.nrUninterruptible c) →
        s.calcLoadTasks + (s.calcLoadIdle false + s.calcLoadIdle true) =
          ∑ c ∈ m.cpus, s.nrRunning c + BitVec.ofNat 32 (counting m s)) := by
  have loads := (reachable_laws init run).2
  refine ⟨loads, fun settled => ?_⟩
  have arrived : ∑ c ∈ m.cpus, s.carried c = 0 :=
    Finset.sum_eq_zero fun c inside => (settled c inside).1
  have folded : ∑ c ∈ m.cpus, s.calcLoadActive c =
      ∑ c ∈ m.cpus, s.nrRunning c + ∑ c ∈ m.cpus, s.nrUninterruptible c := by
    rw [← Finset.sum_add_distrib]
    exact Finset.sum_congr rfl fun c inside => (settled c inside).2
  rw [LoadLaw, arrived, add_zero, folded, (uninterruptible_sum init run)] at loads
  exact loads

end Runs

def twoCpus (kernel : Kernel) : Machine := ⟨kernel, true, {0, 1}, {7}⟩

def quiet : State where
  state _ := 0
  frozen _ := false
  onRq _ := false
  onCpu _ := false
  cpu _ := 0
  schedContributesToLoad _ := false
  lifted _ := false
  nrRunning _ := 0
  nrUninterruptible _ := 0
  calcLoadActive _ := 0
  calcLoadTasks := 0
  calcLoadIdle _ := 0
  carried _ := 0

theorem quiet_init (kernel : Kernel) : Init (twoCpus kernel) quiet where
  onRq _ _ := rfl
  onCpu _ _ := rfl
  lifted _ _ := rfl
  state _ _ := rfl
  cpu _ _ := by simp [quiet, twoCpus]
  nrUninterruptible _ _ := rfl
  calcLoadActive _ _ := rfl
  calcLoadTasks := rfl
  calcLoadIdle _ := rfl
  carried _ _ := rfl

def travelling : List Op :=
  [.wakeUpNewTask 7 0, .switchIn 7, .setCurrentState 7 2, .sleep 7, .switchOut 7, .foldActive 0,
    .addIdle 0 true, .ttwuPlace 7 1, .ttwuDoActivate 7, .foldActive 1, .addTasks 1]

def travelled : State :=
  (Transition.runActions (step (twoCpus .goldfish)) quiet travelling).getD quiet

theorem travelled_run : Transition.Run (step (twoCpus .goldfish))
    (fun s op => (twoCpus .goldfish).kernel = .tegra → Steady (twoCpus .goldfish) s op)
    quiet travelling travelled :=
  (Transition.run_of_actions rfl).weaken fun _ _ _ other => Kernel.noConfusion other

theorem uninterruptible_counted_travelled :
    ∑ c ∈ (twoCpus .goldfish).cpus, travelled.nrUninterruptible c =
        BitVec.ofNat 32 (counting (twoCpus .goldfish) travelled) ∧
      ((twoCpus .goldfish).tasks.card < 2 ^ 31 →
        (nrUninterruptible (twoCpus .goldfish) travelled).toNat =
          counting (twoCpus .goldfish) travelled) :=
  uninterruptible_counted (quiet_init .goldfish) travelled_run

theorem load_conserved_travelled :
    travelled.calcLoadTasks + (travelled.calcLoadIdle false + travelled.calcLoadIdle true) +
        ∑ c ∈ (twoCpus .goldfish).cpus, travelled.carried c =
          ∑ c ∈ (twoCpus .goldfish).cpus, travelled.calcLoadActive c ∧
      ((∀ c ∈ (twoCpus .goldfish).cpus, travelled.carried c = 0 ∧
          travelled.calcLoadActive c = travelled.nrRunning c + travelled.nrUninterruptible c) →
        travelled.calcLoadTasks + (travelled.calcLoadIdle false + travelled.calcLoadIdle true) =
          ∑ c ∈ (twoCpus .goldfish).cpus, travelled.nrRunning c +
            BitVec.ofNat 32 (counting (twoCpus .goldfish) travelled)) :=
  load_conserved (quiet_init .goldfish) travelled_run

/-- The counters of the two CPUs on the way, the second being `-1`. -/
example : (travelled.nrUninterruptible 0, travelled.nrUninterruptible 1) = (1, 2 ^ 32 - 1) := by
  decide

/-- What 3.4 avoids: in 3.1 a task that runs is lifted to be changed, and sets its state
meanwhile. The sum is then one too low although nobody sleeps. -/
theorem requeue_race_miscounts :
    ∃ s, Transition.Run (step (twoCpus .tegra)) (fun _ _ => True) quiet
        [.wakeUpNewTask 7 0, .switchIn 7, .lift 7, .setCurrentState 7 2, .drop 7 0,
          .setCurrentState 7 0] s ∧
      ∑ c ∈ (twoCpus .tegra).cpus, s.nrUninterruptible c = 2 ^ 32 - 1 ∧
      counting (twoCpus .tegra) s = 0 :=
  ⟨_, Transition.run_of_actions rfl, by decide, by decide⟩

end AndroidKernel.LoadCounts
