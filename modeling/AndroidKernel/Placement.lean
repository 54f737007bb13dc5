import AndroidKernel.Boot

/-!
Where a waking task goes in the SMP build: `select_task_rq` with the WRR hook
and the fallback of both kernels. The hook looks for the least `total_weight`,
but it seeds its search with the previous CPU of the task whether the task may
run there or not. An answer that is not allowed goes to the fallback, which does
not look at weights.
-/

namespace AndroidKernel

/-- The parts that are not in the repository: the node of a CPU, the possible
CPUs, `cpuset.c` and the other classes. `cpusetCpusAllowedFallback` gives the
mask for `do_set_cpus_allowed` and the CPU that 3.1 returns. -/
structure Topology where
  cpumaskOfNode : Cpu → Cpumask
  cpuPossible : Cpumask
  cpusetCpusAllowedFallback : Sched → Pid → Cpumask × Cpu
  selectOther : Sched → Pid → Cpu

def firstCpu (env : Env) (test : Cpu → Bool) : Option Cpu := (List.range env.nrCpuIds).find? test

/-- The loop of `select_fallback_rq` in 3.4 over the mask of the task, which is
widened after each round that finds nothing. `none` is the `BUG()`. -/
def fallbackWiden (env : Env) (p : Pid) : List Cpumask → Sched → Option (Sched × Cpu)
  | masks, s =>
      match firstCpu env fun dest =>
        dest ∈ (s.task p).cpusAllowed && dest ∈ env.cpuOnline && dest ∈ env.cpuActive with
      | some dest => some (s, dest)
      | none =>
          match masks with
          | [] => none
          | mask :: rest => fallbackWiden env p rest (doSetCpusAllowed env s p mask)

/-- `select_fallback_rq`. The two versions differ in the test for online CPUs and
in what they do when no active CPU is allowed. -/
def selectFallbackRq (topo : Topology) (env : Env) (s : Sched) (cpu : Cpu) (p : Pid) :
    Option (Sched × Cpu) :=
  let mask := (s.task p).cpusAllowed
  let fallback := topo.cpusetCpusAllowedFallback s p
  match env.kernel with
  | .tegra =>
      match firstCpu env fun dest =>
        dest ∈ topo.cpumaskOfNode cpu && dest ∈ env.cpuActive && dest ∈ mask with
      | some dest => some (s, dest)
      | none =>
          match firstCpu env fun dest => dest ∈ mask && dest ∈ env.cpuActive with
          | some dest => some (s, dest)
          | none => some (doSetCpusAllowed env s p fallback.1, fallback.2)
  | .goldfish =>
      match firstCpu env fun dest => dest ∈ topo.cpumaskOfNode cpu && dest ∈ env.cpuOnline &&
        dest ∈ env.cpuActive && dest ∈ mask with
      | some dest => some (s, dest)
      | none => fallbackWiden env p [fallback.1, topo.cpuPossible] s

def selectTaskRq (topo : Topology) (env : Env) (s : Sched) (p : Pid) : Option (Sched × Cpu) :=
  let task := s.task p
  let cpu := match task.schedClass with
    | .wrr => selectTaskRqWrr env s p
    | _ => topo.selectOther s p
  if cpu ∉ task.cpusAllowed ∨ cpu ∉ env.cpuOnline then selectFallbackRq topo env s task.cpu p
  else some (s, cpu)

def totalWeight (s : Sched) (cpu : Cpu) : Int := (s.rq cpu).wrr.totalWeight

structure Lightest (env : Env) (s : Sched) (p : Pid) (cpu : Cpu) : Prop where
  online : cpu ∈ env.cpuOnline
  allowed : cpu ∈ (s.task p).cpusAllowed
  least : ∀ other ∈ env.cpuOnline, other ∈ (s.task p).cpusAllowed →
    totalWeight s cpu ≤ totalWeight s other

/-- The first active CPU of the mask, in the node of the previous CPU if there
is one. 3.4 asks for an online CPU too. -/
def firstActive (topo : Topology) (env : Env) (s : Sched) (p : Pid) : Option Cpu :=
  let fits : Cpu → Bool := fun dest => dest ∈ env.cpuActive && dest ∈ (s.task p).cpusAllowed &&
    (env.kernel = .tegra || dest ∈ env.cpuOnline)
  (firstCpu env fun dest => dest ∈ topo.cpumaskOfNode (s.task p).cpu && fits dest).or
    (firstCpu env fits)

section Answers
variable (topo : Topology) {env : Env} {s : Sched} {p : Pid}

theorem firstCpu_isSome {test : Cpu → Bool} {cpu : Cpu} (inRange : cpu < env.nrCpuIds)
    (passes : test cpu = true) : ∃ dest, firstCpu env test = some dest := by
  apply Option.isSome_iff_exists.mp
  rw [firstCpu, List.find?_isSome]
  exact ⟨cpu, List.mem_range.mpr inRange, passes⟩

theorem selectFallbackRq_eq {cpu : Cpu} (inRange : cpu < env.nrCpuIds)
    (online : cpu ∈ env.cpuOnline) (active : cpu ∈ env.cpuActive)
    (allowed : cpu ∈ (s.task p).cpusAllowed) :
    ∃ dest, firstActive topo env s p = some dest ∧
      selectFallbackRq topo env s (s.task p).cpu p = some (s, dest) := by
  let fits : Cpu → Bool := fun dest => dest ∈ env.cpuActive && dest ∈ (s.task p).cpusAllowed &&
    (env.kernel = .tegra || dest ∈ env.cpuOnline)
  let near : Option Cpu :=
    firstCpu env fun dest => dest ∈ topo.cpumaskOfNode (s.task p).cpu && fits dest
  obtain ⟨any, found⟩ : ∃ dest, firstCpu env fits = some dest :=
    firstCpu_isSome inRange (by simp [fits, online, active, allowed])
  have first : firstActive topo env s p = near.or (some any) := by
    rw [← found]
    rfl
  -- both kernels ask the node first and the whole mask then, with the same tests
  have fallback : selectFallbackRq topo env s (s.task p).cpu p =
      (near.or (some any)).map (s, ·) := by
    cases kernel : env.kernel with
    | tegra =>
        have test : (fun dest => decide (dest ∈ (s.task p).cpusAllowed) &&
            decide (dest ∈ env.cpuActive)) = fits := by
          funext dest
          simp [fits, kernel, Bool.and_comm]
        have nearTest : (fun dest => decide (dest ∈ topo.cpumaskOfNode (s.task p).cpu) &&
            decide (dest ∈ env.cpuActive) && decide (dest ∈ (s.task p).cpusAllowed)) =
            fun dest => decide (dest ∈ topo.cpumaskOfNode (s.task p).cpu) && fits dest := by
          funext dest
          simp [fits, kernel, Bool.and_assoc]
        simp only [selectFallbackRq, kernel, nearTest, test, found, near]
        split <;> simp [*]
    | goldfish =>
        have test : (fun dest => decide (dest ∈ (s.task p).cpusAllowed) &&
            decide (dest ∈ env.cpuOnline) && decide (dest ∈ env.cpuActive)) = fits := by
          funext dest
          simp only [fits, kernel, reduceCtorEq, decide_false, Bool.false_or]
          ac_rfl
        have nearTest : (fun dest => decide (dest ∈ topo.cpumaskOfNode (s.task p).cpu) &&
            decide (dest ∈ env.cpuOnline) && decide (dest ∈ env.cpuActive) &&
            decide (dest ∈ (s.task p).cpusAllowed)) =
            fun dest => decide (dest ∈ topo.cpumaskOfNode (s.task p).cpu) && fits dest := by
          funext dest
          simp only [fits, kernel, reduceCtorEq, decide_false, Bool.false_or]
          ac_rfl
        simp only [selectFallbackRq, kernel, nearTest, fallbackWiden, test, found, near]
        split <;> simp [*]
  rw [first, fallback]
  generalize near = nearest
  cases nearest with
  | some dest => exact ⟨dest, rfl, rfl⟩
  | none => exact ⟨any, rfl, rfl⟩

theorem firstActive_allowed {dest : Cpu} (first : firstActive topo env s p = some dest) :
    dest ∈ (s.task p).cpusAllowed := by
  rcases Option.or_eq_some_iff.mp first with near | ⟨-, any⟩
  · have passes := List.find?_some near
    simp only [Bool.and_eq_true, decide_eq_true_eq] at passes
    exact passes.2.1.2
  · have passes := List.find?_some any
    simp only [Bool.and_eq_true, decide_eq_true_eq] at passes
    exact passes.1.2

/-- Without the early return the hook ends at a lightest CPU or at the previous
one, which is then no heavier than the online CPUs of the mask. -/
theorem selectTaskRqWrr_cases (several : (s.task p).wrr.nrCpusAllowed ≠ 1)
    (inRange : ∀ cpu ∈ env.cpuOnline, cpu < env.nrCpuIds) :
    -- a lighter CPU than the previous one
    (Lightest env s p (selectTaskRqWrr env s p) ∧
        totalWeight s (selectTaskRqWrr env s p) < totalWeight s (s.task p).cpu) ∨
      -- the previous one, as none is lighter
      selectTaskRqWrr env s p = (s.task p).cpu ∧
        ∀ cpu ∈ env.cpuOnline, cpu ∈ (s.task p).cpusAllowed →
          totalWeight s (s.task p).cpu ≤ totalWeight s cpu := by
  let places := (List.range env.nrCpuIds).filter (· ∈ env.cpuOnline)
  let last := places.foldl (RunList.scan (totalWeight s) (· ∈ (s.task p).cpusAllowed))
    (totalWeight s (s.task p).cpu, (s.task p).cpu)
  have answer : selectTaskRqWrr env s p = last.2 := by
    simp only [selectTaskRqWrr]
    rw [if_neg several]
    rfl
  have online : ∀ cpu, cpu ∈ places ↔ cpu ∈ env.cpuOnline := by
    intro cpu
    simp only [places, List.mem_filter, List.mem_range, decide_eq_true_eq]
    exact ⟨And.right, fun member => ⟨inRange cpu member, member⟩⟩
  obtain ⟨-, least⟩ := RunList.foldl_scan_le (totalWeight s) (· ∈ (s.task p).cpusAllowed) places
    (totalWeight s (s.task p).cpu, (s.task p).cpu)
  have least' : ∀ cpu ∈ env.cpuOnline, cpu ∈ (s.task p).cpusAllowed →
      last.1 ≤ totalWeight s cpu := fun cpu member allowed =>
    least cpu ((online cpu).mpr member) allowed
  rw [answer]
  rcases RunList.foldl_scan_cases (totalWeight s) (· ∈ (s.task p).cpusAllowed) places
    (totalWeight s (s.task p).cpu, (s.task p).cpu) with kept | ⟨cpu, member, allowed, less, ends⟩
  · have same : last = (totalWeight s (s.task p).cpu, (s.task p).cpu) := kept
    rw [same] at least' ⊢
    exact Or.inr ⟨rfl, least'⟩
  · have same : last = (totalWeight s cpu, cpu) := ends
    rw [same] at least' ⊢
    exact Or.inl ⟨⟨(online cpu).mp member, allowed, least'⟩, less⟩

end Answers

/-- A waking WRR task gets a lightest online CPU of its mask if and only if its
previous CPU is one that it may use, or is heavier than one that it may use, or
the first active CPU of the mask happens to be lightest. -/
theorem select_task_rq_lightest_iff {topo : Topology} {env : Env} {s : Sched} {p : Pid}
    (isWrr : (s.task p).schedClass = .wrr)
    (inRange : ∀ cpu ∈ env.cpuOnline, cpu < env.nrCpuIds)
    (size : (s.task p).wrr.nrCpusAllowed = (s.task p).cpusAllowed.card)
    (usable : ∃ cpu ∈ env.cpuOnline, cpu ∈ env.cpuActive ∧ cpu ∈ (s.task p).cpusAllowed) :
    (∃ dest, selectTaskRq topo env s p = some (s, dest) ∧ Lightest env s p dest) ↔
      ((s.task p).cpu ∈ (s.task p).cpusAllowed ∧ (s.task p).cpu ∈ env.cpuOnline) ∨
      (∃ cpu ∈ env.cpuOnline, cpu ∈ (s.task p).cpusAllowed ∧
        totalWeight s cpu < totalWeight s (s.task p).cpu) ∨
      ∃ dest, firstActive topo env s p = some dest ∧ Lightest env s p dest := by
  obtain ⟨cpu, online, active, allowed⟩ := usable
  obtain ⟨fallback, first, falls⟩ :=
    selectFallbackRq_eq topo (inRange cpu online) online active allowed
  have dispatch : selectTaskRq topo env s p =
      if selectTaskRqWrr env s p ∉ (s.task p).cpusAllowed ∨
        selectTaskRqWrr env s p ∉ env.cpuOnline
      then some (s, fallback) else some (s, selectTaskRqWrr env s p) := by
    simp only [selectTaskRq, isWrr, falls]
  by_cases one : (s.task p).wrr.nrCpusAllowed = 1
  · -- the mask has one CPU, which is online, so every way leads to it
    have sole : ∀ other ∈ (s.task p).cpusAllowed, other = cpu := by
      obtain ⟨only, mask⟩ := Finset.card_eq_one.mp (size.symm.trans one)
      rw [mask, Finset.mem_singleton] at allowed
      intro other member
      rw [mask, Finset.mem_singleton] at member
      rw [member, allowed]
    have lightest : ∀ dest ∈ (s.task p).cpusAllowed, Lightest env s p dest := by
      intro dest member
      rw [sole dest member]
      refine ⟨online, allowed, fun other _ member => ?_⟩
      rw [sole other member]
    have inMask := firstActive_allowed topo first
    refine iff_of_true ?_ (Or.inr (Or.inr ⟨fallback, first, lightest fallback inMask⟩))
    rw [dispatch]
    split
    · exact ⟨fallback, rfl, lightest fallback inMask⟩
    · rename_i fine
      rw [not_or, not_not] at fine
      exact ⟨_, rfl, lightest _ fine.1⟩
  -- the scan ends on a lighter CPU, which is online and allowed, or leaves the previous one
  · rcases selectTaskRqWrr_cases one inRange with ⟨lightest, lighter⟩ | ⟨previous, least⟩
    · refine iff_of_true ?_ (Or.inr (Or.inl ⟨_, lightest.online, lightest.allowed, lighter⟩))
      rw [dispatch, if_neg (by simp [lightest.online, lightest.allowed])]
      exact ⟨_, rfl, lightest⟩
    · have noLighter : ¬ ∃ cpu ∈ env.cpuOnline, cpu ∈ (s.task p).cpusAllowed ∧
          totalWeight s cpu < totalWeight s (s.task p).cpu := fun ⟨other, on, may, less⟩ =>
        absurd (least other on may) (not_le.mpr less)
      rw [dispatch, previous, or_iff_right noLighter]
      by_cases fits : (s.task p).cpu ∈ (s.task p).cpusAllowed ∧ (s.task p).cpu ∈ env.cpuOnline
      · rw [if_neg (by simp [fits])]
        exact iff_of_true ⟨_, rfl, fits.2, fits.1, least⟩ (Or.inl fits)
      · rw [if_pos (by rwa [← not_and_or]), or_iff_right fits, first]
        simp

def movedState : Sched :=
  let task : TaskStruct := { Boot.userTask with
    schedClass := .wrr, policy := .wrr, cpusAllowed := {1, 2} }
  let loads : Cpu → Int := fun cpu => if cpu = 1 then 20 else if cpu = 2 then 10 else 0
  { Boot.state with
    task := fun _ => task
    rq := fun cpu => { Boot.emptyRq cpu with wrr := { initWrrRq with totalWeight := loads cpu } } }

def movedEnv (kernel : Kernel) : Env :=
  { Boot.env kernel true with nrCpuIds := 3, cpuOnline := {0, 1, 2}, cpuActive := {0, 1, 2} }

def flatTopology : Topology where
  cpumaskOfNode _ := {0, 1, 2}
  cpuPossible := {0, 1, 2}
  cpusetCpusAllowedFallback _ _ := ({0, 1, 2}, 0)
  selectOther s p := (s.task p).cpu

theorem select_task_rq_lightest_iff_moved :
    (∃ dest, selectTaskRq flatTopology (movedEnv .tegra) movedState 1 = some (movedState, dest) ∧
      Lightest (movedEnv .tegra) movedState 1 dest) ↔
    ((movedState.task 1).cpu ∈ (movedState.task 1).cpusAllowed ∧
      (movedState.task 1).cpu ∈ (movedEnv .tegra).cpuOnline) ∨
    (∃ cpu ∈ (movedEnv .tegra).cpuOnline, cpu ∈ (movedState.task 1).cpusAllowed ∧
      totalWeight movedState cpu < totalWeight movedState (movedState.task 1).cpu) ∨
    ∃ dest, firstActive flatTopology (movedEnv .tegra) movedState 1 = some dest ∧
      Lightest (movedEnv .tegra) movedState 1 dest :=
  select_task_rq_lightest_iff rfl (by decide) (by decide) (by decide)

/-- The heavier of the two CPUs is chosen. -/
theorem fallback_ignores_weight :
    ¬ ∀ (topo : Topology) (env : Env) (s : Sched) (p : Pid), (s.task p).schedClass = .wrr →
      (∀ cpu ∈ env.cpuOnline, cpu < env.nrCpuIds) →
      (s.task p).wrr.nrCpusAllowed = (s.task p).cpusAllowed.card →
      (∃ cpu ∈ env.cpuOnline, cpu ∈ env.cpuActive ∧ cpu ∈ (s.task p).cpusAllowed) →
      ∃ dest, selectTaskRq topo env s p = some (s, dest) ∧ Lightest env s p dest := by
  intro claim
  obtain ⟨dest, answer, lightest⟩ :=
    claim flatTopology (movedEnv .tegra) movedState 1 rfl (by decide) (by decide) (by decide)
  have chosen : (selectTaskRq flatTopology (movedEnv .tegra) movedState 1).map Prod.snd =
      some 1 := rfl
  rw [answer, Option.map_some, Option.some.injEq] at chosen
  subst chosen
  exact absurd (lightest.least 2 (by decide) (by decide)) (by decide)

end AndroidKernel
