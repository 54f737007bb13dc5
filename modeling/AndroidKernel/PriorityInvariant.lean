import AndroidKernel.PolicySteps
import AndroidKernel.Boot

/-!
The priorities of a task fit its policy, and they fit its class as far as the
real-time and fair classes go. Every operation of both kernels keeps this, so
it holds in every reachable state. Nothing is said about the WRR class here: a
WRR task can have any effective priority.
-/

namespace AndroidKernel

theorem not_rtPrio {prio : Int} (high : 100 ≤ prio) : ¬ rtPrio prio := by
  rw [rtPrio_iff]
  omega

section Values
variable {task : TaskStruct}

theorem normalPrio_rt (real : taskHasRtPolicy task = true) :
    normalPrio task = 99 - task.rtPriority := by
  simp [normalPrio, real, maxRtPrio]

theorem normalPrio_other (unreal : taskHasRtPolicy task = false) :
    normalPrio task = task.staticPrio := by
  simp [normalPrio, unreal]

theorem rtMutexGetprio_le (waiter : Option Nat) (task : TaskStruct) :
    rtMutexGetprio waiter task ≤ task.normalPrio := by
  cases waiter with
  | none => exact le_rfl
  | some prio => exact min_le_right _ _

theorem rtMutexGetprio_nonneg (waiter : Option Nat) (task : TaskStruct)
    (nonneg : 0 ≤ task.normalPrio) : 0 ≤ rtMutexGetprio waiter task := by
  cases waiter with
  | none => exact nonneg
  | some prio => exact le_min (Int.natCast_nonneg prio) nonneg

theorem niceToPrio_ge {nice : Int} (low : -20 ≤ nice) : 100 ≤ niceToPrio nice := by
  simp only [niceToPrio, maxRtPrio]
  omega

theorem classFor_rt {policy : Policy} {prio : Int} (isRt : classFor policy prio = .rt) :
    rtPrio prio := by
  rw [classFor] at isRt
  split_ifs at isRt with isWrr boosted
  exact boosted

theorem classFor_fair {policy : Policy} {prio : Int} (isFair : classFor policy prio = .fair) :
    ¬ rtPrio prio := by
  rw [classFor] at isFair
  split_ifs at isFair with isWrr boosted
  exact boosted

theorem classFor_real {policy : Policy} {prio : Int} (real : rtPolicy policy = true)
    (low : rtPrio prio) : classFor policy prio = .rt := by
  have notWrr : policy ≠ .wrr := by
    rintro rfl
    cases real
  rw [classFor, if_neg notWrr, if_pos low]

end Values

/-- `normal_prio` is the one of the policy, `prio` is a boosted `normal_prio` at
least for the real-time policies, and outside the WRR class the class goes by
`prio`. -/
structure PrioOk (task : TaskStruct) : Prop where
  normal_eq : task.normalPrio = normalPrio task
  rt_le : taskHasRtPolicy task = true → task.prio ≤ task.normalPrio
  prio_nonneg : 0 ≤ task.prio
  static_ge : 100 ≤ task.staticPrio
  rtPriority_le : task.rtPriority ≤ 99
  real_class : taskHasRtPolicy task = true → task.schedClass = .rt
  rt_prio : task.schedClass = .rt → rtPrio task.prio
  fair_prio : task.schedClass = .fair → ¬ rtPrio task.prio

section Prios
variable {env : Env} {task after : TaskStruct}

theorem normalPrio_nonneg (static : 100 ≤ task.staticPrio) (small : task.rtPriority ≤ 99) :
    0 ≤ normalPrio task := by
  cases real : taskHasRtPolicy task with
  | true =>
      rw [normalPrio_rt real]
      omega
  | false =>
      rw [normalPrio_other real]
      omega

theorem PrioOk.same (ok : PrioOk task) (same : SamePolicy env task after) : PrioOk after := by
  have hasSame : taskHasRtPolicy after = taskHasRtPolicy task := by
    simp [taskHasRtPolicy, same.policy]
  constructor
  · have normalSame : normalPrio after = normalPrio task := by
      simp [normalPrio, hasSame, same.rtPriority, same.staticPrio]
    rw [same.normalPrio, normalSame]
    exact ok.normal_eq
  · rw [hasSame, same.prio, same.normalPrio]
    exact ok.rt_le
  · rw [same.prio]
    exact ok.prio_nonneg
  · rw [same.staticPrio]
    exact ok.static_ge
  · rw [same.rtPriority]
    exact ok.rtPriority_le
  · rw [hasSame, same.schedClass]
    exact ok.real_class
  · rw [same.schedClass, same.prio]
    exact ok.rt_prio
  · rw [same.schedClass, same.prio]
    exact ok.fair_prio

theorem PrioOk.normal_cases (ok : PrioOk task) :
    (taskHasRtPolicy task = true ∧ rtPrio task.normalPrio) ∨
      (taskHasRtPolicy task = false ∧ task.normalPrio = task.staticPrio) := by
  have normal := ok.normal_eq
  cases real : taskHasRtPolicy task with
  | true =>
      rw [normalPrio_rt real] at normal
      refine Or.inl ⟨rfl, ?_⟩
      rw [rtPrio_iff]
      omega
  | false => exact Or.inr ⟨rfl, normal.trans (normalPrio_other real)⟩

theorem PrioOk.normal_nonneg (ok : PrioOk task) : 0 ≤ task.normalPrio :=
  ok.normal_eq ▸ normalPrio_nonneg ok.static_ge ok.rtPriority_le

theorem PrioOk.real_of_normal (ok : PrioOk task) (low : rtPrio task.normalPrio) :
    taskHasRtPolicy task = true := by
  rcases ok.normal_cases with ⟨real, -⟩ | ⟨-, plain⟩
  · exact real
  · rw [plain] at low
    exact absurd low (not_rtPrio ok.static_ge)

theorem PrioOk.chosen (normal : task.normalPrio = normalPrio task)
    (le : task.prio ≤ task.normalPrio) (nonneg : 0 ≤ task.prio) (static : 100 ≤ task.staticPrio)
    (small : task.rtPriority ≤ 99)
    (chosen : task.schedClass = classFor task.policy task.prio) : PrioOk task where
  normal_eq := normal
  rt_le _ := le
  prio_nonneg := nonneg
  static_ge := static
  rtPriority_le := small
  real_class real := by
    rw [chosen]
    apply classFor_real real
    rw [normal, normalPrio_rt real] at le
    rw [rtPrio_iff]
    omega
  rt_prio isRt := classFor_rt (chosen.symm.trans isRt)
  fair_prio isFair := classFor_fair (chosen.symm.trans isFair)

theorem PrioOk.setscheduler (ok : PrioOk task) (waiter : Option Nat) (policy : Policy)
    (prio : Nat) (small : prio ≤ 99) :
    PrioOk (AndroidKernel.setscheduler waiter policy prio task) := by
  let named : TaskStruct := { task with policy := policy, rtPriority := prio }
  let normal : TaskStruct := { named with normalPrio := normalPrio named }
  have base : 0 ≤ normalPrio named := normalPrio_nonneg ok.static_ge small
  apply PrioOk.chosen
  · rfl
  · exact rtMutexGetprio_le waiter normal
  · exact rtMutexGetprio_nonneg waiter normal base
  · exact ok.static_ge
  · exact small
  · rfl

theorem PrioOk.boost (ok : PrioOk task) (waiter : Option Nat) :
    PrioOk (setEffectivePrio (rtMutexGetprio waiter task) task) := by
  apply PrioOk.chosen
  · exact ok.normal_eq
  · exact rtMutexGetprio_le waiter task
  · exact rtMutexGetprio_nonneg waiter task ok.normal_nonneg
  · exact ok.static_ge
  · exact ok.rtPriority_le
  · rfl

theorem PrioOk.nice_rt (ok : PrioOk task) (real : taskHasRtPolicy task = true) {nice : Int}
    (low : -20 ≤ nice) : PrioOk { task with staticPrio := niceToPrio nice } := by
  have realStill : taskHasRtPolicy { task with staticPrio := niceToPrio nice } = true := real
  refine ⟨?_, ok.rt_le, ok.prio_nonneg, niceToPrio_ge low, ok.rtPriority_le, ok.real_class,
    ok.rt_prio, ok.fair_prio⟩
  rw [normalPrio_rt realStill]
  exact ok.normal_eq.trans (normalPrio_rt real)

/-- `effective_prio` leaves a boosted task alone and gives the others the new
nice value. -/
theorem effectivePrio_nice {nice : Int} (unreal : taskHasRtPolicy task = false) :
    (effectivePrio { task with staticPrio := niceToPrio nice }).normalPrio = niceToPrio nice ∧
      (effectivePrio { task with staticPrio := niceToPrio nice }).prio =
        if rtPrio task.prio then task.prio else niceToPrio nice := by
  let niced : TaskStruct := { task with staticPrio := niceToPrio nice }
  have normal : normalPrio niced = niceToPrio nice := normalPrio_other unreal
  refine ⟨normal, ?_⟩
  change (if rtPrio task.prio then task.prio else normalPrio niced) = _
  rw [normal]

theorem PrioOk.nice (ok : PrioOk task) (unreal : taskHasRtPolicy task = false) {nice : Int}
    (low : -20 ≤ nice) : PrioOk (effectivePrio { task with staticPrio := niceToPrio nice }) := by
  have static := niceToPrio_ge low
  obtain ⟨normal, prio⟩ := effectivePrio_nice unreal
  let edited : TaskStruct := effectivePrio { task with staticPrio := niceToPrio nice }
  have unrealStill : taskHasRtPolicy edited = false := unreal
  have stays : rtPrio edited.prio ↔ rtPrio task.prio := by
    rw [prio]
    split
    · exact Iff.rfl
    · rename_i plain
      exact ⟨fun low => absurd low (not_rtPrio static), fun low => absurd low plain⟩
  have noReal : ∀ {goal : Prop}, taskHasRtPolicy edited = true → goal := by
    intro goal real
    rw [unrealStill] at real
    cases real
  constructor
  · exact normal.trans (normalPrio_other unrealStill).symm
  · exact noReal
  · rw [prio]
    split
    · exact ok.prio_nonneg
    · omega
  · exact static
  · exact ok.rtPriority_le
  · exact noReal
  · exact fun isRt => stays.mpr (ok.rt_prio isRt)
  · exact fun isFair => fun low => ok.fair_prio isFair (stays.mp low)

/-- The last test of `sched_fork`, on a copy whose priorities are set. -/
theorem PrioOk.newborn {draft : TaskStruct} (normal : draft.normalPrio = normalPrio draft)
    (le : taskHasRtPolicy draft = true → draft.prio ≤ draft.normalPrio)
    (nonneg : 0 ≤ draft.prio) (static : 100 ≤ draft.staticPrio) (small : draft.rtPriority ≤ 99)
    (inherits : rtPrio draft.prio → draft.schedClass = .rt) :
    PrioOk (if rtPrio draft.prio then draft else { draft with schedClass := .fair }) := by
  split
  · rename_i low
    exact ⟨normal, le, nonneg, static, small, fun _ => inherits low, fun _ => low, fun isFair => by
      rw [inherits low] at isFair
      cases isFair⟩
  · rename_i high
    refine ⟨normal, le, nonneg, static, small, fun real => ?_, (fun isRt => by cases isRt),
      fun _ => high⟩
    have real' : taskHasRtPolicy draft = true := real
    have below := le real'
    rw [normal, normalPrio_rt real'] at below
    refine absurd ?_ high
    rw [rtPrio_iff]
    omega

theorem PrioOk.plain {child : TaskStruct} (unreal : taskHasRtPolicy child = false)
    (cls : child.schedClass = .fair) (prio : child.prio = child.staticPrio)
    (normal : child.normalPrio = child.staticPrio) (static : 100 ≤ child.staticPrio)
    (small : child.rtPriority ≤ 99) : PrioOk child where
  normal_eq := normal.trans (normalPrio_other unreal).symm
  rt_le real := by
    rw [unreal] at real
    cases real
  prio_nonneg := by omega
  static_ge := static
  rtPriority_le := small
  real_class real := by
    rw [unreal] at real
    cases real
  rt_prio isRt := by
    rw [cls] at isRt
    cases isRt
  fair_prio _ := by
    rw [prio]
    exact not_rtPrio static

theorem PrioOk.fork_goldfish (ok : PrioOk task) : PrioOk (schedForkGoldfish task) := by
  have default : (100 : Int) ≤ niceToPrio 0 := by decide
  have static := ok.static_ge
  simp only [schedForkGoldfish]
  cases reset : task.schedResetOnFork with
  | false =>
      apply PrioOk.newborn
      · exact ok.normal_eq
      · exact fun _ => le_rfl
      · exact ok.normal_nonneg
      · exact static
      · exact ok.rtPriority_le
      · exact fun low => ok.real_class (ok.real_of_normal low)
  | true =>
      simp only [if_true]
      split
      · -- a real-time parent leaves policy, nice value and priority at their defaults
        rw [if_neg (not_rtPrio default)]
        exact .plain rfl rfl rfl rfl default (Nat.zero_le 99)
      · rename_i unreal
        have notReal : taskHasRtPolicy task = false := eq_false_of_ne_true unreal
        split
        · rw [if_neg (not_rtPrio default)]
          exact .plain notReal rfl rfl rfl default ok.rtPriority_le
        · rw [if_neg (not_rtPrio static)]
          exact .plain notReal rfl rfl rfl static ok.rtPriority_le

/-- What `sched_fork` of 3.1 gives the child. The child of a real-time parent
with the reset flag gets its policy back to normal but still starts with the
real-time priority of the parent. -/
structure ForkedTegra (parent child : TaskStruct) : Prop where
  prio : child.prio = parent.normalPrio
  schedClass : child.schedClass = if rtPrio parent.normalPrio then .rt else .fair
  rtPriority : child.rtPriority = parent.rtPriority
  priorities : child.policy = parent.policy ∧ child.staticPrio = parent.staticPrio ∧
      child.normalPrio = parent.normalPrio ∨
    taskHasRtPolicy child = false ∧ child.normalPrio = child.staticPrio ∧
      (child.staticPrio = parent.staticPrio ∨ child.staticPrio = niceToPrio 0)

theorem schedForkTegra_forked (ok : PrioOk task) : ForkedTegra task (schedForkTegra task) := by
  have notReal : ¬ (task.policy = .fifo ∨ task.policy = .rr) → rtPolicy task.policy = false := by
    cases policy : task.policy <;> simp [rtPolicy]
  -- the branches of `sched_fork` overwrite one another, so each field is computed by itself
  have policy : (schedForkTegra task).policy =
      if task.schedResetOnFork then
        if task.policy = .fifo ∨ task.policy = .rr then .normal else task.policy
      else task.policy := by
    simp only [schedForkTegra, apply_ite TaskStruct.policy, ite_self]
  have static : (schedForkTegra task).staticPrio =
      if task.schedResetOnFork then
        if prioToNice task.staticPrio < 0 then niceToPrio 0 else task.staticPrio
      else task.staticPrio := by
    simp only [schedForkTegra, apply_ite TaskStruct.staticPrio, ite_self]
  have normal : (schedForkTegra task).normalPrio =
      if task.schedResetOnFork then
        if prioToNice task.staticPrio < 0 then niceToPrio 0
        else if task.policy = .fifo ∨ task.policy = .rr then task.staticPrio
        else task.normalPrio
      else task.normalPrio := by
    simp only [schedForkTegra, apply_ite TaskStruct.normalPrio, apply_ite TaskStruct.staticPrio,
      ite_self]
  constructor
  · simp only [schedForkTegra, apply_ite TaskStruct.prio, ite_self]
  · -- a parent whose normal priority is real-time is not WRR, so its class is kept
    have inherits : rtPrio task.normalPrio → task.policy ≠ .wrr ∧ task.schedClass = .rt := by
      intro low
      have real := ok.real_of_normal low
      refine ⟨fun isWrr => ?_, ok.real_class real⟩
      simp [taskHasRtPolicy, isWrr, rtPolicy] at real
    simp only [schedForkTegra, apply_ite TaskStruct.prio, apply_ite TaskStruct.policy,
      apply_ite TaskStruct.schedClass, ite_self]
    split
    · rename_i low
      obtain ⟨other, isRt⟩ := inherits low
      split_ifs <;> simp_all
    · rfl
  · simp only [schedForkTegra, apply_ite TaskStruct.rtPriority, ite_self]
  · rw [taskHasRtPolicy, policy, static, normal]
    split
    · split
      · split <;> simp [rtPolicy]
      · rename_i notRt
        have plain : task.normalPrio = task.staticPrio := by
          rw [ok.normal_eq, normalPrio_other (notReal notRt)]
        split <;> simp [notReal notRt, plain]
    · simp

theorem PrioOk.fork_tegra (ok : PrioOk task) : PrioOk (schedForkTegra task) := by
  obtain ⟨prio, cls, small, priorities⟩ := schedForkTegra_forked ok
  have static := ok.static_ge
  have kept : taskHasRtPolicy (schedForkTegra task) = true →
      taskHasRtPolicy task = true ∧ (schedForkTegra task).normalPrio = task.normalPrio := by
    intro real
    rcases priorities with ⟨policy, -, normal⟩ | ⟨unreal, -⟩
    · rw [taskHasRtPolicy, policy] at real
      exact ⟨real, normal⟩
    · rw [unreal] at real
      cases real
  constructor
  · rcases priorities with ⟨policy, sameStatic, normal⟩ | ⟨unreal, normal, -⟩
    · rw [normal, ok.normal_eq, normalPrio, normalPrio, sameStatic, small, taskHasRtPolicy,
        taskHasRtPolicy, policy]
    · exact normal.trans (normalPrio_other unreal).symm
  · intro real
    rw [prio, (kept real).2]
  · rw [prio]
    exact ok.normal_nonneg
  · rcases priorities with ⟨-, same, -⟩ | ⟨-, -, same | zero⟩
    · rwa [same]
    · rwa [same]
    · rw [zero]
      decide
  · rw [small]
    exact ok.rtPriority_le
  · intro real
    rcases ok.normal_cases with ⟨-, low⟩ | ⟨unreal, -⟩
    · rw [cls, if_pos low]
    · rw [(kept real).1] at unreal
      cases unreal
  · intro isRt
    rw [cls] at isRt
    rw [prio]
    by_contra high
    rw [if_neg high] at isRt
    cases isRt
  · intro isFair
    rw [cls] at isFair
    rw [prio]
    intro low
    rw [if_pos low] at isFair
    cases isFair

theorem PrioOk.fork (ok : PrioOk task) (kernel : Kernel) : PrioOk (schedFork kernel task) := by
  cases kernel with
  | goldfish => exact ok.fork_goldfish
  | tegra => exact ok.fork_tegra

theorem schedForkGoldfish_class (task : TaskStruct) :
    (schedForkGoldfish task).prio = (schedForkGoldfish task).normalPrio ∧
      (schedForkGoldfish task).schedClass =
        if rtPrio (schedForkGoldfish task).prio then task.schedClass else .fair := by
  simp only [schedForkGoldfish, apply_ite TaskStruct.prio, apply_ite TaskStruct.normalPrio,
    apply_ite TaskStruct.staticPrio, apply_ite TaskStruct.schedClass, ite_self, and_self]

theorem PrioOk.fork_class (ok : PrioOk task) (kernel : Kernel) :
    (schedFork kernel task).schedClass ≠ .wrr := by
  cases kernel with
  | goldfish =>
      obtain ⟨prio, cls⟩ := schedForkGoldfish_class task
      have child := ok.fork_goldfish
      rw [schedFork]
      by_cases low : rtPrio (schedForkGoldfish task).prio
      · -- only a real-time policy has such a normal priority, and the child has its normal one
        rw [child.real_class (child.real_of_normal (prio ▸ low))]
        exact SchedClass.noConfusion
      · rw [cls, if_neg low]
        exact SchedClass.noConfusion
  | tegra =>
      rw [schedFork, (schedForkTegra_forked ok).schedClass]
      split <;> simp

theorem schedFork_policy (kernel : Kernel) (task : TaskStruct) :
    (schedFork kernel task).policy = task.policy ∨ (schedFork kernel task).policy = .normal := by
  cases kernel <;>
    simp only [schedFork, schedForkGoldfish, schedForkTegra, apply_ite TaskStruct.policy,
      ite_self] <;>
    split_ifs <;> simp

end Prios

def PriosOk (s : Sched) : Prop := ∀ p, Ordinary (s.task p) → PrioOk (s.task p)

theorem PriosOk.rt_prios {s : Sched} (prios : PriosOk s) (c : Cpu) {p : Pid}
    (isRt : (s.task p).schedClass = .rt) :
    ((s.rtState c).prio p : Int) = (s.task p).prio ∧
      ((s.rtState c).normalPrio p : Int) = (s.task p).normalPrio ∧
      (s.rtState c).prio p < RtGroups.maxRtPrio := by
  have ok : PrioOk (s.task p) := prios p (by simp [Ordinary, isRt])
  have low := ok.rt_prio isRt
  rw [rtPrio_iff] at low
  have prio := Int.toNat_of_nonneg ok.prio_nonneg
  exact ⟨prio, Int.toNat_of_nonneg ok.normal_nonneg, by
    simp only [Sched.rtState_prio, RtGroups.maxRtPrio]
    omega⟩

theorem PriosOk.rt_boosted {s : Sched} (prios : PriosOk s) (c : Cpu) {p : Pid}
    (isRt : (s.task p).schedClass = .rt) :
    (s.rtState c).prio p ≠ (s.rtState c).normalPrio p ↔ rtSeBoosted (s.task p) = true := by
  obtain ⟨prio, normal, -⟩ := prios.rt_prios c isRt
  rw [rtSeBoosted, decide_eq_true_eq, ← prio, ← normal, ne_eq, ne_eq, Nat.cast_inj]

theorem Ordinary.of_class {before after : TaskStruct} (ordinary : Ordinary after)
    (same : after.schedClass = before.schedClass) : Ordinary before := by
  rwa [Ordinary, same] at ordinary

theorem PolicyStep.prioOk {env : Env} {s : Sched} {op : Op} {p : Pid} {after : TaskStruct}
    (made : PolicyStep env s op p after) (fine : PriosOk s) (ordinary : Ordinary after) :
    PrioOk after := by
  cases made with
  | kept same => exact (fine p (ordinary.of_class same.schedClass)).same same
  | forked c is parent same => exact ((fine _ parent).fork env.kernel).same same
  | set waiter policy prio before small asked same =>
      exact ((fine p before).setscheduler waiter policy prio small).same same
  | boosted waiter is before same => exact ((fine p before).boost waiter).same same
  | niced nice low high real same =>
      have before : Ordinary (s.task p) := ordinary.of_class (by exact same.schedClass)
      exact ((fine p before).nice_rt real low).same same
  | reniced nice low high unreal same =>
      have before : Ordinary (s.task p) := ordinary.of_class (by exact same.schedClass)
      exact ((fine p before).nice unreal low).same same

structure PrioSound (env : Env) (s : Sched) : Prop where
  sound : Sound env s
  prios : PriosOk s

theorem step_prioSound {env : Env} {s next : Sched} {op : Op} (fine : PrioSound env s)
    (moved : step env s op = some next) : PrioSound env next := by
  refine ⟨step_sound fine.sound moved, fun p ordinary => ?_⟩
  obtain ⟨allowed, rfl⟩ := step_some moved
  exact (apply_policy fine.sound op allowed p).prioOk fine.prios ordinary

theorem Boot.priosOk : PriosOk Boot.state := by
  intro p ordinary
  rcases Boot.task_cases p with ⟨c, -, idle⟩ | user
  · simp [Ordinary, Boot.state, idle, Boot.idleTask] at ordinary
  · simp only [Boot.state, user]
    exact .plain rfl rfl rfl rfl (by decide) (by decide)

end AndroidKernel
