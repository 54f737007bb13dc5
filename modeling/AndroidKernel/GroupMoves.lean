import AndroidKernel.Boot
import AndroidKernel.Surplus

/-!
Cgroup attaches of 3.1 while an operation runs. `task_group` reads what the
attach writes, and an attach takes neither `pi_lock` nor `rq->lock`. Most
operations read the group of a task at most once, so an attach during them is
one before or after them. Three read it more often; between their reads the
group may change. The total is exact as long as no such change crosses the two
reads that both write the weight of one queued task.
-/

namespace AndroidKernel

def attachAll (env : Env) (s : Sched) : List (Pid × Group) → Sched
  | [] => s
  | (p, group) :: rest => attachAll env (apply env s (.cgroupAttach p group)) rest

def attachedGroup (group : Group) (p : Pid) : List (Pid × Group) → Group
  | [] => group
  | (q, new) :: rest => attachedGroup (if q = p then new else group) p rest

section Attach
variable {env : Env} {s : Sched}

theorem attachAll_sound (sound : Sound env s) (attaches : List (Pid × Group)) :
    Sound env (attachAll env s attaches) := by
  induction attaches generalizing s with
  | nil => exact sound
  | cons attach rest ih => exact ih (apply_sound sound (.cgroupAttach attach.1 attach.2) trivial)

theorem attachAll_balanced (sound : Sound env s) (attaches : List (Pid × Group)) :
    Balanced s (attachAll env s attaches) := by
  induction attaches generalizing s with
  | nil => exact .refl s
  | cons attach rest ih =>
      exact (apply_balanced sound (.cgroupAttach attach.1 attach.2) trivial).trans
        (ih (apply_sound sound (.cgroupAttach attach.1 attach.2) trivial))

@[simp] theorem attachAll_rq (attaches : List (Pid × Group)) :
    (attachAll env s attaches).rq = s.rq := by
  induction attaches generalizing s with
  | nil => rfl
  | cons attach rest ih => exact ih

theorem attachAll_task (attaches : List (Pid × Group)) (p : Pid) :
    (attachAll env s attaches).task p =
      { s.task p with cpuCgroup := attachedGroup (s.task p).cpuCgroup p attaches } := by
  induction attaches generalizing s with
  | nil => rfl
  | cons attach rest ih =>
      rw [attachAll, ih, attachedGroup]
      by_cases same : p = attach.1
      · subst same
        simp [apply]
      · simp [apply, Function.update_of_ne same, Ne.symm same]

theorem attachedGroup_append (group : Group) (p : Pid) (early late : List (Pid × Group)) :
    attachedGroup group p (early ++ late) =
      attachedGroup (attachedGroup group p early) p late := by
  induction early generalizing group with
  | nil => rfl
  | cons attach rest ih => exact ih _

end Attach

/-- The operations that read the group more than once, with the attaches
between the reads; `whole` is every other operation, and also these without an
attach. -/
inductive TornOp where
  | whole (op : Op)
  /-- `early` falls between the test of the group's runtime and the enqueue,
  `late` between the enqueue and `switched_to_wrr`. -/
  | setscheduler (caller : Caller) (p : Pid) (seen : TaskStruct) (policy prio : Int)
      (user : Bool) (waiter : Option Nat) (early late : List (Pid × Group))
  | rtMutexSetprio (p : Pid) (waiter : Option Nat) (late : List (Pid × Group))
  /-- The attaches fall between the weight of the new task and its enqueue. -/
  | wakeUpNewTask (p : Pid) (dest : Cpu) (early : List (Pid × Group))

def TornOp.op : TornOp → Op
  | .whole op => op
  | .setscheduler caller p seen policy prio user waiter _ _ =>
      .setscheduler caller p seen policy prio user waiter
  | .rtMutexSetprio p waiter _ => .rtMutexSetprio p waiter
  | .wakeUpNewTask p dest _ => .wakeUpNewTask p dest

/-- `__sched_setscheduler` from the dequeue on, with attaches before
`check_class_changed`. -/
def setschedulerTorn (env : Env) (s : Sched) (p : Pid) (policy : Policy) (prio : Nat)
    (resetOnFork : Bool) (waiter : Option Nat) (late : List (Pid × Group)) : Sched :=
  let c := (s.task p).cpu
  let old := s.task p
  let change := fun task =>
    setscheduler waiter policy prio { task with schedResetOnFork := resetOnFork }
  let s := requeueAround env s c p (env.kernel = .tegra) change false
  checkClassChanged env (attachAll env s late) c p old.schedClass old.prio

def rtMutexSetprioTorn (env : Env) (s : Sched) (p : Pid) (prio : Int)
    (late : List (Pid × Group)) : Sched :=
  let c := (s.task p).cpu
  let old := s.task p
  if env.kernel = .goldfish ∧ p = (s.rq c).idle then attachAll env s late
  else
    let s := requeueAround env s c p false (setEffectivePrio prio) (old.prio < prio)
    checkClassChanged env (attachAll env s late) c p old.schedClass old.prio

def wakeUpNewTaskTorn (env : Env) (s : Sched) (p : Pid) (dest : Cpu)
    (early : List (Pid × Group)) : Sched :=
  let s := attachAll env (placeNewTask env s p dest) early
  let c := (s.task p).cpu
  checkPreemptCurr env (ttwuActivate env s c p) c p

def applyTorn (env : Env) (s : Sched) : TornOp → Sched
  | .whole op => apply env s op
  | .setscheduler caller p seen policy prio user waiter early late =>
      match setschedulerChecks caller seen policy prio user with
      | .error _ => attachAll env (attachAll env s early) late
      | .ok request =>
          if PassApplies env s p request prio user then
            setschedulerTorn env (attachAll env s early) p request.policy prio.toNat
              request.resetOnFork waiter late
          else attachAll env (attachAll env s early) late
  | .rtMutexSetprio p waiter late =>
      rtMutexSetprioTorn env s p (rtMutexGetprio waiter (s.task p)) late
  | .wakeUpNewTask p dest early => wakeUpNewTaskTorn env s p dest early

def tornStep (env : Env) (s : Sched) (torn : TornOp) : Option Sched :=
  if Allowed env s torn.op then some (applyTorn env s torn) else none

theorem tornStep_some {env : Env} {s next : Sched} {torn : TornOp}
    (moved : tornStep env s torn = some next) :
    Allowed env s torn.op ∧ next = applyTorn env s torn := by
  by_cases allowed : Allowed env s torn.op
  · rw [tornStep, if_pos allowed, Option.some.injEq] at moved
    exact ⟨allowed, moved.symm⟩
  · simp [tornStep, if_neg allowed] at moved

theorem apply_setscheduler (env : Env) (s : Sched) (caller : Caller) (p : Pid)
    (seen : TaskStruct) (policy prio : Int) (user : Bool) (waiter : Option Nat) :
    apply env s (.setscheduler caller p seen policy prio user waiter) =
      match setschedulerChecks caller seen policy prio user with
      | .error _ => s
      | .ok request =>
          if PassApplies env s p request prio user then
            setschedulerApply env s p request.policy prio.toNat request.resetOnFork waiter
          else s := by
  simp only [apply, setschedulerPass]
  cases setschedulerChecks caller seen policy prio user with
  | error code => rfl
  | ok request =>
      simp only [passApplies_iff]
      split_ifs <;> simp_all

def TornOp.Undisturbed : TornOp → Prop
  | .whole _ => True
  | .setscheduler _ _ _ _ _ _ _ early late => early = [] ∧ late = []
  | .rtMutexSetprio _ _ late => late = []
  | .wakeUpNewTask _ _ early => early = []

theorem applyTorn_undisturbed (env : Env) (s : Sched) (torn : TornOp)
    (quiet : torn.Undisturbed) : applyTorn env s torn = apply env s torn.op := by
  cases torn with
  | whole op => rfl
  | setscheduler caller p seen policy prio user waiter early late =>
      obtain ⟨rfl, rfl⟩ := quiet
      rw [TornOp.op, apply_setscheduler]
      rfl
  | rtMutexSetprio p waiter late =>
      subst quiet
      rfl
  | wakeUpNewTask p dest early =>
      subst quiet
      rfl

/-- Queued in another class and not current: turning WRR now, the task has its
weight written by the enqueue and again by `switched_to_wrr`. -/
def TurnsWrr (s : Sched) (p : Pid) : Prop :=
  (s.task p).schedClass ≠ .wrr ∧ (s.task p).onRq = true ∧ (s.rq (s.task p).cpu).curr ≠ p

instance (s : Sched) (p : Pid) : Decidable (TurnsWrr s p) :=
  inferInstanceAs (Decidable (_ ∧ _ ∧ _))

/-- The attaches between the two writes of one weight do not take the task
between a background and a foreground group. -/
def SteadyWeight (env : Env) (s : Sched) (p : Pid) (early late : List (Pid × Group)) : Prop :=
  pathWeight env (attachedGroup (s.task p).cpuCgroup p (early ++ late)) =
    pathWeight env (attachedGroup (s.task p).cpuCgroup p early)

instance (env : Env) (s : Sched) (p : Pid) (early late : List (Pid × Group)) :
    Decidable (SteadyWeight env s p early late) := inferInstanceAs (Decidable (_ = _))

def Steady (env : Env) (s : Sched) : TornOp → Prop
  | .whole _ | .wakeUpNewTask _ _ _ => True
  | .setscheduler caller p seen policy prio user _ early late =>
      ∀ request ∈ (setschedulerChecks caller seen policy prio user).toOption,
        PassApplies env s p request prio user → request.policy = .wrr → TurnsWrr s p →
          SteadyWeight env s p early late
  | .rtMutexSetprio p _ late =>
      (s.task p).policy = .wrr → TurnsWrr s p → SteadyWeight env s p [] late

instance (env : Env) (s : Sched) : (torn : TornOp) → Decidable (Steady env s torn)
  | .whole _ | .wakeUpNewTask _ _ _ => inferInstanceAs (Decidable True)
  | .setscheduler _ _ _ _ _ _ _ _ _ => inferInstanceAs (Decidable (∀ _ ∈ _, _ → _ → _ → _))
  | .rtMutexSetprio _ _ _ => inferInstanceAs (Decidable (_ → _ → _))

section Torn
variable {env : Env} {s : Sched}

structure Between (env : Env) (old changed : TaskStruct) (p : Pid)
    (late : List (Pid × Group)) (task : TaskStruct) : Prop where
  schedClass : task.schedClass = changed.schedClass
  onRq : task.onRq = old.onRq
  cpu : task.cpu = old.cpu
  group : task.cpuCgroup = attachedGroup old.cpuCgroup p late
  weight : changed.schedClass = .wrr → old.onRq = true →
    task.wrr.weight = pathWeight env old.cpuCgroup

theorem torn_between (tegra : env.kernel = .tegra) (p : Pid) (wrapped head : Bool)
    (change : TaskStruct → TaskStruct) (keeps : Keeps (s.task p) (change (s.task p)))
    (sameGroup : (change (s.task p)).cpuCgroup = (s.task p).cpuCgroup)
    (late : List (Pid × Group)) :
    Between env (s.task p) (change (s.task p)) p late
      ((attachAll env (requeueAround env s (s.task p).cpu p wrapped change head) late).task p) := by
  have enqueued := enqueuedTask_ticked env (change (s.task p))
  have cgroup : (enqueuedTask env (change (s.task p))).cpuCgroup = (s.task p).cpuCgroup := by
    have groups := enqueued.group
    simp only [taskGroup, tegra] at groups
    exact groups.trans sameGroup
  rw [attachAll_task, requeueAround_task, Function.update_self]
  by_cases on : (s.task p).onRq = true
  · rw [if_pos on]
    refine ⟨enqueued.schedClass, enqueued.onRq.trans keeps.onRq, enqueued.cpu.trans keeps.cpu,
      by rw [cgroup], fun isWrr _ => ?_⟩
    have written := enqueuedTask_weighed env (change (s.task p))
      (enqueued.schedClass.trans isWrr)
    simpa only [taskGroup, tegra, cgroup] using written
  · rw [if_neg on]
    exact ⟨rfl, keeps.onRq, keeps.cpu, by rw [sameGroup], fun _ queued => absurd queued on⟩

/-- A class change with attaches before the hooks: the surplus of the CPU of
the task goes up by the first weight and down by the second. -/
theorem torn_surplus (sound : Sound env s) (p : Pid) (ordinary : Ordinary (s.task p))
    (wrapped head : Bool) (change : TaskStruct → TaskStruct)
    (keeps : Keeps (s.task p) (change (s.task p)))
    (sameGroup : (change (s.task p)).cpuCgroup = (s.task p).cpuCgroup)
    (tegra : env.kernel = .tegra) (late : List (Pid × Group)) (oldprio : Int) {out : Sched}
    (ends : out = checkClassChanged env (attachAll env
      (requeueAround env s (s.task p).cpu p wrapped change head) late) (s.task p).cpu p
      (s.task p).schedClass oldprio) (c : Cpu) :
    surplus out.task (out.rq c).wrr = surplus s.task (s.rq c).wrr +
      if (change (s.task p)).schedClass = .wrr ∧ TurnsWrr s p ∧ c = (s.task p).cpu then
        (pathWeight env (s.task p).cpuCgroup : Int) -
          pathWeight env (attachedGroup (s.task p).cpuCgroup p late)
      else 0 := by
  let mid := requeueAround env s (s.task p).cpu p wrapped change head
  let torn := attachAll env mid late
  have soundMid : Sound env mid := requeueAround_sound sound p ordinary.1 change keeps wrapped head
  have soundTorn : Sound env torn := attachAll_sound soundMid late
  have kept : Balanced s torn :=
    (requeueAround_balanced sound p wrapped head change).trans (attachAll_balanced soundMid late)
  have between : Between env (s.task p) (change (s.task p)) p late (torn.task p) :=
    torn_between tegra p wrapped head change keeps sameGroup late
  have curr : (torn.rq (s.task p).cpu).curr = (s.rq (s.task p).cpu).curr := by
    rw [attachAll_rq]
    exact (requeueAround_sameRoles env s (s.task p).cpu p wrapped head change _).1
  have group : taskGroup env (torn.task p) = attachedGroup (s.task p).cpuCgroup p late := by
    rw [taskGroup, tegra]
    exact between.group
  have reordered : surplus out.task (out.rq c).wrr = surplus out.task (torn.rq c).wrr :=
    surplus_reordered (ends ▸ (checkClassChanged_quiet env torn _ p _ _).rq c)
  have task : out.task = _ := ends ▸ checkClassChanged_task env torn _ p _ oldprio
  rw [reordered, ← kept c, task]
  -- only `switched_to_wrr` reads the group again, and only for a waiting task
  by_cases turns : (change (s.task p)).schedClass = .wrr ∧ TurnsWrr s p
  · obtain ⟨isWrr, other, on, waits⟩ := turns
    have isWrr' : (torn.task p).schedClass = .wrr := between.schedClass.trans isWrr
    rw [if_pos ⟨by rw [isWrr']; exact other, isWrr', between.onRq.trans on, by rwa [curr]⟩]
    by_cases here : c = (s.task p).cpu
    · subst here
      have member : p ∈ (torn.rq (s.task p).cpu).wrr.queue :=
        ((soundTorn.queues _).wrr.lists.mem_iff p).mpr
          ((has_entries _ _ _ _).mpr ⟨between.onRq.trans on, between.cpu, isWrr'⟩)
      rw [if_pos ⟨isWrr, ⟨other, on, waits⟩, rfl⟩,
        surplus_rewritten _ (soundTorn.queues _).wrr.lists.unique member,
        between.weight isWrr on, group]
      simp only [TaskStruct.setWrrWeight]
      omega
    · have absent : p ∉ (torn.rq c).wrr.queue := fun member =>
        here ((soundTorn.queued_at member).2.1.symm.trans between.cpu)
      rw [if_neg fun all => here all.2.2, surplus_edit _ absent, Int.add_zero]
  · rw [if_neg, if_neg fun all => turns ⟨all.1, all.2.1⟩, Int.add_zero]
    rintro ⟨changes, isWrr, on, waits⟩
    rw [between.schedClass] at isWrr changes
    rw [isWrr] at changes
    exact turns ⟨isWrr, changes, between.onRq.symm.trans on, by rwa [curr] at waits⟩

theorem torn_balanced_iff (sound : Sound env s) (p : Pid) (ordinary : Ordinary (s.task p))
    (wrapped head : Bool) (change : TaskStruct → TaskStruct)
    (keeps : Keeps (s.task p) (change (s.task p)))
    (sameGroup : (change (s.task p)).cpuCgroup = (s.task p).cpuCgroup)
    (tegra : env.kernel = .tegra) (late : List (Pid × Group)) (oldprio : Int) :
    Balanced s (checkClassChanged env (attachAll env
        (requeueAround env s (s.task p).cpu p wrapped change head) late) (s.task p).cpu p
        (s.task p).schedClass oldprio) ↔
      ((change (s.task p)).schedClass = .wrr → TurnsWrr s p → SteadyWeight env s p [] late) := by
  have shift := torn_surplus sound p ordinary wrapped head change keeps sameGroup tegra late
    oldprio rfl
  constructor
  · intro balanced isWrr turns
    have home := shift (s.task p).cpu
    rw [balanced, if_pos ⟨isWrr, turns, rfl⟩] at home
    have same : pathWeight env (attachedGroup (s.task p).cpuCgroup p late) =
        pathWeight env (s.task p).cpuCgroup := by omega
    exact same
  · intro steady c
    rw [shift c]
    split
    · rename_i all
      have same : pathWeight env (attachedGroup (s.task p).cpuCgroup p late) =
          pathWeight env (s.task p).cpuCgroup := steady all.1 all.2.1
      omega
    · omega

theorem balanced_from_iff {middle next : Sched} (one : Balanced s middle) :
    Balanced s next ↔ Balanced middle next := by
  constructor
  · intro all c
    rw [all c, one c]
  · exact one.trans

theorem attachAll_turnsWrr_iff (early : List (Pid × Group)) (p : Pid) :
    TurnsWrr (attachAll env s early) p ↔ TurnsWrr s p := by
  rw [TurnsWrr, TurnsWrr, attachAll_task, attachAll_rq]

theorem attachAll_steadyWeight_iff (early late : List (Pid × Group)) (p : Pid) :
    SteadyWeight env (attachAll env s early) p [] late ↔ SteadyWeight env s p early late := by
  rw [SteadyWeight, SteadyWeight, List.nil_append, attachedGroup_append, attachAll_task]
  rfl

theorem setschedulerTorn_sound (sound : Sound env s) (p : Pid) (policy : Policy) (prio : Nat)
    (reset : Bool) (waiter : Option Nat) (late : List (Pid × Group))
    (ordinary : Ordinary (s.task p)) :
    Sound env (setschedulerTorn env s p policy prio reset waiter late) := by
  have around : Sound env (requeueAround env s (s.task p).cpu p (env.kernel = .tegra)
      (fun task => setscheduler waiter policy prio { task with schedResetOnFork := reset })
      false) :=
    requeueAround_sound sound p ordinary.1 _
      (setscheduler_keeps waiter policy prio reset _ ordinary) _ _
  exact checkClassChanged_sound (attachAll_sound around late) _ p _ _

theorem rtMutexSetprioTorn_sound (sound : Sound env s) (p : Pid) (prio : Int)
    (late : List (Pid × Group)) (ordinary : Ordinary (s.task p)) :
    Sound env (rtMutexSetprioTorn env s p prio late) := by
  simp only [rtMutexSetprioTorn]
  split
  · exact attachAll_sound sound late
  · have around : Sound env (requeueAround env s (s.task p).cpu p false (setEffectivePrio prio)
        ((s.task p).prio < prio)) :=
      requeueAround_sound sound p ordinary.1 _
        ⟨rfl, rfl, rfl, Or.inl ⟨ordinary, classFor_ordinary _ _ _ rfl⟩, fun _ => rfl⟩ _ _
    exact checkClassChanged_sound (attachAll_sound around late) _ p _ _

theorem wakeUpNewTaskTorn_sound (sound : Sound env s) (p : Pid) (dest : Cpu)
    (early : List (Pid × Group)) (ordinary : Ordinary (s.task p))
    (off : (s.task p).onRq = false) : Sound env (wakeUpNewTaskTorn env s p dest early) := by
  have placed := placeNewTask_sound sound p dest ordinary off
  have fields := placeNewTask_self env s p dest
  have attached := attachAll_sound placed early
  refine checkPreemptCurr_sound (ttwuActivate_sound attached p ?_ ?_) _ p
  · rw [attachAll_task]
    exact fields.onRq.trans off
  · rw [attachAll_task]
    exact fields.schedClass ▸ ordinary.1

theorem attachAll_ordinary (early : List (Pid × Group)) (p : Pid)
    (ordinary : Ordinary (s.task p)) : Ordinary ((attachAll env s early).task p) := by
  rw [attachAll_task]
  exact ordinary

theorem applyTorn_sound (sound : Sound env s) (torn : TornOp)
    (allowed : Allowed env s torn.op) : Sound env (applyTorn env s torn) := by
  cases torn with
  | whole op => exact apply_sound sound op allowed
  | setscheduler caller p seen policy prio user waiter early late =>
      have locked := attachAll_sound sound early
      have untouched := attachAll_sound locked late
      simp only [applyTorn]
      split
      · exact untouched
      · rename_i request checks
        split
        · rename_i applies
          exact setschedulerTorn_sound locked p _ _ _ waiter late
            (attachAll_ordinary early p (applies.ordinary sound allowed))
        · exact untouched
  | rtMutexSetprio p waiter late => exact rtMutexSetprioTorn_sound sound p _ late allowed
  | wakeUpNewTask p dest early =>
      exact wakeUpNewTaskTorn_sound sound p dest early allowed.1 (by simpa using allowed.2)

theorem applyTorn_balanced_iff (tegra : env.kernel = .tegra) (sound : Sound env s)
    (torn : TornOp) (allowed : Allowed env s torn.op) :
    Balanced s (applyTorn env s torn) ↔ Steady env s torn := by
  cases torn with
  | whole op => exact iff_of_true (apply_balanced sound op allowed) trivial
  | setscheduler caller p seen policy prio user waiter early late =>
      have soundLocked := attachAll_sound sound early
      have locked := attachAll_balanced sound early
      -- a request that is refused or does not apply leaves only the moves between groups
      have untouched : Balanced s (attachAll env (attachAll env s early) late) :=
        locked.trans (attachAll_balanced soundLocked late)
      simp only [applyTorn, Steady]
      cases setschedulerChecks caller seen policy prio user with
      | error code => exact iff_of_true untouched (by simp [Except.toOption])
      | ok request =>
          by_cases applies : PassApplies env s p request prio user
          · have ordinary : Ordinary ((attachAll env s early).task p) :=
              attachAll_ordinary early p (applies.ordinary sound allowed)
            have steps := torn_balanced_iff soundLocked p ordinary (env.kernel = .tegra) false
              (fun task => AndroidKernel.setscheduler waiter request.policy prio.toNat
                { task with schedResetOnFork := request.resetOnFork })
              (setscheduler_keeps waiter request.policy prio.toNat request.resetOnFork _ ordinary)
              rfl tegra late ((attachAll env s early).task p).prio
            have newClass : (AndroidKernel.setscheduler waiter request.policy prio.toNat
                { (attachAll env s early).task p with
                  schedResetOnFork := request.resetOnFork }).schedClass = .wrr ↔
                  request.policy = .wrr := classFor_wrr_iff _ _
            rw [newClass, attachAll_turnsWrr_iff, attachAll_steadyWeight_iff] at steps
            simp only [if_pos applies]
            rw [balanced_from_iff locked]
            exact steps.trans (by simp [Except.toOption, applies])
          · simp only [if_neg applies]
            exact iff_of_true untouched (by simp [Except.toOption, applies])
  | rtMutexSetprio p waiter late =>
      have notIdle : ¬ (env.kernel = .goldfish ∧ p = (s.rq (s.task p).cpu).idle) := by
        simp [tegra]
      have ordinary : Ordinary (s.task p) := allowed
      have steps := torn_balanced_iff sound p ordinary false
        (decide ((s.task p).prio < rtMutexGetprio waiter (s.task p)))
        (setEffectivePrio (rtMutexGetprio waiter (s.task p)))
        ⟨rfl, rfl, rfl, Or.inl ⟨ordinary, classFor_ordinary _ _ _ rfl⟩, fun _ => rfl⟩ rfl tegra
        late (s.task p).prio
      have newClass : (setEffectivePrio (rtMutexGetprio waiter (s.task p))
          (s.task p)).schedClass = .wrr ↔ (s.task p).policy = .wrr := classFor_wrr_iff _ _
      rw [newClass] at steps
      simp only [applyTorn, rtMutexSetprioTorn, if_neg notIdle, Steady]
      exact steps
  | wakeUpNewTask p dest early =>
      -- until the activation at the end the task is on no queue that could miscount it
      have off : OffQueues s p := sound.offQueues p (by simpa using allowed.2)
      have placed := placeNewTask_sound sound p dest allowed.1 (by simpa using allowed.2)
      have attached : OffQueues (attachAll env (placeNewTask env s p dest) early) p := by
        intro c
        rw [attachAll_rq]
        exact placeNewTask_offQueues off dest c
      refine iff_of_true ?_ trivial
      exact (placeNewTask_balanced off dest).trans ((attachAll_balanced placed early).trans
        ((ttwuActivate_balanced attached _).trans (checkPreemptCurr_balanced _ p)))

end Torn

structure TotalWeightExact (s : Sched) (c : Cpu) : Prop where
  total : (s.rq c).wrr.totalWeight =
    ((s.rq c).wrr.queue.map fun p => ((s.task p).wrr.weight : Int)).sum
  weight_le : ∀ p ∈ (s.rq c).wrr.queue, ((s.task p).wrr.weight : Int) ≤ (s.rq c).wrr.totalWeight

theorem totalWeightExact_iff (s : Sched) (c : Cpu) :
    TotalWeightExact s c ↔ surplus s.task (s.rq c).wrr = 0 := by
  constructor
  · intro exact'
    exact sub_eq_zero.mpr exact'.total
  · intro zero
    have total : (s.rq c).wrr.totalWeight =
        ((s.rq c).wrr.queue.map fun p => (weights s.task p : Int)).sum := sub_eq_zero.mp zero
    refine ⟨total, fun p member => ?_⟩
    rw [total]
    exact RunList.le_sum_cast (s.rq c).wrr.queue p (weights s.task) member

structure TotalSound (env : Env) (s : Sched) : Prop where
  sound : Sound env s
  exact' : ∀ c, surplus s.task (s.rq c).wrr = 0

theorem run_totalSound {env : Env} {start s : Sched} {ops : List TornOp}
    (tegra : env.kernel = .tegra) (init : Init start)
    (run : Transition.Run (tornStep env) (Steady env) start ops s) : TotalSound env s := by
  apply run.invariant
  · intro state torn next fine steady moved
    obtain ⟨allowed, rfl⟩ := tornStep_some moved
    have balanced := (applyTorn_balanced_iff tegra fine.sound torn allowed).mpr steady
    exact ⟨applyTorn_sound fine.sound torn allowed, fun c => by rw [balanced c, fine.exact' c]⟩
  · refine ⟨init_sound env init, fun c => ?_⟩
    have empty := (init.empty c).2.2.1
    rw [empty]
    rfl

/-- In 3.1, after a run in which no attach came between the two writes of one
weight and changed it, the totals are exact on every CPU, and one more operation
leaves them exact if and only if no attach does so in it. -/
theorem total_weight_exact {env : Env} {start s : Sched} {ops : List TornOp}
    (tegra : env.kernel = .tegra) (init : Init start)
    (run : Transition.Run (tornStep env) (Steady env) start ops s) :
    (∀ c, TotalWeightExact s c) ∧
    ∀ torn next, tornStep env s torn = some next →
      ((∀ c, TotalWeightExact next c) ↔ Steady env s torn) := by
  have fine := run_totalSound tegra init run
  refine ⟨fun c => (totalWeightExact_iff s c).mpr (fine.exact' c), fun torn next moved => ?_⟩
  obtain ⟨allowed, rfl⟩ := tornStep_some moved
  rw [← applyTorn_balanced_iff tegra fine.sound torn allowed]
  constructor
  · intro still c
    rw [fine.exact' c]
    exact (totalWeightExact_iff _ c).mp (still c)
  · intro balanced c
    rw [totalWeightExact_iff, balanced c, fine.exact' c]

def steadyOps : List TornOp :=
  [.whole (.tryToWakeUp 1 1 0),
    .setscheduler Boot.root 1 Boot.userTask 6 0 true none [(3, 1)] [(1, 2)],
    .whole (.schedMoveTask 1), .whole (.schedule 0 false false), .whole (.schedulerTick 0)]

theorem steadyOps_done :
    (Transition.runActions (tornStep (Boot.env .tegra true)) Boot.state steadyOps).isSome := by
  decide +kernel

theorem steadyOps_steady : Transition.allAllowed (tornStep (Boot.env .tegra true))
    (Steady (Boot.env .tegra true)) Boot.state steadyOps = true := by
  decide +kernel

theorem steadyOps_run : Transition.Run (tornStep (Boot.env .tegra true))
    (Steady (Boot.env .tegra true)) Boot.state steadyOps
    ((Transition.runActions (tornStep (Boot.env .tegra true)) Boot.state steadyOps).get
      steadyOps_done) :=
  (Transition.run_of_isSome Boot.state steadyOps steadyOps_done).of_allAllowed steadyOps_steady

theorem total_weight_exact_steadyOps : ∃ s : Sched, (∀ c, TotalWeightExact s c) ∧
    ∀ torn next, tornStep (Boot.env .tegra true) s torn = some next →
      ((∀ c, TotalWeightExact next c) ↔ Steady (Boot.env .tegra true) s torn) :=
  ⟨_, total_weight_exact (by rfl) Boot.state_init steadyOps_run⟩

def tornOps : List TornOp :=
  [.whole (.cgroupAttach 1 1), .whole (.tryToWakeUp 1 1 0),
    .setscheduler Boot.root 1 Boot.userTask 6 0 true none [] [(1, 0)]]

theorem tornOps_done :
    (Transition.runActions (tornStep (Boot.env .tegra true)) Boot.state tornOps).isSome := by
  decide +kernel

/-- The total counts 1 for it, and its dequeue will subtract 10. -/
theorem tornOps_ends :
    let s := (Transition.runActions (tornStep (Boot.env .tegra true)) Boot.state tornOps).get
      tornOps_done
    1 ∈ (s.rq 0).wrr.queue ∧ ¬ ((s.task 1).wrr.weight : Int) ≤ (s.rq 0).wrr.totalWeight := by
  decide +kernel

theorem total_weight_torn :
    ¬ ∀ ops s, Transition.Run (tornStep (Boot.env .tegra true)) (fun _ _ => True) Boot.state ops s →
      ∀ c, TotalWeightExact s c := by
  intro claim
  have law := claim tornOps _ (Transition.run_of_isSome Boot.state tornOps tornOps_done) 0
  exact tornOps_ends.2 (law.weight_le 1 tornOps_ends.1)

end AndroidKernel
