import AndroidKernel.PreemptionFlags
import AndroidKernel.PriorityInheritance
import AndroidKernel.Scheduling

/-!
No missed preemption on one CPU: a runnable task of an earlier class than the
current one finds the current task flagged. The invariant is about the entries
of a CPU, so an operation has to answer for one entry: the one it puts on the
queue, or the one of the current task. `__schedule` has to answer for its pick.
-/

namespace AndroidKernel

def Entry.boosted (entry : Entry) : Bool := entry.prio ≠ entry.normalPrio

section Views
variable (tree : RtGroups.Hierarchy Group)

/-- An RT entry of the group may run: each throttled runqueue it counts in is
one that a boosted entry counts in too. -/
def RtEligible (view : Pid → Option Entry) (throttled : Group → Bool) (g : Group) : Prop :=
  ∀ h, RtGroups.OnPath tree g h → throttled h = true → ∃ p, Has view (fun entry =>
    entry.cls = .rt ∧ entry.boosted = true ∧ RtGroups.OnPath tree entry.group h) p

def Urgent (view : Pid → Option Entry) (throttled : Group → Bool) (cls : SchedClass) :
    Pid → Prop :=
  Has view fun entry => entry.cls.precedes cls ∧
    (entry.cls = .rt → RtEligible tree view throttled entry.group)

variable {tree} {view : Pid → Option Entry} {throttled throttled' : Group → Bool}
  {cls cls' : SchedClass} {p q : Pid}

theorem Has.imp {test test' : Entry → Prop} (has : Has view test p)
    (imp : ∀ entry, test entry → test' entry) : Has view test' p := by
  obtain ⟨entry, found, fits⟩ := has
  exact ⟨entry, found, imp entry fits⟩

theorem RtEligible.weaken {g : Group} (eligible : RtEligible tree view throttled g)
    (kept : ∀ h, throttled' h = true → throttled h = true) :
    RtEligible tree view throttled' g :=
  fun h path was => eligible h path (kept h was)

theorem Urgent.weaken (urgent : Urgent tree view throttled cls q)
    (kept : ∀ h, throttled' h = true → throttled h = true) (later : cls.rank ≤ cls'.rank) :
    Urgent tree view throttled' cls' q :=
  urgent.imp fun _ fits =>
    ⟨Nat.lt_of_lt_of_le fits.1 later, fun isRt => (fits.2 isRt).weaken kept⟩

theorem RtEligible.of_clear {g : Group}
    (eligible : RtEligible tree (Function.update view p none) throttled g) :
    RtEligible tree view throttled g := by
  intro h path was
  obtain ⟨r, has⟩ := eligible h path was
  exact ⟨r, ((has_clear p r).mp has).1⟩

theorem Urgent.of_clear (urgent : Urgent tree (Function.update view p none) throttled cls q) :
    Urgent tree view throttled cls q :=
  ((has_clear p q).mp urgent).1.imp fun _ fits => ⟨fits.1, fun isRt => (fits.2 isRt).of_clear⟩

theorem RtEligible.of_boosted {entry : Entry} (found : view p = some entry)
    (isRt : entry.cls = .rt) (boosted : entry.boosted = true) :
    RtEligible tree view throttled entry.group :=
  fun _ path _ => ⟨p, entry, found, isRt, boosted, path⟩

/-- An entry that is put on the queue is urgent itself, or changes nothing for
the others. -/
theorem Urgent.of_fill {entry : Entry}
    (urgent : Urgent tree (Function.update view p (some entry)) throttled cls q) :
    Urgent tree (Function.update view p none) throttled cls q ∨
      entry.cls.precedes cls ∧ (entry.cls = .rt →
        RtEligible tree (Function.update view p (some entry)) throttled entry.group) := by
  obtain ⟨found, at', before, free⟩ := urgent
  by_cases same : q = p
  · subst same
    rw [Function.update_self, Option.some.injEq] at at'
    subst at'
    exact Or.inr ⟨before, free⟩
  have cleared : Function.update view p none q = some found := by
    rw [Function.update_of_ne same] at at' ⊢
    exact at'
  by_cases lifts : found.cls = .rt ∧ entry.cls = .rt ∧ entry.boosted = true
  · obtain ⟨foundRt, isRt, boosted⟩ := lifts
    refine Or.inr ⟨?_, fun _ => .of_boosted (Function.update_self _ _ _) isRt boosted⟩
    rw [isRt, ← foundRt]
    exact before
  · refine Or.inl ⟨found, cleared, before, fun foundRt h path was => ?_⟩
    obtain ⟨r, booster, at'', isRt, boosted, below⟩ := free foundRt h path was
    have other : r ≠ p := by
      rintro rfl
      rw [Function.update_self, Option.some.injEq] at at''
      subst at''
      exact lifts ⟨foundRt, isRt, boosted⟩
    refine ⟨r, booster, ?_, isRt, boosted, below⟩
    rw [Function.update_of_ne other] at at'' ⊢
    exact at''

end Views

def NoMissAt (env : Env) (s : Sched) (c : Cpu) : Prop :=
  ∀ p, Urgent env.groups (entries s.task c) (rtThrottled s c) (rqCurr s c).schedClass p →
    s.needResched (s.rq c).curr = true

/-- A queued task of an earlier class than the current one, which no throttled
group holds if it is an RT task, finds the current task flagged. -/
def NoMissedPreemption (env : Env) (s : Sched) (c : Cpu) : Prop :=
  ∀ p, (s.task p).onRq = true → (s.task p).cpu = c →
    (s.task p).schedClass.precedes (rqCurr s c).schedClass →
    ((s.task p).schedClass = .rt → RtGroups.Eligible env.groups (s.rtState c) p) →
    s.needResched (s.rq c).curr = true

section Invariant
variable {env : Env} {s next : Sched} {c : Cpu}

theorem has_entries_rt (test : TaskStruct → Prop) (fits : Entry → Prop)
    (same : ∀ task, fits task.entry ↔ test task) (p : Pid) :
    Has (entries s.task c) (fun entry => entry.cls = .rt ∧ fits entry) p ↔
      QueuedRt s.task c p ∧ test (s.task p) := by
  rw [has_entries, QueuedRt, same]
  tauto

theorem RtOk.eligible_iff (ok : RtOk env s (QueuedRt s.task)) (prios : PriosOk s) {p : Pid}
    (queued : QueuedRt s.task c p) : RtGroups.Eligible env.groups (s.rtState c) p ↔
      RtEligible env.groups (entries s.task c) (rtThrottled s c) (s.task p).rt.rtRq := by
  have boosts (q : Pid) (g : Group) :
      Has (entries s.task c) (fun entry => entry.cls = .rt ∧ entry.boosted = true ∧
          RtGroups.OnPath env.groups entry.group g) q ↔
        (s.rt c).onRtRq (.task q) = true ∧ (s.rtState c).prio q ≠ (s.rtState c).normalPrio q ∧
          RtGroups.OnPath env.groups ((s.rtState c).group q) g := by
    rw [(ok c).2 q, has_entries_rt (fun task => rtSeBoosted task = true ∧
      RtGroups.OnPath env.groups task.rt.rtRq g) _ fun _ => Iff.rfl]
    refine and_congr_right fun isQueued => and_congr_left' ?_
    exact (prios.rt_boosted c isQueued.2.2).symm
  rw [(ok c).1.eligible_iff p, RtEligible]
  simp only [boosts]
  exact and_iff_right (((ok c).2 p).mpr queued)

theorem Sound.noMissed_iff (sound : Sound env s) (prios : PriosOk s) (c : Cpu) :
    NoMissedPreemption env s c ↔ NoMissAt env s c := by
  constructor
  · intro law p urgent
    obtain ⟨on, here, before, free⟩ := (has_entries _ _ _ _).mp urgent
    exact law p on here before fun isRt =>
      (sound.rt.eligible_iff prios ⟨on, here, isRt⟩).mpr (free isRt)
  · intro law p on here before free
    exact law p ((has_entries _ _ _ _).mpr ⟨on, here, before, fun isRt =>
      (sound.rt.eligible_iff prios ⟨on, here, isRt⟩).mp (free isRt)⟩)

structure SameCpu (s next : Sched) (c : Cpu) : Prop where
  view : entries next.task c = entries s.task c
  curr : (next.rq c).curr = (s.rq c).curr
  cls : (rqCurr next c).schedClass = (rqCurr s c).schedClass

theorem NoMissAt.same (miss : NoMissAt env s c) (kept : FlagsKept s next)
    (same : SameCpu s next c) : NoMissAt env next c := by
  intro p urgent
  rw [same.view, same.cls] at urgent
  rw [same.curr]
  exact kept.flag _ (miss p (urgent.weaken (kept.throttled c) (Nat.le_refl _)))

theorem SameCpu.of_entries (task : ∀ p, (next.task p).onRq = (s.task p).onRq ∧
    (next.task p).cpu = (s.task p).cpu ∧ (next.task p).entry = (s.task p).entry)
    (curr : ∀ c, (next.rq c).curr = (s.rq c).curr) (c : Cpu) : SameCpu s next c := by
  refine ⟨?_, curr c, ?_⟩
  · funext p
    simp [entries, (task p).1, (task p).2.1, (task p).2.2]
  · rw [rqCurr, curr c]
    exact congrArg Entry.cls (task (s.rq c).curr).2.2

theorem SameCpu.quiet (quiet : Quiet env s next) (c : Cpu) : SameCpu s next c :=
  .of_entries (fun p => ⟨(quiet.task p).onRq, (quiet.task p).cpu, (quiet.task p).entry⟩)
    (fun d => (quiet.rq d).curr) c

theorem SameCpu.modifyTask (s : Sched) (p : Pid) {f : TaskStruct → TaskStruct}
    (keeps : (f (s.task p)).onRq = (s.task p).onRq ∧ (f (s.task p)).cpu = (s.task p).cpu ∧
      (f (s.task p)).entry = (s.task p).entry) (c : Cpu) : SameCpu s (s.modifyTask p f) c := by
  refine SameCpu.of_entries (fun q => ?_) (fun d => ?_) c
  · rw [Sched.modifyTask_task]
    by_cases same : q = p
    · subst same
      simpa using keeps
    · simp [Function.update_of_ne same]
  · rfl

theorem SameCpu.update {p : Pid} {new : TaskStruct}
    (task : next.task = Function.update s.task p new)
    (curr : ∀ c, (next.rq c).curr = (s.rq c).curr) (other : (s.rq c).curr ≠ p)
    (off : (s.task p).onRq = false ∨ (s.task p).cpu ≠ c) (stays : new.onRq = false ∨ new.cpu ≠ c) :
    SameCpu s next c := by
  refine ⟨?_, curr c, ?_⟩
  · have absent := entries_absent off
    rw [task, entries_update]
    have out : ¬ (new.onRq = true ∧ new.cpu = c) := by
      rintro ⟨on, here⟩
      rcases stays with off' | away
      · simp [off'] at on
      · exact away here
    rw [if_neg out, ← absent, Function.update_eq_self]
  · rw [rqCurr, rqCurr, curr c, task, Function.update_of_ne other]

theorem NoMissAt.put {p : Pid} {entry : Entry} (miss : NoMissAt env s c)
    (kept : FlagsKept s next) (curr : (next.rq c).curr = (s.rq c).curr)
    (cls : (rqCurr next c).schedClass = (rqCurr s c).schedClass)
    (view : entries next.task c = Function.update (entries s.task c) p (some entry))
    (heard : entry.cls.precedes (rqCurr s c).schedClass →
      (entry.cls = .rt → RtEligible env.groups (entries next.task c) (rtThrottled next c)
        entry.group) →
      next.needResched (s.rq c).curr = true) : NoMissAt env next c := by
  intro q urgent
  rw [curr]
  rw [view, cls] at urgent
  rw [view] at heard
  rcases urgent.of_fill with cleared | ⟨before, free⟩
  · exact kept.flag _ (miss q (cleared.of_clear.weaken (kept.throttled c) (Nat.le_refl _)))
  · exact heard before free

/-- The current task gets another entry; only a later class needs an answer. -/
theorem NoMissAt.turn {entry : Entry} (miss : NoMissAt env s c) (kept : FlagsKept s next)
    (curr : (next.rq c).curr = (s.rq c).curr) (cls : (rqCurr next c).schedClass = entry.cls)
    (view : entries next.task c =
      Function.update (entries s.task c) (s.rq c).curr (some entry))
    (heard : (rqCurr s c).schedClass.precedes entry.cls → ∀ q,
      Urgent env.groups (Function.update (entries s.task c) (s.rq c).curr none)
        (rtThrottled s c) entry.cls q →
      next.needResched (s.rq c).curr = true) : NoMissAt env next c := by
  intro q urgent
  rw [curr]
  rw [view, cls] at urgent
  have weaker := urgent.weaken (kept.throttled c) (Nat.le_refl _)
  rcases weaker.of_fill with cleared | ⟨before, -⟩
  · by_cases later : (rqCurr s c).schedClass.precedes entry.cls
    · exact heard later q cleared
    · have earlier : entry.cls.rank ≤ (rqCurr s c).schedClass.rank := Nat.le_of_not_lt later
      exact kept.flag _ (miss q (cleared.of_clear.weaken (fun _ => id) earlier))
  · exact absurd before (Nat.lt_irrefl _)

end Invariant

def IdlePrios (s : Sched) : Prop := ∀ p, (s.task p).schedClass = .idle → ¬ rtPrio (s.task p).prio

/-- With the tasks as in `task`, each queued RT task of the CPU counts in a
throttled runqueue in which no boosted one counts. -/
def RtHeld (tree : RtGroups.Hierarchy Group) (throttled : Group → Bool)
    (task : Pid → TaskStruct) (c : Cpu) : Prop :=
  ∀ q, QueuedRt task c q → ∃ g, RtGroups.OnPath tree (task q).rt.rtRq g ∧ throttled g = true ∧
    ∀ r, QueuedRt task c r → rtSeBoosted (task r) = true →
      ¬ RtGroups.OnPath tree (task r).rt.rtRq g

/-- `p` is `new` on its CPU, and no RT task there may run. -/
def NobodyRt (env : Env) (s : Sched) (p : Pid) (new : TaskStruct) : Prop :=
  RtHeld env.groups (rtThrottled s (s.task p).cpu) (Function.update s.task p new) (s.task p).cpu

/-- A running RT task turns WRR only when no other RT task could run. -/
def TurnHeard (env : Env) (s : Sched) (p : Pid) (new : TaskStruct) : Prop :=
  (s.rq (s.task p).cpu).curr = p → (s.task p).schedClass = .rt → new.schedClass = .wrr →
    NobodyRt env s p new

/-- A waiting task that ends up RT gets ahead of a current one of a later class
by its priority, and the hook that compares them is called. -/
def JoinHeard (env : Env) (s : Sched) (p : Pid) (new : TaskStruct) : Prop :=
  (s.rq (s.task p).cpu).curr ≠ p → (s.task p).onRq = true → new.schedClass = .rt →
    SchedClass.precedes .rt (rqCurr s (s.task p).cpu).schedClass →
      (new.prio < (rqCurr s (s.task p).cpu).prio ∧
        ((s.task p).schedClass ≠ .rt ∨ (s.task p).prio ≠ new.prio)) ∨
      NobodyRt env s p new

def ChangeHeard (env : Env) (s : Sched) (p : Pid) (new : TaskStruct) : Prop :=
  s.needResched (s.rq (s.task p).cpu).curr = true ∨ TurnHeard env s p new ∧ JoinHeard env s p new

/-- A waiting RT task gets to another group under a current task of a later
class only when no RT task could run there: no hook compares them. -/
def MoveHeard (env : Env) (s : Sched) (p : Pid) (new : TaskStruct) : Prop :=
  (s.rq (s.task p).cpu).curr ≠ p → (s.task p).onRq = true → (s.task p).schedClass = .rt →
    SchedClass.precedes .rt (rqCurr s (s.task p).cpu).schedClass →
      s.needResched (s.rq (s.task p).cpu).curr = true ∨ NobodyRt env s p new

section Changes
variable {env : Env} {s : Sched} {p : Pid}

theorem RtHeld.not_eligible {tree : RtGroups.Hierarchy Group} {throttled : Group → Bool}
    {task : Pid → TaskStruct} {c : Cpu} (held : RtHeld tree throttled task c) {q : Pid}
    (queued : QueuedRt task c q) :
    ¬ RtEligible tree (entries task c) throttled (task q).rt.rtRq := by
  intro eligible
  obtain ⟨g, path, was, unlifted⟩ := held q queued
  obtain ⟨r, has⟩ := eligible g path was
  obtain ⟨on, here, isRt, boosted, below⟩ := (has_entries _ _ _ _).mp has
  exact unlifted r ⟨on, here, isRt⟩ boosted below

/-- In particular `p` itself may not run, if it is an RT task then. -/
theorem NobodyRt.refutes {new : TaskStruct} (nobody : NobodyRt env s p new)
    (on : new.onRq = true) (home : new.cpu = (s.task p).cpu) (isRt : new.schedClass = .rt)
    (eligible : RtEligible env.groups
      (Function.update (entries s.task (s.task p).cpu) p (some new.entry))
      (rtThrottled s (s.task p).cpu) new.rt.rtRq) : False := by
  have view := entries_update s.task (s.task p).cpu p new
  rw [if_pos ⟨on, home⟩] at view
  have queued : QueuedRt (Function.update s.task p new) (s.task p).cpu p := by
    simp [QueuedRt, on, home, isRt]
  refine nobody.not_eligible queued ?_
  rwa [view, Function.update_self]

/-- Nor may anybody else: without `p` the queued tasks are those of before. -/
theorem NobodyRt.refutes_other {new : TaskStruct} (nobody : NobodyRt env s p new)
    (on : new.onRq = true) (home : new.cpu = (s.task p).cpu) {q : Pid} {entry : Entry}
    (found : Function.update (entries s.task (s.task p).cpu) p none q = some entry)
    (isRt : entry.cls = .rt)
    (eligible : RtEligible env.groups
      (Function.update (entries s.task (s.task p).cpu) p none)
      (rtThrottled s (s.task p).cpu) entry.group) : False := by
  have there := entries_update s.task (s.task p).cpu p new
  rw [if_pos ⟨on, home⟩] at there
  have same : Function.update (entries s.task (s.task p).cpu) p none =
      Function.update (entries (Function.update s.task p new) (s.task p).cpu) p none := by
    rw [there, Function.update_idem]
  rw [same] at found eligible
  have cleared : Has (Function.update
      (entries (Function.update s.task p new) (s.task p).cpu) p none) (fun entry =>
        entry.cls = .rt ∧ RtEligible env.groups
          (entries (Function.update s.task p new) (s.task p).cpu)
          (rtThrottled s (s.task p).cpu) entry.group) q :=
    ⟨entry, found, isRt, eligible.of_clear⟩
  obtain ⟨on', here, isRt', runs⟩ := (has_entries _ _ _ _).mp ((has_clear p q).mp cleared).1
  exact RtHeld.not_eligible nobody ⟨on', here, isRt'⟩ runs

/-- Only the place, the priorities and the group of the changed task matter. -/
theorem NobodyRt.congr {new new' : TaskStruct} (nobody : NobodyRt env s p new)
    (onRq : new'.onRq = new.onRq) (cpu : new'.cpu = new.cpu) (entry : new'.entry = new.entry) :
    NobodyRt env s p new' := by
  have cls : new'.schedClass = new.schedClass := congrArg Entry.cls entry
  have group : new'.rt.rtRq = new.rt.rtRq := congrArg Entry.group entry
  have boosted : rtSeBoosted new' = rtSeBoosted new := congrArg Entry.boosted entry
  have queued (q : Pid) : QueuedRt (Function.update s.task p new') (s.task p).cpu q ↔
      QueuedRt (Function.update s.task p new) (s.task p).cpu q := by
    rw [queuedRt_update, queuedRt_update, onRq, cpu, cls]
  have sameGroup (q : Pid) : (Function.update s.task p new' q).rt.rtRq =
      (Function.update s.task p new q).rt.rtRq := by
    by_cases here : q = p
    · subst here
      simpa using group
    · simp [Function.update_of_ne here]
  have sameBoost (q : Pid) : rtSeBoosted (Function.update s.task p new' q) =
      rtSeBoosted (Function.update s.task p new q) := by
    by_cases here : q = p
    · subst here
      simpa using boosted
    · simp [Function.update_of_ne here]
  simpa only [NobodyRt, RtHeld, queued, sameGroup, sameBoost] using nobody

theorem after_wrr {cls : SchedClass} (late : SchedClass.rt.precedes cls) (other : cls ≠ .wrr) :
    SchedClass.precedes .wrr cls := by
  cases cls with
  | stop | rt => simp [SchedClass.precedes] at late
  | wrr => exact absurd rfl other
  | fair | idle => decide

theorem plain_after_wrr (prios : PriosOk s) (idle : IdlePrios s) {q : Pid}
    (before : SchedClass.precedes .wrr (s.task q).schedClass) : ¬ rtPrio (s.task q).prio := by
  cases cls : (s.task q).schedClass with
  | fair =>
      have ok : PrioOk (s.task q) := prios q (by simp [Ordinary, cls])
      exact ok.fair_prio cls
  | idle => exact idle q cls
  | stop => simp [cls, SchedClass.precedes] at before
  | rt => simp [cls, SchedClass.precedes] at before
  | wrr => simp [cls, SchedClass.precedes] at before

theorem Sound.away_noMiss (sound : Sound env s) {next : Sched} {new : TaskStruct} {c : Cpu}
    (task : next.task = Function.update s.task p new) (kept : FlagsKept s next)
    (curr : ∀ d, (next.rq d).curr = (s.rq d).curr) (home : new.cpu = (s.task p).cpu)
    (away : c ≠ (s.task p).cpu) (miss : NoMissAt env s c) : NoMissAt env next c := by
  apply miss.same kept
  apply SameCpu.update task curr
  · rintro rfl
    exact away (sound.running.curr_cpu c).symm
  · exact Or.inr away.symm
  · exact Or.inr (home ▸ away.symm)

theorem Sound.off_noMiss (sound : Sound env s) {next : Sched} {new : TaskStruct} {c : Cpu}
    (task : next.task = Function.update s.task p new) (kept : FlagsKept s next)
    (curr : ∀ d, (next.rq d).curr = (s.rq d).curr) (onSame : new.onRq = (s.task p).onRq)
    (off : (s.task p).onRq = false) (busy : (s.task p).schedClass ≠ .idle)
    (miss : NoMissAt env s c) : NoMissAt env next c := by
  apply miss.same kept
  apply SameCpu.update task curr
  · exact sound.running.not_current p off busy c
  · exact Or.inl off
  · exact Or.inl (onSame.trans off)

structure Bracket (s : Sched) (p : Pid) (new : TaskStruct) (mid next : Sched) : Prop where
  task : mid.task = Function.update s.task p new
  final : next.task = mid.task
  curr : ∀ c, (mid.rq c).curr = (s.rq c).curr
  currNext : ∀ c, (next.rq c).curr = (s.rq c).curr
  kept : FlagsKept s mid
  keptNext : FlagsKept mid next

variable {new : TaskStruct} {mid next : Sched}

theorem requeueAround_bracket (env : Env) (s : Sched) (p : Pid) (wrapped head : Bool)
    (change : TaskStruct → TaskStruct)
    (keepsOn : (change (s.task p)).onRq = (s.task p).onRq) :
    ∃ new, (change (s.task p)).Ticked env new ∧
      Bracket s p new (requeueAround env s (s.task p).cpu p wrapped change head)
        (checkClassChanged env (requeueAround env s (s.task p).cpu p wrapped change head)
          (s.task p).cpu p (s.task p).schedClass (s.task p).prio) := by
  have roles := requeueAround_sameRoles env s (s.task p).cpu p wrapped head change
  have quiet := checkClassChanged_quiet env
    (requeueAround env s (s.task p).cpu p wrapped change head) (s.task p).cpu p
    (s.task p).schedClass (s.task p).prio
  refine ⟨_, ?_, requeueAround_task env s _ p wrapped head change,
    requeueChange_task env s _ p wrapped head change _ _ keepsOn, fun d => (roles d).1,
    fun d => (quiet.rq d).curr.trans (roles d).1,
    requeueAround_flagsKept env s _ p wrapped head change,
    checkClassChanged_flagsKept env _ _ p _ _⟩
  split
  · exact enqueuedTask_ticked env _
  · exact .refl env _

theorem Bracket.currOther (bracket : Bracket s p new mid next) {c : Cpu}
    (other : (s.rq c).curr ≠ p) : rqCurr mid c = rqCurr s c := by
  rw [rqCurr, rqCurr, bracket.curr, bracket.task, Function.update_of_ne other]

theorem Bracket.self (bracket : Bracket s p new mid next) : mid.task p = new := by
  rw [bracket.task, Function.update_self]

theorem Bracket.heard_waiting (bracket : Bracket s p new mid
      (checkClassChanged env mid (s.task p).cpu p (s.task p).schedClass (s.task p).prio))
    (prios : PriosOk s) (idle : IdlePrios s) (on : (s.task p).onRq = true)
    (newOn : new.onRq = true) (home : new.cpu = (s.task p).cpu)
    (ordinary : Ordinary new) (other : (s.rq (s.task p).cpu).curr ≠ p)
    (heard : ChangeHeard env s p new) (miss : NoMissAt env s (s.task p).cpu)
    (before : new.schedClass.precedes (rqCurr s (s.task p).cpu).schedClass)
    (free : new.schedClass = .rt → RtEligible env.groups
      (Function.update (entries s.task (s.task p).cpu) p (some new.entry))
      (rtThrottled (checkClassChanged env mid (s.task p).cpu p (s.task p).schedClass
        (s.task p).prio) (s.task p).cpu) new.rt.rtRq) :
    (checkClassChanged env mid (s.task p).cpu p (s.task p).schedClass
      (s.task p).prio).needResched (s.rq (s.task p).cpu).curr = true := by
  have kept := bracket.kept.trans bracket.keptNext
  have current := bracket.currOther other
  have self := bracket.self
  rw [← bracket.curr]
  -- a task that was urgent before has already set the flag
  have was : (s.task p).schedClass = new.schedClass → new.schedClass ≠ .rt →
      (checkClassChanged env mid (s.task p).cpu p (s.task p).schedClass
        (s.task p).prio).needResched (mid.rq (s.task p).cpu).curr = true := by
    intro same notRt
    rw [bracket.curr]
    refine kept.flag _ (miss p ⟨_, entries_present on, ?_, ?_⟩)
    · rw [← same] at before
      exact before
    · exact fun isRt => absurd (same.symm.trans isRt) notRt
  cases cls : new.schedClass with
  | stop => exact absurd cls ordinary.2
  | idle => exact absurd cls ordinary.1
  | rt =>
      rw [cls] at before
      rcases heard with set | ⟨-, reaches⟩
      · rw [bracket.curr]
        exact kept.flag _ set
      · rcases reaches other on cls before with ⟨low, seen⟩ | nobody
        · refine checkClassChanged_flags_rt (self ▸ cls) (self ▸ newOn) ?_ ?_ (self ▸ seen)
          · rwa [bracket.curr]
          · rwa [self, current]
        · exact (nobody.refutes newOn home cls ((free cls).weaken (kept.throttled _))).elim
  | wrr =>
      rw [cls] at before
      -- `switched_to_wrr` compares priorities; without a switch the task waited before
      by_cases turned : (s.task p).schedClass ≠ .wrr
      · refine checkClassChanged_flags_wrr (self ▸ cls) turned (self ▸ newOn) (self ▸ home) ?_ ?_
        · rwa [bracket.curr]
        · rw [current]
          exact plain_after_wrr prios idle before
      · exact was ((not_not.mp turned).trans cls.symm) (by simp [cls])
  | fair =>
      rw [cls] at before
      -- `switched_to_fair` asks `check_preempt_curr`, which compares the classes
      by_cases turned : (s.task p).schedClass ≠ .fair
      · refine checkClassChanged_flags_fair (self ▸ cls) turned (self ▸ newOn) (Or.inr ?_)
        rwa [current]
      · exact was ((not_not.mp turned).trans cls.symm) (by simp [cls])

theorem Bracket.heard_running (bracket : Bracket s p new mid
      (checkClassChanged env mid (s.task p).cpu p (s.task p).schedClass (s.task p).prio))
    (newOn : new.onRq = true) (home : new.cpu = (s.task p).cpu) (old : Ordinary (s.task p))
    (ordinary : Ordinary new)
    (running : (s.rq (s.task p).cpu).curr = p)
    (heard : ChangeHeard env s p new) (miss : NoMissAt env s (s.task p).cpu)
    (later : (s.task p).schedClass.precedes new.schedClass) (q : Pid)
    (urgent : Urgent env.groups (Function.update (entries s.task (s.task p).cpu) p none)
      (rtThrottled s (s.task p).cpu) new.schedClass q) :
    (checkClassChanged env mid (s.task p).cpu p (s.task p).schedClass
      (s.task p).prio).needResched p = true := by
  have kept := bracket.kept.trans bracket.keptNext
  have self := bracket.self
  have runs : (mid.rq (s.task p).cpu).curr = p := (bracket.curr _).trans running
  have flagged : s.needResched (s.rq (s.task p).cpu).curr = true →
      (checkClassChanged env mid (s.task p).cpu p (s.task p).schedClass
        (s.task p).prio).needResched p = true := by
    rw [running]
    exact kept.flag p
  cases cls : new.schedClass with
  | stop => exact absurd cls ordinary.2
  | idle => exact absurd cls ordinary.1
  | rt =>
      rw [cls] at later
      -- only a stop task could come down to RT
      cases oldCls : (s.task p).schedClass <;> simp [oldCls, SchedClass.precedes] at later
      exact absurd oldCls old.2
  | fair =>
      rw [cls] at later
      -- `switched_to_fair` reschedules a running task in any case
      have turned : (s.task p).schedClass ≠ .fair := by
        intro same
        rw [same] at later
        exact absurd later (Nat.lt_irrefl _)
      have set : (checkClassChanged env mid (s.task p).cpu p (s.task p).schedClass
          (s.task p).prio).needResched (mid.rq (s.task p).cpu).curr = true :=
        checkClassChanged_flags_fair (self ▸ cls) turned (self ▸ newOn) (Or.inl runs)
      rwa [runs] at set
  | wrr =>
      rw [cls] at later urgent
      have isRt : (s.task p).schedClass = .rt := by
        cases oldCls : (s.task p).schedClass <;> simp [oldCls, SchedClass.precedes] at later
        · exact absurd oldCls old.2
        · rfl
      rcases heard with set | ⟨excused, -⟩
      · exact flagged set
      · obtain ⟨entry, found, before, free⟩ := urgent
        by_cases entryRt : entry.cls = .rt
        · have nobody := excused running isRt cls
          exact (nobody.refutes_other newOn home found entryRt (free entryRt)).elim
        · -- a stop task, which was urgent before
          have stop : entry.cls = .stop := by
            cases entryCls : entry.cls <;> simp [entryCls, SchedClass.precedes] at before
            · rfl
            · exact absurd entryCls entryRt
          have urgent' : Urgent env.groups
              (Function.update (entries s.task (s.task p).cpu) p none)
              (rtThrottled s (s.task p).cpu) .rt q :=
            ⟨entry, found, by simp [stop, SchedClass.precedes], fun isRt' => absurd isRt' entryRt⟩
          refine flagged (miss q ?_)
          rw [rqCurr, running, isRt]
          exact urgent'.of_clear

theorem ChangeHeard.congr {new new' : TaskStruct} (heard : ChangeHeard env s p new)
    (onRq : new'.onRq = new.onRq) (cpu : new'.cpu = new.cpu) (entry : new'.entry = new.entry)
    (cls : new'.schedClass = new.schedClass) (prio : new'.prio = new.prio) :
    ChangeHeard env s p new' := by
  have nobody (was : NobodyRt env s p new) : NobodyRt env s p new' := was.congr onRq cpu entry
  refine heard.imp_right fun ⟨turn, join⟩ => ⟨?_, ?_⟩
  · intro runs isRt isWrr
    exact nobody (turn runs isRt (cls.symm.trans isWrr))
  · intro waits on isRt late
    rw [prio]
    exact (join waits on (cls.symm.trans isRt) late).imp_right nobody

theorem change_noMiss (sound : Sound env s) (prios : PriosOk s) (idle : IdlePrios s)
    (miss : ∀ c, NoMissAt env s c) (p : Pid) (wrapped head : Bool)
    (change : TaskStruct → TaskStruct) (keeps : Keeps (s.task p) (change (s.task p)))
    (old : Ordinary (s.task p)) (ordinary : Ordinary (change (s.task p)))
    (heard : ChangeHeard env s p (change (s.task p))) (c : Cpu) :
    NoMissAt env (checkClassChanged env
      (requeueAround env s (s.task p).cpu p wrapped change head) (s.task p).cpu p
      (s.task p).schedClass (s.task p).prio) c := by
  obtain ⟨new, ticked, bracket⟩ := requeueAround_bracket env s p wrapped head change keeps.onRq
  -- the enqueue hook may rewrite the weight, which no entry shows
  have heard' := heard.congr ticked.onRq ticked.cpu ticked.entry ticked.schedClass ticked.prio
  have home : new.cpu = (s.task p).cpu := ticked.cpu.trans keeps.cpu
  have onSame : new.onRq = (s.task p).onRq := ticked.onRq.trans keeps.onRq
  have ordinary' : Ordinary new := by
    rw [Ordinary, ticked.schedClass]
    exact ordinary
  have kept := bracket.kept.trans bracket.keptNext
  have task := bracket.final.trans bracket.task
  by_cases here : c = (s.task p).cpu
  · subst here
    by_cases on : (s.task p).onRq = true
    · have view : entries (checkClassChanged env
          (requeueAround env s (s.task p).cpu p wrapped change head) (s.task p).cpu p
          (s.task p).schedClass (s.task p).prio).task (s.task p).cpu =
          Function.update (entries s.task (s.task p).cpu) p (some new.entry) := by
        rw [task, entries_update, if_pos ⟨onSame.trans on, home⟩]
      by_cases running : (s.rq (s.task p).cpu).curr = p
      · refine NoMissAt.turn (miss _) kept (bracket.currNext _) ?_ (view.trans (by rw [running])) ?_
        · rw [rqCurr, bracket.currNext, task, running, Function.update_self]
          rfl
        · intro later q urgent
          rw [running] at urgent ⊢
          rw [rqCurr, running] at later
          exact bracket.heard_running (onSame.trans on) home old ordinary' running heard'
            (miss _) later q urgent
      · refine (miss _).put kept (bracket.currNext _) ?_ view ?_
        · rw [rqCurr, rqCurr, bracket.currNext, task, Function.update_of_ne running]
        · intro before free
          rw [view] at free
          exact bracket.heard_waiting prios idle on (onSame.trans on) home ordinary'
            running heard' (miss _) before free
    · exact sound.off_noMiss task kept bracket.currNext onSame (by simpa using on) old.1 (miss _)
  · exact sound.away_noMiss task kept bracket.currNext home here (miss c)

end Changes

section Operations
variable {env : Env} {s : Sched} {p : Pid}

theorem ttwuDoWakeup_noMiss (miss : ∀ c, NoMissAt env s c) (cpu : Cpu) (p : Pid) (c : Cpu) :
    NoMissAt env (ttwuDoWakeup env s cpu p) c := by
  have checked : NoMissAt env (checkPreemptCurr env s cpu p) c :=
    (miss c).same (checkPreemptCurr_flagsKept env s cpu p)
      (.quiet (checkPreemptCurr_quiet env s cpu p) c)
  exact checked.same (.of_eq rfl rfl) (.modifyTask _ p ⟨rfl, rfl, rfl⟩ c)

theorem activate_noMiss (sound : Sound env s) (off : (s.task p).onRq = false)
    (busy : (s.task p).schedClass ≠ .idle) (miss : ∀ c, NoMissAt env s c) (c : Cpu) :
    NoMissAt env
      (checkPreemptCurr env (ttwuActivate env s (s.task p).cpu p) (s.task p).cpu p) c := by
  have ticked := enqueuedTask_ticked env (s.task p)
  have other : ∀ d, (s.rq d).curr ≠ p := sound.running.not_current p off busy
  have quiet := checkPreemptCurr_quiet env (ttwuActivate env s (s.task p).cpu p) (s.task p).cpu p
  have task : (checkPreemptCurr env (ttwuActivate env s (s.task p).cpu p) (s.task p).cpu p).task =
      Function.update s.task p { enqueuedTask env (s.task p) with onRq := true } := by
    rw [checkPreemptCurr_task, ttwuActivate_task]
  have joined : ∀ d, ((ttwuActivate env s (s.task p).cpu p).rq d).curr = (s.rq d).curr := by
    intro d
    rw [ttwuActivate, Sched.modifyTask_rq, activateTask_rq]
    exact (sameRoles_update (Rq.sameRoles_put _ _ _ _ _ _) d).1
  have curr := fun d => (quiet.rq d).curr.trans (joined d)
  have activated : FlagsKept s (ttwuActivate env s (s.task p).cpu p) :=
    (putOn_flagsKept env s (s.task p).cpu p true false).trans (.of_eq rfl rfl)
  have kept := activated.trans (checkPreemptCurr_flagsKept env _ (s.task p).cpu p)
  by_cases here : c = (s.task p).cpu
  · subst here
    have view : entries (checkPreemptCurr env (ttwuActivate env s (s.task p).cpu p)
        (s.task p).cpu p).task (s.task p).cpu =
        Function.update (entries s.task (s.task p).cpu) p (some (s.task p).entry) := by
      rw [task, entries_update, if_pos ⟨rfl, ticked.cpu⟩]
      exact congrArg _ (congrArg some ticked.entry)
    refine (miss _).put kept (curr _) ?_ view fun before _ => ?_
    · rw [rqCurr, rqCurr, curr, task, Function.update_of_ne (other _)]
    -- `check_preempt_curr` goes by the classes, as the invariant does
    · have checks := checkPreemptCurr_flags env (ttwuActivate env s (s.task p).cpu p)
        (s.task p).cpu p
      rw [joined] at checks
      apply checks
      rw [rqCurr, joined, ttwuActivate_task, Function.update_self,
        Function.update_of_ne (other _)]
      change (enqueuedTask env (s.task p)).schedClass.precedes _
      rw [ticked.schedClass]
      exact before
  · exact sound.away_noMiss task kept curr ticked.cpu here (miss c)

theorem tryToWakeUp_noMiss (single : env.smp = false) (sound : Sound env s) (mask : Nat)
    (dest : Cpu) (busy : (s.task p).schedClass ≠ .idle) (miss : ∀ c, NoMissAt env s c) (c : Cpu) :
    NoMissAt env (tryToWakeUp env s p mask dest) c := by
  have inPlace : ttwuPlace env s p dest = s := by simp [ttwuPlace, single]
  simp only [tryToWakeUp, inPlace, ttwuDoActivate]
  split_ifs with unmatched on
  · exact miss c
  · exact ttwuDoWakeup_noMiss miss _ p c
  · exact (activate_noMiss sound (by simpa using on) busy miss c).same (.of_eq rfl rfl)
      (.modifyTask _ p ⟨rfl, rfl, rfl⟩ c)

theorem wakeUpNewTask_noMiss (single : env.smp = false) (sound : Sound env s) (dest : Cpu)
    (ordinary : Ordinary (s.task p)) (off : (s.task p).onRq = false)
    (miss : ∀ c, NoMissAt env s c) (c : Cpu) : NoMissAt env (wakeUpNewTask env s p dest) c := by
  have placed := placeNewTask_sound sound p dest ordinary off
  have fields := placeNewTask_self env s p dest
  have still : ∀ d, NoMissAt env (placeNewTask env s p dest) d := by
    intro d
    simp only [placeNewTask, single, Bool.false_eq_true, if_false]
    split
    · exact (miss d).same (.of_eq rfl rfl) (.modifyTask s p ⟨rfl, rfl, rfl⟩ d)
    · exact miss d
  refine activate_noMiss placed (fields.onRq.trans off) ?_ still c
  rw [fields.schedClass]
  exact ordinary.1

theorem forkTask_noMiss (sound : Sound env s) (cpu : Cpu) (child : Pid)
    (ordinary : Ordinary (s.task child)) (off : (s.task child).onRq = false)
    (miss : ∀ c, NoMissAt env s c) (c : Cpu) : NoMissAt env (forkTask env s cpu child) c := by
  have born : ((forkTask env s cpu child).task child).onRq = false := by
    have copy := (schedFork_off env.kernel (rqCurr s cpu)).1
    simp only [forkTask, Sched.modifySe_task, Sched.modifyTask_task, Function.update_self]
    split
    · exact copy
    · exact copy
  simp only [forkTask, Sched.modifySe_task, Sched.modifyTask_task, Function.update_self] at born
  exact (miss c).same (.of_eq rfl rfl) (.update rfl (fun _ => rfl)
    (sound.running.not_current child off ordinary.1 c) (Or.inl off) (Or.inl born))

theorem tickLocked_flagsKept (env : Env) (s : Sched) (c : Cpu) :
    FlagsKept s (tickLocked env s c) := by
  have clocked : FlagsKept s (updateRqClock env s c) := .of_eq rfl rfl
  simp only [tickLocked, taskTick]
  split
  · have charged := clocked.trans (updateCurrRt_flagsKept env _ c)
    have sliced (slice : Nat) : FlagsKept s ((updateCurrRt env (updateRqClock env s c) c).modifyTask
        (s.rq c).curr (TaskStruct.setRtSlice slice)) := charged.trans (.of_eq rfl rfl)
    simp only [taskTickRt]
    split_ifs
    · exact charged
    · exact sliced _
    · exact ((sliced _).trans (requeueTaskRt_flagsKept env _ c _ false)).trans (.resched _ _)
    · exact sliced _
  · have charged : FlagsKept s (updateCurrWrr (updateRqClock env s c) c) :=
      .of_eq (by simp) (by simp)
    simp only [taskTickWrr, requeueTaskWrr]
    split_ifs
    · exact charged.trans (.of_eq rfl rfl)
    · refine charged.trans (FlagsKept.trans ?_ (.resched _ _))
      exact .of_eq rfl rfl
    · exact charged.trans (.of_eq rfl rfl)
  · have charged : FlagsKept s (updateCurrFair env (updateRqClock env s c) c) :=
      .of_eq (by simp) (by simp)
    split
    · exact charged.trans (.resched _ _)
    · exact charged
  · exact clocked
  · exact clocked

theorem schedYield_noMiss (sound : Sound env s) (cpu : Cpu) (miss : ∀ c, NoMissAt env s c)
    (c : Cpu) : NoMissAt env (schedYield env s cpu) c := by
  have kept : FlagsKept s (schedYield env s cpu) := by
    simp only [schedYield, yieldTaskRt]
    split
    · exact requeueTaskRt_flagsKept env s cpu _ false
    all_goals exact .of_eq rfl rfl
  exact (miss c).same kept (.quiet (schedYield_quiet env s cpu (sound.curr_queued cpu)) c)

/-- The task gets another entry of its class. An RT one is boosted before. -/
theorem sameClass_noMiss {next : Sched} (sound : Sound env s) (new : TaskStruct)
    (task : next.task = Function.update s.task p new) (kept : FlagsKept s next)
    (curr : ∀ c, (next.rq c).curr = (s.rq c).curr) (home : new.cpu = (s.task p).cpu)
    (onSame : new.onRq = (s.task p).onRq) (cls : new.schedClass = (s.task p).schedClass)
    (ordinary : Ordinary (s.task p))
    (boosted : (s.task p).schedClass = .rt → rtSeBoosted (s.task p) = true)
    (miss : ∀ c, NoMissAt env s c) (c : Cpu) : NoMissAt env next c := by
  by_cases here : c = (s.task p).cpu
  · subst here
    by_cases on : (s.task p).onRq = true
    · have present := entries_present on
      have view : entries next.task (s.task p).cpu =
          Function.update (entries s.task (s.task p).cpu) p (some new.entry) := by
        rw [task, entries_update, if_pos ⟨onSame.trans on, home⟩]
      by_cases running : (s.rq (s.task p).cpu).curr = p
      · refine NoMissAt.turn (miss _) kept (curr _) ?_ (view.trans (by rw [running])) ?_
        · rw [rqCurr, curr, task, running, Function.update_self]
          rfl
        · intro later
          rw [rqCurr, running, TaskStruct.entry, cls] at later
          exact absurd later (Nat.lt_irrefl _)
      · refine (miss _).put kept (curr _) ?_ view fun before _ => ?_
        · rw [rqCurr, rqCurr, curr, task, Function.update_of_ne running]
        · refine kept.flag _ (miss _ p ⟨_, present, ?_, fun isRt => ?_⟩)
          · rw [TaskStruct.entry, cls] at before
            exact before
          · exact .of_boosted present isRt (boosted isRt)
    · exact sound.off_noMiss task kept curr onSame (by simpa using on) ordinary.1 (miss _)
  · exact sound.away_noMiss task kept curr home here (miss c)

theorem PrioOk.boosted_of_unreal {task : TaskStruct} (ok : PrioOk task)
    (unreal : taskHasRtPolicy task = false) (isRt : task.schedClass = .rt) :
    rtSeBoosted task = true := by
  have low := ok.rt_prio isRt
  have high := ok.normal_eq.trans (normalPrio_other unreal)
  have static := ok.static_ge
  rw [rtPrio_iff] at low
  simp only [rtSeBoosted, decide_eq_true_eq, ne_eq]
  omega

theorem setUserNice_noMiss (sound : Sound env s) (prios : PriosOk s) (nice : Int)
    (ordinary : Ordinary (s.task p)) (miss : ∀ c, NoMissAt env s c) (c : Cpu) :
    NoMissAt env (setUserNice env s p nice) c := by
  let edited : TaskStruct := effectivePrio { s.task p with staticPrio := niceToPrio nice }
  simp only [setUserNice]
  split
  · exact miss c
  · split
    · exact (miss c).same (.of_eq rfl rfl) (.modifyTask s p ⟨rfl, rfl, rfl⟩ c)
    · rename_i unreal
      have boosted := (prios p ordinary).boosted_of_unreal (by simpa using unreal)
      have changed : ∀ t : Sched, FlagsKept t (t.modifyTask p fun task =>
          effectivePrio { task with staticPrio := niceToPrio nice }) := fun _ => .of_eq rfl rfl
      by_cases on : (s.task p).onRq = true
      · simp only [on, if_true]
        have ticked := enqueuedTask_ticked env edited
        have back : ∀ d, NoMissAt env (enqueueTask env
            ((dequeueTask env s (s.task p).cpu p).modifyTask p fun task =>
              effectivePrio { task with staticPrio := niceToPrio nice })
            (s.task p).cpu p false) d := by
          refine sameClass_noMiss sound (enqueuedTask env edited) ?_ ?_ (fun d => ?_) ticked.cpu
            ticked.onRq ticked.schedClass ordinary boosted miss
          · simp [enqueueTask_task, edited]
          · exact ((takeOff_flagsKept env s _ p false).trans (changed _)).trans
              (putOn_flagsKept env _ _ p false false)
          · have roles := (Rq.sameRoles_taken env.kernel false (s.task p) p
              (s.rq (s.task p).cpu)).trans (Rq.sameRoles_put env.kernel false false
                (enqueuedTask env edited) p _)
            have same := (sameRoles_update roles d).1
            simpa [enqueueTask_rq, dequeueTask_rq, Rq.taken, Rq.put, edited] using same
        split
        · exact (back c).same (.resched _ _) (.quiet (reschedTask_quiet env _ _) c)
        · exact back c
      · simp only [on, Bool.false_eq_true, if_false]
        exact sameClass_noMiss sound edited rfl (changed s) (fun _ => rfl) rfl rfl rfl ordinary
          boosted miss c

/-- A normalized task that is queued flags the current one in any case. -/
theorem normalizeTask_noMiss (sound : Sound env s) (waiter : Option Nat)
    (ordinary : Ordinary (s.task p)) (miss : ∀ c, NoMissAt env s c) (c : Cpu) :
    NoMissAt env (normalizeTask env s p waiter) c := by
  have task := normalizeAround_task env s p waiter
  have rq := normalizeAround_rq env s p waiter
  have quiet := checkClassChanged_quiet env (normalizeAround env s p waiter) (s.task p).cpu p
    (s.task p).schedClass (s.task p).prio
  have hooked := checkClassChanged_flagsKept env (normalizeAround env s p waiter) (s.task p).cpu p
    (s.task p).schedClass (s.task p).prio
  rw [normalizeTask_eq]
  suffices around : NoMissAt env (normalizeAround env s p waiter) c from
    around.same hooked (.quiet quiet c)
  by_cases on : (s.task p).onRq = true
  · rw [if_pos on] at task rq
    have ticked := enqueuedTask_ticked env (setscheduler waiter .normal 0 (s.task p))
    have curr : ∀ d, ((normalizeAround env s p waiter).rq d).curr = (s.rq d).curr := by
      intro d
      rw [rq]
      exact (sameRoles_update ((Rq.sameRoles_taken _ _ _ _ _).trans
        (Rq.sameRoles_put _ _ _ _ _ _)) d).1
    by_cases here : c = (s.task p).cpu
    · -- `normalize_task` reschedules the current task of this CPU by itself
      subst here
      intro q _
      have offCurr : ((deactivateTask env s (s.task p).cpu p).rq (s.task p).cpu).curr =
          (s.rq (s.task p).cpu).curr := by
        rw [deactivateTask_rq]
        exact (sameRoles_update (Rq.sameRoles_taken _ _ _ _ _) _).1
      rw [curr]
      simp [normalizeAround, on, offCurr]
    · have off : FlagsKept s (deactivateTask env s (s.task p).cpu p) :=
        takeOff_flagsKept env s (s.task p).cpu p true
      have kept : FlagsKept s (normalizeAround env s p waiter) := by
        simp only [normalizeAround, on, if_true]
        have changed : FlagsKept (deactivateTask env s (s.task p).cpu p)
            ((deactivateTask env s (s.task p).cpu p).modifyTask p
              (setscheduler waiter .normal 0)) := .of_eq rfl rfl
        exact ((off.trans changed).trans (putOn_flagsKept env _ _ p true false)).trans
          (.resched _ _)
      exact sound.away_noMiss task kept curr ticked.cpu here (miss c)
  · rw [if_neg on] at task
    have curr : ∀ d, ((normalizeAround env s p waiter).rq d).curr = (s.rq d).curr := by
      intro d
      rw [rq, if_neg on]
    have kept : FlagsKept s (normalizeAround env s p waiter) := by
      simp only [normalizeAround, on, Bool.false_eq_true, if_false]
      exact .of_eq rfl rfl
    exact sound.off_noMiss task kept curr rfl (by simpa using on) ordinary.1 (miss c)

theorem normalizeRtTask_noMiss (sound : Sound env s) (prios : PriosOk s) (waiter : Option Nat)
    (ordinary : Ordinary (s.task p)) (miss : ∀ c, NoMissAt env s c) (c : Cpu) :
    NoMissAt env (normalizeRtTask env s p waiter) c := by
  have stamped : Sound env (s.modifySe p fun se => { se with execStart := 0 }) :=
    sound.of_eq rfl rfl rfl
  simp only [normalizeRtTask]
  split
  · exact miss c
  · split
    · split
      · exact setUserNice_noMiss stamped prios 0 ordinary miss c
      · exact miss c
    · exact normalizeTask_noMiss stamped waiter ordinary miss c

theorem Ready.nobody {c : Cpu} (ready : Ready env s c) (prios : PriosOk s)
    (stops : ∀ p, (s.task p).schedClass = .stop → (s.task p).cpu = c → (s.rq c).stop = some p)
    (q : Pid) : ¬ Urgent env.groups (entries s.task c) (rtThrottled s c)
      (s.task (pickNext env s c).2).schedClass q := by
  intro urgent
  obtain ⟨on, here, before, free⟩ := (has_entries _ _ _ _).mp urgent
  rw [ready.picked_class, pickNext_walk ready] at before
  refine ready.offers prios (fun isStop => stops q isStop here) on here
    (fun isRt => (ready.rt.eligible_iff prios ⟨on, here, isRt⟩).mpr (free isRt)) ?_
  exact (pickWalk_spec env s c).2 _ before

theorem pickState_flagsKept (c : Cpu) (preemptActive signalPending : Bool) :
    FlagsKept s (pickState env s c preemptActive signalPending) := by
  have out : FlagsKept s (scheduleOut env s c preemptActive signalPending) := by
    rcases scheduleOut_cases env s c preemptActive signalPending with same | ⟨-, awake | asleep⟩
    · rw [same]
      exact .refl s
    · rw [awake]
      exact .of_eq rfl rfl
    · rw [asleep]
      exact (takeOff_flagsKept env s c _ true).trans (.of_eq rfl rfl)
  have clocked : FlagsKept s
      (updateRqClock env (scheduleOut env s c preemptActive signalPending) c) :=
    out.trans (.of_eq rfl rfl)
  simp only [pickState, putPrevTask]
  split
  · exact clocked.trans (classPutPrev_flagsKept env _ c _)
  · exact out.trans (classPutPrev_flagsKept env _ c _)

theorem PriosOk.scheduleOut (sound : Sound env s) (prios : PriosOk s) (cpu : Cpu)
    (preemptActive signalPending : Bool) :
    PriosOk (scheduleOut env s cpu preemptActive signalPending) := by
  have out := scheduleOut_spec sound cpu preemptActive signalPending
  intro p ordinary
  by_cases isPrev : p = (s.rq cpu).curr
  · obtain ⟨state, onRq, prevEq⟩ := out.prevSame
    subst isPrev
    rw [prevEq] at ordinary ⊢
    have same : SamePolicy env (s.task (s.rq cpu).curr)
        { s.task (s.rq cpu).curr with state := state, onRq := onRq } :=
      ⟨rfl, rfl, rfl, rfl, rfl, rfl, fun _ => id⟩
    have before : PrioOk (s.task (s.rq cpu).curr) := prios _ ordinary
    exact before.same same
  · rw [out.others p isPrev] at ordinary ⊢
    exact prios p ordinary

theorem schedule_noMiss (sound : Sound env s) (prios : PriosOk s) (cpu : Cpu)
    (preemptActive signalPending : Bool) (miss : ∀ c, NoMissAt env s c) (c : Cpu) :
    NoMissAt env (schedule env s cpu preemptActive signalPending) c := by
  have out := scheduleOut_spec sound cpu preemptActive signalPending
  have task := schedule_task env s cpu preemptActive signalPending
  have rq := schedule_rq env s cpu preemptActive signalPending
  have rt := schedule_rt env s cpu preemptActive signalPending
  intro q urgent
  rw [task, entries_switchTasks, rtThrottled_of_eq rt, rqCurr, task, switchTasks_same] at urgent
  by_cases here : c = cpu
  · subst here
    -- nobody wants the CPU from the picked task
    exfalso
    have ready := pickState_ready sound c preemptActive signalPending
    have looked := prios.scheduleOut sound c preemptActive signalPending
    rw [schedule_curr] at urgent
    refine ready.nobody ?_ ?_ q ?_
    · simpa [PriosOk, pickState] using looked
    · intro p isStop home
      simp only [pickState, putPrevTask_task, putPrevTask_rq] at isStop home ⊢
      rw [(out.only.place p).1] at isStop
      rw [(out.only.place p).2.1] at home
      subst home
      rw [(out.roles _).2.2]
      exact sound.running.stop_unique p isStop
    · simpa [pickState] using urgent
  · -- on another CPU nothing changes but the previous task of this one
    have curr : ((schedule env s cpu preemptActive signalPending).rq c).curr =
        (s.rq c).curr := by
      rw [rq, Function.update_of_ne here]
      exact (out.roles c).1
    have others : (s.rq c).curr ≠ (s.rq cpu).curr := by
      intro same
      have one := sound.running.curr_cpu c
      rw [same, sound.running.curr_cpu cpu] at one
      exact here one.symm
    have view : entries (scheduleOut env s cpu preemptActive signalPending).task c =
        entries s.task c := by
      funext p
      by_cases isPrev : p = (s.rq cpu).curr
      · have home : (s.task p).cpu ≠ c := by
          rw [isPrev, sound.running.curr_cpu cpu]
          exact fun same => here same.symm
        rw [entries_absent (Or.inr home), entries_absent (Or.inr ?_)]
        rwa [(out.only.place p).2.1]
      · rw [entries, entries, out.others p isPrev]
    rw [view, curr, (out.only.place _).1] at urgent
    rw [curr, schedule_needResched, if_neg others]
    exact miss c q (urgent.weaken
      ((pickState_flagsKept cpu preemptActive signalPending).throttled c) (Nat.le_refl _))

end Operations

end AndroidKernel
