import AndroidKernel.PriorityInvariant
import AndroidKernel.Scheduling

/-!
Whether `pick_next_task` honours effective priorities. The RT arrays do, and
every task whose class goes by its priority is in them. A WRR task keeps its
class when `rt_mutex_setprio` boosts it, so it waits behind every RT task and
behind the tasks that precede it in the WRR queue. The law holds exactly when
no boosted WRR task is passed over in this way, and in every run that boosts no
WRR task.
-/

namespace AndroidKernel

def PrioHonoured (env : Env) (s : Sched) (c : Cpu) : Prop :=
  ∀ p, (s.task p).onRq = true → (s.task p).cpu = c → rtPrio (s.task p).prio →
    (s.rq c).stop = some (pickNextTask env s c) ∨
      (s.task (pickNextTask env s c)).prio ≤ (s.task p).prio

/-- Nothing stands before a queued WRR task that has a larger `prio` than it. -/
def WrrServed (env : Env) (s : Sched) (c : Cpu) (p : Pid) : Prop :=
  let root := (s.rt c).rq env.groups.root
  (∃ q, (s.rq c).stop = some q ∧ (s.task q).onRq = true) ∨
    if root.rtNrRunning ≠ 0 then (root.highestPrio : Int) ≤ (s.task p).prio
    else ∃ head, (s.rq c).wrr.queue.head? = some head ∧ (s.task head).prio ≤ (s.task p).prio

def BoostedWrrServed (env : Env) (s : Sched) (c : Cpu) : Prop :=
  ∀ p, (s.task p).onRq = true → (s.task p).cpu = c → (s.task p).schedClass = .wrr →
    rtPrio (s.task p).prio → WrrServed env s c p

/-- No throttled group holds a queued RT task. -/
def RtFree (env : Env) (s : Sched) (c : Cpu) : Prop :=
  ∀ p, QueuedRt s.task c p → RtGroups.Eligible env.groups (s.rtState c) p

section Offers
variable {env : Env} {s : Sched} {c : Cpu} {p : Pid}

/-- The RT class offers nothing worse than a task that no group holds, and what
it offers is at the priority of the root. -/
theorem rt_offers (ready : Ready env s c) (fine : PriosOk s)
    (eligible : RtGroups.Eligible env.groups (s.rtState c) p) :
    ∃ q, pickNextTaskRt env s c = some q ∧ (s.task q).prio ≤ (s.task p).prio ∧
      (s.task q).prio = ((s.rt c).rq env.groups.root).highestPrio := by
  have queued : QueuedRt s.task c p := ((ready.rt c).2 p).mp eligible.1
  obtain ⟨here, -, valid⟩ := fine.rt_prios c queued.2.2
  obtain ⟨q, found, best⟩ := (ready.rt c).1.pick_offers eligible valid
  have picked : pickNextTaskRt env s c = some q := Option.join_eq_some_iff.mpr found
  have highest := ((ready.rt c).1.pick_walked found).2.2.1
  have there := (fine.rt_prios c (ready.rt.pick_queued picked).1.2.2).1
  rw [Sched.rtState_rq] at highest
  exact ⟨q, picked, by omega, by omega⟩

theorem Ready.offers (ready : Ready env s c) (prios : PriosOk s)
    (stops : (s.task p).schedClass = .stop → (s.rq c).stop = some p)
    (on : (s.task p).onRq = true) (here : (s.task p).cpu = c)
    (free : (s.task p).schedClass = .rt → RtGroups.Eligible env.groups (s.rtState c) p) :
    classPick env s c (s.task p).schedClass ≠ none := by
  have has : ∀ cls : SchedClass, (s.task p).schedClass = cls →
      Has (entries s.task c) (fun entry => entry.cls = cls) p := fun cls is =>
    (has_entries _ _ _ _).mpr ⟨on, here, is⟩
  cases cls : (s.task p).schedClass with
  | stop => simp [classPick, stops cls, on]
  | rt =>
      obtain ⟨q, offers, -⟩ := rt_offers ready prios (free cls)
      simp [classPick, offers]
  | wrr =>
      have member := ((ready.queues c).wrr.lists.mem_iff p).mpr (has _ cls)
      have long := List.length_pos_of_mem member
      have count := (ready.queues c).wrr.count
      have busy : (s.rq c).wrr.wrrNrRunning ≠ 0 := by omega
      simp only [classPick, pickNextTaskWrr, if_neg busy, ne_eq, List.head?_eq_none_iff]
      exact List.ne_nil_of_mem member
  | fair =>
      have member := ((ready.queues c).cfs.lists.mem_iff p).mpr (has _ cls)
      intro none
      exact List.ne_nil_of_mem member (env.fair.picks_some s c none)
  | idle => simp [classPick]

theorem RtOk.free_of_root (ok : RtOk env s (QueuedRt s.task))
    (free : rtRqThrottled s c env.groups.root = false)
    (rooted : ∀ p, QueuedRt s.task c p → (s.task p).rt.rtRq = env.groups.root) :
    RtFree env s c := by
  intro p queued
  refine ⟨((ok c).2 p).mpr queued, free, ?_⟩
  rw [Sched.rtState_group, rooted p queued, env.groups.above_root]
  exact fun g member => absurd member List.not_mem_nil

theorem RtOk.rooted (ok : RtOk env s (QueuedRt s.task))
    (only : ∀ g ∈ (s.rt c).leafRtRqList, g = env.groups.root) (p : Pid)
    (queued : QueuedRt s.task c p) : (s.task p).rt.rtRq = env.groups.root := by
  obtain ⟨sound, on⟩ := ok c
  obtain ⟨running, -⟩ := sound.toShape.highest_le ((on p).mpr queued) rfl
  exact only _ ((sound.leaf _).mpr running)

theorem Ready.picked_class (ready : Ready env s c) :
    (s.task (pickNext env s c).2).schedClass = (pickNext env s c).1 := by
  rcases pickNext_runnable ready with isIdle | ⟨-, -, same⟩
  · rw [isIdle]
    exact ready.idle
  · exact same

end Offers

section Law
variable {env : Env} {s : Sched} {c : Cpu} {p : Pid}

theorem Ready.not_stop (ready : Ready env s c) (other : (s.task p).schedClass ≠ .stop) :
    (s.rq c).stop ≠ some p := fun named => other (ready.stops p named).1

theorem rt_honoured (ready : Ready env s c) (fine : PriosOk s)
    (eligible : RtGroups.Eligible env.groups (s.rtState c) p) :
    (s.rq c).stop = some (pickNextTask env s c) ∨
      (s.task (pickNextTask env s c)).prio ≤ (s.task p).prio := by
  by_cases stops : ∃ q, (s.rq c).stop = some q ∧ (s.task q).onRq = true
  · obtain ⟨q, named, queued⟩ := stops
    exact Or.inl (by rw [pickNextTask_stop ready named queued, named])
  · obtain ⟨q, offers, le, -⟩ := rt_offers ready fine eligible
    rw [pickNextTask_rt ready stops offers]
    exact Or.inr le

theorem wrr_honoured_iff (ready : Ready env s c) (fine : PriosOk s)
    (free : RtFree env s c) (on : (s.task p).onRq = true)
    (here : (s.task p).cpu = c) (isWrr : (s.task p).schedClass = .wrr) :
    ((s.rq c).stop = some (pickNextTask env s c) ∨
      (s.task (pickNextTask env s c)).prio ≤ (s.task p).prio) ↔ WrrServed env s c p := by
  rw [WrrServed]
  by_cases stops : ∃ q, (s.rq c).stop = some q ∧ (s.task q).onRq = true
  · obtain ⟨q, named, queued⟩ := stops
    have picked : (s.rq c).stop = some (pickNextTask env s c) := by
      rw [pickNextTask_stop ready named queued, named]
    exact iff_of_true (Or.inl picked) (Or.inl ⟨q, named, queued⟩)
  · rw [or_iff_right stops]
    by_cases busy : ((s.rt c).rq env.groups.root).rtNrRunning ≠ 0
    · -- some RT task is queued, and the best one is picked
      rw [if_pos busy]
      obtain ⟨r, on', -⟩ := (ready.rt c).1.task_of_running busy
      obtain ⟨q, offers, -, highest⟩ := rt_offers ready fine (free r (((ready.rt c).2 r).mp on'))
      have cls : (s.task q).schedClass = .rt := (ready.rt.pick_queued offers).1.2.2
      rw [pickNextTask_rt ready stops offers, ← highest,
        or_iff_right (ready.not_stop (by simp [cls]))]
    -- without RT tasks the head of the WRR queue is next, and only its priority matters
    · have noRt : pickNextTaskRt env s c = none := pickNextTaskRt_none (.inl (not_not.mp busy))
      have lists := (ready.queues c).wrr.lists
      have member : p ∈ (s.rq c).wrr.queue :=
        (lists.mem_iff p).mpr ((has_entries _ _ _ _).mpr ⟨on, here, isWrr⟩)
      have head := pickNextTask_wrr ready stops noRt (List.ne_nil_of_mem member)
      obtain ⟨-, -, cls⟩ := (has_entries _ _ _ _).mp
        ((lists.mem_iff _).mp (List.mem_of_mem_head? (Option.mem_def.mpr head)))
      have notStop : (s.task (pickNextTask env s c)).schedClass ≠ .stop := by
        have isWrr' : (s.task (pickNextTask env s c)).schedClass = .wrr := cls
        simp [isWrr']
      rw [if_neg busy, head, or_iff_right (ready.not_stop notStop)]
      simp

/-- The other classes honour their priorities, so the law depends on the
boosted WRR tasks alone. -/
theorem prioHonoured_iff (sound : Sound env s) (fine : PriosOk s) (free : RtFree env s c) :
    PrioHonoured env s c ↔ BoostedWrrServed env s c := by
  have ready := sound.ready c
  constructor
  · intro law p on here isWrr low
    exact (wrr_honoured_iff ready fine free on here isWrr).mp (law p on here low)
  · intro served p on here low
    cases cls : (s.task p).schedClass with
    | stop =>
        have named := sound.running.stop_unique p cls
        rw [here] at named
        exact Or.inl (by rw [pickNextTask_stop ready named on, named])
    | rt => exact rt_honoured ready fine (free p ⟨on, here, cls⟩)
    | wrr =>
        exact (wrr_honoured_iff ready fine free on here cls).mpr (served p on here cls low)
    | fair => exact absurd low ((fine p (by simp [Ordinary, cls])).fair_prio cls)
    | idle =>
        rw [(sound.running.idle_rests p cls).2.2] at on
        cases on

end Law

/-- The step gives no task of policy WRR a real-time effective priority, neither
by `rt_mutex_setprio` nor because a task that has such a waiter becomes WRR. -/
def NoWrrBoost (env : Env) (s : Sched) : Op → Prop
  | .rtMutexSetprio p waiter =>
      (s.task p).policy = .wrr → ¬ rtPrio (rtMutexGetprio waiter (s.task p))
  | .setscheduler caller p seen policy prio user waiter =>
      ∀ request ∈ (setschedulerChecks caller seen policy prio user).toOption,
        request.policy = .wrr → PassApplies env s p request prio user →
          ∀ top ∈ waiter, ¬ rtPrio (top : Nat)
  | _ => True

instance (env : Env) (s : Sched) (op : Op) : Decidable (NoWrrBoost env s op) :=
  match op with
  | .rtMutexSetprio p waiter => inferInstanceAs (Decidable
      ((s.task p).policy = .wrr → ¬ rtPrio (rtMutexGetprio waiter (s.task p))))
  | .setscheduler caller p seen policy prio user waiter => inferInstanceAs (Decidable
      (∀ request ∈ (setschedulerChecks caller seen policy prio user).toOption,
        request.policy = .wrr → PassApplies env s p request prio user →
          ∀ top ∈ waiter, ¬ rtPrio (top : Nat)))
  | .fork _ _ | .wakeUpNewTask _ _ | .tryToWakeUp _ _ _ | .ttwuQueueRemote _ _
  | .schedTtwuPending _ | .setCurrentState _ _ | .schedule _ _ _ | .schedulerTick _
  | .schedYield _ | .setUserNice _ _ | .cgroupAttach _ _ | .schedMoveTask _
  | .migrateTask _ _ _ | .pushTask _ _ | .pullWrrTask _ | .rtPeriodTimer _ _ _
  | .balanceRuntime _ _ _ | .normalizeRtTask _ _ | .setCpusAllowed _ _ =>
      inferInstanceAs (Decidable True)

structure WrrPlain (env : Env) (s : Sched) : Prop extends PrioSound env s where
  plain : ∀ p, (s.task p).schedClass = .wrr → ¬ rtPrio (s.task p).prio

theorem setscheduler_plain (waiter : Option Nat) (prio : Nat) {task : TaskStruct}
    (static : 100 ≤ task.staticPrio) (low : ∀ top ∈ waiter, ¬ rtPrio (top : Nat)) :
    ¬ rtPrio (setscheduler waiter .wrr prio task).prio := by
  let named : TaskStruct := { task with policy := .wrr, rtPriority := prio }
  have normal : normalPrio named = task.staticPrio := normalPrio_other rfl
  change ¬ rtPrio (rtMutexGetprio waiter { named with normalPrio := normalPrio named })
  cases waiter with
  | none =>
      simp only [rtMutexGetprio, normal]
      exact not_rtPrio static
  | some top =>
      have high := low top rfl
      simp only [rtMutexGetprio, normal, rtPrio_iff] at high ⊢
      omega

theorem PolicyStep.plain {env : Env} {s : Sched} {op : Op} {p : Pid} {after : TaskStruct}
    (made : PolicyStep env s op p after) (fine : WrrPlain env s) (noBoost : NoWrrBoost env s op)
    (isWrr : after.schedClass = .wrr) : ¬ rtPrio after.prio := by
  cases made with
  | kept same =>
      rw [same.prio]
      exact fine.plain p (same.schedClass.symm.trans isWrr)
  | forked c is parent same =>
      exact absurd (same.schedClass.symm.trans isWrr) ((fine.prios _ parent).fork_class env.kernel)
  | set waiter policy prio ordinary small asked same =>
      have named : policy = .wrr :=
        (classFor_wrr_iff _ _).mp (same.schedClass.symm.trans isWrr)
      subst named
      rw [same.prio]
      apply setscheduler_plain waiter prio (fine.prios p ordinary).static_ge
      rcases asked with normal | ⟨caller, seen, code, asks, user, request, rfl, checks, applies,
        named⟩
      · cases normal
      · exact noBoost request (by simp [checks, Except.toOption]) named applies
  | boosted waiter is ordinary same =>
      subst is
      rw [same.prio]
      exact noBoost ((classFor_wrr_iff _ _).mp (same.schedClass.symm.trans isWrr))
  | niced nice low high real same =>
      rw [same.prio]
      exact fine.plain p (same.schedClass.symm.trans isWrr)
  | reniced nice low high unreal same =>
      have before := fine.plain p (same.schedClass.symm.trans isWrr)
      rw [same.prio, (effectivePrio_nice unreal).2, if_neg before]
      exact not_rtPrio (niceToPrio_ge low)

theorem step_wrrPlain {env : Env} {s next : Sched} {op : Op} (fine : WrrPlain env s)
    (noBoost : NoWrrBoost env s op) (moved : step env s op = some next) :
    WrrPlain env next := by
  refine ⟨step_prioSound fine.toPrioSound moved, fun p isWrr => ?_⟩
  obtain ⟨allowed, rfl⟩ := step_some moved
  exact (apply_policy fine.sound op allowed p).plain fine noBoost isWrr

structure FreshPrios (s : Sched) : Prop where
  prios : PriosOk s
  plain : ∀ p, (s.task p).schedClass = .wrr → ¬ rtPrio (s.task p).prio

/-- With the RT class unthrottled and its tasks in the root group, `pick_next_task`
honours the effective priorities of a reachable state exactly when nothing
stands before the boosted WRR tasks, and so it does after every run that boosts
none. -/
theorem effective_prio_honoured {env : Env} {start s : Sched} {ops : List Op} (init : Init start)
    (fresh : FreshPrios start) (run : Transition.Run (step env) (fun _ _ => True) start ops s)
    (c : Cpu) (free : rtRqThrottled s c env.groups.root = false)
    (rooted : ∀ p, QueuedRt s.task c p → (s.task p).rt.rtRq = env.groups.root) :
    (PrioHonoured env s c ↔ BoostedWrrServed env s c) ∧
      (Transition.Run (step env) (NoWrrBoost env) start ops s → PrioHonoured env s c) := by
  have base : PrioSound env start := ⟨init_sound env init, fresh.prios⟩
  constructor
  · have kept : PrioSound env s := by
      apply run.invariant _ base
      intro before op after fine _ moved
      exact step_prioSound fine moved
    exact prioHonoured_iff kept.sound kept.prios (kept.sound.rt.free_of_root free rooted)
  · intro unboosted
    have kept : WrrPlain env s := by
      apply unboosted.invariant _ ⟨base, fresh.plain⟩
      intro before op after fine noBoost moved
      exact step_wrrPlain fine noBoost moved
    refine (prioHonoured_iff kept.sound kept.prios
      (kept.sound.rt.free_of_root free rooted)).mpr ?_
    exact fun p _ _ isWrr low => absurd low (kept.plain p isWrr)

theorem Boot.freshPrios : FreshPrios Boot.state := by
  refine ⟨Boot.priosOk, fun p isWrr => ?_⟩
  rcases Boot.task_cases p with ⟨c, -, idle⟩ | user
  · simp [Boot.state, idle, Boot.idleTask] at isWrr
  · simp [Boot.state, user, Boot.userTask] at isWrr

def boostOps : List Op :=
  [.tryToWakeUp 1 1 0, .tryToWakeUp 3 1 0, .schedule 0 false false,
    .setscheduler Boot.root 3 Boot.userTask 6 0 true none, .rtMutexSetprio 1 (some 40)]

theorem effective_prio_honoured_fair :
    (PrioHonoured (Boot.env .goldfish false)
        ((Boot.after .goldfish false boostOps).get (by decide)) 0 ↔
      BoostedWrrServed (Boot.env .goldfish false)
        ((Boot.after .goldfish false boostOps).get (by decide)) 0) ∧
    (Transition.Run (step (Boot.env .goldfish false)) (NoWrrBoost (Boot.env .goldfish false))
        Boot.state boostOps ((Boot.after .goldfish false boostOps).get (by decide)) →
      PrioHonoured (Boot.env .goldfish false)
        ((Boot.after .goldfish false boostOps).get (by decide)) 0) :=
  effective_prio_honoured Boot.state_init Boot.freshPrios
    (Transition.run_of_isSome Boot.state boostOps (by decide)) 0 (by decide)
    ((reachable_sound (Boot.reachable .goldfish false boostOps (by decide))).rt.rooted (by decide))

def wrrBoostOps : List Op :=
  [.tryToWakeUp 1 1 0, .tryToWakeUp 3 1 0, .schedule 0 false false,
    .setscheduler Boot.root 1 Boot.userTask 6 0 true none,
    .setscheduler Boot.root 3 Boot.userTask 1 1 true none, .rtMutexSetprio 1 (some 40)]

/-- The FIFO task is picked, though its priority is the lower one. -/
theorem wrr_boost_ignored :
    ¬ ∀ s, Reachable (Boot.env .goldfish false) (fun _ _ => True) s → ∀ c,
      rtRqThrottled s c rootTaskGroup = false →
      (∀ p, QueuedRt s.task c p → (s.task p).rt.rtRq = rootTaskGroup) →
      PrioHonoured (Boot.env .goldfish false) s c := by
  intro claim
  have reached := Boot.reachable .goldfish false wrrBoostOps (by decide)
  have law := claim _ reached 0 (by decide) ((reachable_sound reached).rt.rooted (by decide)) 1
    (by decide) (by decide) (by decide)
  exact absurd law (by decide)

end AndroidKernel
