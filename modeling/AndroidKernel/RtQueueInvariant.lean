import AndroidKernel.RtGroupLaws
import AndroidKernel.QueueInvariant

/-!
The real-time runqueues inside the scheduler: on every CPU they are `Sound`, and
`RtOk` says which tasks they hold. A step that only keeps the books may throttle
a group or reorder a queue, and moves no task on or off. Taking a task off,
changing it and putting it back then changes what they hold by that task alone.
-/

namespace AndroidKernel

namespace RtGroups

universe u
variable {Group : Type u} {tree : Hierarchy Group} {s next last : State Group}

structure SameTasks (s next : State Group) : Prop where
  prio : next.prio = s.prio
  normalPrio : next.normalPrio = s.normalPrio
  group : next.group = s.group

theorem SameTasks.refl (s : State Group) : SameTasks s s := ⟨rfl, rfl, rfl⟩

theorem SameTasks.trans (one : SameTasks s next) (two : SameTasks next last) :
    SameTasks s last :=
  ⟨two.prio.trans one.prio, two.normalPrio.trans one.normalPrio, two.group.trans one.group⟩

/-- What enqueues, dequeues and requeues leave alone. -/
structure Shuffled (s next : State Group) : Prop extends SameTasks s next where
  throttled : ∀ g, (next.rq g).rtThrottled = (s.rq g).rtThrottled

theorem Shuffled.refl (s : State Group) : Shuffled s s := ⟨.refl s, fun _ => rfl⟩

theorem Shuffled.trans (one : Shuffled s next) (two : Shuffled next last) : Shuffled s last :=
  ⟨one.toSameTasks.trans two.toSameTasks, fun g => (two.throttled g).trans (one.throttled g)⟩

theorem shuffled_foldl {Item : Type u} {f : State Group → Item → State Group}
    (each : ∀ s item, Shuffled s (f s item)) (items : List Item) (s : State Group) :
    Shuffled s (items.foldl f s) := by
  induction items generalizing s with
  | nil => exact .refl s
  | cons item rest ih => exact (each s item).trans (ih (f s item))

section Frames
variable [DecidableEq Group] (tree s)

theorem Touches.shuffled {e : Entity Group} {present : Bool}
    (touches : Touches tree s next e present) : Shuffled s next :=
  ⟨⟨touches.prio, touches.normalPrio, touches.group⟩, touches.throttled⟩

theorem enqueueOne_shuffled (head : Bool) (e : Entity Group) :
    Shuffled s (enqueueOne tree s head e) := by
  cases taken : refused s e with
  | true =>
      rw [enqueueOne, if_pos taken]
      exact .refl s
  | false => exact (enqueueOne_touches tree head taken).shuffled

theorem dequeueRtStack_shuffled (entities : List (Entity Group)) :
    Shuffled s (dequeueRtStack tree s entities) := by
  induction entities with
  | nil => exact .refl s
  | cons e rest ih =>
      simp only [dequeueRtStack, List.foldr_cons] at ih ⊢
      split_ifs
      · exact ih.trans (dequeueOne_touches tree _ e).shuffled
      · exact ih

theorem enqueueRtEntity_shuffled (e : Entity Group) (head : Bool) :
    Shuffled s (enqueueRtEntity tree s e head) :=
  (dequeueRtStack_shuffled tree s _).trans
    (shuffled_foldl (fun s e => enqueueOne_shuffled tree s head e) _ _)

theorem putBack_shuffled (e : Entity Group) : Shuffled s (putBack tree s e) := by
  cases e with
  | task p => exact .refl s
  | group g =>
      rw [putBack]
      split_ifs
      · exact enqueueOne_shuffled tree s false _
      · exact .refl s

theorem dequeueRtEntity_shuffled (e : Entity Group) :
    Shuffled s (dequeueRtEntity tree s e) :=
  (dequeueRtStack_shuffled tree s _).trans
    (shuffled_foldl (fun s e => putBack_shuffled tree s e) _ _)

theorem requeueRtEntity_shuffled (head : Bool) (e : Entity Group) :
    Shuffled s (requeueRtEntity tree head s e) := by
  rw [requeueRtEntity]
  split_ifs
  · refine ⟨⟨rfl, rfl, rfl⟩, fun g => ?_⟩
    by_cases here : g = rtRqOfSe tree s e
    · subst here
      simp
    · simp [Function.update_of_ne here]
  · exact .refl s

theorem requeueTaskRt_shuffled (p : Pid) (head : Bool) :
    Shuffled s (requeueTaskRt tree s p head) :=
  shuffled_foldl (fun s e => requeueRtEntity_shuffled tree s head e) _ _

theorem schedRtRqEnqueue_shuffled (g : Group) : Shuffled s (schedRtRqEnqueue tree s g) := by
  rw [schedRtRqEnqueue]
  split_ifs
  · exact enqueueRtEntity_shuffled tree s _ false
  · exact .refl s

theorem schedRtRqDequeue_shuffled (g : Group) : Shuffled s (schedRtRqDequeue tree s g) := by
  rw [schedRtRqDequeue]
  split_ifs
  · exact dequeueRtEntity_shuffled tree s _
  · exact .refl s

variable {s}

theorem dequeueRtStack_rq (groups : List Group) {g : Group}
    (others : ∀ h ∈ groups, tree.parent h ≠ g) :
    (dequeueRtStack tree s (groups.map .group)).rq g = s.rq g := by
  induction groups with
  | nil => rfl
  | cons h rest ih =>
      obtain ⟨other, fewer⟩ := List.forall_mem_cons.mp others
      have kept := ih fewer
      simp only [dequeueRtStack, List.map_cons, List.foldr_cons] at kept ⊢
      split_ifs
      · rw [(dequeueOne_touches tree _ (.group h)).rq g other.symm]
        exact kept
      · exact kept

theorem enqueueRtEntities_rq (groups : List Group) (head : Bool) {g : Group}
    (others : ∀ h ∈ groups, tree.parent h ≠ g) :
    ((groups.map Entity.group).foldl (fun s e => enqueueOne tree s head e) s).rq g = s.rq g := by
  induction groups generalizing s with
  | nil => rfl
  | cons h rest ih =>
      obtain ⟨other, fewer⟩ := List.forall_mem_cons.mp others
      rw [List.map_cons, List.foldl_cons, ih fewer]
      cases taken : refused s (.group h) with
      | true => rw [enqueueOne, if_pos taken]
      | false => exact (enqueueOne_touches tree head taken).rq g other.symm

/-- The runqueue of a group is not on the path of its own entity. -/
theorem schedRtRqEnqueue_rq_self (s : State Group) (g : Group) :
    (schedRtRqEnqueue tree s g).rq g = s.rq g := by
  have others (h : Group) (member : h ∈ tree.above g) : tree.parent h ≠ g := by
    rintro rfl
    have shorter := tree.length_le_of_mem member
    rw [tree.above_cons h (tree.above_ne_root _ h member), List.length_cons] at shorter
    exact Nat.not_succ_le_self _ shorter
  rw [schedRtRqEnqueue]
  split_ifs
  · exact (enqueueRtEntities_rq tree _ false others).trans (dequeueRtStack_rq tree _ others)
  · rfl

variable (s)

theorem setThrottled_sameTasks (g : Group) (throttled : Bool) :
    SameTasks s (setThrottled s g throttled) := ⟨rfl, rfl, rfl⟩

theorem throttle_sameTasks (g : Group) : SameTasks s (throttle tree s g) := by
  simp only [throttle]
  split_ifs
  · exact .refl s
  · exact (setThrottled_sameTasks s g true).trans (schedRtRqDequeue_shuffled tree _ g).toSameTasks
  · exact setThrottled_sameTasks s g true

theorem throttle_throttled (g : Group) {h : Group} (was : (s.rq h).rtThrottled = true) :
    ((throttle tree s g).rq h).rtThrottled = true := by
  have set : ((setThrottled s g true).rq h).rtThrottled = true := by
    by_cases here : h = g
    · subst here
      simp [setThrottled]
    · simpa [setThrottled, Function.update_of_ne here] using was
  simp only [throttle]
  split_ifs
  · exact was
  · rwa [(schedRtRqDequeue_shuffled tree _ g).throttled h]
  · exact set

/-- Bookkeeping: the invariant stays, and no task is moved on or off. -/
structure Still (next : State Group) : Prop where
  tasks : SameTasks s next
  task : ∀ p, next.onRtRq (.task p) = s.onRtRq (.task p)
  sound : Sound tree False s → Sound tree False next

variable {tree s}

theorem Still.refl (tree : Hierarchy Group) (s : State Group) : Still tree s s :=
  ⟨.refl s, fun _ => rfl, id⟩

theorem Still.trans (one : Still tree s next) (two : Still tree next last) : Still tree s last :=
  ⟨one.tasks.trans two.tasks, fun p => (two.task p).trans (one.task p),
    fun sound => two.sound (one.sound sound)⟩

theorem throttle_still (tree : Hierarchy Group) (s : State Group) (g : Group) :
    Still tree s (throttle tree s g) := by
  refine ⟨throttle_sameTasks tree s g, fun p => ?_, fun sound => sound.throttle g⟩
  simp only [throttle]
  split_ifs
  · rfl
  · exact schedRtRqDequeue_task _ g p
  · rfl

theorem requeueTaskRt_still (tree : Hierarchy Group) (s : State Group) (p : Pid) (head : Bool) :
    Still tree s (requeueTaskRt tree s p head) :=
  ⟨(requeueTaskRt_shuffled tree s p head).toSameTasks, fun q => requeueTaskRt_task s p q head,
    fun sound => sound.requeueTaskRt p head⟩

theorem schedRtRqEnqueue_still (tree : Hierarchy Group) {s : State Group} {g : Group}
    (loose : rtRqThrottled s g = false) : Still tree s (schedRtRqEnqueue tree s g) :=
  ⟨(schedRtRqEnqueue_shuffled tree s g).toSameTasks, schedRtRqEnqueue_task s g, fun sound =>
    sound.toShape.schedRtRqEnqueue (fun h notRoot _ => sound.linked h notRoot) loose⟩

theorem letLoose_still (tree : Hierarchy Group) (s : State Group) (g : Group) :
    Still tree s (schedRtRqEnqueue tree (setThrottled s g false) g) := by
  refine ⟨(setThrottled_sameTasks s g false).trans (schedRtRqEnqueue_shuffled tree _ g).toSameTasks,
    schedRtRqEnqueue_task _ g, fun sound => ?_⟩
  apply (sound.toShape.setThrottled g false).schedRtRqEnqueue (sound.setThrottled_linked g false)
  simp [rtRqThrottled, setThrottled]

/-- The root has no entity that would have to follow its flag. -/
theorem setThrottled_root_still (tree : Hierarchy Group) (s : State Group) (throttled : Bool) :
    Still tree s (setThrottled s tree.root throttled) := by
  refine ⟨setThrottled_sameTasks s tree.root throttled, fun p => rfl, fun sound => ?_⟩
  exact ⟨sound.toShape.setThrottled tree.root throttled, fun g notRoot =>
    sound.setThrottled_linked tree.root throttled g notRoot notRoot⟩

end Frames

end RtGroups

section Columns
variable {env : Env} {s next last : Sched}

theorem modifyRt_rtState {c : Cpu} {f : RtGroups.State Group → RtGroups.State Group}
    (same : RtGroups.SameTasks (s.rtState c) (f (s.rtState c))) :
    (s.modifyRt c f).rtState c = f (s.rtState c) := by
  have rt : (s.modifyRt c f).rt c = .ofState (f (s.rtState c)) := Function.update_self _ _ _
  rw [Sched.rtState, rt]
  generalize f (s.rtState c) = state at same
  obtain ⟨prio, normalPrio, group⟩ := same
  cases state
  subst prio normalPrio group
  rfl

theorem modifyRt_rtState_other {c d : Cpu} (other : d ≠ c)
    (f : RtGroups.State Group → RtGroups.State Group) :
    (s.modifyRt c f).rtState d = s.rtState d := by
  simp [Sched.rtState, Sched.modifyRt, Function.update_of_ne other]

theorem rtState_of_eq (task : next.task = s.task) (rt : next.rt = s.rt) (c : Cpu) :
    next.rtState c = s.rtState c := by
  rw [Sched.rtState, Sched.rtState, task, rt]

def RtQuiet (env : Env) (s next : Sched) : Prop :=
  ∀ c, RtGroups.Still env.groups (s.rtState c) (next.rtState c)

theorem RtQuiet.of_state (same : ∀ c, next.rtState c = s.rtState c) : RtQuiet env s next := by
  intro c
  rw [same c]
  exact .refl env.groups _

theorem RtQuiet.refl (env : Env) (s : Sched) : RtQuiet env s s := .of_state fun _ => rfl

theorem RtQuiet.trans (one : RtQuiet env s next) (two : RtQuiet env next last) :
    RtQuiet env s last :=
  fun c => (one c).trans (two c)

theorem RtQuiet.of_eq (task : next.task = s.task) (rt : next.rt = s.rt) : RtQuiet env s next :=
  .of_state (rtState_of_eq task rt)

theorem RtQuiet.modifyRt {c : Cpu} (f : RtGroups.State Group → RtGroups.State Group)
    (still : RtGroups.Still env.groups (s.rtState c) (f (s.rtState c))) :
    RtQuiet env s (s.modifyRt c f) := by
  intro d
  by_cases here : d = c
  · subst here
    rw [modifyRt_rtState still.tasks]
    exact still
  · rw [modifyRt_rtState_other here]
    exact .refl env.groups _

end Columns

section Hooks
variable (env : Env) (s : Sched) (c : Cpu)

theorem schedRtRuntimeExceeded_rtQuiet (g : Group) :
    RtQuiet env s (schedRtRuntimeExceeded env s c g).1 := by
  simp only [schedRtRuntimeExceeded]
  split_ifs
  · exact .refl env s
  · exact .refl env s
  · exact .refl env s
  · exact .modifyRt (fun rt => RtGroups.throttle env.groups rt g)
      (RtGroups.throttle_still env.groups _ g)
  · exact .of_eq rfl rfl
  · exact .refl env s

theorem rtCharge_rtQuiet (delta : Nat) (g : Group) :
    RtQuiet env s (rtCharge env c delta s g) := by
  simp only [rtCharge]
  split_ifs
  · exact .refl env s
  all_goals
    have booked : RtQuiet env s (s.modifyRtTime c g fun time =>
        { time with rtTime := time.rtTime + delta }) := .of_eq rfl rfl
    have tested := booked.trans (schedRtRuntimeExceeded_rtQuiet env _ c g)
  · exact tested.trans (.of_eq rfl rfl)
  · exact tested

theorem updateCurrRt_rtQuiet : RtQuiet env s (updateCurrRt env s c) := by
  simp only [updateCurrRt]
  split_ifs
  · refine rtCharge_fold (motive := RtQuiet env s) env _ c _ _ (fun middle g quiet => ?_)
      (.of_eq rfl rfl)
    exact quiet.trans (rtCharge_rtQuiet env middle c _ g)
  · exact .of_eq rfl rfl
  · exact .refl env s

theorem schedRtRqEnqueue_rtState (g : Group) :
    (schedRtRqEnqueue env s c g).rtState c =
        RtGroups.schedRtRqEnqueue env.groups (s.rtState c) g ∧
      ∀ d, d ≠ c → (schedRtRqEnqueue env s c g).rtState d = s.rtState d := by
  have queued : (s.modifyRt c fun rt => RtGroups.schedRtRqEnqueue env.groups rt g).rtState c =
      RtGroups.schedRtRqEnqueue env.groups (s.rtState c) g :=
    modifyRt_rtState (RtGroups.schedRtRqEnqueue_shuffled env.groups _ g).toSameTasks
  simp only [schedRtRqEnqueue]
  split_ifs with some_run better
  · exact ⟨queued, fun d other => modifyRt_rtState_other other _⟩
  · exact ⟨queued, fun d other => modifyRt_rtState_other other _⟩
  · have stays : RtGroups.schedRtRqEnqueue env.groups (s.rtState c) g = s.rtState c :=
      if_neg fun queues => some_run queues.1
    exact ⟨stays.symm, fun d _ => rfl⟩

theorem schedRtRqEnqueue_rtQuiet (g : Group) (loose : rtRqThrottled s c g = false) :
    RtQuiet env s (schedRtRqEnqueue env s c g) := by
  intro d
  obtain ⟨here, elsewhere⟩ := schedRtRqEnqueue_rtState env s c g
  by_cases same : d = c
  · rw [same, here]
    exact RtGroups.schedRtRqEnqueue_still env.groups loose
  · rw [elsewhere d same]
    exact .refl env.groups _

theorem letLoose_rtQuiet (g : Group) : RtQuiet env s
    (schedRtRqEnqueue env (s.modifyRt c fun rt => RtGroups.setThrottled rt g false) c g) := by
  intro d
  obtain ⟨here, elsewhere⟩ := schedRtRqEnqueue_rtState env
    (s.modifyRt c fun rt => RtGroups.setThrottled rt g false) c g
  by_cases same : d = c
  · rw [same, here, modifyRt_rtState (RtGroups.setThrottled_sameTasks _ g false)]
    exact RtGroups.letLoose_still env.groups _ g
  · rw [elsewhere d same, modifyRt_rtState_other same]
    exact .refl env.groups _

theorem doSchedRtPeriodTimer_rtQuiet (g : Group) (overrun : Nat) :
    RtQuiet env s (doSchedRtPeriodTimer env s g c overrun) := by
  simp only [doSchedRtPeriodTimer]
  split_ifs with skipped used below waits
  · exact .refl env s
  · refine RtQuiet.trans ?_ (letLoose_rtQuiet env _ c g)
    exact .of_eq rfl rfl
  · exact .of_eq rfl rfl
  · exact schedRtRqEnqueue_rtQuiet env s c g (Bool.eq_false_iff.mpr waits.2)
  · exact .refl env s

end Hooks

/-- The runqueues are in order and hold the tasks that `on` says. -/
def RtOk (env : Env) (s : Sched) (on : Cpu → Pid → Prop) : Prop :=
  ∀ c, RtGroups.Sound env.groups False (s.rtState c) ∧
    ∀ p, (s.rt c).onRtRq (.task p) = true ↔ on c p

section RtOk
variable {env : Env} {s next : Sched} {on on' : Cpu → Pid → Prop}

theorem RtOk.congr (ok : RtOk env s on) (same : ∀ c p, on c p ↔ on' c p) : RtOk env s on' :=
  fun c => ⟨(ok c).1, fun p => ((ok c).2 p).trans (same c p)⟩

theorem RtOk.quiet (ok : RtOk env s on) (quiet : RtQuiet env s next) : RtOk env next on := by
  intro c
  refine ⟨(quiet c).sound (ok c).1, fun p => ?_⟩
  have still : (next.rt c).onRtRq (.task p) = (s.rt c).onRtRq (.task p) := (quiet c).task p
  rw [still]
  exact (ok c).2 p

theorem RtOk.of_eq (ok : RtOk env s on) (task : next.task = s.task) (rt : next.rt = s.rt) :
    RtOk env next on :=
  ok.quiet (.of_eq task rt)

/-- Tasks may change while they are on no real-time runqueue. -/
theorem RtOk.edit (ok : RtOk env s on) (rt : next.rt = s.rt)
    (same : ∀ c p, on c p → (next.task p).prio = (s.task p).prio ∧
      (next.task p).normalPrio = (s.task p).normalPrio ∧
      (next.task p).rt.rtRq = (s.task p).rt.rtRq) : RtOk env next on := by
  intro c
  have retasked := (ok c).1.retask (next.rtState c).prio (next.rtState c).normalPrio
    (next.rtState c).group fun p queued => by
      obtain ⟨prio, normal, group⟩ := same c p (((ok c).2 p).mp queued)
      simp only [Sched.rtState_prio, Sched.rtState_normalPrio, Sched.rtState_group, prio, normal,
        group, and_self]
  refine ⟨?_, fun p => ?_⟩
  · convert retasked using 1
    rw [Sched.rtState, rt]
    rfl
  · rw [rt]
    exact (ok c).2 p

theorem RtOk.modifyTask (ok : RtOk env s on) {p : Pid} (off : ∀ c, ¬ on c p)
    (f : TaskStruct → TaskStruct) : RtOk env (s.modifyTask p f) on := by
  refine ok.edit rfl fun c q queued => ?_
  have other : q ≠ p := by
    rintro rfl
    exact off c queued
  rw [Sched.modifyTask_task, Function.update_of_ne other]
  exact ⟨rfl, rfl, rfl⟩

theorem RtOk.modifyRt (ok : RtOk env s on) (on' : Cpu → Pid → Prop) (c : Cpu)
    (f : RtGroups.State Group → RtGroups.State Group)
    (tasks : RtGroups.SameTasks (s.rtState c) (f (s.rtState c)))
    (sound : RtGroups.Sound env.groups False (f (s.rtState c)))
    (held : ∀ p, (f (s.rtState c)).onRtRq (.task p) = true ↔ on' c p)
    (others : ∀ d p, d ≠ c → (on d p ↔ on' d p)) : RtOk env (s.modifyRt c f) on' := by
  intro d
  by_cases here : d = c
  · subst here
    refine ⟨by rwa [modifyRt_rtState tasks], fun p => ?_⟩
    have rt : ((s.modifyRt d f).rt d).onRtRq = (f (s.rtState d)).onRtRq := by
      simp [RtQueues.ofState]
    rw [rt]
    exact held p
  · refine ⟨by
      rw [modifyRt_rtState_other here]
      exact (ok d).1, fun p => ?_⟩
    rw [Sched.modifyRt_rt, Function.update_of_ne here]
    exact ((ok d).2 p).trans (others d p here)

theorem RtOk.dequeueTaskRt (ok : RtOk env s on) (c : Cpu) (p : Pid) :
    RtOk env (dequeueTaskRt env s c p) fun d q => on d q ∧ ¬ (d = c ∧ q = p) := by
  have charged := ok.quiet (updateCurrRt_rtQuiet env s c)
  obtain ⟨sound, off, keeps⟩ := (charged c).1.dequeueTask p
  have dequeued := charged.modifyRt (fun d q => on d q ∧ ¬ (d = c ∧ q = p)) c
    (fun rt => RtGroups.dequeueRtEntity env.groups rt (.task p))
    (RtGroups.dequeueRtEntity_shuffled env.groups _ (.task p)).toSameTasks sound (fun q => ?_)
    (fun d q other => ⟨fun queued => ⟨queued, fun both => other both.1⟩, And.left⟩)
  · exact dequeued.of_eq rfl rfl
  by_cases same : q = p
  · subst same
    rw [off]
    exact iff_of_false Bool.false_ne_true fun both => both.2 ⟨rfl, rfl⟩
  · rw [keeps.task q (by simpa using same)]
    exact ((charged c).2 q).trans ⟨fun queued => ⟨queued, fun both => same both.2⟩, And.left⟩

theorem RtOk.enqueueTaskRt (ok : RtOk env s on) (c : Cpu) (p : Pid) (head : Bool) :
    RtOk env (enqueueTaskRt env s c p head) fun d q => on d q ∨ d = c ∧ q = p := by
  obtain ⟨sound, here, keeps⟩ := (ok c).1.enqueueTask (p := p) False.elim head
  have enqueued := ok.modifyRt (fun d q => on d q ∨ d = c ∧ q = p) c
    (fun rt => RtGroups.enqueueRtEntity env.groups rt (.task p) head)
    (RtGroups.enqueueRtEntity_shuffled env.groups _ (.task p) head).toSameTasks sound (fun q => ?_)
    (fun d q other => ⟨Or.inl, fun either => either.resolve_right fun both => other both.1⟩)
  · exact enqueued.of_eq rfl rfl
  by_cases same : q = p
  · subst same
    exact iff_of_true here (.inr ⟨rfl, rfl⟩)
  · rw [keeps.task q (by simpa using same)]
    exact ((ok c).2 q).trans ⟨Or.inl, fun either => either.resolve_right fun both => same both.2⟩

end RtOk

end AndroidKernel
