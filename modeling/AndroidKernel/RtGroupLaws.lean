import AndroidKernel.RtGroupPaths

/-!
What the grouped real-time class does in every run: its counters are right, a
task is never lost while its group is throttled and let go again, and the pick
goes to a task of the best priority among those that no throttled group holds
back.
-/

namespace AndroidKernel.RtGroups

universe u
variable {Group : Type u} [DecidableEq Group] {tree : Hierarchy Group} {strict : Prop}
  {s : State Group}

/-- A task that is queued and that no throttled group holds back. -/
def Eligible (tree : Hierarchy Group) (s : State Group) (p : Pid) : Prop :=
  s.onRtRq (.task p) = true ∧ rtRqThrottled s tree.root = false ∧
    ∀ g ∈ tree.above (s.group p), rtRqThrottled s g = false

instance (tree : Hierarchy Group) (s : State Group) (p : Pid) : Decidable (Eligible tree s p) :=
  inferInstanceAs (Decidable (_ ∧ _ ∧ ∀ g ∈ _, _))

theorem Shape.highest_le (shape : Shape tree strict s) {e : Entity Group} {g : Group}
    (on : s.onRtRq e = true) (owner : rtRqOfSe tree s e = g) :
    (s.rq g).rtNrRunning ≠ 0 ∧ (s.rq g).highestPrio ≤ rtSePrio s e := by
  have ok := shape.queue g
  have here := key_of_on tree on owner
  refine ⟨ok.nr_pos here, ?_⟩
  rw [ok.highest]
  exact ok.holds.findFirst_le_key maxRtPrio here

/-- The runqueues a task of `g` counts in: those of its path, and the root. -/
def OnPath (tree : Hierarchy Group) (g h : Group) : Prop := h = tree.root ∨ h ∈ tree.above g

omit [DecidableEq Group] in
theorem OnPath.refl (tree : Hierarchy Group) (g : Group) : OnPath tree g g := tree.root_or_mem g

omit [DecidableEq Group] in
theorem OnPath.cases {g h : Group} (notRoot : g ≠ tree.root) (path : OnPath tree g h) :
    h = g ∨ OnPath tree (tree.parent g) h := by
  rcases path with top | member
  · exact .inr (.inl top)
  · rw [tree.above_cons g notRoot] at member
    exact (List.mem_cons.mp member).imp_right .inr

omit [DecidableEq Group] in
theorem OnPath.up {g h : Group} (notRoot : g ≠ tree.root) (path : OnPath tree (tree.parent g) h) :
    OnPath tree g h := by
  rw [OnPath, tree.above_cons g notRoot]
  exact path.imp_right (List.mem_cons_of_mem g)

omit [DecidableEq Group] in
theorem OnPath.trans {g h k : Group} (one : OnPath tree g h) (two : OnPath tree h k) :
    OnPath tree g k := by
  induction g using tree.induction with
  | root =>
      rw [OnPath, tree.above_root] at one
      obtain rfl := one.resolve_right List.not_mem_nil
      exact two
  | step g notRoot ih =>
      rcases one.cases notRoot with rfl | further
      · exact two
      · exact (ih further).up notRoot

theorem Sound.highest_path_le (sound : Sound tree strict s) {prio : Nat} (g : Group)
    (some_run : (s.rq g).rtNrRunning ≠ 0) (best : (s.rq g).highestPrio ≤ prio)
    (free : ∀ h ∈ tree.above g, rtRqThrottled s h = false) {h : Group} (path : OnPath tree g h) :
    (s.rq h).rtNrRunning ≠ 0 ∧ (s.rq h).highestPrio ≤ prio := by
  induction g using tree.induction with
  | root =>
      rw [OnPath, tree.above_root] at path
      obtain rfl := path.resolve_right List.not_mem_nil
      exact ⟨some_run, best⟩
  | step g notRoot ih =>
      rw [tree.above_cons g notRoot] at free
      have on := (sound.linked g notRoot).mpr ⟨some_run, free g List.mem_cons_self⟩
      obtain ⟨running, better⟩ := sound.toShape.highest_le on rfl
      rcases path.cases notRoot with rfl | further
      · exact ⟨some_run, best⟩
      · exact ih running (better.trans best)
          (fun h member => free h (List.mem_cons_of_mem g member)) further

theorem Sound.eligible_path_le (sound : Sound tree strict s) {p : Pid}
    (eligible : Eligible tree s p) {h : Group} (path : OnPath tree (s.group p) h) :
    (s.rq h).rtNrRunning ≠ 0 ∧ (s.rq h).highestPrio ≤ s.prio p := by
  obtain ⟨on, -, free⟩ := eligible
  obtain ⟨running, best⟩ := sound.toShape.highest_le on rfl
  exact sound.highest_path_le (s.group p) running best free path

theorem Shape.not_root (shape : Shape tree strict s) {g : Group}
    (on : s.onRtRq (.group g) = true) : g ≠ tree.root := by
  rintro rfl
  exact Bool.false_ne_true (shape.root_off.symm.trans on)

theorem Shape.path_cons (shape : Shape tree strict s) {g h : Group}
    (on : s.onRtRq (.group h) = true) (owner : tree.parent h = g) :
    tree.above h = h :: tree.above g := by
  rw [tree.above_cons h (shape.not_root on), owner]

theorem Shape.entity_of_running (shape : Shape tree strict s) {g : Group}
    (some_run : (s.rq g).rtNrRunning ≠ 0) :
    ∃ e, s.onRtRq e = true ∧ rtRqOfSe tree s e = g := by
  obtain ⟨members, lists, running, -⟩ := (shape.queue g).counted
  rw [running] at some_run
  obtain ⟨e, member⟩ := List.exists_mem_of_length_pos (Nat.pos_of_ne_zero some_run)
  have here := (lists.mem_iff e).mp member
  by_contra none
  exact here (if_neg fun queued => none ⟨e, queued⟩)

theorem Sound.task_below (sound : Sound tree strict s) {g : Group}
    (some_run : (s.rq g).rtNrRunning ≠ 0)
    (free : ∀ h ∈ tree.above g, rtRqThrottled s h = false) :
    ∃ p, s.onRtRq (.task p) = true ∧
      ∀ h ∈ tree.above (s.group p), rtRqThrottled s h = false := by
  obtain ⟨e, on, owner⟩ := sound.toShape.entity_of_running some_run
  cases e with
  | task p =>
      refine ⟨p, on, ?_⟩
      rwa [show s.group p = g from owner]
  | group h =>
      have path := sound.toShape.path_cons on owner
      have deeper : (tree.above g).length + 1 ≤ tree.height := by
        simpa [path] using tree.bounded h
      obtain ⟨running, loose⟩ := (sound.linked h (sound.toShape.not_root on)).mp on
      exact sound.task_below running (path ▸ List.forall_mem_cons.mpr ⟨loose, free⟩)
termination_by tree.height - (tree.above g).length
decreasing_by
  rw [path, List.length_cons]
  omega

theorem Sound.task_of_running (sound : Sound tree strict s)
    (some_run : (s.rq tree.root).rtNrRunning ≠ 0) :
    ∃ p, s.onRtRq (.task p) = true ∧
      ∀ h ∈ tree.above (s.group p), rtRqThrottled s h = false := by
  apply sound.task_below some_run
  rw [tree.above_root]
  exact fun h member => absurd member List.not_mem_nil

theorem Shape.entity_of_boosted (shape : Shape tree strict s) {g : Group} :
    (s.rq g).rtNrBoosted ≠ 0 ↔
      ∃ e, s.onRtRq e = true ∧ rtRqOfSe tree s e = g ∧ rtSeBoosted s e = true := by
  obtain ⟨members, lists, -, boosted⟩ := (shape.queue g).counted
  have queued (e : Entity Group) : e ∈ members ↔ s.onRtRq e = true ∧ rtRqOfSe tree s e = g := by
    rw [lists.mem_iff, key]
    split_ifs with here <;> simp [here]
  rw [boosted, ne_eq, List.countP_eq_zero]
  push Not
  constructor
  · rintro ⟨e, member, boosts⟩
    obtain ⟨on, owner⟩ := (queued e).mp member
    exact ⟨e, on, owner, boosts⟩
  · rintro ⟨e, on, owner, boosts⟩
    exact ⟨e, (queued e).mpr ⟨on, owner⟩, boosts⟩

/-- A queue counts boosted entities because of a boosted task below it. -/
theorem Sound.boosted_below (sound : Sound tree strict s) {g : Group}
    (boosted : (s.rq g).rtNrBoosted ≠ 0) :
    ∃ p, s.onRtRq (.task p) = true ∧ s.prio p ≠ s.normalPrio p ∧ OnPath tree (s.group p) g := by
  obtain ⟨e, on, owner, boosts⟩ := sound.toShape.entity_of_boosted.mp boosted
  cases e with
  | task p =>
      obtain rfl : s.group p = g := owner
      exact ⟨p, on, of_decide_eq_true boosts, .refl tree _⟩
  | group h =>
      have path := sound.toShape.path_cons on owner
      have deeper : (tree.above g).length + 1 ≤ tree.height := by
        simpa [path] using tree.bounded h
      obtain ⟨p, here, boostsP, below⟩ := sound.boosted_below (of_decide_eq_true boosts)
      obtain rfl : tree.parent h = g := owner
      exact ⟨p, here, boostsP, below.trans ((OnPath.refl tree _).up (sound.toShape.not_root on))⟩
termination_by tree.height - (tree.above g).length
decreasing_by
  rw [path, List.length_cons]
  omega

/-- A boosted task keeps every group of its path on its queue. -/
theorem Sound.boosted_path (sound : Sound tree strict s) (g : Group)
    (boosted : (s.rq g).rtNrBoosted ≠ 0) {h : Group} (path : OnPath tree g h) :
    (s.rq h).rtNrBoosted ≠ 0 := by
  induction g using tree.induction with
  | root =>
      rw [OnPath, tree.above_root] at path
      obtain rfl := path.resolve_right List.not_mem_nil
      exact boosted
  | step g notRoot ih =>
      rcases path.cases notRoot with rfl | further
      · exact boosted
      · refine ih ?_ further
        obtain ⟨e, on, owner, -⟩ := sound.toShape.entity_of_boosted.mp boosted
        have running := (sound.toShape.highest_le on owner).1
        have queued := (sound.linked g notRoot).mpr ⟨running, by simp [rtRqThrottled, boosted]⟩
        exact sound.toShape.entity_of_boosted.mpr ⟨.group g, queued, rfl, decide_eq_true boosted⟩

theorem Sound.boosted_iff (sound : Sound tree strict s) (g : Group) :
    (s.rq g).rtNrBoosted ≠ 0 ↔
      ∃ p, s.onRtRq (.task p) = true ∧ s.prio p ≠ s.normalPrio p ∧ OnPath tree (s.group p) g := by
  constructor
  · exact sound.boosted_below
  · rintro ⟨p, on, boosts, path⟩
    refine sound.boosted_path (s.group p) ?_ path
    exact sound.toShape.entity_of_boosted.mpr ⟨.task p, on, rfl, decide_eq_true boosts⟩

/-- A queued task may run when each throttled runqueue it counts in is one that
a boosted task counts in too. -/
theorem Sound.eligible_iff (sound : Sound tree strict s) (p : Pid) :
    Eligible tree s p ↔ s.onRtRq (.task p) = true ∧
      ∀ h, OnPath tree (s.group p) h → (s.rq h).rtThrottled = true →
        ∃ q, s.onRtRq (.task q) = true ∧ s.prio q ≠ s.normalPrio q ∧
          OnPath tree (s.group q) h := by
  have loose (h : Group) : rtRqThrottled s h = false ↔
      ((s.rq h).rtThrottled = true → (s.rq h).rtNrBoosted ≠ 0) := by
    cases throttled : (s.rq h).rtThrottled <;> simp [rtRqThrottled, throttled]
  simp only [Eligible, loose, sound.boosted_iff]
  refine and_congr_right fun _ => ⟨?_, fun all => ⟨all _ (.inl rfl), fun h => all h ∘ .inr⟩⟩
  rintro ⟨top, path⟩ h (rfl | member)
  · exact top
  · exact path h member

theorem Shape.pick_entity (shape : Shape tree strict s) {g : Group} {e : Entity Group}
    (picked : pickNextRtEntity (s.rq g) = some e) :
    s.onRtRq e = true ∧ rtRqOfSe tree s e = g ∧ rtSePrio s e = (s.rq g).highestPrio := by
  have ok := shape.queue g
  rw [pickNextRtEntity] at picked
  split_ifs at picked with below
  obtain ⟨e', rest, queue, here⟩ := ok.holds.first below
  rw [queue, List.head?_cons] at picked
  obtain rfl := Option.some.inj picked
  by_cases queued : s.onRtRq e' = true ∧ rtRqOfSe tree s e' = g
  · rw [key, if_pos queued] at here
    exact ⟨queued.1, queued.2, (Option.some.inj here).trans ok.highest.symm⟩
  · rw [key, if_neg queued] at here
    exact absurd here (Option.some_ne_none _).symm

theorem Shape.pick_found (shape : Shape tree strict s) {g : Group}
    (below : (s.rq g).highestPrio < maxRtPrio) : ∃ e, pickNextRtEntity (s.rq g) = some e := by
  have ok := shape.queue g
  rw [ok.highest] at below
  obtain ⟨e, rest, queue, -⟩ := ok.holds.first below
  exact ⟨e, by rw [pickNextRtEntity, if_pos below, queue, List.head?_cons]⟩

/-- A task at which the loop ends has the priority with which it starts, and is
in a group whose path is queued. -/
theorem Shape.pickLoop_task (shape : Shape tree strict s) {fuel : Nat} {g : Group} {p : Pid}
    (found : pickLoop s fuel g = some p)
    (queued : ∀ h ∈ tree.above g, s.onRtRq (.group h) = true) :
    s.onRtRq (.task p) = true ∧ s.prio p = (s.rq g).highestPrio ∧
      ∀ h ∈ tree.above (s.group p), s.onRtRq (.group h) = true := by
  induction fuel generalizing g with
  | zero => exact absurd found.symm (Option.some_ne_none p)
  | succ fuel ih =>
      rw [pickLoop] at found
      cases picked : pickNextRtEntity (s.rq g) with
      | none =>
          rw [picked] at found
          exact absurd found.symm (Option.some_ne_none p)
      | some e =>
          rw [picked] at found
          obtain ⟨on, owner, prio⟩ := shape.pick_entity picked
          cases e with
          | task q =>
              obtain rfl := Option.some.inj found
              change s.group q = g at owner
              refine ⟨on, prio, ?_⟩
              rw [owner]
              exact queued
          | group h =>
              obtain ⟨there, same, all⟩ := ih found (by
                rw [shape.path_cons on owner]
                exact List.forall_mem_cons.mpr ⟨on, queued⟩)
              exact ⟨there, same.trans prio, all⟩

theorem Shape.pickLoop_found (shape : Shape tree strict s) (fuel : Nat) {g : Group}
    (enough : tree.height + 1 ≤ fuel + (tree.above g).length)
    (below : (s.rq g).highestPrio < maxRtPrio) : ∃ p, pickLoop s fuel g = some p := by
  induction fuel generalizing g with
  | zero =>
      have bounded := tree.bounded g
      omega
  | succ fuel ih =>
      obtain ⟨e, picked⟩ := shape.pick_found below
      obtain ⟨on, owner, prio⟩ := shape.pick_entity picked
      rw [pickLoop, picked]
      cases e with
      | task p => exact ⟨p, rfl⟩
      | group h =>
          apply ih
          · rw [shape.path_cons on owner, List.length_cons]
            omega
          · exact prio.trans_lt below

theorem Sound.pick_walked (sound : Sound tree strict s) {p : Pid}
    (found : pickNextTaskRt tree s = some (some p)) :
    rtRqThrottled s tree.root = false ∧ s.onRtRq (.task p) = true ∧
      s.prio p = (s.rq tree.root).highestPrio ∧
      ∀ g ∈ tree.above (s.group p), s.onRtRq (.group g) = true := by
  rw [pickNextTaskRt] at found
  split_ifs at found with empty throttled
  · exact absurd (Option.some.inj found).symm (Option.some_ne_none p)
  · exact absurd (Option.some.inj found).symm (Option.some_ne_none p)
  obtain ⟨p', loop, same⟩ := Option.map_eq_some_iff.mp found
  obtain rfl := Option.some.inj same
  refine ⟨Bool.eq_false_iff.mpr throttled, sound.toShape.pickLoop_task loop ?_⟩
  rw [tree.above_root]
  exact fun h member => absurd member List.not_mem_nil

theorem Sound.pick_eligible (sound : Sound tree strict s) {p : Pid}
    (found : pickNextTaskRt tree s = some (some p)) :
    Eligible tree s p ∧ ∀ q, Eligible tree s q → s.prio p ≤ s.prio q := by
  obtain ⟨free, on, prio, all⟩ := sound.pick_walked found
  refine ⟨⟨on, free, fun g member => ?_⟩, fun q eligible => ?_⟩
  · exact ((sound.linked g (tree.above_ne_root _ g member)).mp (all g member)).2
  · rw [prio]
    exact (sound.eligible_path_le eligible (.inl rfl)).2

/-- A task that nothing holds back is offered, or one that is no worse. -/
theorem Sound.pick_offers (sound : Sound tree strict s) {q : Pid} (eligible : Eligible tree s q)
    (valid : s.prio q < maxRtPrio) :
    ∃ p, pickNextTaskRt tree s = some (some p) ∧ s.prio p ≤ s.prio q := by
  obtain ⟨running, best⟩ := sound.eligible_path_le eligible (.inl rfl)
  obtain ⟨p, loop⟩ := sound.toShape.pickLoop_found (tree.height + 1) (g := tree.root)
    (Nat.le_add_right _ _) (best.trans_lt valid)
  have found : pickNextTaskRt tree s = some (some p) := by
    rw [pickNextTaskRt, if_neg running, if_neg (Bool.eq_false_iff.mp eligible.2.1), loop]
    rfl
  exact ⟨p, found, (sound.pick_eligible found).2 q eligible⟩

theorem Sound.pick (sound : Sound tree True s) :
    ∃ answer, pickNextTaskRt tree s = some answer ∧
      (∀ p, answer = some p → Eligible tree s p ∧ ∀ q, Eligible tree s q → s.prio p ≤ s.prio q) ∧
      (answer = none → ∀ q, ¬ Eligible tree s q) := by
  have idles (found : pickNextTaskRt tree s = some none)
      (nobody : ∀ q, ¬ Eligible tree s q) :
      ∃ answer, pickNextTaskRt tree s = some answer ∧
        (∀ p, answer = some p →
          Eligible tree s p ∧ ∀ q, Eligible tree s q → s.prio p ≤ s.prio q) ∧
        (answer = none → ∀ q, ¬ Eligible tree s q) :=
    ⟨none, found, fun p same => absurd same.symm (Option.some_ne_none p), fun _ => nobody⟩
  by_cases empty : (s.rq tree.root).rtNrRunning = 0
  · refine idles (if_pos empty) fun q eligible => ?_
    exact (sound.eligible_path_le eligible (.inl rfl)).1 empty
  by_cases throttled : rtRqThrottled s tree.root = true
  · refine idles ?_ fun q eligible => ?_
    · rw [pickNextTaskRt, if_neg empty, if_pos throttled]
    · exact Bool.false_ne_true (eligible.2.1.symm.trans throttled)
  obtain ⟨p, loop⟩ := sound.toShape.pickLoop_found (tree.height + 1) (g := tree.root)
    (Nat.le_add_right _ _) ((sound.queue _).highest_lt trivial empty)
  have found : pickNextTaskRt tree s = some (some p) := by
    rw [pickNextTaskRt, if_neg empty, if_neg throttled, loop]
    rfl
  refine ⟨some p, found, fun q same => ?_, fun none => absurd none (Option.some_ne_none p)⟩
  obtain rfl := Option.some.inj same
  exact sound.pick_eligible found

def queuedBy (p : Pid) (queued : Bool) : Op Group → Bool
  | .enqueueTask q _ => if q = p then true else queued
  | .dequeueTask q => if q = p then false else queued
  | _ => queued

theorem enqueueOne_task (s : State Group) (head : Bool) (g : Group) (p : Pid) :
    (enqueueOne tree s head (.group g)).onRtRq (.task p) = s.onRtRq (.task p) := by
  cases taken : refused s (.group g) with
  | true => rw [enqueueOne, if_pos taken]
  | false => exact (enqueueOne_touches tree head taken).on_other (Entity.task_ne_group p g)

theorem stack_task (s : State Group) (groups : List Group) (p : Pid) :
    (dequeueRtStack tree s (groups.map .group)).onRtRq (.task p) = s.onRtRq (.task p) := by
  induction groups with
  | nil => rfl
  | cons g rest ih =>
      rw [← ih]
      simp only [dequeueRtStack, List.map_cons, List.foldr_cons]
      split_ifs
      · exact (dequeueOne_touches tree _ _).on_other (Entity.task_ne_group p g)
      · rfl

omit [DecidableEq Group] in
theorem pass_task {put : State Group → Entity Group → State Group} {p : Pid}
    (puts : ∀ s g, (put s (.group g)).onRtRq (.task p) = s.onRtRq (.task p))
    (s : State Group) (groups : List Group) :
    ((groups.map .group).foldl put s).onRtRq (.task p) = s.onRtRq (.task p) := by
  induction groups generalizing s with
  | nil => rfl
  | cons g rest ih =>
      rw [List.map_cons, List.foldl_cons, ih]
      exact puts s g

theorem schedRtRqEnqueue_task (s : State Group) (g : Group) (p : Pid) :
    (schedRtRqEnqueue tree s g).onRtRq (.task p) = s.onRtRq (.task p) := by
  rw [schedRtRqEnqueue]
  split_ifs
  · exact (pass_task (fun s g => enqueueOne_task s false g p) _ (tree.above g)).trans
      (stack_task s (tree.above g) p)
  · rfl

theorem schedRtRqDequeue_task (s : State Group) (g : Group) (p : Pid) :
    (schedRtRqDequeue tree s g).onRtRq (.task p) = s.onRtRq (.task p) := by
  rw [schedRtRqDequeue]
  split_ifs
  · have puts (s : State Group) (h : Group) :
        (putBack tree s (.group h)).onRtRq (.task p) = s.onRtRq (.task p) := by
      rw [putBack_group]
      exact enqueueOne_task s false h p
    exact (pass_task puts _ (tree.above g)).trans (stack_task s (tree.above g) p)
  · rfl

theorem requeueTaskRt_task (s : State Group) (p q : Pid) (head : Bool) :
    (requeueTaskRt tree s p head).onRtRq (.task q) = s.onRtRq (.task q) := by
  rw [requeueTaskRt]
  generalize forEachSchedRtEntity tree s (.task p) = entities
  induction entities generalizing s with
  | nil => rfl
  | cons e rest ih =>
      rw [List.foldl_cons, ih, requeueRtEntity]
      split_ifs <;> rfl

/-- One step moves a task on or off its queue only by the call that says so. -/
theorem Sound.step_task (sound : Sound tree strict s) {op : Op Group} (orderly : Orderly tree s op)
    (p : Pid) :
    (apply tree s op).onRtRq (.task p) = queuedBy p (s.onRtRq (.task p)) op := by
  cases op with
  | enqueueTask q head =>
      obtain ⟨-, on, keeps⟩ := sound.enqueueTask (fun _ => orderly.1) head
      by_cases same : q = p
      · subst same
        exact on.trans (if_pos rfl).symm
      · exact (keeps.task p (by simpa using Ne.symm same)).trans (if_neg same).symm
  | dequeueTask q =>
      obtain ⟨-, off, keeps⟩ := sound.dequeueTask q
      by_cases same : q = p
      · subst same
        exact off.trans (if_pos rfl).symm
      · exact (keeps.task p (by simpa using Ne.symm same)).trans (if_neg same).symm
  | requeueTask q head => exact requeueTaskRt_task s q p head
  | throttle g =>
      simp only [apply, RtGroups.throttle, queuedBy]
      split_ifs
      · rfl
      · exact schedRtRqDequeue_task _ g p
      · rfl
  | unthrottle g =>
      simp only [apply, RtGroups.unthrottle, queuedBy]
      split_ifs
      · exact schedRtRqEnqueue_task _ g p
      · rfl
  | timerUnused g =>
      simp only [apply, RtGroups.timerUnused, queuedBy]
      split_ifs
      · exact schedRtRqEnqueue_task s g p
      · rfl
  | enableRuntime => rfl
  | setTask q prio normalPrio group => rfl

section Runs
variable {start : State Group} {ops : List (Op Group)}

/-- In every run no warning fires, a group is queued exactly when it has
something to run and is not throttled, and the counters, the best priority and
the list of leaves are those of what is queued. -/
theorem rt_group_queues (init : Init start)
    (run : Transition.Run (step tree) (Orderly tree) start ops s) :
    s.warned = false ∧
      (∀ g, g ≠ tree.root → (s.onRtRq (.group g) = true ↔
        (s.rq g).rtNrRunning ≠ 0 ∧ rtRqThrottled s g = false)) ∧
      (s.leafRtRqList.Nodup ∧ ∀ g, g ∈ s.leafRtRqList ↔ (s.rq g).rtNrRunning ≠ 0) ∧
      ∀ g, ∃ members : List (Entity Group), members.Nodup ∧
        (∀ e, e ∈ members ↔ s.onRtRq e = true ∧ rtRqOfSe tree s e = g) ∧
        (s.rq g).rtNrRunning = members.length ∧
        (s.rq g).rtNrBoosted = members.countP (rtSeBoosted s) ∧
        (∀ e ∈ members, (s.rq g).highestPrio ≤ rtSePrio s e) ∧
        (members ≠ [] → ∃ e ∈ members, rtSePrio s e = (s.rq g).highestPrio) ∧
        (members = [] → (s.rq g).highestPrio = maxRtPrio) := by
  have sound := reachable_sound init run
  refine ⟨sound.silent trivial, sound.linked, ⟨sound.leaf_unique, sound.leaf⟩, fun g => ?_⟩
  have ok := sound.queue g
  obtain ⟨members, lists, running, count⟩ := ok.counted
  have member_iff (e : Entity Group) :
      e ∈ members ↔ s.onRtRq e = true ∧ rtRqOfSe tree s e = g := by
    rw [lists.mem_iff, key, ne_eq, ite_eq_right_iff]
    simp
  refine ⟨members, lists.unique, member_iff, running, count, fun e member => ?_,
    fun some_run => ?_, fun empty => ?_⟩
  · obtain ⟨on, owner⟩ := (member_iff e).mp member
    exact (sound.toShape.highest_le on owner).2
  · have nr : (s.rq g).rtNrRunning ≠ 0 := by
      rw [running]
      exact (List.length_pos_of_ne_nil some_run).ne'
    obtain ⟨e, picked⟩ := sound.toShape.pick_found (ok.highest_lt trivial nr)
    obtain ⟨on, owner, prio⟩ := sound.toShape.pick_entity picked
    exact ⟨e, (member_iff e).mpr ⟨on, owner⟩, prio⟩
  · have nobody (e : Entity Group) : key tree s g e = none := by
      by_contra queued
      have member := (lists.mem_iff e).mpr queued
      rw [empty] at member
      exact List.not_mem_nil member
    exact ok.highest.trans (ok.holds.findFirst_none nobody maxRtPrio)

/-- In every run the pick runs into no `BUG_ON`. It finds a task of the best
priority among those that are queued and that no throttled group holds back,
and nothing only where there is none. -/
theorem rt_pick_next (init : Init start)
    (run : Transition.Run (step tree) (Orderly tree) start ops s) :
    ∃ answer, pickNextTaskRt tree s = some answer ∧
      (∀ p, answer = some p → Eligible tree s p ∧ ∀ q, Eligible tree s q → s.prio p ≤ s.prio q) ∧
      (answer = none → ∀ q, ¬ Eligible tree s q) :=
  (reachable_sound init run).pick

/-- In every run a task is queued exactly when the last call for it put it
there, however often its groups were throttled, let go and moved meanwhile. -/
theorem rt_tasks_not_lost (init : Init start)
    (run : Transition.Run (step tree) (Orderly tree) start ops s) (p : Pid) :
    s.onRtRq (.task p) = ops.foldl (queuedBy p) false := by
  have go {before after : State Group} {ops : List (Op Group)} (sound : Sound tree True before)
      (run : Transition.Run (step tree) (Orderly tree) before ops after) :
      after.onRtRq (.task p) = ops.foldl (queuedBy p) (before.onRtRq (.task p)) := by
    induction run with
    | refl => rfl
    | next orderly moved _ ih =>
        rw [ih (sound.step orderly moved), List.foldl_cons, ← sound.step_task orderly p]
        rw [Option.some.inj moved]
  rw [go init.sound run, init.onRtRq]

end Runs

def oneGroup : Hierarchy Bool where
  root := false
  parent _ := false
  above g := if g then [true] else []
  height := 1
  above_root := rfl
  above_cons g notRoot := by
    cases g with
    | false => exact absurd rfl notRoot
    | true => rfl
  bounded g := by cases g <;> decide

def idle : State Bool where
  rq _ :=
    { active := .empty, rtNrRunning := 0, rtNrBoosted := 0, highestPrio := maxRtPrio,
      rtThrottled := false }
  onRtRq _ := false
  prio p := if p = 1 then 10 else 20
  normalPrio p := if p = 1 then 10 else 20
  group p := p = 1
  leafRtRqList := []
  warned := false

theorem idle_init : Init idle := ⟨fun _ => rfl, fun _ => rfl, rfl, rfl⟩

def busy : State Bool :=
  apply oneGroup (apply oneGroup idle (.enqueueTask 1 false)) (.enqueueTask 2 false)

def held : State Bool := apply oneGroup busy (.throttle true)

theorem held_run : Transition.Run (step oneGroup) (Orderly oneGroup) idle
    [.enqueueTask 1 false, .enqueueTask 2 false, .throttle true] held :=
  .next ⟨show 10 < 100 by decide, nofun⟩ rfl
    (.next ⟨show 20 < 100 by decide, nofun⟩ rfl (.next ⟨trivial, nofun⟩ rfl (.refl _)))

theorem rt_group_queues_held :
    held.warned = false ∧
      (∀ g, g ≠ oneGroup.root → (held.onRtRq (.group g) = true ↔
        (held.rq g).rtNrRunning ≠ 0 ∧ rtRqThrottled held g = false)) ∧
      (held.leafRtRqList.Nodup ∧ ∀ g, g ∈ held.leafRtRqList ↔ (held.rq g).rtNrRunning ≠ 0) ∧
      ∀ g, ∃ members : List (Entity Bool), members.Nodup ∧
        (∀ e, e ∈ members ↔ held.onRtRq e = true ∧ rtRqOfSe oneGroup held e = g) ∧
        (held.rq g).rtNrRunning = members.length ∧
        (held.rq g).rtNrBoosted = members.countP (rtSeBoosted held) ∧
        (∀ e ∈ members, (held.rq g).highestPrio ≤ rtSePrio held e) ∧
        (members ≠ [] → ∃ e ∈ members, rtSePrio held e = (held.rq g).highestPrio) ∧
        (members = [] → (held.rq g).highestPrio = maxRtPrio) :=
  rt_group_queues idle_init held_run

theorem rt_pick_next_held :
    ∃ answer, pickNextTaskRt oneGroup held = some answer ∧
      (∀ p, answer = some p → Eligible oneGroup held p ∧
        ∀ q, Eligible oneGroup held q → held.prio p ≤ held.prio q) ∧
      (answer = none → ∀ q, ¬ Eligible oneGroup held q) :=
  rt_pick_next idle_init held_run

theorem rt_tasks_not_lost_held : held.onRtRq (.task 1) = true :=
  rt_tasks_not_lost idle_init held_run 1

/-- Task 2 runs while the group is throttled, and task 1 before and after. -/
example : [pickNextTaskRt oneGroup busy, pickNextTaskRt oneGroup held,
    pickNextTaskRt oneGroup (apply oneGroup held (.unthrottle true))] =
      [some (some 1), some (some 2), some (some 1)] := by decide

/-- Why a CPU must not be started while a group is throttled: `__enable_runtime`
lets the group go, but its entity stays off until the period timer next runs. -/
theorem enable_strands :
    let s := apply oneGroup held .enableRuntime
    pickNextTaskRt oneGroup s = some (some 2) ∧
      pickNextTaskRt oneGroup (apply oneGroup s (.timerUnused true)) = some (some 1) := by
  decide

end AndroidKernel.RtGroups
