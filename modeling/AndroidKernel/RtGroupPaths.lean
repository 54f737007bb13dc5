import AndroidKernel.RtGroupInvariant

/-!
Whole paths of the tree: `dequeue_rt_stack` takes off every entity from one up
to the top, and the loops after it put them back. Each operation of the
real-time class is one such pass, and keeps the invariant.
-/

namespace AndroidKernel.RtGroups

universe u
variable {Group : Type u} {tree : Hierarchy Group} {strict : Prop} {s next : State Group}

structure Keeps (tree : Hierarchy Group) (s next : State Group) (groups : List Group)
    (tasks : List Pid) : Prop where
  prio : next.prio = s.prio
  normalPrio : next.normalPrio = s.normalPrio
  group : next.group = s.group
  throttled : ∀ g, (next.rq g).rtThrottled = (s.rq g).rtThrottled
  task : ∀ p, p ∉ tasks → next.onRtRq (.task p) = s.onRtRq (.task p)
  on : ∀ g, g ∉ groups → next.onRtRq (.group g) = s.onRtRq (.group g)
  rq : ∀ g, g ≠ tree.root → g ∉ groups → next.rq g = s.rq g

section Keeps
variable {groups : List Group} {tasks : List Pid}

theorem Keeps.refl (tree : Hierarchy Group) (s : State Group) (groups : List Group)
    (tasks : List Pid) : Keeps tree s s groups tasks :=
  ⟨rfl, rfl, rfl, fun _ => rfl, fun _ _ => rfl, fun _ _ => rfl, fun _ _ _ => rfl⟩

theorem Keeps.trans {last : State Group} (one : Keeps tree s next groups tasks)
    (two : Keeps tree next last groups tasks) : Keeps tree s last groups tasks where
  prio := two.prio.trans one.prio
  normalPrio := two.normalPrio.trans one.normalPrio
  group := two.group.trans one.group
  throttled g := (two.throttled g).trans (one.throttled g)
  task p outside := (two.task p outside).trans (one.task p outside)
  on g outside := (two.on g outside).trans (one.on g outside)
  rq g notRoot outside := (two.rq g notRoot outside).trans (one.rq g notRoot outside)

theorem Keeps.mono {few : List Group} (keeps : Keeps tree s next few []) (more : few ⊆ groups) :
    Keeps tree s next groups tasks where
  prio := keeps.prio
  normalPrio := keeps.normalPrio
  group := keeps.group
  throttled := keeps.throttled
  task p _ := keeps.task p List.not_mem_nil
  on g outside := keeps.on g fun member => outside (more member)
  rq g notRoot outside := keeps.rq g notRoot fun member => outside (more member)

end Keeps

theorem Linked.congr {g : Group} (linked : Linked s g)
    (on : next.onRtRq (.group g) = s.onRtRq (.group g)) (rq : next.rq g = s.rq g) :
    Linked next g := by
  simp only [Linked, rtRqThrottled] at linked ⊢
  rw [on, rq]
  exact linked

theorem Hierarchy.root_or_mem (tree : Hierarchy Group) (g : Group) :
    g = tree.root ∨ g ∈ tree.above g := by
  by_cases top : g = tree.root
  · exact .inl top
  · exact .inr (tree.self_mem_above top)

theorem group_outside {g : Group} (notRoot : g ≠ tree.root) :
    (.group g : Entity Group) ≠ .group (tree.parent g) := fun same =>
  tree.parent_ne notRoot (Entity.group.inj same).symm

variable [DecidableEq Group]

theorem Touches.keeps {e : Entity Group} {present : Bool} {groups : List Group}
    {tasks : List Pid} (touches : Touches tree s next e present)
    (group : ∀ g, e = .group g → g ∈ groups) (task : ∀ p, e = .task p → p ∈ tasks)
    (owner : rtRqOfSe tree s e = tree.root ∨ rtRqOfSe tree s e ∈ groups) :
    Keeps tree s next groups tasks where
  prio := touches.prio
  normalPrio := touches.normalPrio
  group := touches.group
  throttled := touches.throttled
  task p outside := touches.on_other fun same => outside (task p same.symm)
  on h outside := touches.on_other fun same => outside (group h same.symm)
  rq h notRoot outside := by
    apply touches.rq h
    rintro rfl
    rcases owner with top | inside
    · exact notRoot top
    · exact outside inside

theorem Touches.keeps_group {g : Group} {present : Bool} {groups : List Group}
    (touches : Touches tree s next (.group g) present) (member : g ∈ groups)
    (owner : tree.parent g = tree.root ∨ tree.parent g ∈ groups) :
    Keeps tree s next groups [] :=
  touches.keeps (fun _ same => Entity.group.inj same ▸ member)
    (fun p same => absurd same.symm (Entity.task_ne_group p g)) owner

theorem Touches.on_group {p : Pid} {present : Bool}
    (touches : Touches tree s next (.task p) present) (h : Group) :
    next.onRtRq (.group h) = s.onRtRq (.group h) :=
  touches.on_other (Entity.task_ne_group p h).symm

/-- An entity can be moved once that of its runqueue, and all above, are off. -/
theorem Shape.owner_off (shape : Shape tree strict s) {g : Group}
    (off : ∀ h ∈ tree.above g, s.onRtRq (.group h) = false) : s.onRtRq (.group g) = false := by
  rcases tree.root_or_mem g with top | member
  · rw [top]
    exact shape.root_off
  · exact off _ member

/-- From the top down each entity comes off while its priority is still right. -/
theorem Shape.stack (shape : Shape tree strict s) (g : Group) :
    let next := dequeueRtStack tree s ((tree.above g).map .group)
    Shape tree strict next ∧ (∀ h ∈ tree.above g, next.onRtRq (.group h) = false) ∧
      Keeps tree s next (tree.above g) [] := by
  induction g using tree.induction with
  | root =>
      rw [tree.above_root]
      exact ⟨shape, fun h member => absurd member List.not_mem_nil, .refl tree s [] []⟩
  | step g notRoot ih =>
      obtain ⟨upper, off, keeps⟩ := ih
      have grown : tree.above (tree.parent g) ⊆ tree.above g := by
        rw [tree.above_cons g notRoot]
        exact List.subset_cons_self _ _
      have owner : tree.parent g = tree.root ∨ tree.parent g ∈ tree.above g :=
        (tree.root_or_mem (tree.parent g)).imp_right fun member => grown member
      have unfolded : dequeueRtStack tree s ((tree.above g).map .group) =
          let middle := dequeueRtStack tree s ((tree.above (tree.parent g)).map .group)
          if middle.onRtRq (.group g) then RtGroups.dequeueOne tree middle (.group g)
          else middle := by
        rw [tree.above_cons g notRoot]
        rfl
      rw [unfolded]
      generalize dequeueRtStack tree s ((tree.above (tree.parent g)).map .group) = middle at *
      simp only
      split_ifs with on
      · have touches := dequeueOne_touches tree middle (.group g)
        refine ⟨upper.dequeueOne on (upper.owner_off off) (group_outside notRoot),
          fun h member => ?_,
          (keeps.mono grown).trans (touches.keeps_group (tree.self_mem_above notRoot) owner)⟩
        by_cases same : h = g
        · rw [same, touches.on, Function.update_self]
        · rw [touches.on_other fun clash => same (Entity.group.inj clash)]
          rw [tree.above_cons g notRoot] at member
          exact off h ((List.mem_cons.mp member).resolve_left same)
      · refine ⟨upper, fun h member => ?_, keeps.mono grown⟩
        rw [tree.above_cons g notRoot] at member
        rcases List.mem_cons.mp member with rfl | later
        · exact Bool.eq_false_iff.mpr on
        · exact off h later

/-- After its turn a group is queued exactly when it should be. -/
theorem enqueueOne_linked (head : Bool) {g : Group} (notRoot : g ≠ tree.root)
    (off : s.onRtRq (.group g) = false) : Linked (enqueueOne tree s head (.group g)) g := by
  cases taken : refused s (.group g) with
  | true =>
      rw [enqueueOne, if_pos taken]
      simp only [refused, Bool.or_eq_true, decide_eq_true_eq] at taken
      simp only [Linked, off, Bool.false_eq_true, false_iff, not_and, Bool.not_eq_false]
      intro some_run
      exact taken.resolve_right some_run
  | false =>
      have touches := enqueueOne_touches tree head taken
      have rq := touches.rq g (Ne.symm (tree.parent_ne notRoot))
      simp only [refused, Bool.or_eq_false_iff, decide_eq_false_iff_not] at taken
      simp only [Linked, rtRqThrottled] at taken ⊢
      rw [touches.on, Function.update_self, rq]
      exact iff_of_true rfl ⟨taken.2, taken.1⟩

theorem enqueueOne_keeps (head : Bool) {g : Group} {groups : List Group} (member : g ∈ groups)
    (owner : tree.parent g = tree.root ∨ tree.parent g ∈ groups) :
    Keeps tree s (enqueueOne tree s head (.group g)) groups [] := by
  cases taken : refused s (.group g) with
  | true =>
      rw [enqueueOne, if_pos taken]
      exact .refl tree s groups []
  | false => exact (enqueueOne_touches tree head taken).keeps_group member owner

/-- From the bottom up each group is put back once those below are right. -/
theorem Shape.raise (head : Bool) (put : State Group → Entity Group → State Group)
    (puts : ∀ s g, put s (.group g) = RtGroups.enqueueOne tree s head (.group g)) (g : Group)
    (shape : Shape tree strict s) (off : ∀ h ∈ tree.above g, s.onRtRq (.group h) = false)
    (linked : ∀ h, h ≠ tree.root → h ∉ tree.above g → Linked s h) :
    let next := ((tree.above g).map .group).foldl put s
    Sound tree strict next ∧ Keeps tree s next (tree.above g) [] := by
  induction g using tree.induction generalizing s with
  | root =>
      rw [tree.above_root] at linked ⊢
      exact ⟨⟨shape, fun h notRoot => linked h notRoot List.not_mem_nil⟩, .refl tree s [] []⟩
  | step g notRoot ih =>
      have here := off g (tree.self_mem_above notRoot)
      have upper : ∀ h ∈ tree.above (tree.parent g), s.onRtRq (.group h) = false := by
        intro h member
        apply off h
        rw [tree.above_cons g notRoot]
        exact List.mem_cons_of_mem g member
      have grown : tree.above (tree.parent g) ⊆ tree.above g := by
        rw [tree.above_cons g notRoot]
        exact List.subset_cons_self _ _
      have owner : tree.parent g = tree.root ∨ tree.parent g ∈ tree.above g :=
        (tree.root_or_mem (tree.parent g)).imp_right fun member => grown member
      have keeps := enqueueOne_keeps (s := s) head (tree.self_mem_above notRoot) owner
      have notSelf := tree.not_mem_above_parent notRoot
      have only (h : Group) (differ : h ≠ g) :
          (RtGroups.enqueueOne tree s head (.group g)).onRtRq (.group h) = s.onRtRq (.group h) := by
        cases taken : refused s (.group g) with
        | true => rw [RtGroups.enqueueOne, if_pos taken]
        | false =>
            exact (enqueueOne_touches tree head taken).on_other fun same =>
              differ (Entity.group.inj same)
      have middle := shape.enqueueOne head here (shape.owner_off upper) (group_outside notRoot)
        (fun same => notRoot (Entity.group.inj same))
        fun _ p same => absurd same.symm (Entity.task_ne_group p g)
      have rest := @ih (RtGroups.enqueueOne tree s head (.group g)) middle
        (fun h member => by
          rw [only h fun same => notSelf (same ▸ member)]
          exact upper h member)
        (fun h notTop outside => by
          by_cases same : h = g
          · rw [same]
            exact enqueueOne_linked head notRoot here
          · have beyond : h ∉ tree.above g := by
              rw [tree.above_cons g notRoot]
              exact fun member => outside ((List.mem_cons.mp member).resolve_left same)
            exact (linked h notTop beyond).congr (keeps.on h beyond) (keeps.rq h notTop beyond))
      have unfolded : ((tree.above g).map .group).foldl put s =
          ((tree.above (tree.parent g)).map .group).foldl put
            (RtGroups.enqueueOne tree s head (.group g)) := by
        rw [tree.above_cons g notRoot, List.map_cons, List.foldl_cons, puts]
      rw [unfolded]
      exact ⟨rest.1, keeps.trans (rest.2.mono grown)⟩

/-- A pass over the groups from `g` on; only those may be wrong before it. -/
theorem Shape.pass (shape : Shape tree strict s) (head : Bool)
    (put : State Group → Entity Group → State Group)
    (puts : ∀ s g, put s (.group g) = RtGroups.enqueueOne tree s head (.group g)) (g : Group)
    (linked : ∀ h, h ≠ tree.root → h ∉ tree.above g → Linked s h) :
    let next := ((tree.above g).map .group).foldl put
      (dequeueRtStack tree s ((tree.above g).map .group))
    Sound tree strict next ∧ Keeps tree s next (tree.above g) [] := by
  obtain ⟨upper, off, keeps⟩ := shape.stack g
  have still (h : Group) (notRoot : h ≠ tree.root) (outside : h ∉ tree.above g) :
      Linked (dequeueRtStack tree s ((tree.above g).map .group)) h :=
    (linked h notRoot outside).congr (keeps.on h outside) (keeps.rq h notRoot outside)
  obtain ⟨sound, kept⟩ := upper.raise head put puts g off still
  exact ⟨sound, keeps.trans kept⟩

theorem putBack_group (s : State Group) (g : Group) :
    putBack tree s (.group g) = enqueueOne tree s false (.group g) := by
  simp only [putBack, enqueueOne, refused]
  by_cases empty : (s.rq g).rtNrRunning = 0
  · simp [empty]
  · simp [empty]

/-- The path of a task comes off with the task. -/
theorem Shape.stack_task (shape : Shape tree strict s) (p : Pid) :
    let next := dequeueRtStack tree s (forEachSchedRtEntity tree s (.task p))
    Shape tree strict next ∧ (∀ h ∈ tree.above (s.group p), next.onRtRq (.group h) = false) ∧
      next.onRtRq (.task p) = false ∧ Keeps tree s next (tree.above (s.group p)) [p] := by
  obtain ⟨upper, off, keeps⟩ := shape.stack (s.group p)
  have unfolded : dequeueRtStack tree s (forEachSchedRtEntity tree s (.task p)) =
      let middle := dequeueRtStack tree s ((tree.above (s.group p)).map .group)
      if middle.onRtRq (.task p) then RtGroups.dequeueOne tree middle (.task p) else middle := rfl
  rw [unfolded]
  generalize dequeueRtStack tree s ((tree.above (s.group p)).map .group) = middle at *
  have wide : Keeps tree s middle (tree.above (s.group p)) [p] :=
    keeps.mono (List.Subset.refl _)
  have owner : middle.group p = s.group p := congrFun keeps.group p
  simp only
  split_ifs with on
  · have touches := dequeueOne_touches tree middle (.task p)
    have owner_off : middle.onRtRq (.group (rtRqOfSe tree middle (.task p))) = false := by
      simp only [rtRqOfSe, owner]
      exact upper.owner_off off
    refine ⟨upper.dequeueOne on owner_off (Entity.task_ne_group p _), fun h member => ?_, ?_,
      wide.trans (touches.keeps (fun g same => absurd same (Entity.task_ne_group p g))
        (fun q same => ?_) ?_)⟩
    · rw [touches.on_group]
      exact off h member
    · rw [touches.on, Function.update_self]
    · rw [Entity.task.inj same]
      exact List.mem_singleton_self q
    · simp only [rtRqOfSe, owner]
      exact tree.root_or_mem (s.group p)
  · exact ⟨upper, off, Bool.eq_false_iff.mpr on, wide⟩

theorem Sound.keeps_linked (sound : Sound tree strict s) {groups : List Group} {tasks : List Pid}
    (keeps : Keeps tree s next groups tasks) (h : Group) (notRoot : h ≠ tree.root)
    (outside : h ∉ groups) : Linked next h :=
  (sound.linked h notRoot).congr (keeps.on h outside) (keeps.rq h notRoot outside)

theorem Sound.enqueueTask (sound : Sound tree strict s) {p : Pid}
    (valid : strict → s.prio p < maxRtPrio) (head : Bool) :
    Sound tree strict (enqueueRtEntity tree s (.task p) head) ∧
      (enqueueRtEntity tree s (.task p) head).onRtRq (.task p) = true ∧
      Keeps tree s (enqueueRtEntity tree s (.task p) head) (tree.above (s.group p)) [p] := by
  obtain ⟨shape, off, taken, keeps⟩ := sound.toShape.stack_task p
  have unfolded : enqueueRtEntity tree s (.task p) head =
      ((tree.above (s.group p)).map .group).foldl (fun s e => enqueueOne tree s head e)
        (enqueueOne tree (dequeueRtStack tree s (forEachSchedRtEntity tree s (.task p))) head
          (.task p)) := rfl
  rw [unfolded]
  generalize dequeueRtStack tree s (forEachSchedRtEntity tree s (.task p)) = middle at *
  have owner : middle.group p = s.group p := congrFun keeps.group p
  have owner_off : middle.onRtRq (.group (rtRqOfSe tree middle (.task p))) = false := by
    simp only [rtRqOfSe, owner]
    exact shape.owner_off off
  have low (isStrict : strict) (q : Pid) (same : (.task p : Entity Group) = .task q) :
      middle.prio q < maxRtPrio := by
    rw [keeps.prio, ← Entity.task.inj same]
    exact valid isStrict
  have touches := enqueueOne_touches tree (s := middle) (e := .task p) head rfl
  have kept : Keeps tree middle (enqueueOne tree middle head (.task p)) (tree.above (s.group p))
      [p] := by
    refine touches.keeps (fun g same => absurd same (Entity.task_ne_group p g))
      (fun q same => ?_) ?_
    · rw [Entity.task.inj same]
      exact List.mem_singleton_self q
    · simp only [rtRqOfSe, owner]
      exact tree.root_or_mem (s.group p)
  have put := shape.enqueueOne head taken owner_off (Entity.task_ne_group p _)
    (Entity.task_ne_group p _) low
  obtain ⟨raised, last⟩ := put.raise head (fun s e => enqueueOne tree s head e)
    (fun _ _ => rfl) (s.group p)
    (fun h member => by
      rw [touches.on_group]
      exact off h member)
    (sound.keeps_linked (keeps.trans kept))
  refine ⟨raised, ?_, (keeps.trans kept).trans (last.mono (List.Subset.refl _))⟩
  rw [last.task p List.not_mem_nil, touches.on, Function.update_self]

theorem Sound.dequeueTask (sound : Sound tree strict s) (p : Pid) :
    Sound tree strict (dequeueRtEntity tree s (.task p)) ∧
      (dequeueRtEntity tree s (.task p)).onRtRq (.task p) = false ∧
      Keeps tree s (dequeueRtEntity tree s (.task p)) (tree.above (s.group p)) [p] := by
  obtain ⟨shape, off, taken, keeps⟩ := sound.toShape.stack_task p
  have unfolded : dequeueRtEntity tree s (.task p) =
      ((tree.above (s.group p)).map .group).foldl (putBack tree)
        (dequeueRtStack tree s (forEachSchedRtEntity tree s (.task p))) := rfl
  rw [unfolded]
  generalize dequeueRtStack tree s (forEachSchedRtEntity tree s (.task p)) = middle at *
  obtain ⟨raised, last⟩ := shape.raise false (putBack tree) putBack_group (s.group p) off
    (sound.keeps_linked keeps)
  refine ⟨raised, ?_, keeps.trans (last.mono (List.Subset.refl _))⟩
  rw [last.task p List.not_mem_nil, taken]

structure SameCounts (s next : State Group) : Prop where
  nr : ∀ g, (next.rq g).rtNrRunning = (s.rq g).rtNrRunning
  boosted : ∀ g, (next.rq g).rtNrBoosted = (s.rq g).rtNrBoosted
  highest : ∀ g, (next.rq g).highestPrio = (s.rq g).highestPrio
  on : next.onRtRq = s.onRtRq
  task : ∀ p, s.onRtRq (.task p) = true → next.prio p = s.prio p ∧
    next.normalPrio p = s.normalPrio p ∧ next.group p = s.group p
  leaf : next.leafRtRqList = s.leafRtRqList
  silent : next.warned = s.warned

theorem SameCounts.key_eq (same : SameCounts s next) (g : Group) (e : Entity Group) :
    key tree next g e = key tree s g e := by
  cases on : s.onRtRq e with
  | false => rw [key_of_off on, key_of_off (by rw [same.on, on])]
  | true =>
      have still : next.onRtRq e = true := by rw [same.on, on]
      have place : rtRqOfSe tree next e = rtRqOfSe tree s e ∧ rtSePrio next e = rtSePrio s e := by
        cases e with
        | task p =>
            obtain ⟨prio, -, group⟩ := same.task p on
            exact ⟨group, prio⟩
        | group h => exact ⟨rfl, same.highest h⟩
      by_cases here : rtRqOfSe tree s e = g
      · rw [key_of_on tree on here, key_of_on tree still (place.1.trans here), place.2]
      · rw [key_of_foreign here, key_of_foreign fun there => here (place.1.symm.trans there)]

theorem Shape.sameCounts (shape : Shape tree strict s) (same : SameCounts s next)
    (holds : ∀ g, ((next.rq g).active.Represents (key tree s g)) ∧
      (next.rq g).active.bitmap = (s.rq g).active.bitmap) : Shape tree strict next where
  queue g := by
    have ok := shape.queue g
    have keys : key tree next g = key tree s g := funext (same.key_eq g)
    have first : (next.rq g).active.findFirst maxRtPrio = (s.rq g).active.findFirst maxRtPrio := by
      simp only [PrioArray.findFirst, (holds g).2]
    have here : QueueOk strict (key tree s g) (rtSeBoosted s) (next.rq g) := by
      refine ⟨(holds g).1, ok.below, ?_, ?_⟩
      · obtain ⟨members, lists, running, count⟩ := ok.counted
        exact ⟨members, lists, (same.nr g).trans running, (same.boosted g).trans count⟩
      · rw [same.highest, first]
        exact ok.highest
    rw [keys]
    apply here.congr
    intro e queued
    cases e with
    | task p =>
        have on : s.onRtRq (.task p) = true := by
          by_contra off
          exact queued (key_of_off (Bool.eq_false_iff.mpr off))
        obtain ⟨prio, normal, -⟩ := same.task p on
        simp only [rtSeBoosted, prio, normal]
    | group h => simp only [rtSeBoosted, same.boosted]
  leaf_unique := by
    rw [same.leaf]
    exact shape.leaf_unique
  leaf g := by
    rw [same.leaf, same.nr]
    exact shape.leaf g
  root_off := by
    rw [same.on]
    exact shape.root_off
  on_running g on := by
    rw [same.on] at on
    rw [same.nr]
    exact shape.on_running g on
  silent isStrict := same.silent.trans (shape.silent isStrict)

theorem Shape.requeue_fields (shape : Shape tree strict s) (head : Bool) {e : Entity Group}
    (on : s.onRtRq e = true) (g : Group) :
    let next := (requeueRtEntity tree head s e).rq g
    next.rtNrRunning = (s.rq g).rtNrRunning ∧ next.rtNrBoosted = (s.rq g).rtNrBoosted ∧
      next.highestPrio = (s.rq g).highestPrio ∧ next.rtThrottled = (s.rq g).rtThrottled ∧
      next.active.Represents (key tree s g) ∧ next.active.bitmap = (s.rq g).active.bitmap := by
  rw [requeueRtEntity, if_pos on]
  by_cases here : g = rtRqOfSe tree s e
  · subst here
    simp only [Function.update_self, PrioArray.requeue, true_and, and_true]
    exact (shape.queue _).holds.requeue (key_of_on tree on rfl) head
  · simp only [Function.update_of_ne here, true_and, and_true]
    exact (shape.queue g).holds

theorem Sound.requeueRtEntity (sound : Sound tree strict s) (head : Bool) (e : Entity Group) :
    Sound tree strict (requeueRtEntity tree head s e) := by
  by_cases on : s.onRtRq e = true
  · have fields := sound.toShape.requeue_fields head on
    have unfolded : (RtGroups.requeueRtEntity tree head s e).onRtRq = s.onRtRq := by
      rw [RtGroups.requeueRtEntity, if_pos on]
    have shape : Shape tree strict (RtGroups.requeueRtEntity tree head s e) := by
      refine sound.toShape.sameCounts ⟨fun g => (fields g).1, fun g => (fields g).2.1,
        fun g => (fields g).2.2.1, unfolded, fun p _ => ?_, ?_, ?_⟩ fun g => (fields g).2.2.2.2
      all_goals rw [RtGroups.requeueRtEntity, if_pos on]
      exact ⟨rfl, rfl, rfl⟩
    refine ⟨shape, fun g notRoot => ?_⟩
    have linked := sound.linked g notRoot
    simp only [Linked, rtRqThrottled] at linked ⊢
    rw [(fields g).1, (fields g).2.1, (fields g).2.2.2.1, unfolded]
    exact linked
  · rw [RtGroups.requeueRtEntity, if_neg on]
    exact sound

theorem Sound.requeueTaskRt (sound : Sound tree strict s) (p : Pid) (head : Bool) :
    Sound tree strict (requeueTaskRt tree s p head) := by
  rw [RtGroups.requeueTaskRt]
  generalize forEachSchedRtEntity tree s (.task p) = entities
  induction entities generalizing s with
  | nil => exact sound
  | cons e rest ih => exact ih (sound.requeueRtEntity head e)

theorem Shape.setThrottled (shape : Shape tree strict s) (g : Group) (throttled : Bool) :
    Shape tree strict (setThrottled s g throttled) := by
  have fields (h : Group) : let next := (RtGroups.setThrottled s g throttled).rq h
      next.rtNrRunning = (s.rq h).rtNrRunning ∧ next.rtNrBoosted = (s.rq h).rtNrBoosted ∧
        next.highestPrio = (s.rq h).highestPrio ∧ next.active = (s.rq h).active := by
    by_cases here : h = g
    · subst here
      simp [RtGroups.setThrottled]
    · simp [RtGroups.setThrottled, Function.update_of_ne here]
  refine shape.sameCounts ⟨fun h => (fields h).1, fun h => (fields h).2.1,
    fun h => (fields h).2.2.1, rfl, fun _ _ => ⟨rfl, rfl, rfl⟩, rfl, rfl⟩ fun h => ?_
  rw [(fields h).2.2.2]
  exact ⟨(shape.queue h).holds, rfl⟩

theorem Sound.setThrottled_linked (sound : Sound tree strict s) (g : Group) (throttled : Bool)
    (h : Group) (notRoot : h ≠ tree.root) (differ : h ≠ g) :
    Linked (setThrottled s g throttled) h :=
  (sound.linked h notRoot).congr rfl (Function.update_of_ne differ _ _)

/-- Where only `g` may be missing, `sched_rt_rq_enqueue` queues it if it should be. -/
theorem Shape.schedRtRqEnqueue (shape : Shape tree strict s) {g : Group}
    (others : ∀ h, h ≠ tree.root → h ≠ g → Linked s h) (loose : rtRqThrottled s g = false) :
    Sound tree strict (schedRtRqEnqueue tree s g) := by
  rw [RtGroups.schedRtRqEnqueue]
  split_ifs with missing
  · obtain ⟨-, notRoot, -⟩ := missing
    have passed := shape.pass false (fun s e => RtGroups.enqueueOne tree s false e)
      (fun _ _ => rfl) g fun h notTop outside =>
        others h notTop fun same => outside (by rw [same]; exact tree.self_mem_above notRoot)
    exact passed.1
  · refine ⟨shape, fun h notRoot => ?_⟩
    by_cases same : h = g
    · subst same
      constructor
      · exact fun on => ⟨shape.on_running _ on, loose⟩
      · rintro ⟨some_run, -⟩
        by_contra off
        exact missing ⟨some_run, notRoot, off⟩
    · exact others h notRoot same

theorem Sound.throttle (sound : Sound tree strict s) (g : Group) :
    Sound tree strict (throttle tree s g) := by
  have shape := sound.toShape.setThrottled g true
  have others := sound.setThrottled_linked g true
  have on : (setThrottled s g true).onRtRq (.group g) = s.onRtRq (.group g) := rfl
  rw [RtGroups.throttle]
  by_cases already : (s.rq g).rtThrottled = true
  · rw [if_pos already]
    exact sound
  rw [if_neg already]
  by_cases holds : rtRqThrottled (setThrottled s g true) g = true
  · rw [if_pos holds, schedRtRqDequeue]
    split_ifs with queued
    · obtain ⟨notRoot, -⟩ := queued
      have passed := shape.pass false (putBack tree) putBack_group g fun h notTop outside =>
        others h notTop fun same => outside (by rw [same]; exact tree.self_mem_above notRoot)
      exact passed.1
    · refine ⟨shape, fun h notRoot => ?_⟩
      by_cases same : h = g
      · subst same
        constructor
        · exact fun on => absurd ⟨notRoot, on⟩ queued
        · exact fun right => absurd (right.2.symm.trans holds) Bool.false_ne_true
      · exact others h notRoot same
  · -- a boosted task keeps the group where it is
    rw [if_neg holds]
    refine ⟨shape, fun h notRoot => ?_⟩
    by_cases same : h = g
    · subst same
      have linked := sound.linked h notRoot
      have before : rtRqThrottled s h = false := by
        simp [rtRqThrottled, already]
      have after := Bool.eq_false_iff.mpr holds
      have nr : ((setThrottled s h true).rq h).rtNrRunning = (s.rq h).rtNrRunning := by
        simp [setThrottled]
      simp only [Linked, on, nr, before, after, and_true] at linked ⊢
      exact linked
    · exact others h notRoot same

theorem Sound.unthrottle (sound : Sound tree strict s) (g : Group) :
    Sound tree strict (unthrottle tree s g) := by
  rw [RtGroups.unthrottle]
  split_ifs
  · apply (sound.toShape.setThrottled g false).schedRtRqEnqueue (sound.setThrottled_linked g false)
    simp [rtRqThrottled, setThrottled]
  · exact sound

theorem Sound.timerUnused (sound : Sound tree strict s) (g : Group) :
    Sound tree strict (timerUnused tree s g) := by
  rw [RtGroups.timerUnused]
  split_ifs with loose
  · exact sound.toShape.schedRtRqEnqueue (fun h notRoot _ => sound.linked h notRoot)
      (Bool.eq_false_iff.mpr loose.2)
  · exact sound

/-- Letting all groups go is harmless while none of them waits to be let go. -/
theorem Sound.enableRuntime (sound : Sound tree strict s)
    (free : ∀ g, g ≠ tree.root → (s.rq g).rtNrRunning ≠ 0 → rtRqThrottled s g = false) :
    Sound tree strict (enableRuntime s) := by
  have shape : Shape tree strict (RtGroups.enableRuntime s) :=
    sound.toShape.sameCounts ⟨fun _ => rfl, fun _ => rfl, fun _ => rfl, rfl,
      fun _ _ => ⟨rfl, rfl, rfl⟩, rfl, rfl⟩ fun g => ⟨(sound.queue g).holds, rfl⟩
  refine ⟨shape, fun g notRoot => (sound.linked g notRoot).trans ?_⟩
  constructor
  · exact fun both => ⟨both.1, rfl⟩
  · exact fun both => ⟨both.1, free g notRoot both.1⟩

/-- Of the tasks only those that are queued matter. -/
theorem Sound.retask (sound : Sound tree strict s) (prio normalPrio : Pid → Nat)
    (group : Pid → Group)
    (same : ∀ p, s.onRtRq (.task p) = true →
      prio p = s.prio p ∧ normalPrio p = s.normalPrio p ∧ group p = s.group p) :
    Sound tree strict { s with prio := prio, normalPrio := normalPrio, group := group } :=
  ⟨sound.toShape.sameCounts ⟨fun _ => rfl, fun _ => rfl, fun _ => rfl, rfl, same, rfl, rfl⟩
    fun g => ⟨(sound.queue g).holds, rfl⟩, sound.linked⟩

theorem Sound.setTask (sound : Sound tree strict s) {p : Pid} (off : s.onRtRq (.task p) = false)
    (prio normalPrio : Nat) (group : Group) :
    Sound tree strict (apply tree s (.setTask p prio normalPrio group)) := by
  refine sound.retask _ _ _ fun q on => ?_
  have differ : q ≠ p := by
    rintro rfl
    exact Bool.false_ne_true (off.symm.trans on)
  exact ⟨Function.update_of_ne differ _ _, Function.update_of_ne differ _ _,
    Function.update_of_ne differ _ _⟩

/-- A CPU may be started only while no group with tasks is throttled. -/
def Orderly (tree : Hierarchy Group) (s : State Group) (op : Op Group) : Prop :=
  Allowed s op ∧ (op = .enableRuntime →
    ∀ g, g ≠ tree.root → (s.rq g).rtNrRunning ≠ 0 → rtRqThrottled s g = false)

theorem Sound.step (sound : Sound tree strict s) {op : Op Group} (orderly : Orderly tree s op)
    (moved : step tree s op = some next) : Sound tree strict next := by
  obtain rfl := Option.some.inj moved
  obtain ⟨allowed, free⟩ := orderly
  cases op with
  | enqueueTask p head => exact (sound.enqueueTask (fun _ => allowed) head).1
  | dequeueTask p => exact (sound.dequeueTask p).1
  | requeueTask p head => exact sound.requeueTaskRt p head
  | throttle g => exact sound.throttle g
  | unthrottle g => exact sound.unthrottle g
  | timerUnused g => exact sound.timerUnused g
  | enableRuntime => exact sound.enableRuntime (free rfl)
  | setTask p prio normalPrio group => exact sound.setTask allowed prio normalPrio group

/-- Nothing is queued; whether a group is throttled does not matter. -/
theorem empty_sound (s : State Group)
    (rq : ∀ g, (s.rq g).active = .empty ∧ (s.rq g).rtNrRunning = 0 ∧ (s.rq g).rtNrBoosted = 0 ∧
      (s.rq g).highestPrio = maxRtPrio)
    (off : ∀ e, s.onRtRq e = false) (leaf : s.leafRtRqList = [])
    (silent : strict → s.warned = false) : Sound tree strict s := by
  have keys (g : Group) : key tree s g = fun _ => none := funext fun e => key_of_off (off e)
  refine ⟨⟨fun g => ?_, ?_, fun g => ?_, off _, fun g on => ?_, silent⟩, fun g _ => ?_⟩
  · obtain ⟨active, running, boosted, highest⟩ := rq g
    have holds : (PrioArray.empty : PrioArray (Entity Group)).Represents fun _ => none :=
      PrioArray.empty_represents
    rw [keys g]
    refine ⟨by rwa [active], fun _ _ _ queued => absurd queued.symm (Option.some_ne_none _),
      ⟨[], ⟨List.nodup_nil, by simp⟩, running, boosted⟩, ?_⟩
    rw [highest, active]
    exact (holds.findFirst_none (fun _ => rfl) maxRtPrio).symm
  · rw [leaf]
    exact List.nodup_nil
  · rw [leaf, (rq g).2.1]
    simp
  · exact absurd ((off _).symm.trans on) Bool.false_ne_true
  · rw [Linked, off, (rq g).2.1]
    simp

theorem Init.sound (init : Init s) : Sound tree strict s := by
  apply empty_sound s _ init.onRtRq init.leafRtRqList fun _ => init.warned
  intro g
  rw [init.rq g]
  exact ⟨rfl, rfl, rfl, rfl⟩

theorem reachable_sound {start : State Group} {ops : List (Op Group)} (init : Init start)
    (run : Transition.Run (step tree) (Orderly tree) start ops s) : Sound tree True s :=
  run.invariant (fun _ _ _ sound orderly moved => sound.step orderly moved) init.sound

end AndroidKernel.RtGroups
