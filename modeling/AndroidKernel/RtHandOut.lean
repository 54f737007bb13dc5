import AndroidKernel.RtQueueInvariant

/-!
What is left of the real-time tasks when everything that the pick offers is
taken off. A throttled group lets its tasks go as long as a boosted one is
queued there, so what decides is whether a boosted task outlasts the others.
-/

namespace AndroidKernel.RtGroups

universe u
variable {Group : Type u} [DecidableEq Group] {tree : Hierarchy Group} {s t : State Group}

/-- Taking off what is offered, again and again, leaves no task. -/
inductive HandsOut (tree : Hierarchy Group) : State Group → Prop
  | empty {s : State Group} (nobody : ∀ p, s.onRtRq (.task p) = false) : HandsOut tree s
  | next {s : State Group} {p : Pid} (offered : pickNextTaskRt tree s = some (some p))
      (rest : HandsOut tree (dequeueRtEntity tree s (.task p))) : HandsOut tree s

/-- The same runqueues; tasks that are not queued may differ. -/
structure Alike (s t : State Group) : Prop where
  rq : t.rq = s.rq
  onRtRq : t.onRtRq = s.onRtRq
  leafRtRqList : t.leafRtRqList = s.leafRtRqList
  warned : t.warned = s.warned
  task : ∀ p, s.onRtRq (.task p) = true → t.prio p = s.prio p ∧
    t.normalPrio p = s.normalPrio p ∧ t.group p = s.group p

section Alike

omit [DecidableEq Group] in
theorem Alike.throttled (alike : Alike s t) (g : Group) :
    rtRqThrottled t g = rtRqThrottled s g := by
  rw [rtRqThrottled, rtRqThrottled, alike.rq]

theorem Alike.dequeueOne (alike : Alike s t) {e : Entity Group} (on : s.onRtRq e = true) :
    Alike (dequeueOne tree s e) (dequeueOne tree t e) := by
  have seen : rtRqOfSe tree t e = rtRqOfSe tree s e ∧ rtSePrio t e = rtSePrio s e ∧
      rtSeBoosted t e = rtSeBoosted s e := by
    cases e with
    | task p =>
        obtain ⟨prio, normal, group⟩ := alike.task p on
        simp [rtRqOfSe, rtSePrio, rtSeBoosted, prio, normal, group]
    | group g => simp [rtRqOfSe, rtSePrio, rtSeBoosted, alike.rq]
  obtain ⟨owner, prio, boosted⟩ := seen
  constructor
  · simp only [RtGroups.dequeueOne, owner, prio, boosted, alike.rq]
  · simp only [RtGroups.dequeueOne, alike.onRtRq]
  · simp only [RtGroups.dequeueOne, owner, prio, boosted, alike.rq, alike.leafRtRqList]
  · simp only [RtGroups.dequeueOne, owner, prio, boosted, alike.rq, alike.warned]
  · intro p still
    refine alike.task p ?_
    by_cases same : (.task p : Entity Group) = e
    · exact same ▸ on
    · simpa [RtGroups.dequeueOne, Function.update_of_ne same] using still

theorem Alike.enqueueGroup (alike : Alike s t) (head : Bool) (g : Group) :
    Alike (enqueueOne tree s head (.group g)) (enqueueOne tree t head (.group g)) := by
  have refuses : refused t (.group g) = refused s (.group g) := by
    simp only [refused, alike.throttled, alike.rq]
  cases taken : refused s (.group g) with
  | true =>
      rw [enqueueOne, enqueueOne, refuses, if_pos taken, if_pos taken]
      exact alike
  | false =>
      have fits : ¬ refused s (.group g) = true := by simp [taken]
      rw [enqueueOne, enqueueOne, refuses, if_neg fits, if_neg fits]
      simp only [rtRqOfSe, rtSePrio, rtSeBoosted]
      constructor
      · simp only [alike.rq]
      · simp only [alike.onRtRq]
      · rw [alike.leafRtRqList]
        exact if_congr (by rw [alike.rq]) rfl rfl
      · simp only [alike.rq, alike.warned]
      · intro p still
        refine alike.task p ?_
        simpa [Function.update_of_ne (Entity.task_ne_group p g)] using still

theorem Alike.stack (alike : Alike s t) (entities : List (Entity Group)) :
    Alike (dequeueRtStack tree s entities) (dequeueRtStack tree t entities) := by
  induction entities with
  | nil => exact alike
  | cons e rest ih =>
      simp only [dequeueRtStack, List.foldr_cons] at ih ⊢
      rw [ih.onRtRq]
      split_ifs with on
      · exact ih.dequeueOne on
      · exact ih

theorem Alike.putBack (alike : Alike s t) (e : Entity Group) :
    Alike (putBack tree s e) (putBack tree t e) := by
  cases e with
  | task p => exact alike
  | group g =>
      rw [RtGroups.putBack, RtGroups.putBack, alike.rq]
      split_ifs
      · exact alike.enqueueGroup false g
      · exact alike

theorem Alike.putBackAll (alike : Alike s t) (entities : List (Entity Group)) :
    Alike (entities.foldl (RtGroups.putBack tree) s)
      (entities.foldl (RtGroups.putBack tree) t) := by
  induction entities generalizing s t with
  | nil => exact alike
  | cons e rest ih => exact ih (alike.putBack e)

theorem Alike.dequeueTask (alike : Alike s t) {p : Pid} (on : s.onRtRq (.task p) = true) :
    Alike (dequeueRtEntity tree s (.task p)) (dequeueRtEntity tree t (.task p)) := by
  have path : forEachSchedRtEntity tree t (.task p) = forEachSchedRtEntity tree s (.task p) := by
    simp only [forEachSchedRtEntity, (alike.task p on).2.2]
  rw [dequeueRtEntity, dequeueRtEntity, path]
  exact (alike.stack _).putBackAll _

omit [DecidableEq Group] in
theorem pickLoop_congr (same : t.rq = s.rq) (fuel : Nat) (g : Group) :
    pickLoop t fuel g = pickLoop s fuel g := by
  induction fuel generalizing g with
  | zero => rfl
  | succ fuel ih =>
      rw [pickLoop, pickLoop, same]
      cases pickNextRtEntity (s.rq g) with
      | none => rfl
      | some e =>
          cases e with
          | task p => rfl
          | group h => exact ih h

omit [DecidableEq Group] in
theorem Alike.pick (alike : Alike s t) : pickNextTaskRt tree t = pickNextTaskRt tree s := by
  rw [pickNextTaskRt, pickNextTaskRt, alike.throttled, alike.rq, pickLoop_congr alike.rq]

end Alike

section HandsOut
variable {strict : Prop}

theorem HandsOut.alike (hands : HandsOut tree s) (sound : Sound tree strict s)
    (same : Alike s t) : HandsOut tree t := by
  induction hands generalizing t with
  | empty nobody =>
      refine .empty fun p => ?_
      rw [same.onRtRq]
      exact nobody p
  | next offered rest ih =>
      obtain ⟨-, on, -⟩ := sound.pick_walked offered
      exact .next (same.pick.trans offered)
        (ih (sound.dequeueTask _).1 (same.dequeueTask on))

omit [DecidableEq Group] in
theorem Alike.symm (alike : Alike s t) : Alike t s := by
  refine ⟨alike.rq.symm, alike.onRtRq.symm, alike.leafRtRqList.symm, alike.warned.symm,
    fun p on => ?_⟩
  rw [alike.onRtRq] at on
  obtain ⟨prio, normal, group⟩ := alike.task p on
  exact ⟨prio.symm, normal.symm, group.symm⟩

theorem Alike.handsOut_iff (alike : Alike s t) (sound : Sound tree strict s)
    (soundT : Sound tree strict t) : HandsOut tree s ↔ HandsOut tree t :=
  ⟨fun hands => hands.alike sound alike, fun hands => hands.alike soundT alike.symm⟩

theorem HandsOut.offered_iff (sound : Sound tree strict s) {p : Pid}
    (offered : pickNextTaskRt tree s = some (some p)) :
    HandsOut tree s ↔ HandsOut tree (dequeueRtEntity tree s (.task p)) := by
  refine ⟨fun hands => ?_, .next offered⟩
  obtain ⟨-, on, -⟩ := sound.pick_walked offered
  cases hands with
  | empty nobody => exact absurd on (by simp [nobody p])
  | next first rest =>
      obtain rfl := Option.some.inj (Option.some.inj (offered.symm.trans first))
      exact rest

theorem Sound.handsOut_nil (sound : Sound tree strict s) (none_run : s.leafRtRqList = []) :
    HandsOut tree s := by
  refine .empty fun p => Bool.eq_false_iff.mpr fun on => ?_
  have running := (sound.toShape.highest_le on rfl).1
  have leaf := (sound.leaf _).mpr running
  rw [none_run] at leaf
  exact List.not_mem_nil leaf

theorem Sound.boosted_eligible (sound : Sound tree strict s) {p : Pid}
    (on : s.onRtRq (.task p) = true) (boosted : s.prio p ≠ s.normalPrio p) :
    Eligible tree s p :=
  (sound.eligible_iff p).mpr ⟨on, fun _ path _ => ⟨p, on, boosted, path⟩⟩

theorem Sound.take_offered (sound : Sound tree strict s) {p : Pid}
    (offered : pickNextTaskRt tree s = some (some p)) :
    Shuffled s (dequeueRtEntity tree s (.task p)) ∧
      ∀ q, (dequeueRtEntity tree s (.task p)).onRtRq (.task q) = true ↔
        s.onRtRq (.task q) = true ∧ q ≠ p := by
  obtain ⟨-, off, keeps⟩ := sound.dequeueTask p
  refine ⟨dequeueRtEntity_shuffled tree s (.task p), fun q => ?_⟩
  by_cases same : q = p
  · subst same
    simp [off]
  · rw [keeps.task q (by simpa using same)]
    simp [same]

/-- No group is left with a task that no boosted one outlasts. -/
theorem HandsOut.outlasted (hands : HandsOut tree s) (sound : Sound tree strict s) {p : Pid}
    {g : Group} (on : s.onRtRq (.task p) = true) (path : OnPath tree (s.group p) g)
    (throttled : (s.rq g).rtThrottled = true) :
    ∃ q, s.onRtRq (.task q) = true ∧ s.prio q ≠ s.normalPrio q ∧ OnPath tree (s.group q) g ∧
      s.prio p ≤ s.prio q := by
  induction hands with
  | empty nobody => exact absurd on (by simp [nobody p])
  | @next s first offered rest ih =>
      obtain ⟨eligible, best⟩ := sound.pick_eligible offered
      by_cases same : p = first
      · subst same
        obtain ⟨q, onQ, boosted, pathQ⟩ := ((sound.eligible_iff p).mp eligible).2 g path throttled
        exact ⟨q, onQ, boosted, pathQ, best q (sound.boosted_eligible onQ boosted)⟩
      · obtain ⟨kept, left⟩ := sound.take_offered offered
        have found := ih (sound.dequeueTask first).1 ((left p).mpr ⟨on, same⟩)
          (by rwa [kept.group]) (by rwa [kept.throttled g])
        obtain ⟨q, onQ, boosted, pathQ, later⟩ := found
        rw [kept.prio] at boosted later
        rw [kept.normalPrio] at boosted
        rw [kept.group] at pathQ
        exact ⟨q, ((left q).mp onQ).1, boosted, pathQ, later⟩

/-- Everything is handed out when each task in a throttled group is boosted, or
has a boosted one of a worse priority in the group. -/
theorem Sound.handsOut {s : State Group} (sound : Sound tree strict s) (queued : List Pid)
    (listed : ∀ p, s.onRtRq (.task p) = true → p ∈ queued)
    (valid : ∀ p, s.onRtRq (.task p) = true → s.prio p < maxRtPrio)
    (outlasts : ∀ p, s.onRtRq (.task p) = true → s.prio p = s.normalPrio p →
      ∀ g, OnPath tree (s.group p) g → (s.rq g).rtThrottled = true →
        ∃ q, s.onRtRq (.task q) = true ∧ s.prio q ≠ s.normalPrio q ∧
          OnPath tree (s.group q) g ∧ s.prio p < s.prio q) : HandsOut tree s := by
  have everybody (p : Pid) (on : s.onRtRq (.task p) = true) : Eligible tree s p := by
    by_cases boosted : s.prio p = s.normalPrio p
    · refine (sound.eligible_iff p).mpr ⟨on, fun g path throttled => ?_⟩
      obtain ⟨q, onQ, boostedQ, pathQ, -⟩ := outlasts p on boosted g path throttled
      exact ⟨q, onQ, boostedQ, pathQ⟩
    · exact sound.boosted_eligible on boosted
  by_cases some_on : ∃ p, s.onRtRq (.task p) = true
  swap
  · refine .empty fun p => ?_
    by_contra on
    exact some_on ⟨p, by simpa using on⟩
  obtain ⟨any, onAny⟩ := some_on
  obtain ⟨first, offered, -⟩ := sound.pick_offers (everybody any onAny) (valid any onAny)
  obtain ⟨kept, left⟩ := sound.take_offered offered
  obtain ⟨⟨onFirst, -⟩, best⟩ := sound.pick_eligible offered
  have shorter : (queued.erase first).length < queued.length := by
    rw [List.length_erase_of_mem (listed first onFirst)]
    exact Nat.sub_one_lt_of_lt (List.length_pos_of_mem (listed first onFirst))
  refine .next offered ((sound.dequeueTask first).1.handsOut (queued.erase first) ?_ ?_ ?_)
  · intro p on
    obtain ⟨was, other⟩ := (left p).mp on
    exact (List.mem_erase_of_ne other).mpr (listed p was)
  · intro p on
    rw [kept.prio]
    exact valid p ((left p).mp on).1
  · -- the first task is no worse than any other, so it outlasts none of them
    intro p on plain g path throttled
    rw [kept.prio, kept.normalPrio] at plain
    rw [kept.group] at path
    rw [kept.throttled g] at throttled
    obtain ⟨was, -⟩ := (left p).mp on
    obtain ⟨q, onQ, boosted, pathQ, worse⟩ := outlasts p was plain g path throttled
    have notFirst : q ≠ first := by
      rintro rfl
      exact Nat.lt_irrefl _ (worse.trans_le (best p (everybody p was)))
    refine ⟨q, (left q).mpr ⟨onQ, notFirst⟩, ?_, ?_, ?_⟩
    · rwa [kept.prio, kept.normalPrio]
    · rwa [kept.group]
    · rwa [kept.prio]
termination_by queued.length

end HandsOut

end AndroidKernel.RtGroups
