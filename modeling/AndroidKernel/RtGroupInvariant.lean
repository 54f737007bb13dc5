import Mathlib.Data.List.Count
import AndroidKernel.RtGroups

/-!
The invariant of the grouped real-time runqueues: every counter, bitmap and
`highest_prio` is that of the queue, and a group is queued exactly when it has
something to run and is not throttled. Taking the entities of a path off from
the top down and putting them back from the bottom up keeps it, although the
priority of each depends on the one below.
-/

namespace AndroidKernel.RtGroups

universe u
variable {Group : Type u}

/-- `strict` says whether only priorities below the limit have been enqueued. -/
structure QueueOk (strict : Prop) (key : Entity Group → Option Nat)
    (boosted : Entity Group → Bool) (rq : GroupRq Group) : Prop where
  holds : rq.active.Represents key
  below : strict → ∀ e prio, key e = some prio → prio < maxRtPrio
  counted : ∃ members, PrioArray.Lists members key ∧ rq.rtNrRunning = members.length ∧
    rq.rtNrBoosted = members.countP boosted
  highest : rq.highestPrio = rq.active.findFirst maxRtPrio

section Runqueue
variable {strict : Prop} {key : Entity Group → Option Nat} {boosted : Entity Group → Bool}
  {rq : GroupRq Group} {e : Entity Group} {prio : Nat}

theorem QueueOk.nr_pos (ok : QueueOk strict key boosted rq) (here : key e = some prio) :
    rq.rtNrRunning ≠ 0 := by
  obtain ⟨members, lists, running, -⟩ := ok.counted
  have member : e ∈ members := (lists.mem_iff e).mpr (by rw [here]; exact Option.some_ne_none prio)
  rw [running]
  exact (List.length_pos_of_mem member).ne'

theorem QueueOk.highest_lt (ok : QueueOk strict key boosted rq) (isStrict : strict)
    (some_run : rq.rtNrRunning ≠ 0) : rq.highestPrio < maxRtPrio := by
  obtain ⟨members, lists, running, -⟩ := ok.counted
  rw [running] at some_run
  obtain ⟨e, member⟩ := List.exists_mem_of_length_pos (Nat.pos_of_ne_zero some_run)
  obtain ⟨prio, here⟩ := Option.ne_none_iff_exists'.mp ((lists.mem_iff e).mp member)
  have below := ok.below isStrict e prio here
  rw [ok.highest]
  exact (ok.holds.findFirst_le here below).trans_lt below

theorem QueueOk.congr (ok : QueueOk strict key boosted rq) {other : Entity Group → Bool}
    (same : ∀ e, key e ≠ none → other e = boosted e) : QueueOk strict key other rq where
  holds := ok.holds
  below := ok.below
  highest := ok.highest
  counted := by
    obtain ⟨members, lists, running, count⟩ := ok.counted
    refine ⟨members, lists, running, count.trans (List.countP_congr fun e member => ?_)⟩
    rw [same e ((lists.mem_iff e).mp member)]

theorem incRtPrio_highest (prio : Nat) (rq : GroupRq Group) :
    incRtPrio prio rq = { rq with highestPrio := min rq.highestPrio prio } := by
  simp only [incRtPrio]
  split_ifs with better
  · rw [min_eq_right better.le]
  · rw [min_eq_left (not_lt.mp better)]

variable [DecidableEq Group]

theorem QueueOk.enqueue (ok : QueueOk strict key boosted rq) (fresh : key e = none)
    (valid : strict → prio < maxRtPrio) (head : Bool) :
    QueueOk strict (Function.update key e (some prio)) boosted
        (incRtTasks prio (boosted e)
          { rq with active := rq.active.insert head prio e }).1 ∧
      (strict → (incRtTasks prio (boosted e)
        { rq with active := rq.active.insert head prio e }).2 = false) := by
  constructor
  · obtain ⟨members, lists, running, count⟩ := ok.counted
    have holds := ok.holds.insert fresh head prio
    have first : (rq.active.insert head prio e).findFirst maxRtPrio =
        min (rq.active.findFirst maxRtPrio) prio := PrioArray.findFirst_insert maxRtPrio head
    have boosts : (e :: members).countP boosted =
        (if boosted e then rq.rtNrBoosted + 1 else rq.rtNrBoosted) := by
      rw [List.countP_cons, count]
      split_ifs <;> rfl
    refine ⟨?_, fun isStrict other at_ here => ?_,
      ⟨e :: members, lists.insert fresh prio, ?_, ?_⟩, ?_⟩
    · simp only [incRtTasks, incRtPrio_highest, incRtGroup]
      split_ifs <;> exact holds
    · by_cases same : other = e
      · subst same
        rw [Function.update_self] at here
        rw [← Option.some.inj here]
        exact valid isStrict
      · rw [Function.update_of_ne same] at here
        exact ok.below isStrict other at_ here
    · simp only [incRtTasks, incRtPrio_highest, incRtGroup]
      split_ifs <;> simp [running]
    · rw [boosts]
      simp only [incRtTasks, incRtPrio_highest, incRtGroup]
      split_ifs <;> rfl
    · simp only [incRtTasks, incRtPrio_highest, incRtGroup]
      split_ifs <;> exact (by rw [first, ok.highest])
  · exact fun isStrict => decide_eq_false (not_le.mpr (valid isStrict))

omit [DecidableEq Group] in
theorem decRtTasks_fields (prio : Nat) (boosts : Bool) (rq : GroupRq Group) :
    let dec := (decRtTasks prio boosts rq).1
    dec.active = rq.active ∧ dec.rtNrRunning = rq.rtNrRunning - 1 ∧
      dec.rtNrBoosted = (if boosts then rq.rtNrBoosted - 1 else rq.rtNrBoosted) ∧
      dec.rtThrottled = rq.rtThrottled ∧
      dec.highestPrio =
        (decRtPrio prio { rq with rtNrRunning := rq.rtNrRunning - 1 }).1.highestPrio := by
  simp only [decRtTasks, decRtGroup, decRtPrio]
  split_ifs <;> simp

omit [DecidableEq Group] in
theorem decRtTasks_warns (prio : Nat) (boosts : Bool) (rq : GroupRq Group) :
    (decRtTasks prio boosts rq).2 =
      (decide (maxRtPrio ≤ prio ∨ rq.rtNrRunning = 0) ||
        (decRtPrio prio { rq with rtNrRunning := rq.rtNrRunning - 1 }).2 ||
        decide (rq.rtNrRunning - 1 = 0 ∧
          (if boosts then rq.rtNrBoosted - 1 else rq.rtNrBoosted) ≠ 0)) := by
  simp only [decRtTasks, decRtGroup, decRtPrio]
  cases boosts <;> split_ifs <;> rfl

theorem QueueOk.dec_highest (ok : QueueOk strict key boosted rq) (here : key e = some prio)
    {members : List (Entity Group)} (lists : PrioArray.Lists members key)
    (running : rq.rtNrRunning = members.length) :
    let less := decRtPrio prio
      { rq with active := rq.active.remove prio e, rtNrRunning := rq.rtNrRunning - 1 }
    less.1.highestPrio = (rq.active.remove prio e).findFirst maxRtPrio ∧ less.2 = false := by
  have first := ok.holds.findFirst_le_key maxRtPrio here
  have left : (members.erase e).length = rq.rtNrRunning - 1 := by
    rw [running]
    exact List.length_erase_of_mem ((lists.mem_iff e).mpr (by simp [here]))
  by_cases last : rq.rtNrRunning - 1 = 0
  · have nobody : members.erase e = [] := List.eq_nil_of_length_eq_zero (left.trans last)
    have gone (other : Entity Group) : Function.update key e none other = none := by
      by_contra remains
      have member := ((lists.remove e).mem_iff other).mpr remains
      rw [nobody] at member
      exact List.not_mem_nil member
    simp only [decRtPrio, last, ne_eq, not_true_eq_false, if_false, and_true]
    exact ((ok.holds.remove here).findFirst_none gone maxRtPrio).symm
  · simp only [decRtPrio, last, ne_eq, not_false_eq_true, if_true]
    constructor
    · split_ifs with was
      · rfl
      · rw [ok.highest] at was ⊢
        exact (ok.holds.findFirst_remove here was).symm
    · rw [ok.highest]
      exact decide_eq_false (not_lt.mpr first)

theorem QueueOk.dequeue (ok : QueueOk strict key boosted rq) (here : key e = some prio) :
    QueueOk strict (Function.update key e none) boosted
        (decRtTasks prio (boosted e) { rq with active := rq.active.remove prio e }).1 ∧
      (strict →
        (decRtTasks prio (boosted e) { rq with active := rq.active.remove prio e }).2 = false) := by
  obtain ⟨members, lists, running, count⟩ := ok.counted
  have member : e ∈ members := (lists.mem_iff e).mpr (by simp [here])
  obtain ⟨highest, silent⟩ := ok.dec_highest here lists running
  obtain ⟨active, nr, boosts, -, top⟩ := decRtTasks_fields prio (boosted e)
    { rq with active := rq.active.remove prio e }
  have length : (members.erase e).length = rq.rtNrRunning - 1 := by
    rw [running, List.length_erase_of_mem member]
  have erased : (members.erase e).countP boosted =
      (if boosted e then rq.rtNrBoosted - 1 else rq.rtNrBoosted) := by
    rw [List.countP_erase, count]
    cases boosted e <;> simp [member]
  constructor
  · refine ⟨?_, fun isStrict other at_ there => ?_,
      ⟨members.erase e, lists.remove e, ?_, ?_⟩, ?_⟩
    · rw [active]
      exact ok.holds.remove here
    · by_cases same : other = e
      · simp [same] at there
      · rw [Function.update_of_ne same] at there
        exact ok.below isStrict other at_ there
    · rw [nr, length]
    · rw [boosts, erased]
    · rw [top, active]
      exact highest
  · intro isStrict
    have bounded : ¬ (maxRtPrio ≤ prio ∨ rq.rtNrRunning = 0) :=
      not_or.mpr ⟨not_le.mpr (ok.below isStrict e prio here), ok.nr_pos here⟩
    have nobody : ¬ (rq.rtNrRunning - 1 = 0 ∧
        (if boosted e then rq.rtNrBoosted - 1 else rq.rtNrBoosted) ≠ 0) := by
      rintro ⟨last, remains⟩
      rw [List.eq_nil_of_length_eq_zero (length.trans last)] at erased
      exact remains erased.symm
    rw [decRtTasks_warns]
    simp only [decide_eq_false bounded, silent, decide_eq_false nobody, Bool.or_self]

end Runqueue

theorem Entity.task_ne_group (p : Pid) (g : Group) : (.task p : Entity Group) ≠ .group g := by
  simp

namespace Hierarchy
variable (tree : Hierarchy Group)

theorem induction {motive : Group → Prop} (root : motive tree.root)
    (step : ∀ g, g ≠ tree.root → motive (tree.parent g) → motive g) (g : Group) : motive g := by
  induction length : (tree.above g).length using Nat.strong_induction_on generalizing g with
  | _ n ih =>
      by_cases top : g = tree.root
      · rw [top]
        exact root
      · apply step g top
        apply ih (tree.above (tree.parent g)).length _ _ rfl
        rw [← length, tree.above_cons g top, List.length_cons]
        exact Nat.lt_succ_self _

theorem above_ne_root (g : Group) : ∀ h ∈ tree.above g, h ≠ tree.root := by
  induction g using tree.induction with
  | root =>
      rw [tree.above_root]
      exact fun h member => absurd member List.not_mem_nil
  | step g notRoot ih =>
      rw [tree.above_cons g notRoot]
      exact List.forall_mem_cons.mpr ⟨notRoot, ih⟩

theorem length_le_of_mem {g h : Group} (member : h ∈ tree.above g) :
    (tree.above h).length ≤ (tree.above g).length := by
  induction g using tree.induction with
  | root =>
      rw [tree.above_root] at member
      exact absurd member List.not_mem_nil
  | step g notRoot ih =>
      rw [tree.above_cons g notRoot] at member
      rcases List.mem_cons.mp member with rfl | later
      · exact le_rfl
      · rw [tree.above_cons g notRoot, List.length_cons]
        exact (ih later).trans (Nat.le_succ _)

theorem not_mem_above_parent {g : Group} (notRoot : g ≠ tree.root) :
    g ∉ tree.above (tree.parent g) := by
  intro member
  have shorter := tree.length_le_of_mem member
  rw [tree.above_cons g notRoot, List.length_cons] at shorter
  exact Nat.not_succ_le_self _ shorter

theorem self_mem_above {g : Group} (notRoot : g ≠ tree.root) : g ∈ tree.above g := by
  rw [tree.above_cons g notRoot]
  exact List.mem_cons_self

theorem parent_ne {g : Group} (notRoot : g ≠ tree.root) : tree.parent g ≠ g := by
  intro same
  have member := tree.self_mem_above notRoot
  have absent := tree.not_mem_above_parent notRoot
  rw [same] at absent
  exact absent member

end Hierarchy

section Invariant
variable [DecidableEq Group] (tree : Hierarchy Group)

def key (s : State Group) (g : Group) (e : Entity Group) : Option Nat :=
  if s.onRtRq e = true ∧ rtRqOfSe tree s e = g then some (rtSePrio s e) else none

/-- What holds also while a path is taken off and put back. -/
structure Shape (strict : Prop) (s : State Group) : Prop where
  queue : ∀ g, QueueOk strict (key tree s g) (rtSeBoosted s) (s.rq g)
  leaf_unique : s.leafRtRqList.Nodup
  leaf : ∀ g, g ∈ s.leafRtRqList ↔ (s.rq g).rtNrRunning ≠ 0
  root_off : s.onRtRq (.group tree.root) = false
  on_running : ∀ g, s.onRtRq (.group g) = true → (s.rq g).rtNrRunning ≠ 0
  silent : strict → s.warned = false

/-- A group is queued exactly when it has something to run and is not throttled. -/
def Linked (s : State Group) (g : Group) : Prop :=
  s.onRtRq (.group g) = true ↔ (s.rq g).rtNrRunning ≠ 0 ∧ rtRqThrottled s g = false

structure Sound (strict : Prop) (s : State Group) : Prop extends Shape tree strict s where
  linked : ∀ g, g ≠ tree.root → Linked s g

variable {tree} {strict : Prop} {s next : State Group} {e : Entity Group}

theorem key_of_on (tree : Hierarchy Group) {g : Group} (on : s.onRtRq e = true)
    (owner : rtRqOfSe tree s e = g) :
    key tree s g e = some (rtSePrio s e) := if_pos ⟨on, owner⟩

theorem key_of_off {g : Group} (off : s.onRtRq e = false) : key tree s g e = none :=
  if_neg fun both => Bool.false_ne_true (off.symm.trans both.1)

theorem key_of_foreign {g : Group} (foreign : rtRqOfSe tree s e ≠ g) : key tree s g e = none :=
  if_neg fun both => foreign both.2

structure Touches (tree : Hierarchy Group) (s next : State Group) (e : Entity Group)
    (present : Bool) : Prop where
  prio : next.prio = s.prio
  normalPrio : next.normalPrio = s.normalPrio
  group : next.group = s.group
  throttled : ∀ g, (next.rq g).rtThrottled = (s.rq g).rtThrottled
  rq : ∀ g, g ≠ rtRqOfSe tree s e → next.rq g = s.rq g
  on : next.onRtRq = Function.update s.onRtRq e present

section Touches
variable {present : Bool}

theorem Touches.owner (touches : Touches tree s next e present) (other : Entity Group) :
    rtRqOfSe tree next other = rtRqOfSe tree s other := by
  cases other with
  | task p => exact congrFun touches.group p
  | group g => rfl

theorem Touches.on_other (touches : Touches tree s next e present) {other : Entity Group}
    (differ : other ≠ e) : next.onRtRq other = s.onRtRq other := by
  rw [touches.on, Function.update_of_ne differ]

theorem Touches.se_prio (touches : Touches tree s next e present) {other : Entity Group}
    (differ : other ≠ .group (rtRqOfSe tree s e)) : rtSePrio next other = rtSePrio s other := by
  cases other with
  | task p => exact congrFun touches.prio p
  | group g =>
      have elsewhere : g ≠ rtRqOfSe tree s e := fun same => differ (congrArg Entity.group same)
      exact congrArg GroupRq.highestPrio (touches.rq g elsewhere)

theorem Touches.se_boosted (touches : Touches tree s next e present)
    {other : Entity Group} (differ : other ≠ .group (rtRqOfSe tree s e)) :
    rtSeBoosted next other = rtSeBoosted s other := by
  cases other with
  | task p => simp only [rtSeBoosted, touches.prio, touches.normalPrio]
  | group g =>
      have elsewhere : g ≠ rtRqOfSe tree s e := fun same => differ (congrArg Entity.group same)
      simp only [rtSeBoosted, touches.rq g elsewhere]

/-- The keys change at the entity alone, if that of its runqueue is off. -/
theorem Touches.key (touches : Touches tree s next e present)
    (owner_off : s.onRtRq (.group (rtRqOfSe tree s e)) = false)
    (outside : e ≠ .group (rtRqOfSe tree s e)) (g : Group) :
    key tree next g =
      if g = rtRqOfSe tree s e then
        Function.update (key tree s g) e (if present then some (rtSePrio s e) else none)
      else key tree s g := by
  funext other
  by_cases this : other = e
  · subst this
    have on : next.onRtRq other = present := by rw [touches.on, Function.update_self]
    simp only [RtGroups.key, on, touches.owner, touches.se_prio outside]
    by_cases here : g = rtRqOfSe tree s other
    · subst here
      simp
    · rw [if_neg here, key_of_foreign fun same => here same.symm]
      exact if_neg fun both => here both.2.symm
  · have same : RtGroups.key tree next g other = RtGroups.key tree s g other := by
      by_cases special : other = .group (rtRqOfSe tree s e)
      · subst special
        rw [key_of_off ((touches.on_other this).trans owner_off), key_of_off owner_off]
      · simp only [RtGroups.key, touches.on_other this, touches.owner, touches.se_prio special]
    by_cases here : g = rtRqOfSe tree s e
    · rw [same, if_pos here, Function.update_of_ne this]
    · rw [same, if_neg here]

end Touches

omit [DecidableEq Group] in
theorem incRtTasks_fields (prio : Nat) (boosts : Bool) (rq : GroupRq Group) :
    (incRtTasks prio boosts rq).1.rtNrRunning = rq.rtNrRunning + 1 ∧
      (incRtTasks prio boosts rq).1.rtThrottled = rq.rtThrottled := by
  simp only [incRtTasks, incRtPrio_highest, incRtGroup]
  split_ifs <;> exact ⟨rfl, rfl⟩

theorem enqueueOne_touches (tree : Hierarchy Group) (head : Bool) (taken : refused s e = false) :
    Touches tree s (enqueueOne tree s head e) e true := by
  have unfolded : ¬ refused s e = true := by
    rw [taken]
    exact Bool.false_ne_true
  simp only [enqueueOne, if_neg unfolded]
  refine ⟨rfl, rfl, rfl, fun g => ?_, fun g other => Function.update_of_ne other _ _, rfl⟩
  by_cases here : g = rtRqOfSe tree s e
  · rw [here]
    simp only [Function.update_self]
    exact (incRtTasks_fields _ _ _).2
  · simp only [Function.update_of_ne here]

theorem dequeueOne_touches (tree : Hierarchy Group) (s : State Group) (e : Entity Group) :
    Touches tree s (dequeueOne tree s e) e false := by
  refine ⟨rfl, rfl, rfl, fun g => ?_, fun g other => Function.update_of_ne other _ _, rfl⟩
  by_cases here : g = rtRqOfSe tree s e
  · rw [here]
    simp only [dequeueOne, Function.update_self]
    exact (decRtTasks_fields _ _ _).2.2.2.1
  · simp only [dequeueOne, Function.update_of_ne here]

theorem Touches.queue {present : Bool} (touches : Touches tree s next e present)
    (shape : Shape tree strict s) (owner_off : s.onRtRq (.group (rtRqOfSe tree s e)) = false)
    (outside : e ≠ .group (rtRqOfSe tree s e))
    (here : QueueOk strict (Function.update (RtGroups.key tree s (rtRqOfSe tree s e)) e
      (if present then some (rtSePrio s e) else none)) (rtSeBoosted s)
      (next.rq (rtRqOfSe tree s e))) (g : Group) :
    QueueOk strict (RtGroups.key tree next g) (rtSeBoosted next) (next.rq g) := by
  have steady (other : Entity Group) (queued : RtGroups.key tree next g other ≠ none) :
      rtSeBoosted next other = rtSeBoosted s other := by
    apply touches.se_boosted
    rintro rfl
    have off : next.onRtRq (.group (rtRqOfSe tree s e)) = false := by
      rw [touches.on_other (Ne.symm outside)]
      exact owner_off
    exact queued (key_of_off off)
  have keys := touches.key owner_off outside g
  by_cases same : g = rtRqOfSe tree s e
  · rw [if_pos same] at keys
    rw [keys] at steady ⊢
    subst same
    exact here.congr steady
  · rw [if_neg same] at keys
    rw [keys] at steady ⊢
    rw [touches.rq g same]
    exact (shape.queue g).congr steady

theorem Shape.enqueueOne (shape : Shape tree strict s) (head : Bool) (off : s.onRtRq e = false)
    (owner_off : s.onRtRq (.group (rtRqOfSe tree s e)) = false)
    (outside : e ≠ .group (rtRqOfSe tree s e)) (notRoot : e ≠ .group tree.root)
    (valid : strict → ∀ p, e = .task p → s.prio p < maxRtPrio) :
    Shape tree strict (enqueueOne tree s head e) := by
  cases taken : refused s e with
  | true =>
      rw [RtGroups.enqueueOne, if_pos taken]
      exact shape
  | false =>
      have unfolded : ¬ refused s e = true := by
        rw [taken]
        exact Bool.false_ne_true
      have touches := enqueueOne_touches tree head taken
      have busy (g : Group) (same : e = .group g) : (s.rq g).rtNrRunning ≠ 0 := by
        subst same
        simp only [refused, Bool.or_eq_false_iff, decide_eq_false_iff_not] at taken
        exact taken.2
      have below (isStrict : strict) : rtSePrio s e < maxRtPrio := by
        cases e with
        | task p => exact valid isStrict p rfl
        | group g => exact (shape.queue g).highest_lt isStrict (busy g rfl)
      have ok := (shape.queue (rtRqOfSe tree s e)).enqueue (key_of_off off) below head
      have rq : (RtGroups.enqueueOne tree s head e).rq (rtRqOfSe tree s e) =
          (incRtTasks (rtSePrio s e) (rtSeBoosted s e)
            { s.rq (rtRqOfSe tree s e) with
              active := (s.rq (rtRqOfSe tree s e)).active.insert head (rtSePrio s e) e }).1 := by
        simp only [RtGroups.enqueueOne, if_neg unfolded, Function.update_self]
      have more : ((RtGroups.enqueueOne tree s head e).rq (rtRqOfSe tree s e)).rtNrRunning =
          (s.rq (rtRqOfSe tree s e)).rtNrRunning + 1 := by
        rw [rq]
        exact (incRtTasks_fields _ _ _).1
      have list : (RtGroups.enqueueOne tree s head e).leafRtRqList =
          if (s.rq (rtRqOfSe tree s e)).rtNrRunning = 0 then rtRqOfSe tree s e :: s.leafRtRqList
          else s.leafRtRqList := by
        simp only [RtGroups.enqueueOne, if_neg unfolded]
      refine ⟨touches.queue shape owner_off outside ?_, ?_, fun g => ?_, ?_, fun g on => ?_,
        fun isStrict => ?_⟩
      · rw [rq]
        exact ok.1
      · rw [list]
        split_ifs with first
        · refine List.nodup_cons.mpr ⟨fun member => ?_, shape.leaf_unique⟩
          exact (shape.leaf _).mp member first
        · exact shape.leaf_unique
      · rw [list]
        by_cases here : g = rtRqOfSe tree s e
        · rw [here, more]
          split_ifs with first
          · simp
          · simp [(shape.leaf _).mpr first]
        · rw [touches.rq g here, ← shape.leaf g]
          split_ifs
          · simp [here]
          · rfl
      · rw [touches.on_other (Ne.symm notRoot)]
        exact shape.root_off
      · by_cases here : g = rtRqOfSe tree s e
        · rw [here, more]
          exact Nat.succ_ne_zero _
        · rw [touches.rq g here]
          by_cases this : (.group g : Entity Group) = e
          · exact busy g this.symm
          · exact shape.on_running g ((touches.on_other this).symm.trans on)
      · simp only [RtGroups.enqueueOne, if_neg unfolded, shape.silent isStrict, ok.2 isStrict,
          Bool.or_self]

theorem Shape.dequeueOne (shape : Shape tree strict s) (on : s.onRtRq e = true)
    (owner_off : s.onRtRq (.group (rtRqOfSe tree s e)) = false)
    (outside : e ≠ .group (rtRqOfSe tree s e)) : Shape tree strict (dequeueOne tree s e) := by
  have touches := dequeueOne_touches tree s e
  have here := key_of_on tree on rfl
  have ok := (shape.queue (rtRqOfSe tree s e)).dequeue here
  have was := (shape.queue (rtRqOfSe tree s e)).nr_pos here
  have rq : (RtGroups.dequeueOne tree s e).rq (rtRqOfSe tree s e) =
      (decRtTasks (rtSePrio s e) (rtSeBoosted s e)
        { s.rq (rtRqOfSe tree s e) with
          active := (s.rq (rtRqOfSe tree s e)).active.remove (rtSePrio s e) e }).1 := by
    simp only [RtGroups.dequeueOne, Function.update_self]
  have list : (RtGroups.dequeueOne tree s e).leafRtRqList =
      if ((RtGroups.dequeueOne tree s e).rq (rtRqOfSe tree s e)).rtNrRunning = 0
      then s.leafRtRqList.erase (rtRqOfSe tree s e) else s.leafRtRqList := by
    rw [rq]
    rfl
  have listed := (shape.leaf (rtRqOfSe tree s e)).mpr was
  refine ⟨touches.queue shape owner_off outside ?_, ?_, fun g => ?_, ?_, fun g still => ?_,
    fun isStrict => ?_⟩
  · rw [rq]
    exact ok.1
  · rw [list]
    split_ifs
    · exact shape.leaf_unique.erase _
    · exact shape.leaf_unique
  · rw [list]
    by_cases here : g = rtRqOfSe tree s e
    · rw [here]
      split_ifs with last
      · simp [shape.leaf_unique.mem_erase_iff, last]
      · simp [listed, last]
    · rw [touches.rq g here, ← shape.leaf g]
      split_ifs
      · simp [shape.leaf_unique.mem_erase_iff, here]
      · rfl
  · by_cases this : e = .group tree.root
    · rw [touches.on, this, Function.update_self]
    · rw [touches.on_other (Ne.symm this)]
      exact shape.root_off
  · have other : (.group g : Entity Group) ≠ e := by
      rintro rfl
      rw [touches.on, Function.update_self] at still
      exact Bool.false_ne_true still
    rw [touches.on_other other] at still
    have elsewhere : g ≠ rtRqOfSe tree s e := by
      rintro rfl
      exact Bool.false_ne_true (owner_off.symm.trans still)
    rw [touches.rq g elsewhere]
    exact shape.on_running g still
  · simp only [RtGroups.dequeueOne, shape.silent isStrict, ok.2 isStrict, Bool.or_self]

end Invariant

end AndroidKernel.RtGroups
