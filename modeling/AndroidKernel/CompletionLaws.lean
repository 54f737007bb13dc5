import AndroidKernel.CompletionInvariant

/-!
What holds of a completion in every interleaving of its waiters with `complete`,
`complete_all`, timers and signals: no wait is granted twice or without a post,
no post is slept through, and the value a wait returns says how it ended.
-/

namespace AndroidKernel.Completion

inductive Ends (scheduleTimeout : ScheduleTimeout) (s : State) (p : Pid) :
    Call → Nat → State → Int → Prop where
  | atOnce {call : Call} {next : State} {value : Int} (out : s.inside p = none)
      (ends : doWaitForCommon s p call.timeout call.state = (next, some value)) :
      Ends scheduleTimeout s p call s.jiffies next value
  | later {wait : Wait} {next : State} {value : Int} (found : s.inside p = some wait)
      (ends : resume scheduleTimeout s p wait = (next, some value)) :
      Ends scheduleTimeout s p ⟨wait.timeout, wait.state⟩ wait.since next value

section Runs
variable {scheduleTimeout : ScheduleTimeout} {start s : State} {ops : List Op}

theorem reachable_sound (init : Init start)
    (run : Transition.Run (step scheduleTimeout) Allowed start ops s) : Sound s :=
  run.invariant (fun _ _ _ sound allowed moved => sound.step allowed moved) init.sound

/-- Waits never take more than was posted, even when the counter wraps; without
a wrap nothing is lost either. The list holds the threads inside a wait, each
once, so no entry outlives the stack frame it is on. -/
theorem completions_counted (init : Init start)
    (run : Transition.Run (step scheduleTimeout) Allowed start ops s) :
    s.done + s.granted ≤ s.posted ∧
      (s.posted < 2 ^ 32 → s.done + s.granted = s.posted) ∧
      (s.taskList.map WaitEntry.task).Nodup ∧
      ∀ p, p ∈ s.taskList.map WaitEntry.task ↔ s.inside p ≠ none := by
  have sound := reachable_sound init run
  have covered := sound.covered
  have counted := sound.counted
  exact ⟨covered, fun small => by omega, sound.unique, sound.listed⟩

/-- No completion is slept through: as many waiters as completions are left are
awake, or all are. One that runs takes. -/
theorem no_lost_completion (init : Init start)
    (run : Transition.Run (step scheduleTimeout) Allowed start ops s) :
    min s.done s.taskList.length ≤ awake s ∧
      (s.done ≠ 0 → s.taskList ≠ [] → ∃ p wait, s.inside p = some wait ∧ s.state p = 0) ∧
      (s.done ≠ 0 → ∀ p wait, s.inside p = some wait →
        ∃ value, resume scheduleTimeout s p wait = take (removed s p) value) := by
  have sound := reachable_sound init run
  refine ⟨sound.attended, fun some_left waiting => ?_, fun some_left p wait found => ?_⟩
  · have attended := sound.attended
    have listed := List.length_pos_of_ne_nil waiting
    have positive : 0 < awake s := by omega
    obtain ⟨entry, member, zero⟩ := List.countP_pos_iff.mp positive
    have inside := (sound.listed entry.task).mp (List.mem_map_of_mem member)
    obtain ⟨wait, found⟩ := Option.ne_none_iff_exists'.mp inside
    exact ⟨entry.task, wait, found, by simpa using zero⟩
  · rcases resume_cases scheduleTimeout s p wait with
      ⟨-, taken⟩ | ⟨none_left, -, -⟩ | ⟨none_left, -, -⟩ | ⟨none_left, -, -⟩
    · exact ⟨_, taken⟩
    all_goals exact absurd none_left some_left

theorem reachable_clocked (spec : TimeoutSpec scheduleTimeout) (init : Init start)
    (run : Transition.Run (step scheduleTimeout) Allowed start ops s) : Clocked s := by
  have both : Sound s ∧ Clocked s := by
    apply run.invariant _ ⟨init.sound, fun p wait found => by simp [init.inside] at found⟩
    intro state op next kept allowed moved
    exact ⟨kept.1.step allowed moved, kept.2.step spec kept.1 moved⟩
  exact both.2

/-- What a wait returns says how it ended, and a thread that has returned is on
no list. The timeout counts from its arrival, whatever woke it in between. -/
theorem wait_result (spec : TimeoutSpec scheduleTimeout) (init : Init start)
    (run : Transition.Run (step scheduleTimeout) Allowed start ops s)
    {p : Pid} {call : Call} {since : Nat} {next : State} {value : Int}
    (ends : Ends scheduleTimeout s p call since next value) (nonneg : 0 ≤ call.timeout)
    (small : call.timeout ≤ maxScheduleTimeout) :
    p ∉ next.taskList.map WaitEntry.task ∧
      ((value = 0 ∧ call.timeout ≠ maxScheduleTimeout ∧ since + call.timeout ≤ s.jiffies ∧
          next.granted = s.granted) ∨
        (value = -erestartsys ∧ signalPendingState s call.state p = true ∧
          next.granted = s.granted) ∨
        (0 < value ∧ value ≤ max 1 call.timeout ∧ next.granted = s.granted + 1 ∧
          s.done = next.done + 1)) := by
  have sound := reachable_sound init run
  have clocked := reachable_clocked spec init run
  cases ends with
  | atOnce out ends =>
      rcases doWaitForCommon_cases sound.toQueue out call.timeout call.state with
        ⟨some_left, taken⟩ | ⟨-, signal, interrupted⟩ | ⟨-, slept⟩
      · rw [taken] at ends
        obtain ⟨rfl, same⟩ := Prod.mk.inj ends
        obtain rfl := Option.some.inj same
        refine ⟨sound.outside out, .inr (.inr ⟨?_, ?_, rfl, ?_⟩)⟩
        · split_ifs <;> omega
        · split_ifs <;> omega
        · show s.done = s.done - 1 + 1
          omega
      · rw [interrupted] at ends
        obtain ⟨rfl, same⟩ := Prod.mk.inj ends
        obtain rfl := Option.some.inj same
        exact ⟨sound.outside out, .inr (.inl ⟨rfl, signal, rfl⟩)⟩
      · rw [slept] at ends
        exact absurd (Prod.mk.inj ends).2 (Option.some_ne_none value).symm
  | @later wait _ _ found ends =>
      have gone : p ∉ (removed s p).taskList.map WaitEntry.task :=
        (sound.toQueue.removed p).outside (Function.update_self _ _ _)
      have remaining := (clocked p wait found).remaining spec nonneg small
      rcases resume_cases scheduleTimeout s p wait with
        ⟨some_left, taken⟩ | ⟨-, expired, left⟩ | ⟨-, signal, left⟩ | ⟨-, -, slept⟩
      · rw [taken] at ends
        obtain ⟨rfl, same⟩ := Prod.mk.inj ends
        obtain rfl := Option.some.inj same
        have came := (clocked p wait found).came
        have past := (clocked p wait found).past
        refine ⟨gone, .inr (.inr ⟨?_, ?_, rfl, ?_⟩)⟩
        · split_ifs <;> omega
        · show _ ≤ max 1 wait.timeout
          split_ifs <;> omega
        · show s.done = s.done - 1 + 1
          omega
      · rw [left] at ends
        obtain ⟨rfl, same⟩ := Prod.mk.inj ends
        obtain rfl := Option.some.inj same
        rcases remaining with ⟨endless, -⟩ | ⟨value, below⟩
        · rw [expired] at endless
          exact absurd endless (by decide)
        · refine ⟨gone, .inl ⟨rfl, below.ne, ?_, rfl⟩⟩
          show wait.since + wait.timeout ≤ (s.jiffies : Int)
          omega
      · rw [left] at ends
        obtain ⟨rfl, same⟩ := Prod.mk.inj ends
        obtain rfl := Option.some.inj same
        exact ⟨gone, .inr (.inl ⟨rfl, signal, rfl⟩)⟩
      · rw [slept] at ends
        exact absurd (Prod.mk.inj ends).2 (Option.some_ne_none value).symm

structure Ongoing (s next : State) : Prop where
  posted : s.posted ≤ next.posted
  granted : s.granted ≤ next.granted
  stays : s.done ≠ 0 → ∀ p wait, next.inside p = some wait →
    s.inside p = some wait ∧ (s.state p = 0 → next.state p = 0)

theorem Ongoing.woken {s after : State} (inside : after.inside = s.inside)
    (woken : ∀ p, s.inside p ≠ none → after.state p = s.state p ∨ after.state p = 0)
    (posted : s.posted ≤ after.posted) (granted : s.granted ≤ after.granted) :
    Ongoing s after where
  posted := posted
  granted := granted
  stays := by
    intro _ p wait found
    rw [inside] at found
    refine ⟨found, fun zero => ?_⟩
    rcases woken p (by rw [found]; exact Option.some_ne_none wait) with same | awake
    · rw [same, zero]
    · exact awake

theorem Sound.ongoing (sound : Sound s) {op : Op} {next : State}
    (moved : Completion.step scheduleTimeout s op = some next) : Ongoing s next := by
  cases op with
  | wait p call =>
      obtain ⟨⟨out, -⟩, moved⟩ := Option.ite_none_right_eq_some.mp moved
      obtain rfl := Option.some.inj moved
      rcases doWaitForCommon_cases sound.toQueue out call.timeout call.state with
        ⟨-, taken⟩ | ⟨-, -, interrupted⟩ | ⟨none_left, slept⟩
      · rw [taken]
        exact .woken rfl (fun _ _ => .inl rfl) le_rfl (Nat.le_succ _)
      · rw [interrupted]
        exact .woken rfl (fun _ _ => .inl rfl) le_rfl le_rfl
      · rw [slept]
        exact ⟨le_rfl, le_rfl, fun some_left => absurd none_left some_left⟩
  | resume p =>
      simp only [Completion.step] at moved
      cases found : s.inside p with
      | none => simp [found] at moved
      | some wait =>
          simp only [found] at moved
          obtain ⟨-, moved⟩ := Option.ite_none_right_eq_some.mp moved
          obtain rfl := Option.some.inj moved
          rcases resume_cases scheduleTimeout s p wait with
            ⟨-, taken⟩ | ⟨none_left, -, left⟩ | ⟨none_left, -, left⟩ | ⟨none_left, -, slept⟩
          · rw [taken]
            exact ⟨le_rfl, Nat.le_succ _, fun _ q waits found => ⟨removed_inside found, id⟩⟩
          · rw [left]
            exact ⟨le_rfl, le_rfl, fun some_left => absurd none_left some_left⟩
          · rw [left]
            exact ⟨le_rfl, le_rfl, fun some_left => absurd none_left some_left⟩
          · rw [slept]
            exact ⟨le_rfl, le_rfl, fun some_left => absurd none_left some_left⟩
  | tryWait =>
      obtain rfl := Option.some.inj moved
      simp only [tryWaitForCompletion]
      split_ifs
      · exact .woken rfl (fun _ _ => .inl rfl) le_rfl le_rfl
      · exact .woken rfl (fun _ _ => .inl rfl) le_rfl (Nat.le_succ _)
  | complete =>
      obtain rfl := Option.some.inj moved
      exact .woken rfl (fun p _ => sound.toQueue.complete_woken p) (Nat.le_succ _) le_rfl
  | completeAll =>
      obtain rfl := Option.some.inj moved
      obtain ⟨-, inside, -, granted⟩ := completeAll_fields s
      exact .woken inside (fun p _ => completeAll_woken s p) (Nat.le_add_right _ _) granted.ge
  | wake p mode =>
      obtain rfl := Option.some.inj moved
      exact .woken rfl (fun q _ => defaultWakeFunction_woken mode _ s.state q) le_rfl le_rfl
  | signals p pending kill =>
      obtain rfl := Option.some.inj moved
      exact .woken rfl (fun _ _ => .inl rfl) le_rfl le_rfl
  | tick =>
      obtain rfl := Option.some.inj moved
      exact .woken rfl (fun _ _ => .inl rfl) le_rfl le_rfl
  | elsewhere p state =>
      obtain ⟨out, moved⟩ := Option.ite_none_right_eq_some.mp moved
      obtain rfl := Option.some.inj moved
      refine .woken rfl (fun q inside => .inl ?_) le_rfl le_rfl
      have differ : q ≠ p := fun same => inside (same ▸ out)
      exact Function.update_of_ne differ _ _

structure Released (s t : State) : Prop where
  posted : s.posted + uintMax / 2 ≤ t.posted
  awake : t.posted < 2 ^ 32 → t.granted < s.granted + uintMax / 2 →
    ∀ p wait, t.inside p = some wait → s.inside p = some wait ∧ t.state p = 0

theorem Sound.released (sound : Sound s) : Released s (Completion.completeAll s) where
  posted := le_rfl
  awake := by
    intro _ _ p wait found
    rw [(completeAll_fields s).2.1] at found
    have listed := (sound.listed p).mpr (by rw [found]; exact Option.some_ne_none wait)
    obtain ⟨curr, member, rfl⟩ := List.mem_map.mp listed
    exact ⟨found, sound.toQueue.completeAll_awake member⟩

theorem Released.some_left {t : State} (released : Released s t) (before : Sound s)
    (sound : Sound t) (small : t.posted < 2 ^ 32) (few : t.granted < s.granted + uintMax / 2) :
    t.done ≠ 0 := by
  have covered := before.covered
  have posted := released.posted
  have counted := sound.counted
  have within := sound.covered
  omega

theorem Released.step {t next : State} (released : Released s t) (before : Sound s)
    (sound : Sound t) (ongoing : Ongoing t next) : Released s next where
  posted := released.posted.trans ongoing.posted
  awake := by
    intro small few p wait found
    have small' := ongoing.posted.trans_lt small
    have few' := ongoing.granted.trans_lt few
    obtain ⟨was, still⟩ := ongoing.stays (released.some_left before sound small' few') p wait found
    obtain ⟨old, zero⟩ := released.awake small' few' p wait was
    exact ⟨old, still zero⟩

/-- `complete_all` releases everybody: until as many waits as it posts have been
served, nobody comes to wait, those that waited are awake, and each of them
that runs takes and returns. -/
theorem complete_all_releases {t : State} {later : List Op} (init : Init start)
    (run : Transition.Run (step scheduleTimeout) Allowed start ops s)
    (onward : Transition.Run (step scheduleTimeout) Allowed (completeAll s) later t)
    (small : t.posted < 2 ^ 32) (few : t.granted < s.granted + uintMax / 2) {p : Pid} {wait : Wait}
    (found : t.inside p = some wait) :
    s.inside p = some wait ∧ t.state p = 0 ∧
      ∃ value, resume scheduleTimeout t p wait = take (removed t p) value := by
  have before := reachable_sound init run
  have both : Sound t ∧ Released s t := by
    apply onward.invariant _ ⟨before.completeAll, before.released⟩
    intro state op next kept allowed moved
    exact ⟨kept.1.step allowed moved, kept.2.step before kept.1 (kept.1.ongoing moved)⟩
  obtain ⟨sound, released⟩ := both
  obtain ⟨old, zero⟩ := released.awake small few p wait found
  have some_left := released.some_left before sound small few
  rcases resume_cases scheduleTimeout t p wait with
    ⟨-, taken⟩ | ⟨none_left, -, -⟩ | ⟨none_left, -, -⟩ | ⟨none_left, -, -⟩
  · exact ⟨old, zero, _, taken⟩
  all_goals exact absurd none_left some_left

end Runs

def fresh : State where
  done := 0
  taskList := []
  inside := fun _ => none
  state := fun _ => 0
  sigpending := fun _ => false
  sigkill := fun _ => false
  jiffies := 0
  posted := 0
  granted := 0

theorem fresh_init : Init fresh := ⟨rfl, rfl, fun _ => rfl, rfl, rfl⟩

def remainingTime : ScheduleTimeout := fun timeout slept now =>
  if timeout = maxScheduleTimeout then timeout
  else if timeout < 0 then 0
  else max 0 (slept + timeout - now)

theorem remainingTime_spec : TimeoutSpec remainingTime where
  endless _ _ := rfl
  remaining timeout slept now low below _ := by
    rw [remainingTime, if_neg below.ne, if_neg (not_lt.mpr low)]

def twoWaiting : State :=
  let one := (doWaitForCommon fresh 1 maxScheduleTimeout taskUninterruptible).1
  (doWaitForCommon one 2 maxScheduleTimeout taskUninterruptible).1

theorem twoWaiting_run : Transition.Run (step remainingTime) Allowed fresh
    [.wait 1 waitForCompletion, .wait 2 waitForCompletion] twoWaiting :=
  .next IsCall.plain rfl (.next IsCall.plain rfl (.refl _))

theorem oneCompleted_run : Transition.Run (step remainingTime) Allowed fresh
    [.wait 1 waitForCompletion, .wait 2 waitForCompletion, .complete] (complete twoWaiting) :=
  twoWaiting_run.append (.next trivial rfl (.refl _))

theorem completions_counted_oneCompleted :
    let s := complete twoWaiting
    s.done + s.granted ≤ s.posted ∧ (s.posted < 2 ^ 32 → s.done + s.granted = s.posted) ∧
      (s.taskList.map WaitEntry.task).Nodup ∧
      ∀ p, p ∈ s.taskList.map WaitEntry.task ↔ s.inside p ≠ none :=
  completions_counted fresh_init oneCompleted_run

theorem no_lost_completion_oneCompleted :
    let s := complete twoWaiting
    min s.done s.taskList.length ≤ awake s ∧
      (s.done ≠ 0 → s.taskList ≠ [] → ∃ p wait, s.inside p = some wait ∧ s.state p = 0) ∧
      (s.done ≠ 0 → ∀ p wait, s.inside p = some wait →
        ∃ value, resume remainingTime s p wait = take (removed s p) value) :=
  no_lost_completion fresh_init oneCompleted_run

def timedOps : List Op :=
  [.wait 1 (waitForCompletionTimeout 5), .tick, .tick, .wake 1 taskNormal, .resume 1,
    .tick, .tick, .tick, .wake 1 taskNormal]

def timedOut : State := (Transition.runActions (step remainingTime) fresh timedOps).get (by decide)

theorem timedOut_run : Transition.Run (step remainingTime) Allowed fresh timedOps timedOut :=
  (Transition.run_of_isSome fresh timedOps (by decide)).of_actions (by
    simp [timedOps, IsCall.timeout])

theorem wait_result_timedOut :
    let next := (resume remainingTime timedOut 1 ⟨5, taskUninterruptible, 0, 3, 2⟩).1
    1 ∉ next.taskList.map WaitEntry.task ∧
      (((0 : Int) = 0 ∧ (5 : Int) ≠ maxScheduleTimeout ∧
          ((0 : Nat) : Int) + 5 ≤ timedOut.jiffies ∧ next.granted = timedOut.granted) ∨
        ((0 : Int) = -erestartsys ∧ signalPendingState timedOut taskUninterruptible 1 = true ∧
          next.granted = timedOut.granted) ∨
        ((0 : Int) < 0 ∧ (0 : Int) ≤ max 1 5 ∧ next.granted = timedOut.granted + 1 ∧
          timedOut.done = next.done + 1)) :=
  wait_result remainingTime_spec fresh_init timedOut_run
    (@Ends.later _ _ _ ⟨5, taskUninterruptible, 0, 3, 2⟩ _ _ rfl rfl) (by decide) (by decide)

def oneReleased : State :=
  (resume remainingTime (completeAll twoWaiting) 1
    (arrival fresh maxScheduleTimeout taskUninterruptible)).1

theorem oneReleased_run : Transition.Run (step remainingTime) Allowed (completeAll twoWaiting)
    [.resume 1] oneReleased :=
  .next trivial rfl (.refl _)

theorem complete_all_releases_oneReleased :
    let wait := arrival fresh maxScheduleTimeout taskUninterruptible
    twoWaiting.inside 2 = some wait ∧ oneReleased.state 2 = 0 ∧
      ∃ value, resume remainingTime oneReleased 2 wait = take (removed oneReleased 2) value :=
  complete_all_releases fresh_init twoWaiting_run oneReleased_run
    (show 0 + uintMax / 2 < 2 ^ 32 by decide) (show 1 < 0 + uintMax / 2 by decide) rfl

/-- Why posts must not wrap: two calls of `complete_all` and two of `complete`
leave nothing to take. -/
example : (complete (complete (completeAll (completeAll fresh)))).done = 0 := by decide

end AndroidKernel.Completion
