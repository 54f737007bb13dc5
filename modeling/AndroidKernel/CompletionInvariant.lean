import Mathlib.Data.List.Count
import AndroidKernel.Completion
import AndroidKernel.Effects

/-!
The invariant of a completion and of its wait queue, kept by every step of the
waiters, of `complete` and `complete_all`, and of the timers and signals that
wake waiters too early. A scan of the queue is connected to `try_to_wake_up` of
the scheduler.
-/

namespace AndroidKernel.Completion

section Scan
variable {World Image : Type*}

theorem wakeUpCommon_view (view : World → Image) {func : WaitEntry → World → World × Bool}
    {funcImage : WaitEntry → Image → Image × Bool}
    (respects : ∀ curr world,
      funcImage curr (view world) = (view (func curr world).1, (func curr world).2))
    (entries : List WaitEntry) (nr : Int) (world : World) :
    view (wakeUpCommon func entries nr world) =
      wakeUpCommon funcImage entries nr (view world) := by
  induction entries generalizing nr world with
  | nil => rfl
  | cons curr rest ih =>
      simp only [wakeUpCommon, respects]
      split_ifs
      · rfl
      · exact ih _ _
      · exact ih _ _

end Scan

/-- `try_to_wake_up` of the scheduler does to the states what the wake function
of a completion does. -/
theorem tryToWakeUp_state (env : Env) (s : Sched) (p : Pid) (mask : Nat) (dest : Cpu) :
    (fun q => ((tryToWakeUp env s p mask dest).task q).state) =
      if (s.task p).state &&& mask = 0 then fun q => (s.task q).state
      else Function.update (fun q => (s.task q).state) p 0 := by
  funext q
  simp only [tryToWakeUp]
  split_ifs with still queued
  · rfl
  · by_cases same : q = p
    · subst same
      simp [ttwuDoWakeup]
    · simp [ttwuDoWakeup, Function.update_of_ne same]
  · by_cases same : q = p
    · subst same
      simp [ttwuDoActivate, ttwuDoWakeup]
    · have placed : (ttwuPlace env s p dest).task q = s.task q := by
        rcases ttwuPlace_cases env s p dest with stays | stays | stays <;>
          simp [stays, Function.update_of_ne same]
      simp [ttwuDoActivate, ttwuDoWakeup, ttwuActivate, activateTask_task,
        Function.update_of_ne same, placed]

/-- A wake-up of a wait queue in the scheduler is, on the states, the one here. -/
theorem wakeUpCommon_scheduler (env : Env) (dest : Pid → Cpu) (mode : Nat)
    (entries : List WaitEntry) (nr : Int) (s : Sched) :
    (fun q => ((wakeUpCommon (defaultWakeTask env dest mode) entries nr s).task q).state) =
      wakeUpCommon (defaultWakeFunction mode) entries nr fun q => (s.task q).state := by
  apply wakeUpCommon_view (fun s : Sched => fun q => (s.task q).state)
  intro curr world
  simp only [defaultWakeFunction, defaultWakeTask]
  rw [tryToWakeUp_state]
  split_ifs with still <;> simp [still]

section Column
variable {entries : List WaitEntry} {mode : Nat} {col : Pid → Nat}

/-- A scan that may wake one exclusive waiter wakes the first that sleeps. -/
theorem wakeUpCommon_one (exclusive : ∀ curr ∈ entries, curr.exclusive = true)
    (matching : ∀ curr ∈ entries, col curr.task = 0 ∨ col curr.task &&& mode ≠ 0) :
    ((∀ curr ∈ entries, col curr.task = 0) ∧
        wakeUpCommon (defaultWakeFunction mode) entries 1 col = col) ∨
      ∃ earlier curr later, entries = earlier ++ curr :: later ∧
        (∀ other ∈ earlier, col other.task = 0) ∧ col curr.task ≠ 0 ∧
        wakeUpCommon (defaultWakeFunction mode) entries 1 col =
          Function.update col curr.task 0 := by
  induction entries with
  | nil => exact .inl ⟨fun _ inside => absurd inside List.not_mem_nil, rfl⟩
  | cons curr rest ih =>
      have rule := exclusive curr List.mem_cons_self
      by_cases awake : col curr.task = 0
      · have skip : wakeUpCommon (defaultWakeFunction mode) (curr :: rest) 1 col =
            wakeUpCommon (defaultWakeFunction mode) rest 1 col := by
          simp [wakeUpCommon, defaultWakeFunction, awake]
        rw [skip]
        rcases ih (fun other inside => exclusive other (List.mem_cons_of_mem _ inside))
          (fun other inside => matching other (List.mem_cons_of_mem _ inside)) with
          ⟨all, same⟩ | ⟨earlier, first, later, split, before, asleep, woken⟩
        · exact .inl ⟨List.forall_mem_cons.mpr ⟨awake, all⟩, same⟩
        · refine .inr ⟨curr :: earlier, first, later, ?_, ?_, asleep, woken⟩
          · rw [split, List.cons_append]
          · exact List.forall_mem_cons.mpr ⟨awake, before⟩
      · right
        have sleeps := (matching curr List.mem_cons_self).resolve_left awake
        refine ⟨[], curr, rest, rfl, fun _ inside => absurd inside List.not_mem_nil, awake, ?_⟩
        simp [wakeUpCommon, defaultWakeFunction, sleeps, rule]

/-- A scan without a limit wakes all that sleep in the mode, and nobody else. -/
theorem wakeUpCommon_all (nr : Int) (unlimited : nr ≤ 0) (p : Pid) :
    wakeUpCommon (defaultWakeFunction mode) entries nr col p =
      if p ∈ entries.map WaitEntry.task ∧ col p &&& mode ≠ 0 then 0 else col p := by
  induction entries generalizing nr col with
  | nil => simp [wakeUpCommon]
  | cons curr rest ih =>
      by_cases still : col curr.task &&& mode = 0
      · simp only [wakeUpCommon, defaultWakeFunction, still, if_true, Bool.false_and,
          Bool.false_eq_true, if_false]
        rw [ih nr unlimited]
        by_cases same : p = curr.task
        · subst same
          simp [still]
        · simp [same]
      · have on : ¬ nr - 1 = 0 := by omega
        simp only [wakeUpCommon, defaultWakeFunction, still, if_false, Bool.true_and, on]
        have either (later : Int) (below : later ≤ 0) :
            wakeUpCommon (defaultWakeFunction mode) rest later
                (Function.update col curr.task 0) p =
              if p ∈ (curr :: rest).map WaitEntry.task ∧ col p &&& mode ≠ 0 then 0
              else col p := by
          rw [ih later below]
          by_cases same : p = curr.task
          · subst same
            simp [still]
          · simp [same]
        cases curr.exclusive with
        | true => exact either (nr - 1) (by omega)
        | false => exact either nr unlimited

end Column

def awake (s : State) : Nat := s.taskList.countP fun entry => s.state entry.task = 0

structure Queue (s : State) : Prop where
  exclusive : ∀ entry ∈ s.taskList, entry.exclusive = true
  unique : (s.taskList.map WaitEntry.task).Nodup
  listed : ∀ p, p ∈ s.taskList.map WaitEntry.task ↔ s.inside p ≠ none
  asleep : ∀ p wait, s.inside p = some wait → s.state p = 0 ∨ s.state p = wait.state
  normal : ∀ p wait, s.inside p = some wait → wait.state &&& taskNormal ≠ 0

structure Count (s : State) : Prop where
  small : s.done < 2 ^ 32
  counted : (s.done + s.granted) % 2 ^ 32 = s.posted % 2 ^ 32
  covered : s.done + s.granted ≤ s.posted

structure Sound (s : State) : Prop extends Queue s, Count s where
  attended : min s.done s.taskList.length ≤ awake s

theorem IsCall.normal {call : Call} (real : IsCall call) : call.state &&& taskNormal ≠ 0 := by
  cases real with
  | plain | timeout => exact (by decide : taskUninterruptible &&& taskNormal ≠ 0)
  | interruptible | interruptibleTimeout =>
      exact (by decide : taskInterruptible &&& taskNormal ≠ 0)
  | killable | killableTimeout => exact (by decide : taskKillable &&& taskNormal ≠ 0)

theorem Init.sound {s : State} (init : Init s) : Sound s where
  exclusive := by simp [init.taskList]
  unique := by simp [init.taskList]
  listed := by simp [init.taskList, init.inside]
  asleep := by simp [init.inside]
  normal := by simp [init.inside]
  small := by simp [init.done]
  counted := by simp [init.done, init.granted, init.posted]
  covered := by simp [init.done, init.granted, init.posted]
  attended := by simp [init.done]

section Steps
variable {scheduleTimeout : ScheduleTimeout} {s : State}

theorem Queue.matching (queue : Queue s) :
    ∀ curr ∈ s.taskList, s.state curr.task = 0 ∨ s.state curr.task &&& taskNormal ≠ 0 := by
  intro curr inside
  have listed := (queue.listed curr.task).mp (List.mem_map_of_mem inside)
  obtain ⟨wait, found⟩ := Option.ne_none_iff_exists'.mp listed
  rcases queue.asleep _ _ found with awake | asleep
  · exact .inl awake
  · right
    rw [asleep]
    exact queue.normal _ _ found

theorem perm_cons_filter {entries : List WaitEntry}
    (unique : (entries.map WaitEntry.task).Nodup) {curr : WaitEntry} (member : curr ∈ entries) :
    entries.Perm (curr :: entries.filter fun entry => entry.task ≠ curr.task) := by
  induction entries with
  | nil => exact absurd member List.not_mem_nil
  | cons first rest ih =>
      rw [List.map_cons, List.nodup_cons] at unique
      rcases List.mem_cons.mp member with rfl | later
      · have others : rest.filter (fun entry => decide (entry.task ≠ curr.task)) = rest := by
          apply List.filter_eq_self.mpr
          intro entry inside
          have differ : entry.task ≠ curr.task := fun same =>
            unique.1 (same ▸ List.mem_map_of_mem inside)
          simpa using differ
        rw [List.filter_cons_of_neg (by simp), others]
      · have differ : first.task ≠ curr.task := fun same =>
          unique.1 (same ▸ List.mem_map_of_mem later)
        rw [List.filter_cons_of_pos (by simpa using differ)]
        exact ((ih unique.2 later).cons first).trans (.swap curr first _)

theorem countP_wake {entries : List WaitEntry} (unique : (entries.map WaitEntry.task).Nodup)
    {col : Pid → Nat} {curr : WaitEntry} (member : curr ∈ entries) (sleeps : col curr.task ≠ 0) :
    entries.countP (fun entry => Function.update col curr.task 0 entry.task = 0) =
      entries.countP (fun entry => col entry.task = 0) + 1 := by
  rw [(perm_cons_filter unique member).countP_eq, (perm_cons_filter unique member).countP_eq]
  simp only [List.countP_cons, Function.update_self, decide_true, if_true, sleeps, decide_false,
    Bool.false_eq_true, if_false, Nat.add_zero]
  congr 1
  apply List.countP_congr
  intro entry inside
  have differ : entry.task ≠ curr.task := by simpa using (List.mem_filter.mp inside).2
  rw [Function.update_of_ne differ]

theorem Count.take (count : Count s) (some_left : s.done ≠ 0) (timeout : Int) :
    Count (Completion.take s timeout).1 := by
  obtain ⟨small, counted, covered⟩ := count
  refine ⟨?_, ?_, ?_⟩ <;> simp only [Completion.take] <;> omega

theorem Count.same (count : Count s) {after : State} (done : after.done = s.done)
    (posted : after.posted = s.posted) (granted : after.granted = s.granted) : Count after := by
  obtain ⟨small, counted, covered⟩ := count
  refine ⟨?_, ?_, ?_⟩ <;> omega

theorem Count.post (count : Count s) {after : State} {more : Nat}
    (done : after.done = (s.done + more) % 2 ^ 32) (posted : after.posted = s.posted + more)
    (granted : after.granted = s.granted) : Count after := by
  obtain ⟨small, counted, covered⟩ := count
  refine ⟨?_, ?_, ?_⟩ <;> rw [done] <;> omega

variable {p : Pid} {wait : Wait}

def removed (s : State) (p : Pid) : State :=
  { s with
    taskList := s.taskList.filter fun entry => entry.task ≠ p
    inside := Function.update s.inside p none }

def sleeping (s : State) (p : Pid) (wait : Wait) : State :=
  { s with
    state := Function.update s.state p wait.state
    inside := Function.update s.inside p (some wait) }

def arrival (s : State) (timeout : Int) (state : Nat) : Wait :=
  { timeout, state, since := s.jiffies, left := timeout, slept := s.jiffies }

theorem Queue.outside (queue : Queue s) (out : s.inside p = none) :
    p ∉ s.taskList.map WaitEntry.task := fun inside => (queue.listed p).mp inside out

/-- Coming and leaving at once leaves no trace. -/
theorem Queue.removed_queued (queue : Queue s) (out : s.inside p = none) :
    removed { s with taskList := s.taskList ++ [⟨true, p⟩] } p = s := by
  have others : (s.taskList ++ [(⟨true, p⟩ : WaitEntry)]).filter
      (fun entry => decide (entry.task ≠ p)) = s.taskList := by
    rw [List.filter_append, List.filter_eq_self.mpr]
    · simp
    · intro entry inside
      have differ : entry.task ≠ p := fun same =>
        queue.outside out (same ▸ List.mem_map_of_mem inside)
      simpa using differ
  have same : Function.update s.inside p none = s.inside := by
    rw [← out, Function.update_eq_self]
  simp only [removed, others, same]

/-- How a wait begins: it takes, it is interrupted before it sleeps, or it
sleeps at the end of the queue. -/
theorem doWaitForCommon_cases (queue : Queue s) (out : s.inside p = none) (timeout : Int)
    (state : Nat) :
    (s.done ≠ 0 ∧ doWaitForCommon s p timeout state = Completion.take s timeout) ∨
    (s.done = 0 ∧ signalPendingState s state p = true ∧
      doWaitForCommon s p timeout state = (s, some (-erestartsys))) ∨
    (s.done = 0 ∧ doWaitForCommon s p timeout state =
      (sleeping { s with taskList := s.taskList ++ [⟨true, p⟩] } p (arrival s timeout state),
        none)) := by
  by_cases none_left : s.done = 0
  · right
    by_cases signal : signalPendingState s state p = true
    · refine .inl ⟨none_left, signal, ?_⟩
      rw [doWaitForCommon, if_pos none_left, iterate, if_pos (by exact signal), leave,
        if_pos (by exact none_left)]
      exact congrArg (fun after => (after, some (-erestartsys))) (queue.removed_queued out)
    · refine .inr ⟨none_left, ?_⟩
      rw [doWaitForCommon, if_pos none_left, iterate, if_neg (by exact signal)]
      rfl
  · exact .inl ⟨none_left, if_neg none_left⟩

theorem resume_cases (scheduleTimeout : ScheduleTimeout) (s : State) (p : Pid) (wait : Wait) :
    let left := scheduleTimeout wait.left wait.slept s.jiffies
    let ended := resume scheduleTimeout s p wait
    (s.done ≠ 0 ∧ ended = Completion.take (removed s p) left) ∨
    (s.done = 0 ∧ left = 0 ∧ ended = (removed s p, some 0)) ∨
    (s.done = 0 ∧ signalPendingState s wait.state p = true ∧
      ended = (removed s p, some (-erestartsys))) ∨
    (s.done = 0 ∧ left ≠ 0 ∧
      ended = (sleeping s p { wait with left, slept := s.jiffies }, none)) := by
  intro left ended
  by_cases none_left : s.done = 0
  · right
    by_cases expired : left = 0
    · refine .inl ⟨none_left, expired, ?_⟩
      have off : ¬ (s.done = 0 ∧ left ≠ 0) := fun both => both.2 expired
      change resume scheduleTimeout s p wait = _
      rw [resume, if_neg off, leave, if_pos none_left]
      exact congrArg (fun value => (removed s p, some value)) expired
    · have on : s.done = 0 ∧ left ≠ 0 := ⟨none_left, expired⟩
      right
      by_cases signal : signalPendingState s wait.state p = true
      · refine .inl ⟨none_left, signal, ?_⟩
        change resume scheduleTimeout s p wait = _
        rw [resume, if_pos on, iterate, if_pos signal, leave, if_pos none_left]
        rfl
      · refine .inr ⟨none_left, expired, ?_⟩
        change resume scheduleTimeout s p wait = _
        rw [resume, if_pos on, iterate, if_neg signal]
        rfl
  · have off : ¬ (s.done = 0 ∧ left ≠ 0) := fun both => none_left both.1
    refine .inl ⟨none_left, ?_⟩
    change resume scheduleTimeout s p wait = _
    rw [resume, if_neg off, leave, if_neg none_left]
    rfl

theorem removed_inside {p q : Pid} {wait : Wait} (found : (removed s p).inside q = some wait) :
    s.inside q = some wait := by
  by_cases same : q = p
  · subst same
    simp [removed] at found
  · simpa [removed, Function.update_of_ne same] using found

theorem Queue.removed (queue : Queue s) (p : Pid) : Queue (removed s p) := by
  have fewer : (Completion.removed s p).taskList.Sublist s.taskList := List.filter_sublist
  refine ⟨fun entry inside => queue.exclusive entry (fewer.subset inside),
    queue.unique.sublist (fewer.map _), fun q => ?_,
    fun q wait found => queue.asleep q wait (removed_inside found),
    fun q wait found => queue.normal q wait (removed_inside found)⟩
  by_cases same : q = p
  · subst same
    simp [Completion.removed]
  · have listed := queue.listed q
    simp only [Completion.removed, Function.update_of_ne same, ← listed, List.mem_map,
      List.mem_filter, decide_eq_true_eq]
    constructor
    · rintro ⟨entry, ⟨inside, -⟩, rfl⟩
      exact ⟨entry, inside, rfl⟩
    · rintro ⟨entry, inside, rfl⟩
      exact ⟨entry, ⟨inside, same⟩, rfl⟩

theorem Queue.woken (queue : Queue s) {after : State} (list : after.taskList = s.taskList)
    (inside : after.inside = s.inside)
    (woken : ∀ p, s.inside p ≠ none → after.state p = s.state p ∨ after.state p = 0) :
    Queue after := by
  refine ⟨?_, ?_, ?_, fun p wait found => ?_, ?_⟩
  · rw [list]
    exact queue.exclusive
  · rw [list]
    exact queue.unique
  · rw [list, inside]
    exact queue.listed
  · rw [inside] at found
    rcases woken p (by rw [found]; exact Option.some_ne_none wait) with same | awake
    · rw [same]
      exact queue.asleep p wait found
    · exact .inl awake
  · rw [inside]
    exact queue.normal

theorem Queue.sleeping (queue : Queue s) {entries : List WaitEntry}
    (exclusive : ∀ entry ∈ entries, entry.exclusive = true)
    (unique : (entries.map WaitEntry.task).Nodup)
    (listed : ∀ q, q ∈ entries.map WaitEntry.task ↔ q = p ∨ q ∈ s.taskList.map WaitEntry.task)
    (normal : wait.state &&& taskNormal ≠ 0) :
    Queue (sleeping { s with taskList := entries } p wait) := by
  refine ⟨exclusive, unique, fun q => ?_, fun q waits found => ?_, fun q waits found => ?_⟩
  · have before := queue.listed q
    have after := listed q
    by_cases same : q = p
    · simp [Completion.sleeping, same, (listed p).mpr (.inl rfl)]
    · simp only [Completion.sleeping, Function.update_of_ne same, after, same, false_or, before]
  all_goals by_cases same : q = p
  · subst same
    simp only [Completion.sleeping, Function.update_self, Option.some.injEq] at found ⊢
    exact .inr (congrArg Wait.state found)
  · simp only [Completion.sleeping, Function.update_of_ne same] at found ⊢
    exact queue.asleep q waits found
  · subst same
    simp only [Completion.sleeping, Function.update_self, Option.some.injEq] at found
    exact found ▸ normal
  · simp only [Completion.sleeping, Function.update_of_ne same] at found
    exact queue.normal q waits found

theorem Queue.begin (queue : Queue s) (out : s.inside p = none) {timeout : Int} {state : Nat}
    (normal : state &&& taskNormal ≠ 0) :
    Queue (Completion.sleeping { s with taskList := s.taskList ++ [⟨true, p⟩] } p
      (arrival s timeout state)) := by
  refine queue.sleeping ?_ ?_ ?_ normal
  · intro entry inside
    rcases List.mem_append.mp inside with old | fresh
    · exact queue.exclusive entry old
    · rw [List.mem_singleton.mp fresh]
  · rw [List.map_append, List.map_singleton]
    exact queue.unique.append (List.nodup_singleton p)
      (List.disjoint_singleton.mpr (queue.outside out))
  · intro q
    rw [List.map_append, List.map_singleton, List.mem_append, List.mem_singleton, or_comm]

theorem Queue.again (queue : Queue s) (found : s.inside p = some wait) (left : Int) :
    Queue (Completion.sleeping s p { wait with left, slept := s.jiffies }) := by
  have listed : p ∈ s.taskList.map WaitEntry.task :=
    (queue.listed p).mpr (by rw [found]; exact Option.some_ne_none wait)
  have either (q : Pid) : q ∈ s.taskList.map WaitEntry.task ↔
      q = p ∨ q ∈ s.taskList.map WaitEntry.task := by
    constructor
    · exact .inr
    · rintro (rfl | inside)
      · exact listed
      · exact inside
  exact queue.sleeping queue.exclusive queue.unique either (queue.normal p wait found)

theorem Queue.awake_mono (queue : Queue s) {after : State} (list : after.taskList = s.taskList)
    (woken : ∀ p, s.inside p ≠ none → after.state p = s.state p ∨ after.state p = 0) :
    awake s ≤ awake after := by
  rw [awake, awake, list]
  apply List.countP_mono_left
  intro entry member awake
  simp only [decide_eq_true_eq] at awake ⊢
  rcases woken entry.task ((queue.listed _).mp (List.mem_map_of_mem member)) with same | zero
  · rw [same, awake]
  · exact zero

theorem Sound.woken (sound : Sound s) {after : State} (list : after.taskList = s.taskList)
    (inside : after.inside = s.inside)
    (woken : ∀ p, s.inside p ≠ none → after.state p = s.state p ∨ after.state p = 0)
    (done : after.done = s.done) (posted : after.posted = s.posted)
    (granted : after.granted = s.granted) : Sound after where
  toQueue := sound.toQueue.woken list inside woken
  toCount := sound.toCount.same done posted granted
  attended := by
    rw [done, list]
    exact sound.attended.trans (sound.toQueue.awake_mono list woken)

theorem Sound.take (sound : Sound s) (some_left : s.done ≠ 0) (timeout : Int) :
    Sound (Completion.take s timeout).1 where
  toQueue := sound.toQueue.woken rfl rfl fun _ _ => .inl rfl
  toCount := sound.toCount.take some_left timeout
  attended := by
    have attended := sound.attended
    show min (s.done - 1) s.taskList.length ≤ awake s
    omega

theorem Sound.waits (sound : Sound s) (out : s.inside p = none) {call : Call}
    (real : IsCall call) :
    Sound (doWaitForCommon s p call.timeout call.state).1 := by
  rcases doWaitForCommon_cases sound.toQueue out call.timeout call.state with
    ⟨some_left, taken⟩ | ⟨-, -, interrupted⟩ | ⟨none_left, slept⟩
  · rw [taken]
    exact sound.take some_left _
  · rw [interrupted]
    exact sound
  · rw [slept]
    exact
      { toQueue := sound.toQueue.begin out real.normal
        toCount := sound.toCount.same rfl rfl rfl
        attended := (min_le_left _ _).trans (none_left.trans_le (Nat.zero_le _)) }

theorem Queue.removed_awake (queue : Queue s) (found : s.inside p = some wait)
    (runs : s.state p = 0) :
    s.taskList.length = (Completion.removed s p).taskList.length + 1 ∧
      awake s = awake (Completion.removed s p) + 1 := by
  have listed := (queue.listed p).mpr (by rw [found]; exact Option.some_ne_none wait)
  obtain ⟨curr, member, rfl⟩ := List.mem_map.mp listed
  have perm := perm_cons_filter queue.unique member
  constructor
  · exact perm.length_eq
  · rw [awake, perm.countP_eq, List.countP_cons_of_pos (by simpa using runs)]
    rfl

theorem Sound.resume (sound : Sound s) (found : s.inside p = some wait) (runs : s.state p = 0) :
    Sound (Completion.resume scheduleTimeout s p wait).1 := by
  have nothing (after : State) (same : after.done = 0) :
      min after.done after.taskList.length ≤ awake after := by omega
  rcases resume_cases scheduleTimeout s p wait with
    ⟨some_left, taken⟩ | ⟨none_left, -, left⟩ | ⟨none_left, -, left⟩ | ⟨none_left, -, slept⟩
  · rw [taken]
    have queue := sound.toQueue.removed p
    obtain ⟨length, fewer⟩ := sound.toQueue.removed_awake found runs
    have attended := sound.attended
    have count : Count (Completion.removed s p) := sound.toCount.same rfl rfl rfl
    exact
      { toQueue := queue.woken rfl rfl fun _ _ => .inl rfl
        toCount := count.take some_left _
        attended := by
          show min (s.done - 1) (Completion.removed s p).taskList.length ≤
            awake (Completion.removed s p)
          omega }
  · rw [left]
    exact ⟨sound.toQueue.removed p, sound.toCount.same rfl rfl rfl, nothing _ none_left⟩
  · rw [left]
    exact ⟨sound.toQueue.removed p, sound.toCount.same rfl rfl rfl, nothing _ none_left⟩
  · rw [slept]
    exact ⟨sound.toQueue.again found _, sound.toCount.same rfl rfl rfl,
      nothing _ none_left⟩

theorem update_woken (state : Pid → Nat) (p q : Pid) :
    Function.update state p 0 q = state q ∨ Function.update state p 0 q = 0 := by
  by_cases same : q = p
  · subst same
    exact .inr (Function.update_self q 0 state)
  · exact .inl (Function.update_of_ne same 0 state)

theorem defaultWakeFunction_woken (mode : Nat) (curr : WaitEntry) (state : Pid → Nat) (q : Pid) :
    (defaultWakeFunction mode curr state).1 q = state q ∨
      (defaultWakeFunction mode curr state).1 q = 0 := by
  simp only [defaultWakeFunction]
  split_ifs
  · exact .inl rfl
  · exact update_woken state curr.task q

theorem Queue.complete_woken (queue : Queue s) (p : Pid) :
    (complete s).state p = s.state p ∨ (complete s).state p = 0 := by
  rcases wakeUpCommon_one queue.exclusive queue.matching with
    ⟨-, same⟩ | ⟨_, curr, _, -, -, -, woken⟩
  · exact .inl (congrFun same p)
  · have changed : (complete s).state = Function.update s.state curr.task 0 := woken
    rw [changed]
    exact update_woken s.state curr.task p

theorem Sound.complete (sound : Sound s) : Sound (complete s) := by
  refine ⟨sound.toQueue.woken rfl rfl fun p _ => sound.toQueue.complete_woken p,
    sound.toCount.post rfl rfl rfl, ?_⟩
  have list : (Completion.complete s).taskList = s.taskList := rfl
  rw [list]
  rcases wakeUpCommon_one sound.exclusive sound.toQueue.matching with
    ⟨all, same⟩ | ⟨earlier, curr, later, split, -, sleeps, woken⟩
  · have still : (Completion.complete s).state = s.state := same
    have full : awake (Completion.complete s) = s.taskList.length := by
      rw [awake, still]
      exact List.countP_eq_length.mpr fun entry member => by simpa using all entry member
    rw [full]
    exact min_le_right _ _
  · have changed : (Completion.complete s).state = Function.update s.state curr.task 0 := woken
    have member : curr ∈ s.taskList := by
      rw [split]
      exact List.mem_append_right _ List.mem_cons_self
    have more : awake (Completion.complete s) = awake s + 1 := by
      rw [awake, changed]
      exact countP_wake sound.unique member sleeps
    have attended := sound.attended
    have bound : (Completion.complete s).done ≤ s.done + 1 := Nat.mod_le _ _
    omega

/-- Stated for any numbers, so that nothing computes with those of `complete_all`. -/
theorem posted_fields (s : State) (done posted : Nat) (state : Pid → Nat) :
    let after := { s with done := done, posted := posted, state := state }
    after.taskList = s.taskList ∧ after.inside = s.inside ∧ after.jiffies = s.jiffies ∧
      after.granted = s.granted :=
  ⟨rfl, rfl, rfl, rfl⟩

theorem completeAll_fields (s : State) : (completeAll s).taskList = s.taskList ∧
    (completeAll s).inside = s.inside ∧ (completeAll s).jiffies = s.jiffies ∧
    (completeAll s).granted = s.granted :=
  posted_fields s _ _ _

theorem completeAll_state (s : State) (p : Pid) :
    (completeAll s).state p =
      if p ∈ s.taskList.map WaitEntry.task ∧ s.state p &&& taskNormal ≠ 0 then 0
      else s.state p :=
  wakeUpCommon_all 0 le_rfl p

theorem completeAll_woken (s : State) (p : Pid) :
    (completeAll s).state p = s.state p ∨ (completeAll s).state p = 0 := by
  rw [completeAll_state]
  split_ifs
  · exact .inr rfl
  · exact .inl rfl

theorem Queue.completeAll_awake (queue : Queue s) {curr : WaitEntry}
    (member : curr ∈ s.taskList) : (completeAll s).state curr.task = 0 := by
  rw [completeAll_state]
  rcases queue.matching curr member with awake | sleeps
  · rw [awake, ite_self]
  · exact if_pos ⟨List.mem_map_of_mem member, sleeps⟩

theorem Sound.completeAll (sound : Sound s) : Sound (completeAll s) := by
  obtain ⟨list, inside, -, granted⟩ := completeAll_fields s
  have queue : Queue (Completion.completeAll s) :=
    sound.toQueue.woken list inside fun p _ => completeAll_woken s p
  have count : Count (Completion.completeAll s) := sound.toCount.post rfl rfl granted
  have full : awake (Completion.completeAll s) = (Completion.completeAll s).taskList.length := by
    rw [awake, list]
    apply List.countP_eq_length.mpr
    intro entry member
    exact decide_eq_true (sound.toQueue.completeAll_awake member)
  refine ⟨queue, count, ?_⟩
  rw [full]
  exact min_le_right _ _

theorem Sound.step (sound : Sound s) {op : Op} {next : State} (allowed : Allowed s op)
    (moved : step scheduleTimeout s op = some next) : Sound next := by
  cases op with
  | wait p call =>
      obtain ⟨⟨out, -⟩, moved⟩ := Option.ite_none_right_eq_some.mp moved
      obtain rfl := Option.some.inj moved
      exact sound.waits out allowed
  | resume p =>
      simp only [Completion.step] at moved
      cases found : s.inside p with
      | none => simp [found] at moved
      | some wait =>
          simp only [found] at moved
          obtain ⟨runs, moved⟩ := Option.ite_none_right_eq_some.mp moved
          obtain rfl := Option.some.inj moved
          exact sound.resume found runs
  | tryWait =>
      obtain rfl := Option.some.inj moved
      simp only [tryWaitForCompletion]
      split_ifs with none_left
      · exact sound
      · exact sound.take none_left 0
  | complete =>
      obtain rfl := Option.some.inj moved
      exact sound.complete
  | completeAll =>
      obtain rfl := Option.some.inj moved
      exact sound.completeAll
  | wake p mode =>
      obtain rfl := Option.some.inj moved
      exact sound.woken rfl rfl (fun q _ => defaultWakeFunction_woken mode _ s.state q)
        rfl rfl rfl
  | signals p pending kill =>
      obtain rfl := Option.some.inj moved
      exact sound.woken rfl rfl (fun _ _ => .inl rfl) rfl rfl rfl
  | tick =>
      obtain rfl := Option.some.inj moved
      exact sound.woken rfl rfl (fun _ _ => .inl rfl) rfl rfl rfl
  | elsewhere p state =>
      obtain ⟨out, moved⟩ := Option.ite_none_right_eq_some.mp moved
      obtain rfl := Option.some.inj moved
      refine sound.woken rfl rfl (fun q inside => .inl ?_) rfl rfl rfl
      have differ : q ≠ p := fun same => inside (same ▸ out)
      exact Function.update_of_ne differ _ _

end Steps

structure Wait.Clocked (wait : Wait) (jiffies : Nat) : Prop where
  came : wait.since ≤ wait.slept
  past : wait.slept ≤ jiffies
  endless : wait.timeout = maxScheduleTimeout → wait.left = maxScheduleTimeout
  finite : 0 ≤ wait.timeout → wait.timeout < maxScheduleTimeout →
    0 ≤ wait.left ∧ wait.slept + wait.left = wait.since + wait.timeout

def Clocked (s : State) : Prop := ∀ p wait, s.inside p = some wait → wait.Clocked s.jiffies

section Timeouts
variable {scheduleTimeout : ScheduleTimeout} {s : State} {p : Pid} {wait : Wait}

/-- What is left of a timeout is what is left since the arrival. -/
theorem Wait.Clocked.remaining (spec : TimeoutSpec scheduleTimeout) {now : Nat}
    (clocked : wait.Clocked now) (nonneg : 0 ≤ wait.timeout)
    (small : wait.timeout ≤ maxScheduleTimeout) :
    scheduleTimeout wait.left wait.slept now = maxScheduleTimeout ∧
        wait.timeout = maxScheduleTimeout ∨
      scheduleTimeout wait.left wait.slept now = max 0 (wait.since + wait.timeout - now) ∧
        wait.timeout < maxScheduleTimeout := by
  obtain ⟨came, past, endless, finite⟩ := clocked
  rcases small.eq_or_lt with infinite | below
  · left
    rw [endless infinite]
    exact ⟨spec.endless _ _, infinite⟩
  · right
    obtain ⟨low, sum⟩ := finite nonneg below
    have early : (wait.since : Int) ≤ wait.slept := Int.ofNat_le.mpr came
    rw [spec.remaining _ _ _ low (by omega) past, sum]
    exact ⟨rfl, below⟩

/-- The remaining timeout that `schedule_timeout` returns still counts from the
arrival. -/
theorem Wait.Clocked.resumed (spec : TimeoutSpec scheduleTimeout) {now : Nat}
    (clocked : wait.Clocked now)
    (goes_on : scheduleTimeout wait.left wait.slept now ≠ 0) :
    Wait.Clocked { wait with left := scheduleTimeout wait.left wait.slept now, slept := now }
      now := by
  refine ⟨clocked.came.trans clocked.past, le_rfl, fun infinite => ?_, fun low below => ?_⟩
  · change scheduleTimeout wait.left wait.slept now = maxScheduleTimeout
    rw [clocked.endless infinite]
    exact spec.endless _ _
  · change wait.timeout < maxScheduleTimeout at below
    change 0 ≤ scheduleTimeout wait.left wait.slept now ∧
      (now : Int) + scheduleTimeout wait.left wait.slept now = wait.since + wait.timeout
    rcases clocked.remaining spec low below.le with ⟨-, infinite⟩ | ⟨value, -⟩
    · exact absurd infinite below.ne
    · rw [value] at goes_on ⊢
      omega

theorem Clocked.fewer (clocked : Clocked s) {after : State} (later : s.jiffies ≤ after.jiffies)
    (inside : ∀ q wait, after.inside q = some wait → s.inside q = some wait) :
    Clocked after := by
  intro q waits found
  have old := clocked q waits (inside q waits found)
  exact ⟨old.came, old.past.trans later, old.endless, old.finite⟩

theorem Clocked.same (clocked : Clocked s) {after : State} (later : s.jiffies ≤ after.jiffies)
    (inside : after.inside = s.inside) : Clocked after :=
  clocked.fewer later fun q waits found => by rwa [inside] at found

theorem Clocked.sleeping (clocked : Clocked s) (honest : wait.Clocked s.jiffies) :
    Clocked (sleeping s p wait) := by
  intro q waits found
  by_cases same : q = p
  · subst same
    simp only [Completion.sleeping, Function.update_self, Option.some.injEq] at found
    exact found ▸ honest
  · simp only [Completion.sleeping, Function.update_of_ne same] at found
    exact clocked q waits found

theorem arrival_clocked (s : State) (timeout : Int) (state : Nat) :
    (arrival s timeout state).Clocked s.jiffies :=
  ⟨le_rfl, le_rfl, id, fun low _ => ⟨low, rfl⟩⟩

theorem Clocked.step (spec : TimeoutSpec scheduleTimeout) (sound : Sound s)
    (clocked : Clocked s) {op : Op} {next : State}
    (moved : Completion.step scheduleTimeout s op = some next) : Clocked next := by
  cases op with
  | wait p call =>
      obtain ⟨⟨out, -⟩, moved⟩ := Option.ite_none_right_eq_some.mp moved
      obtain rfl := Option.some.inj moved
      rcases doWaitForCommon_cases sound.toQueue out call.timeout call.state with
        ⟨-, taken⟩ | ⟨-, -, interrupted⟩ | ⟨-, slept⟩
      · rw [taken]
        exact clocked.same le_rfl rfl
      · rw [interrupted]
        exact clocked
      · rw [slept]
        have listed : Clocked { s with taskList := s.taskList ++ [⟨true, p⟩] } :=
          clocked.same le_rfl rfl
        exact listed.sleeping (arrival_clocked s call.timeout call.state)
  | resume p =>
      simp only [Completion.step] at moved
      cases found : s.inside p with
      | none => simp [found] at moved
      | some wait =>
          simp only [found] at moved
          obtain ⟨-, moved⟩ := Option.ite_none_right_eq_some.mp moved
          obtain rfl := Option.some.inj moved
          have gone : Clocked (removed s p) :=
            clocked.fewer le_rfl fun q waits found => removed_inside found
          rcases resume_cases scheduleTimeout s p wait with
            ⟨-, taken⟩ | ⟨-, -, left⟩ | ⟨-, -, left⟩ | ⟨-, goes_on, slept⟩
          · rw [taken]
            exact gone.same le_rfl rfl
          · rw [left]
            exact gone
          · rw [left]
            exact gone
          · rw [slept]
            exact clocked.sleeping ((clocked p wait found).resumed spec goes_on)
  | tryWait =>
      obtain rfl := Option.some.inj moved
      simp only [tryWaitForCompletion]
      split_ifs
      · exact clocked
      · exact clocked.same le_rfl rfl
  | complete =>
      obtain rfl := Option.some.inj moved
      exact clocked.same le_rfl rfl
  | completeAll =>
      obtain rfl := Option.some.inj moved
      obtain ⟨-, inside, jiffies, -⟩ := completeAll_fields s
      exact clocked.same jiffies.ge inside
  | wake p mode =>
      obtain rfl := Option.some.inj moved
      exact clocked.same le_rfl rfl
  | signals p pending kill =>
      obtain rfl := Option.some.inj moved
      exact clocked.same le_rfl rfl
  | tick =>
      obtain rfl := Option.some.inj moved
      exact clocked.same (Nat.le_succ _) rfl
  | elsewhere p state =>
      obtain ⟨-, moved⟩ := Option.ite_none_right_eq_some.mp moved
      obtain rfl := Option.some.inj moved
      exact clocked.same le_rfl rfl

end Timeouts

end AndroidKernel.Completion
