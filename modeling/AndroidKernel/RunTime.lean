import Mathlib.Algebra.Order.BigOperators.Group.Finset
import AndroidKernel.Boot
import AndroidKernel.ReachableStates

/-!
The run times of WRR tasks. `owed` is what `update_curr_wrr` would charge now;
a CPU is in order when what it charged to a task and what it owes it stay within
the time that the task was current in the class. A task leaves this order only
between `put_prev_task`, which clears its stamp, and the next stamp; `unstamped`
names it there. `set_curr_task_wrr` stamps again, `pick_next_task_wrr` does not.
-/

namespace AndroidKernel

open Finset

def owed (s : Sched) (c : Cpu) (p : Pid) : Nat :=
  if (s.rq c).curr = p ∧ (s.task p).schedClass = .wrr
  then (s.clock c).clockTask - (s.se p).execStart else 0

structure Booked (start : Cpu → Nat) (unstamped : Option Pid) (s : Sched) : Prop where
  /-- No task is current on two CPUs. -/
  apart : ∀ c d, (s.rq c).curr = (s.rq d).curr → c = d
  paid : ∀ c p, (s.acct c).charged p + (if unstamped = some p then 0 else owed s c p) ≤
    (s.acct c).ran p
  elapsed : ∀ c (pids : Finset Pid),
    ∑ p ∈ pids, (s.acct c).ran p + start c ≤ (s.clock c).clockTask

structure SameBooks (before after : Sched) : Prop where
  curr : ∀ c, (after.rq c).curr = (before.rq c).curr
  schedClass : ∀ p, (after.task p).schedClass = (before.task p).schedClass
  se : after.se = before.se
  clock : after.clock = before.clock
  acct : after.acct = before.acct

section Books
variable {s next last : Sched}

theorem SameBooks.refl (s : Sched) : SameBooks s s :=
  ⟨fun _ => rfl, fun _ => rfl, rfl, rfl, rfl⟩

theorem SameBooks.trans (one : SameBooks s next) (two : SameBooks next last) :
    SameBooks s last :=
  ⟨fun c => (two.curr c).trans (one.curr c),
    fun p => (two.schedClass p).trans (one.schedClass p), two.se.trans one.se,
    two.clock.trans one.clock, two.acct.trans one.acct⟩

theorem SameBooks.of_quiet {env : Env} (quiet : Quiet env s next)
    (rest : next.se = s.se ∧ next.clock = s.clock ∧ next.acct = s.acct) : SameBooks s next :=
  ⟨fun c => (quiet.rq c).curr, fun p => (quiet.task p).schedClass, rest.1, rest.2.1, rest.2.2⟩

theorem SameBooks.modifyRq (s : Sched) (c : Cpu) {f : Rq → Rq}
    (curr : (f (s.rq c)).curr = (s.rq c).curr) : SameBooks s (s.modifyRq c f) := by
  refine ⟨fun d => ?_, fun _ => rfl, rfl, rfl, rfl⟩
  by_cases here : d = c
  · subst here
    simpa using curr
  · simp [Function.update_of_ne here]

theorem SameBooks.modifyTask (s : Sched) (p : Pid) {f : TaskStruct → TaskStruct}
    (cls : (f (s.task p)).schedClass = (s.task p).schedClass) :
    SameBooks s (s.modifyTask p f) := by
  refine ⟨fun _ => rfl, fun q => ?_, rfl, rfl, rfl⟩
  by_cases same : q = p
  · subst same
    simpa using cls
  · simp [Function.update_of_ne same]

theorem SameBooks.modifyRt (s : Sched) (c : Cpu)
    (f : RtGroups.State Group → RtGroups.State Group) : SameBooks s (s.modifyRt c f) :=
  ⟨fun _ => rfl, fun _ => rfl, rfl, rfl, rfl⟩

theorem SameBooks.owed (same : SameBooks s next) (c : Cpu) (p : Pid) :
    owed next c p = AndroidKernel.owed s c p := by
  simp only [AndroidKernel.owed, same.curr, same.schedClass, same.se, same.clock]

end Books

section Hooks
variable (env : Env) (s : Sched) (c : Cpu) (p : Pid)

theorem requeueTaskRt_books (head : Bool) : SameBooks s (requeueTaskRt env s c p head) :=
  .modifyRt s c _

theorem reschedTask_books : SameBooks s (reschedTask s p) :=
  ⟨fun _ => rfl, fun _ => rfl, rfl, rfl, rfl⟩

theorem checkPreemptCurr_books : SameBooks s (checkPreemptCurr env s c p) := by
  refine .of_quiet (checkPreemptCurr_quiet env s c p) ?_
  simp only [checkPreemptCurr, checkPreemptCurrRt, checkPreemptEqualPrio, checkPreemptCurrWrr,
    requeueTaskRt]
  split_ifs <;> (try split) <;> exact ⟨rfl, rfl, rfl⟩

theorem checkClassChanged_books (prevClass : SchedClass) (oldprio : Int) :
    SameBooks s (checkClassChanged env s c p prevClass oldprio) := by
  have preempt := checkPreemptCurr_books env s c p
  refine .of_quiet (checkClassChanged_quiet env s c p prevClass oldprio) ?_
  simp only [checkClassChanged, switchedTo, switchedToRt, switchedToWrr, prioChanged,
    prioChangedRt, prioChangedWrr]
  split_ifs <;> (try split) <;>
    first | exact ⟨rfl, rfl, rfl⟩ | exact ⟨preempt.se, preempt.clock, preempt.acct⟩

end Hooks

section Primitives
variable {start : Cpu → Nat} {unstamped unstamped' : Option Pid} {s next : Sched}

theorem Booked.of_owed (booked : Booked start unstamped s)
    (apart : ∀ c d, (next.rq c).curr = (next.rq d).curr → c = d)
    (clock : next.clock = s.clock) (acct : next.acct = s.acct)
    (kept : ∀ c p, unstamped' ≠ some p →
      owed next c p = 0 ∨ unstamped ≠ some p ∧ owed next c p ≤ owed s c p) :
    Booked start unstamped' next := by
  refine ⟨apart, fun c p => ?_, fun c pids => ?_⟩
  · have before := booked.paid c p
    rw [acct]
    by_cases open' : unstamped' = some p
    · rw [if_pos open']
      omega
    · rw [if_neg open']
      rcases kept c p open' with none | ⟨closed, less⟩
      · omega
      · rw [if_neg closed] at before
        omega
  · rw [acct, clock]
    exact booked.elapsed c pids

theorem Booked.same (booked : Booked start unstamped s) (books : SameBooks s next) :
    Booked start unstamped next := by
  refine booked.of_owed (fun c d => ?_) books.clock books.acct fun c p closed =>
    Or.inr ⟨closed, Nat.le_of_eq (books.owed c p)⟩
  rw [books.curr, books.curr]
  exact booked.apart c d

theorem owed_not_curr {c : Cpu} {p : Pid} (other : (s.rq c).curr ≠ p) : owed s c p = 0 :=
  if_neg fun both => other both.1

theorem owed_not_wrr (c : Cpu) {p : Pid} (other : (s.task p).schedClass ≠ .wrr) :
    owed s c p = 0 :=
  if_neg fun both => other both.2

/-- The stamp of a task outside the class, or of one that is open, is free. -/
theorem Booked.modifySe (booked : Booked start unstamped s) (p : Pid)
    (f : SchedEntity → SchedEntity)
    (free : (s.task p).schedClass ≠ .wrr ∨ unstamped' = some p ∨ ∀ c, (s.rq c).curr ≠ p)
    (closes : ∀ q, q ≠ p → unstamped = some q → unstamped' = some q) :
    Booked start unstamped' (s.modifySe p f) := by
  refine booked.of_owed booked.apart rfl rfl fun c q closed => ?_
  by_cases same : q = p
  · subst same
    rcases free with other | opened | nowhere
    · exact Or.inl (owed_not_wrr c other)
    · exact absurd opened closed
    · exact Or.inl (owed_not_curr (nowhere c))
  · refine Or.inr ⟨fun was => closed (closes q same was), Nat.le_of_eq ?_⟩
    simp [owed, Function.update_of_ne same]

/-- A task changes its class while it runs nowhere, while its stamp is open, or
to leave the class. -/
theorem Booked.modifyTask (booked : Booked start unstamped s) (p : Pid)
    (f : TaskStruct → TaskStruct)
    (free : (f (s.task p)).schedClass = .wrr → unstamped = some p ∨ ∀ c, (s.rq c).curr ≠ p) :
    Booked start unstamped (s.modifyTask p f) := by
  refine booked.of_owed booked.apart rfl rfl fun c q closed => ?_
  by_cases same : q = p
  · subst same
    by_cases isWrr : (f (s.task q)).schedClass = .wrr
    · rcases free isWrr with opened | nowhere
      · exact absurd opened closed
      · exact Or.inl (owed_not_curr (nowhere c))
    · exact Or.inl (owed_not_wrr c (by simpa using isWrr))
  · refine Or.inr ⟨closed, Nat.le_of_eq ?_⟩
    simp [owed, Function.update_of_ne same]

theorem updateRqClock_ran (env : Env) (s : Sched) (c : Cpu) (p : Pid) :
    ((updateRqClock env s c).acct c).ran p = (s.acct c).ran p +
      if (s.rq c).curr = p ∧ (s.task p).schedClass = .wrr
      then env.elapsed c (s.clock c).reads else 0 := by
  simp only [updateRqClock_acct]
  by_cases isCurr : (s.rq c).curr = p
  · subst isCurr
    split <;> simp_all
  · have other : p ≠ (s.rq c).curr := fun same => isCurr same.symm
    split <;> simp [isCurr, Function.update_of_ne other]

theorem updateRqClock_acct_of_ne (env : Env) (s : Sched) {c d : Cpu} (other : d ≠ c) :
    (updateRqClock env s c).acct d = s.acct d := by
  simp only [updateRqClock_acct]
  split <;> simp [Function.update_of_ne other]

theorem updateRqClock_charged (env : Env) (s : Sched) (c d : Cpu) :
    ((updateRqClock env s c).acct d).charged = (s.acct d).charged := by
  simp only [updateRqClock_acct]
  split
  · by_cases here : d = c
    · subst here
      simp
    · simp [Function.update_of_ne here]
  · rfl

theorem Booked.updateRqClock (booked : Booked start unstamped s) (env : Env) (c : Cpu) :
    Booked start unstamped (updateRqClock env s c) := by
  refine ⟨booked.apart, fun d p => ?_, fun d pids => ?_⟩
  · have before := booked.paid d p
    rw [updateRqClock_charged]
    by_cases here : d = c
    · subst here
      rw [updateRqClock_ran]
      simp only [owed, updateRqClock_rq, updateRqClock_task, updateRqClock_clock,
        updateRqClock_se, Function.update_self] at before ⊢
      split_ifs at before ⊢ <;> omega
    · rw [updateRqClock_acct_of_ne env s here]
      have same : owed (AndroidKernel.updateRqClock env s c) d p = owed s d p := by
        simp [owed, Function.update_of_ne here]
      rwa [same]
  · have before := booked.elapsed d pids
    by_cases here : d = c
    · subst here
      have spread : ∑ p ∈ pids, ((AndroidKernel.updateRqClock env s d).acct d).ran p ≤
          ∑ p ∈ pids, (s.acct d).ran p + env.elapsed d (s.clock d).reads := by
        simp only [updateRqClock_ran, sum_add_distrib]
        apply Nat.add_le_add_left
        -- at most one of the tasks is the current one
        calc ∑ p ∈ pids, (if (s.rq d).curr = p ∧ (s.task p).schedClass = .wrr
                then env.elapsed d (s.clock d).reads else 0)
            ≤ ∑ p ∈ pids, (if (s.rq d).curr = p then env.elapsed d (s.clock d).reads else 0) := by
              apply sum_le_sum
              intro p _
              split_ifs <;> simp_all
          _ ≤ env.elapsed d (s.clock d).reads := by
              rw [sum_ite_eq]
              split_ifs <;> simp
      simp only [updateRqClock_clock, Function.update_self]
      omega
    · rw [updateRqClock_acct_of_ne env s here]
      simpa [Function.update_of_ne here] using before

/-- `update_curr_wrr` turns what is owed into a charge. -/
theorem updateCurrWrr_charged (s : Sched) (c : Cpu) (p : Pid) :
    ((updateCurrWrr s c).acct c).charged p = (s.acct c).charged p + owed s c p := by
  simp only [updateCurrWrr, owed]
  by_cases isWrr : (s.task (s.rq c).curr).schedClass = .wrr
  · rw [if_pos isWrr]
    by_cases isCurr : (s.rq c).curr = p
    · subst isCurr
      simp [chargeWrr, isWrr, deltaExec_eq]
    · have other : p ≠ (s.rq c).curr := fun same => isCurr same.symm
      simp [chargeWrr, isCurr, Function.update_of_ne other]
  · have nothing : ¬ ((s.rq c).curr = p ∧ (s.task p).schedClass = .wrr) := by
      rintro ⟨rfl, cls⟩
      exact isWrr cls
    rw [if_neg isWrr, if_neg nothing]
    rfl

theorem updateCurrWrr_ran (s : Sched) (c d : Cpu) :
    ((updateCurrWrr s c).acct d).ran = (s.acct d).ran := by
  simp only [updateCurrWrr]
  split
  · by_cases here : d = c
    · subst here
      simp [chargeWrr]
    · simp [Function.update_of_ne here]
  · rfl

theorem updateCurrWrr_acct_of_ne (s : Sched) {c d : Cpu} (other : d ≠ c) :
    (updateCurrWrr s c).acct d = s.acct d := by
  simp only [updateCurrWrr]
  split <;> simp [Function.update_of_ne other]

theorem updateCurrWrr_se_of_ne (s : Sched) (c : Cpu) {p : Pid} (other : p ≠ (s.rq c).curr) :
    (updateCurrWrr s c).se p = s.se p := by
  simp only [updateCurrWrr]
  split <;> simp [Function.update_of_ne other]

theorem updateCurrWrr_owed (s : Sched) (c : Cpu) (p : Pid) : owed (updateCurrWrr s c) c p = 0 := by
  by_cases isCurr : (s.rq c).curr = p
  · subst isCurr
    by_cases isWrr : (s.task (s.rq c).curr).schedClass = .wrr
    · simp [owed, updateCurrWrr, isWrr]
    · exact owed_not_wrr c (by simpa using isWrr)
  · exact owed_not_curr (by simpa using isCurr)

theorem Booked.updateCurrWrr (booked : Booked start none s) (c : Cpu) :
    Booked start none (updateCurrWrr s c) := by
  refine ⟨by simpa using booked.apart, fun d p => ?_, fun d pids => ?_⟩
  · have before := booked.paid d p
    simp only [reduceCtorEq, if_false] at before ⊢
    rw [updateCurrWrr_ran]
    by_cases here : d = c
    · subst here
      rw [updateCurrWrr_charged, updateCurrWrr_owed]
      exact before
    · rw [updateCurrWrr_acct_of_ne s here]
      by_cases isCurr : (s.rq d).curr = p
      · have other : p ≠ (s.rq c).curr := fun same => here (booked.apart d c (isCurr.trans same))
        simp only [owed, updateCurrWrr_rq, updateCurrWrr_task, updateCurrWrr_clock,
          updateCurrWrr_se_of_ne s c other] at before ⊢
        exact before
      · rw [owed_not_curr (by simpa using isCurr)]
        omega
  · rw [updateCurrWrr_ran, updateCurrWrr_clock]
    exact booked.elapsed d pids

theorem Booked.updateCurrRt (booked : Booked start unstamped s) (env : Env) (c : Cpu) :
    Booked start unstamped (updateCurrRt env s c) := by
  simp only [AndroidKernel.updateCurrRt]
  split
  · rename_i isRt
    refine Booked.same (booked.modifySe (s.rq c).curr (fun se =>
        { execStart := (s.clock c).clockTask
          sumExecRuntime := se.sumExecRuntime +
            deltaExec (s.clock c).clockTask (s.se (s.rq c).curr).execStart })
      (Or.inl (by simp [isRt])) fun _ _ => id) ?_
    constructor <;> split <;> simp [rtCharge_columns]
  · exact booked

theorem Booked.updateCurrFair (booked : Booked start unstamped s) (env : Env) (c : Cpu) :
    Booked start unstamped (updateCurrFair env s c) := by
  simp only [AndroidKernel.updateCurrFair]
  split
  · rename_i isFair
    exact booked.modifySe _ _ (Or.inl (by rw [← rqCurr, isFair]; simp)) fun _ _ => id
  · exact booked

end Primitives

section Moves
variable {start : Cpu → Nat} {unstamped : Option Pid} {s : Sched}

theorem Booked.takeOff (booked : Booked start none s) (env : Env) (c : Cpu) (p : Pid)
    (wrapped : Bool) : Booked start none (takeOff env s c p wrapped) := by
  have clocked := booked.updateRqClock env c
  have bare : Booked start none (dequeueTask env s c p) := by
    simp only [dequeueTask]
    split
    · refine clocked.same (.modifyRq _ c ?_)
      cases env.kernel <;> rfl
    · refine (clocked.updateCurrRt env c).same ((SameBooks.modifyRt _ c _).trans (.modifyRq _ c ?_))
      cases env.kernel <;> rfl
    · exact (clocked.updateCurrWrr c).same ((SameBooks.modifyRq _ c rfl).trans (.modifyRq _ c rfl))
    · refine (clocked.updateCurrFair env c).same (.modifyRq _ c ?_)
      cases env.kernel <;> rfl
    · exact clocked
  cases wrapped with
  | false => exact bare
  | true =>
      refine bare.same (.modifyRq _ c ?_)
      cases env.kernel <;> rfl

theorem Booked.putOn (booked : Booked start none s) (env : Env) (c : Cpu) (p : Pid)
    (wrapped head : Bool) : Booked start none (putOn env s c p wrapped head) := by
  have clocked := booked.updateRqClock env c
  have bare : Booked start none (enqueueTask env s c p head) := by
    simp only [enqueueTask]
    split
    · refine clocked.same (.modifyRq _ c ?_)
      cases env.kernel <;> rfl
    · refine clocked.same ((SameBooks.modifyRt _ c _).trans (.modifyRq _ c ?_))
      cases env.kernel <;> rfl
    · exact clocked.same ((SameBooks.modifyTask _ p (weighByPath_schedClass env _)).trans
        ((SameBooks.modifyRq _ c rfl).trans (.modifyRq _ c rfl)))
    · refine (clocked.updateCurrFair env c).same (.modifyRq _ c ?_)
      cases env.kernel <;> rfl
    · exact clocked
  cases wrapped with
  | false => exact bare
  | true =>
      refine bare.same (.modifyRq _ c ?_)
      cases env.kernel <;> rfl

/-- `put_prev_task` may leave the stamp of its task open. -/
theorem Booked.classPutPrev (booked : Booked start none s) (env : Env) (c : Cpu) (p : Pid) :
    Booked start (some p) (classPutPrev env s c p) := by
  have opens : Booked start (some p) s := by
    refine booked.of_owed booked.apart rfl rfl fun d q _ => Or.inr ⟨by simp, Nat.le_refl _⟩
  simp only [AndroidKernel.classPutPrev]
  split
  · exact opens
  · rename_i isRt
    simp only [putPrevTaskRt]
    split
    · exact opens.updateCurrRt env c
    · exact (opens.updateCurrRt env c).modifySe p _ (Or.inl (by simp [isRt])) fun _ _ => id
  · exact (booked.updateCurrWrr c).modifySe p _ (Or.inr (Or.inl rfl)) (by simp)
  · split
    · exact opens.updateCurrFair env c
    · exact opens
  · exact opens

theorem Booked.close {p : Pid} (booked : Booked start (some p) s) (zero : ∀ c, owed s c p = 0) :
    Booked start none s := by
  refine booked.of_owed booked.apart rfl rfl fun c q _ => ?_
  by_cases same : q = p
  · subst same
    exact Or.inl (zero c)
  · exact Or.inr ⟨fun opened => same (Option.some.inj opened).symm, Nat.le_refl _⟩

theorem Booked.setCurrTask (env : Env) (c : Cpu) (booked : Booked start (some (s.rq c).curr) s) :
    Booked start none (setCurrTask env s c) := by
  have stamps : ∀ f, (rqCurr s c).schedClass ≠ .wrr →
      Booked start none (s.modifySe (s.rq c).curr f) := fun f other =>
    (booked.modifySe _ f (Or.inl other) fun _ _ => id).close fun d => owed_not_wrr d other
  have rests : (rqCurr s c).schedClass ≠ .wrr → Booked start none s := fun other =>
    booked.close fun d => owed_not_wrr d other
  simp only [AndroidKernel.setCurrTask]
  split
  · rename_i cls
    exact rests (by simp [cls])
  · rename_i cls
    exact stamps _ (by simp [cls])
  · refine (booked.modifySe _ _ (Or.inr (Or.inl rfl)) fun _ _ => id).close fun d => ?_
    by_cases here : d = c
    · subst here
      simp [owed]
    · exact owed_not_curr fun same => here (booked.apart d c same)
  · rename_i cls
    exact (rests (by simp [cls])).updateCurrFair env c
  · rename_i cls
    exact rests (by simp [cls])

theorem Booked.requeueAround (booked : Booked start none s) (env : Env) (c : Cpu) (p : Pid)
    (wrapped head : Bool) (change : TaskStruct → TaskStruct)
    (here : ∀ d, (s.rq d).curr = p → d = c) :
    Booked start none (requeueAround env s c p wrapped change head) := by
  have off : Booked start none
      (if (s.task p).onRq then AndroidKernel.takeOff env s c p wrapped else s) := by
    split
    · exact booked.takeOff env c p wrapped
    · exact booked
  have offCurr : ∀ d, ((if (s.task p).onRq then AndroidKernel.takeOff env s c p wrapped
      else s).rq d).curr = (s.rq d).curr := by
    intro d
    split
    · rw [takeOff_rq]
      exact (sameRoles_update (Rq.sameRoles_taken _ _ _ _ _) d).1
    · rfl
  have backOn : ∀ set : Sched, Booked start none set → Booked start none
      (if (s.task p).onRq then AndroidKernel.putOn env set c p wrapped head else set) := by
    intro set good
    split
    · exact good.putOn env c p wrapped head
    · exact good
  rw [requeueAround_eq]
  apply backOn
  -- `put_prev_task` settles what a current task owes, and `set_curr_task` opens a new bill
  by_cases running : (s.rq c).curr = p
  · simp only [taskCurrent, running, decide_true, if_true]
    have put := (off.classPutPrev env c p).modifyTask p change fun _ => Or.inl rfl
    apply Booked.setCurrTask
    have same : (((AndroidKernel.classPutPrev env (if (s.task p).onRq then
        AndroidKernel.takeOff env s c p wrapped else s) c p).modifyTask p change).rq c).curr =
        p := by
      rw [Sched.modifyTask_rq, classPutPrev_rq, offCurr, running]
    rwa [same]
  · simp only [taskCurrent, running, decide_false, Bool.false_eq_true, if_false]
    refine off.modifyTask p change fun _ => Or.inr fun d => ?_
    rw [offCurr]
    intro current
    exact running (here d current ▸ current)

end Moves

section Operations
variable {start : Cpu → Nat} {env : Env} {s : Sched}

theorem Booked.ttwuActivate (booked : Booked start none s) (c : Cpu) (p : Pid) :
    Booked start none (ttwuActivate env s c p) :=
  (booked.putOn env c p true false).same (.modifyTask _ p rfl)

theorem Booked.ttwuDoWakeup (booked : Booked start none s) (c : Cpu) (p : Pid) :
    Booked start none (ttwuDoWakeup env s c p) :=
  booked.same ((checkPreemptCurr_books env s c p).trans (.modifyTask _ p rfl))

theorem Booked.ttwuPlace (booked : Booked start none s) (p : Pid) (dest : Cpu) :
    Booked start none (ttwuPlace env s p dest) := by
  rcases ttwuPlace_cases env s p dest with same | same | same <;> rw [same]
  · exact booked
  · exact booked.same (.modifyTask s p rfl)
  · exact booked.same (.modifyTask s p rfl)

theorem Booked.tryToWakeUp (booked : Booked start none s) (p : Pid) (mask : Nat) (dest : Cpu) :
    Booked start none (tryToWakeUp env s p mask dest) := by
  simp only [AndroidKernel.tryToWakeUp]
  split_ifs
  · exact booked
  · exact booked.ttwuDoWakeup _ p
  · exact ((booked.ttwuPlace p dest).ttwuActivate _ p).ttwuDoWakeup _ p

theorem Booked.forkTask (booked : Booked start none s) (c : Cpu) (child : Pid)
    (nowhere : ∀ d, (s.rq d).curr ≠ child) : Booked start none (forkTask env s c child) := by
  let copy := schedFork env.kernel (rqCurr s c)
  have placed : Booked start none (s.modifyTask child fun _ =>
      if env.smp then copy.setCpu env c else { copy with cpu := c }) :=
    booked.modifyTask child _ fun _ => Or.inr nowhere
  exact placed.modifySe child (fun _ => { execStart := 0, sumExecRuntime := 0 })
    (Or.inr (Or.inr nowhere)) fun _ _ => id

theorem Booked.wakeUpNewTask (booked : Booked start none s) (p : Pid) (dest : Cpu) :
    Booked start none (wakeUpNewTask env s p dest) := by
  have placed : Booked start none (placeNewTask env s p dest) := by
    simp only [placeNewTask]
    split_ifs
    · exact booked.same ((SameBooks.modifyTask s p rfl).trans (.modifyTask _ p rfl))
    · exact booked.same (.modifyTask s p rfl)
    · exact booked.same (.modifyTask s p rfl)
    · exact booked
  exact (placed.ttwuActivate _ p).same (checkPreemptCurr_books env _ _ p)

theorem Booked.moveQueued (booked : Booked start none s) (p : Pid) (src dest : Cpu) :
    Booked start none (moveQueued env s p src dest) :=
  ((booked.takeOff env src p true).same (.modifyTask _ p rfl)).putOn env dest p true false

theorem Booked.migrateTask (booked : Booked start none s) (p : Pid) (src dest : Cpu) :
    Booked start none (migrateTask env s p src dest).1 := by
  have moved : Booked start none
      (checkPreemptCurr env (AndroidKernel.moveQueued env s p src dest) dest p) :=
    (booked.moveQueued p src dest).same (checkPreemptCurr_books env _ dest p)
  simp only [AndroidKernel.migrateTask]
  split_ifs <;> first | exact booked | exact moved

theorem Booked.pullWrrTask (booked : Booked start none s) (dest : Cpu) :
    Booked start none (pullWrrTask env s dest) := by
  simp only [AndroidKernel.pullWrrTask]
  split
  · exact booked
  · split
    · exact booked
    · exact (booked.moveQueued _ _ dest).same (checkPreemptCurr_books env _ dest _)

theorem Booked.doSetCpusAllowed (booked : Booked start none s) (p : Pid) (mask : Cpumask) :
    Booked start none (doSetCpusAllowed env s p mask) := by
  simp only [AndroidKernel.doSetCpusAllowed]
  split
  · exact booked.same (.modifyTask s p rfl)
  · exact booked
  · exact booked.same (.modifyTask s p rfl)

theorem Booked.tickLocked (booked : Booked start none s) (c : Cpu) :
    Booked start none (tickLocked env s c) := by
  have clocked := booked.updateRqClock env c
  simp only [AndroidKernel.tickLocked, taskTick]
  split
  · have charged := clocked.updateCurrRt env c
    simp only [taskTickRt]
    split_ifs
    · exact charged
    · exact charged.same (.modifyTask _ _ rfl)
    · exact charged.same ((SameBooks.modifyTask _ _ rfl).trans
        ((requeueTaskRt_books env _ c _ false).trans (reschedTask_books _ _)))
    · exact charged.same (.modifyTask _ _ rfl)
  · have charged := clocked.updateCurrWrr c
    simp only [taskTickWrr]
    split_ifs
    · exact charged.same (.modifyTask _ _ rfl)
    · exact charged.same ((SameBooks.modifyTask _ _ rfl).trans
        ((SameBooks.modifyRq _ c rfl).trans (reschedTask_books _ _)))
    · exact charged.same (.modifyTask _ _ rfl)
  · have charged := clocked.updateCurrFair env c
    split_ifs
    · exact charged.same (reschedTask_books _ _)
    · exact charged
  · exact clocked
  · exact clocked

theorem Booked.schedulerTick (booked : Booked start none s) (c : Cpu) :
    Booked start none (schedulerTick env s c) := by
  simp only [AndroidKernel.schedulerTick]
  split
  · exact (booked.tickLocked c).pullWrrTask c
  · exact booked.tickLocked c

theorem schedYield_books (env : Env) (s : Sched) (c : Cpu) :
    SameBooks s (schedYield env s c) := by
  simp only [schedYield]
  split
  · exact requeueTaskRt_books env s c _ false
  · simp only [yieldTaskWrr, requeueTaskWrr]
    exact .modifyRq s c rfl
  all_goals exact .refl s

theorem doSchedRtPeriodTimer_books (env : Env) (s : Sched) (g : Group) (c : Cpu)
    (overrun : Nat) : SameBooks s (doSchedRtPeriodTimer env s g c overrun) := by
  simp only [doSchedRtPeriodTimer, schedRtRqEnqueue]
  split_ifs <;> exact ⟨fun _ => rfl, fun _ => rfl, rfl, rfl, rfl⟩

theorem Booked.setUserNice (booked : Booked start none s) (p : Pid) (nice : Int) :
    Booked start none (setUserNice env s p nice) := by
  simp only [AndroidKernel.setUserNice]
  split
  · exact booked
  · split
    · exact booked.same (.modifyTask s p rfl)
    · by_cases on : (s.task p).onRq = true
      · simp only [on, if_true]
        have off : Booked start none (dequeueTask env s (s.task p).cpu p) :=
          booked.takeOff env (s.task p).cpu p false
        have niced : Booked start none ((dequeueTask env s (s.task p).cpu p).modifyTask p
            fun task => effectivePrio { task with staticPrio := niceToPrio nice }) :=
          off.same (.modifyTask _ p rfl)
        have back := niced.putOn env (s.task p).cpu p false false
        split
        · exact back.same (reschedTask_books _ _)
        · exact back
      · simp only [on, Bool.false_eq_true, if_false]
        exact booked.same (.modifyTask s p rfl)

/-- `normalize_task` never leaves a task in the WRR class. -/
theorem Booked.normalizeTask (booked : Booked start none s) (p : Pid) (waiter : Option Nat) :
    Booked start none (normalizeTask env s p waiter) := by
  have leaves : ∀ task, (setscheduler waiter .normal 0 task).schedClass ≠ .wrr := by
    intro task
    simp only [setscheduler, classFor]
    split_ifs <;> simp_all
  rw [normalizeTask_eq]
  refine Booked.same ?_ (checkClassChanged_books env _ _ p _ _)
  simp only [normalizeAround]
  by_cases on : (s.task p).onRq = true
  · simp only [on, if_true]
    have off : Booked start none (deactivateTask env s (s.task p).cpu p) :=
      booked.takeOff env (s.task p).cpu p true
    have changed := off.modifyTask p (setscheduler waiter .normal 0) fun isWrr =>
      absurd isWrr (leaves _)
    exact (changed.putOn env (s.task p).cpu p true false).same (reschedTask_books _ _)
  · simp only [on, Bool.false_eq_true, if_false]
    exact booked.modifyTask p _ fun isWrr => absurd isWrr (leaves _)

/-- The loop body clears the stamp first. -/
theorem Booked.normalizeRtTask (booked : Booked start none s) (p : Pid) (waiter : Option Nat)
    (early : (s.task p).mm = true → (s.task p).schedClass = .wrr →
      ∀ c, (s.rq c).curr = p → (s.clock c).clockTask = 0) :
    Booked start none (normalizeRtTask env s p waiter) := by
  simp only [AndroidKernel.normalizeRtTask]
  split
  · exact booked
  · rename_i user
    have cleared : Booked start none (s.modifySe p fun se => { se with execStart := 0 }) := by
      have opened : Booked start (some p) s :=
        booked.of_owed booked.apart rfl rfl fun c q _ => Or.inr ⟨by simp, Nat.le_refl _⟩
      refine (opened.modifySe p _ (Or.inr (Or.inl rfl)) fun _ _ => id).close fun c => ?_
      by_cases both : (s.rq c).curr = p ∧ (s.task p).schedClass = .wrr
      · have zero := early (by simpa using user) both.2 c both.1
        simp [owed, zero]
      · exact if_neg both
    split
    · split
      · exact cleared.setUserNice p 0
      · exact cleared
    · exact cleared.normalizeTask p waiter

theorem Booked.setscheduler (booked : Booked start none s) (sound : Sound env s)
    (caller : Caller) (p : Pid) (seen : TaskStruct) (policy prio : Int) (user : Bool)
    (waiter : Option Nat) :
    Booked start none (apply env s (.setscheduler caller p seen policy prio user waiter)) := by
  have here : ∀ d, (s.rq d).curr = p → d = (s.task p).cpu := by
    rintro d rfl
    exact (sound.running.curr_cpu d).symm
  simp only [apply]
  split
  · rename_i done
    rcases setschedulerPass_cases done with rfl | ⟨request, -, -, -, rfl⟩
    · exact booked
    · exact (booked.requeueAround env _ p _ _ _ here).same
        (checkClassChanged_books env _ _ p _ _)
  · exact booked

/-- The WRR task that `pick_next_task_wrr` offers carries a stamp that is not
behind the clock. -/
def PicksStamped (env : Env) (s : Sched) (c : Cpu) (preemptActive signalPending : Bool) : Prop :=
  let looked := pickState env s c preemptActive signalPending
  let picked := pickNextTask env looked c
  (looked.task picked).schedClass = .wrr →
    (looked.clock c).clockTask ≤ (looked.se picked).execStart

theorem Booked.pickState (booked : Booked start none s) (c : Cpu)
    (preemptActive signalPending : Bool) :
    Booked start (some (s.rq c).curr) (pickState env s c preemptActive signalPending) := by
  have out : Booked start none (scheduleOut env s c preemptActive signalPending) := by
    rcases scheduleOut_cases env s c preemptActive signalPending with same | ⟨-, awake | asleep⟩
    · rwa [same]
    · rw [awake]
      exact booked.same (.modifyTask s _ rfl)
    · rw [asleep]
      exact (booked.takeOff env c _ true).same (.modifyTask _ _ rfl)
  simp only [AndroidKernel.pickState, putPrevTask]
  split
  · exact (out.updateRqClock env c).classPutPrev env c _
  · exact out.classPutPrev env c _

theorem pickState_curr (sound : Sound env s) (c : Cpu) (preemptActive signalPending : Bool) :
    ((AndroidKernel.pickState env s c preemptActive signalPending).rq c).curr = (s.rq c).curr := by
  simpa [AndroidKernel.pickState] using
    ((scheduleOut_spec sound c preemptActive signalPending).roles c).1

theorem pickStamp_wrr {c : Cpu} {picked : SchedClass × Pid} (runnable : Runnable s c picked)
    (isWrr : (s.task picked.2).schedClass = .wrr) : pickStamp env s c picked = s := by
  rcases runnable with rfl | ⟨-, -, same⟩
  · rfl
  · rw [isWrr] at same
    simp only [pickStamp, ← same]

theorem Booked.pickStamp {unstamped : Option Pid} (booked : Booked start unstamped s)
    (env : Env) (c : Cpu) {picked : SchedClass × Pid} (runnable : Runnable s c picked) :
    Booked start unstamped (pickStamp env s c picked) := by
  by_cases isWrr : (s.task picked.2).schedClass = .wrr
  · rwa [pickStamp_wrr runnable isWrr]
  · simp only [AndroidKernel.pickStamp]
    split
    · exact booked.modifySe _ _ (Or.inl isWrr) fun _ _ => id
    · exact booked.modifySe _ _ (Or.inl isWrr) fun _ _ => id
    all_goals exact booked

theorem contextSwitch_books (s : Sched) (c : Cpu) (prev next : Pid) :
    (contextSwitch s c prev next).se = s.se ∧ (contextSwitch s c prev next).clock = s.clock ∧
      (contextSwitch s c prev next).acct = s.acct := by
  simp only [contextSwitch]
  split <;> exact ⟨rfl, rfl, rfl⟩

theorem contextSwitch_owed (s : Sched) (c : Cpu) (prev next : Pid)
    (current : (s.rq c).curr = prev) (d : Cpu) (p : Pid) :
    owed (contextSwitch s c prev next) d p =
      if (if d = c then next else (s.rq d).curr) = p ∧ (s.task p).schedClass = .wrr
      then (s.clock d).clockTask - (s.se p).execStart else 0 := by
  have cls : ((contextSwitch s c prev next).task p).schedClass = (s.task p).schedClass := by
    rw [contextSwitch_task, switchTasks_same]
  have curr : ((contextSwitch s c prev next).rq d).curr =
      if d = c then next else (s.rq d).curr := by
    rw [contextSwitch_rq s c prev next current]
    by_cases here : d = c
    · subst here
      simp
    · simp [here]
  obtain ⟨se, clock, -⟩ := contextSwitch_books s c prev next
  rw [owed, cls, curr, se, clock]

/-- The open stamp is that of the task that leaves the CPU. -/
theorem Booked.contextSwitch {prev next : Pid} {c : Cpu} (booked : Booked start (some prev) s)
    (current : (s.rq c).curr = prev)
    (settled : (s.task next).schedClass = .wrr → (s.clock c).clockTask ≤ (s.se next).execStart)
    (apart : ∀ d e, ((contextSwitch s c prev next).rq d).curr =
      ((contextSwitch s c prev next).rq e).curr → d = e) :
    Booked start none (contextSwitch s c prev next) := by
  obtain ⟨-, clock, acct⟩ := contextSwitch_books s c prev next
  refine booked.of_owed apart clock acct fun d p _ => ?_
  rw [contextSwitch_owed s c prev next current]
  by_cases here : d = c
  · subst here
    rw [if_pos rfl]
    left
    split
    · rename_i both
      obtain ⟨rfl, isWrr⟩ := both
      exact Nat.sub_eq_zero_of_le (settled isWrr)
    · rfl
  · rw [if_neg here]
    by_cases isCurr : (s.rq d).curr = p
    · right
      refine ⟨fun same => ?_, Nat.le_of_eq rfl⟩
      rw [Option.some.injEq, ← current, ← isCurr] at same
      exact here (booked.apart c d same).symm
    · left
      exact if_neg fun both => isCurr both.1

theorem schedule_eq (env : Env) (s : Sched) (c : Cpu) (preemptActive signalPending : Bool) :
    schedule env s c preemptActive signalPending =
      (let looked := AndroidKernel.pickState env s c preemptActive signalPending
       let stamped := AndroidKernel.pickStamp env looked c (pickNext env looked c)
       AndroidKernel.contextSwitch (clearTskNeedResched stamped (s.rq c).curr) c (s.rq c).curr
        (pickNextTask env looked c)) := rfl

theorem Booked.schedule (booked : Booked start none s) (sound : Sound env s) (c : Cpu)
    (preemptActive signalPending : Bool)
    (stamped : PicksStamped env s c preemptActive signalPending) :
    Booked start none (schedule env s c preemptActive signalPending) := by
  have after := schedule_sound sound c preemptActive signalPending
  have current := pickState_curr sound c preemptActive signalPending
  have runnable := pickNext_runnable (pickState_ready sound c preemptActive signalPending)
  have ready := (booked.pickState c preemptActive signalPending).pickStamp env c runnable
  rw [schedule_eq] at after ⊢
  refine Booked.contextSwitch (ready.same ⟨fun _ => rfl, fun _ => rfl, rfl, rfl, rfl⟩)
    (by simpa using current) ?_ ?_
  · intro isWrr
    have isWrr' : ((AndroidKernel.pickState env s c preemptActive signalPending).task
        (pickNext env (AndroidKernel.pickState env s c preemptActive signalPending) c).2).schedClass
          = .wrr := by simpa [pickNextTask] using isWrr
    simpa [pickStamp_wrr runnable isWrr'] using stamped isWrr'
  · intro d e same
    have one := after.running.curr_cpu d
    have two := after.running.curr_cpu e
    rw [same] at one
    exact one.symm.trans two

/-- The two places that would let `update_curr_wrr` charge time that the task
did not run: a pick without a stamp, and `normalize_rt_tasks` clearing the stamp
of a running WRR task. -/
def Stamped (env : Env) (s : Sched) : Op → Prop
  | .schedule c preemptActive signalPending => PicksStamped env s c preemptActive signalPending
  | .normalizeRtTask p _ =>
      (s.task p).mm = true → (s.task p).schedClass = .wrr → (s.rq (s.task p).cpu).curr = p →
        (s.clock (s.task p).cpu).clockTask = 0
  | _ => True

instance (env : Env) (s : Sched) : (op : Op) → Decidable (Stamped env s op)
  | .schedule _ _ _ => inferInstanceAs (Decidable (_ → _))
  | .normalizeRtTask _ _ => inferInstanceAs (Decidable (_ → _ → _ → _))
  | .fork _ _ | .wakeUpNewTask _ _ | .tryToWakeUp _ _ _ | .ttwuQueueRemote _ _
  | .schedTtwuPending _ | .setCurrentState _ _ | .schedulerTick _ | .schedYield _
  | .setscheduler _ _ _ _ _ _ _ | .rtMutexSetprio _ _ | .setUserNice _ _ | .cgroupAttach _ _
  | .schedMoveTask _ | .migrateTask _ _ _ | .pushTask _ _ | .pullWrrTask _
  | .rtPeriodTimer _ _ _ | .balanceRuntime _ _ _ | .setCpusAllowed _ _ =>
      inferInstanceAs (Decidable True)

theorem Booked.apply (booked : Booked start none s) (sound : Sound env s) (op : Op)
    (allowed : Allowed env s op) (stamped : Stamped env s op) :
    Booked start none (apply env s op) := by
  have here : ∀ p d, (s.rq d).curr = p → d = (s.task p).cpu := by
    rintro p d rfl
    exact (sound.running.curr_cpu d).symm
  cases op with
  | fork c child =>
      obtain ⟨-, ordinary, off⟩ := allowed
      exact booked.forkTask c child
        (sound.running.not_current child (by simpa using off) ordinary.1)
  | wakeUpNewTask p dest => exact booked.wakeUpNewTask p dest
  | tryToWakeUp p mask dest => exact booked.tryToWakeUp p mask dest
  | ttwuQueueRemote p dest => exact booked.ttwuPlace p dest
  | schedTtwuPending p => exact (booked.ttwuActivate _ p).ttwuDoWakeup _ p
  | setCurrentState c state =>
      simp only [AndroidKernel.apply]
      exact booked.same (.modifyTask s _ rfl)
  | schedule c preemptActive signalPending =>
      exact booked.schedule sound c preemptActive signalPending stamped
  | schedulerTick c => exact booked.schedulerTick c
  | schedYield c => exact booked.same (schedYield_books env s c)
  | setscheduler caller p seen policy prio user waiter =>
      exact booked.setscheduler sound caller p seen policy prio user waiter
  | rtMutexSetprio p waiter =>
      simp only [AndroidKernel.apply, rtMutexSetprio]
      split
      · exact booked
      · exact (booked.requeueAround env _ p _ _ _ (here p)).same
          (checkClassChanged_books env _ _ p _ _)
  | setUserNice p nice => exact booked.setUserNice p nice
  | cgroupAttach p group =>
      simp only [AndroidKernel.apply]
      exact booked.same (.modifyTask s p rfl)
  | schedMoveTask p => exact booked.requeueAround env _ p _ _ _ (here p)
  | migrateTask p src dest => exact booked.migrateTask p src dest
  | pushTask p dest => exact (booked.moveQueued p _ dest).same (reschedTask_books _ _)
  | pullWrrTask dest => exact booked.pullWrrTask dest
  | rtPeriodTimer g c overrun => exact booked.same (doSchedRtPeriodTimer_books env s g c overrun)
  | balanceRuntime g c runtime => exact booked.same ⟨fun _ => rfl, fun _ => rfl, rfl, rfl, rfl⟩
  | normalizeRtTask p waiter =>
      refine booked.normalizeRtTask p waiter fun user isWrr c current => ?_
      have home := here p c current
      subst home
      exact stamped user isWrr current
  | setCpusAllowed p mask => exact booked.doSetCpusAllowed p mask

end Operations

theorem init_booked (env : Env) {s : Sched} (init : Init s) :
    Booked (fun c => (s.clock c).clockTask) none s := by
  have running := (init_sound env init).running
  refine ⟨fun c d same => ?_, fun c p => ?_, fun c pids => ?_⟩
  · have one := running.curr_cpu c
    have two := running.curr_cpu d
    rw [same] at one
    exact one.symm.trans two
  · have notWrr : (s.task (s.rq c).curr).schedClass ≠ .wrr := by
      rw [(init.empty c).2.2.2, (init.idle_class c).1]
      simp
    have nothing : owed s c p = 0 := by
      apply if_neg
      rintro ⟨rfl, isWrr⟩
      exact notWrr isWrr
    simp [(init.no_charge c p).1, nothing]
  · simp [(init.no_charge c _).2]

/-- In a run that picks WRR tasks only with a stamp, no task is charged more than
it ran, and the tasks of a CPU together no more than its clock advanced. -/
theorem run_time_charged {env : Env} {start s : Sched} {ops : List Op} (init : Init start)
    (run : Transition.Run (step env) (Stamped env) start ops s) (c : Cpu) :
    (∀ p, (s.acct c).charged p ≤ (s.acct c).ran p) ∧
      ∀ pids : Finset Pid, ∑ p ∈ pids, (s.acct c).charged p + (start.clock c).clockTask ≤
        (s.clock c).clockTask := by
  have keeps : ∀ before op after,
      (Sound env before ∧ Booked (fun c => (start.clock c).clockTask) none before) →
      Stamped env before op → step env before op = some after →
      Sound env after ∧ Booked (fun c => (start.clock c).clockTask) none after := by
    rintro before op after ⟨sound, booked⟩ stamped moved
    obtain ⟨allowed, rfl⟩ := step_some moved
    exact ⟨apply_sound sound op allowed, booked.apply sound op allowed stamped⟩
  obtain ⟨-, booked⟩ := run.invariant keeps ⟨init_sound env init, init_booked env init⟩
  have each : ∀ p, (s.acct c).charged p ≤ (s.acct c).ran p := fun p =>
    (Nat.le_add_right _ _).trans (booked.paid c p)
  refine ⟨each, fun pids => ?_⟩
  have together : ∑ p ∈ pids, (s.acct c).charged p ≤ ∑ p ∈ pids, (s.acct c).ran p :=
    sum_le_sum fun p _ => each p
  have bound := booked.elapsed c pids
  omega

def stampedOps : List Op :=
  [.tryToWakeUp 1 1 0, .schedule 0 false false,
    .setscheduler Boot.root 1 Boot.userTask 6 0 true none, .schedulerTick 0, .schedulerTick 0]

theorem run_time_charged_stamped :
    let s := (Boot.after .goldfish false stampedOps).get (by decide)
    (∀ p, (s.acct 0).charged p ≤ (s.acct 0).ran p) ∧
      ∀ pids : Finset Pid, ∑ p ∈ pids, (s.acct 0).charged p + (Boot.state.clock 0).clockTask ≤
        (s.clock 0).clockTask :=
  run_time_charged Boot.state_init
    (Boot.run .goldfish false (Stamped (Boot.env .goldfish false)) stampedOps (by decide)
      (by decide)) 0

def unstampedOps : List Op :=
  [.setscheduler Boot.root 1 Boot.userTask 6 0 true none, .tryToWakeUp 1 1 0,
    .schedule 0 false false, .schedulerTick 0]

/-- It is charged the time since the clock began. -/
theorem uptime_charged :
    ¬ ∀ s, Reachable (Boot.env .goldfish false) (fun _ _ => True) s → ∀ c p,
      (s.acct c).charged p ≤ (s.acct c).ran p := by
  intro claim
  have law := claim _ (Boot.reachable .goldfish false unstampedOps (by decide)) 0 1
  exact absurd law (by decide)

end AndroidKernel
