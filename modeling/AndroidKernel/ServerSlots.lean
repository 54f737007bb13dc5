import AndroidKernel.ServerAccept

/-!
The service slots. `num_working_thread` changes in two critical sections that
only the flag `block` of the thread ties together. A thread is counted from the
one to the other; a step of a thread changes the counter by as much as it changes
whether the thread is counted, and the counter is the number of counted threads.
-/

namespace AndroidKernel.Server

def Thread.counted (th : Thread) : Bool :=
  !th.block && th.pc != .unlockRelease && th.pc != .exited

def Thread.Critical (th : Thread) : Prop :=
  th.pc = .admission ∨ th.pc = .unlockAdmission ∨ th.pc = .release ∨ th.pc = .unlockRelease

structure Thread.Branched (th : Thread) : Prop where
  encrypts : th.pc = .encrypt ∨ th.pc = .send → th.block = false
  waits : th.pc = .sendWait → th.block = true

section Steps
variable {t : Nat} {th th' : Thread} {sh sh' : Shared} {answer : Answer}

theorem Thread.Moves.counter (moves : th.Moves t sh answer th' sh') :
    sh'.numWorkingThread + (if th.counted then 1 else 0) =
      sh.numWorkingThread + (if th'.counted then 1 else 0) := by
  cases moves with
  | admits pc blocked room => simp [Thread.counted, blocked]
  | givesBack pc admitted => simp [Thread.counted, pc, admitted]
  | sendFails pc => rcases pc with pc | pc <;> simp [Thread.counted, pc]
  | _ => rename_i pc; simp_all [Thread.counted]

theorem Thread.Moves.room (moves : th.Moves t sh answer th' sh')
    (room : sh.numWorkingThread ≤ numThreadsAval) : sh'.numWorkingThread ≤ numThreadsAval := by
  cases moves with
  | admits pc blocked below => exact below
  | givesBack => exact Int.le_trans (Int.sub_le_self _ (by decide)) room
  | _ => exact room

theorem Thread.Moves.branched (moves : th.Moves t sh answer th' sh') (branched : th.Branched) :
    th'.Branched := by
  cases moves with
  | unlocksToWait pc blocked => exact ⟨by simp, fun _ => blocked⟩
  | unlocksToEncrypt pc admitted => exact ⟨fun _ => admitted, by simp⟩
  | encrypts pc => exact ⟨fun _ => branched.encrypts (Or.inl pc), by simp⟩
  | _ => exact ⟨by simp, by simp⟩

/-- `block` is set to 0 once and for all. -/
theorem Thread.Moves.stays_admitted (moves : th.Moves t sh answer th' sh')
    (admitted : th.block = false) : th'.block = false := by
  cases moves <;> first | exact admitted | rfl

/-- A thread enters a critical section by taking the free mutex, and whoever
gives it back leaves one. -/
theorem Thread.Moves.mutex (moves : th.Moves t sh answer th' sh') :
    -- outside both sections or within one, entering one, leaving one
    (sh'.mutex = sh.mutex ∧ (th'.Critical ↔ th.Critical)) ∨
      (sh.mutex = none ∧ sh'.mutex = some t ∧ th'.Critical) ∨
      (sh'.mutex = none ∧ th.Critical ∧ ¬ th'.Critical) := by
  cases moves with
  | locksAdmission pc free | locksRelease pc free =>
      exact Or.inr (Or.inl ⟨free, rfl, by simp [Thread.Critical]⟩)
  | unlocksToWait pc | unlocksToEncrypt pc | unlocksRelease pc =>
      exact Or.inr (Or.inr ⟨rfl, by simp [Thread.Critical, pc], by simp [Thread.Critical]⟩)
  | sendFails pc => exact Or.inl ⟨rfl, by rcases pc with pc | pc <;> simp [Thread.Critical, pc]⟩
  | _ => rename_i pc; exact Or.inl ⟨rfl, by simp_all [Thread.Critical]⟩

end Steps

structure Slots (p : Process) : Prop where
  counts : p.shared.numWorkingThread = p.threads.countP Thread.counted
  room : p.shared.numWorkingThread ≤ numThreadsAval
  branched : ∀ (t : Nat) (th : Thread), p.threads[t]? = some th → th.Branched
  exclusive : ∀ (t : Nat) (th : Thread), p.threads[t]? = some th → th.Critical →
    p.shared.mutex = some t

theorem initial_slots : Slots .initial where
  counts := rfl
  room := by decide
  branched := by simp [Process.initial]
  exclusive := by simp [Process.initial]

theorem thread_slots {p : Process} {t : Nat} {th th' : Thread} {sh : Shared} {answer : Answer}
    (slots : Slots p) (here : p.threads[t]? = some th)
    (steps : th.Moves t p.shared answer th' sh) :
    Slots { p with shared := sh, threads := p.threads.set t th' } := by
  obtain ⟨inside, getHere⟩ := List.getElem?_eq_some_iff.mp here
  refine ⟨?_, steps.room slots.room, ?_, ?_⟩
  · have own : (if th.counted then 1 else 0) ≤ p.threads.countP Thread.counted := by
      split
      · rename_i counted
        exact List.countP_pos_iff.mpr ⟨th, List.mem_of_getElem? here, counted⟩
      · exact Nat.zero_le _
    have moved := steps.counter
    rw [slots.counts] at moved
    simp only [List.countP_set inside, getHere]
    cases before : th.counted <;> cases after : th'.counted <;>
      simp only [before, after, if_true, if_false, Bool.false_eq_true] at moved own ⊢ <;> omega
  · intro i other found
    rcases getElem?_threads_set found with ⟨-, rfl⟩ | ⟨-, old⟩
    · exact steps.branched (slots.branched t th here)
    · exact slots.branched i other old
  · intro i other found critical
    rcases getElem?_threads_set found with ⟨rfl, rfl⟩ | ⟨differs, old⟩
    · rcases steps.mutex with ⟨same, was⟩ | ⟨-, taken, -⟩ | ⟨-, -, gone⟩
      · exact same.trans (slots.exclusive i th here (was.mp critical))
      · exact taken
      · exact absurd critical gone
    · have owner := slots.exclusive i other old critical
      rcases steps.mutex with ⟨same, -⟩ | ⟨free, -⟩ | ⟨-, critical', -⟩
      · exact same.trans owner
      · rw [free] at owner
        cases owner
      · have mine := slots.exclusive t th here critical'
        rw [owner, Option.some.injEq] at mine
        exact absurd mine differs

theorem step_slots {p next : Process} {action : Action} (slots : Slots p)
    (moved : step p action = some next) : Slots next := by
  cases moves moved with
  | creates main =>
      refine ⟨?_, slots.room, ?_, ?_⟩
      · simpa [Thread.counted, Thread.created] using slots.counts
      · intro t th found
        rcases getElem?_threads_append found with old | ⟨-, rfl⟩
        · exact slots.branched t th old
        · exact ⟨by simp [Thread.created], fun _ => rfl⟩
      · intro t th found critical
        rcases getElem?_threads_append found with old | ⟨-, rfl⟩
        · exact slots.exclusive t th old critical
        · simp [Thread.Critical, Thread.created] at critical
  | thread running here steps => exact thread_slots slots here steps
  | _ => exact ⟨slots.counts, slots.room, slots.branched, slots.exclusive⟩

structure SlotLaw (p : Process) : Prop where
  counts : p.shared.numWorkingThread = p.threads.countP Thread.counted
  lower : 0 ≤ p.shared.numWorkingThread
  upper : p.shared.numWorkingThread ≤ numThreadsAval
  encrypts_counted : ∀ (t : Nat) (th : Thread), p.threads[t]? = some th → th.pc = .encrypt →
    th.counted = true

theorem Slots.law {p : Process} (slots : Slots p) : SlotLaw p where
  counts := slots.counts
  lower := slots.counts ▸ Int.natCast_nonneg _
  upper := slots.room
  encrypts_counted t th found pc := by
    simp [Thread.counted, pc, (slots.branched t th found).encrypts (Or.inl pc)]

/-- At most one thread is between a lock and its unlock, so the two critical
sections may be taken as single steps. -/
theorem Slots.one_critical {p : Process} (slots : Slots p) {i j : Nat} {a b : Thread}
    (foundA : p.threads[i]? = some a) (foundB : p.threads[j]? = some b) (critA : a.Critical)
    (critB : b.Critical) : i = j :=
  Option.some.inj ((slots.exclusive i a foundA critA).symm.trans (slots.exclusive j b foundB critB))

theorem step_admitted {p next : Process} {action : Action} {t : Nat}
    (admitted : ∃ th, p.threads[t]? = some th ∧ th.block = false)
    (moved : step p action = some next) :
    ∃ th, next.threads[t]? = some th ∧ th.block = false := by
  obtain ⟨th, found, unblocked⟩ := admitted
  rcases step_thread found moved with ⟨_, th', -, found', steps⟩ | ⟨-, same⟩
  · exact ⟨th', found', steps.stays_admitted unblocked⟩
  · exact ⟨th, same, unblocked⟩

def givesBack (t : Nat) (p : Process) : Action → Nat
  | .thread u _ =>
      if u = t ∧ ∃ th ∈ p.threads[t]?, th.pc = .release ∧ th.block = false then 1 else 0
  | _ => 0

def toGiveBack (t : Nat) (p : Process) : Nat :=
  match p.threads[t]? with
  | none => 1
  | some th => if th.pc = .unlockRelease ∨ th.pc = .exited then 0 else 1

theorem Thread.Moves.toGiveBack {t : Nat} {th th' : Thread} {sh sh' : Shared} {answer : Answer}
    (moves : th.Moves t sh answer th' sh') :
    (if th.pc = .release ∧ th.block = false then 1 else 0) +
        (if th'.pc = .unlockRelease ∨ th'.pc = .exited then 0 else 1) ≤
      if th.pc = .unlockRelease ∨ th.pc = .exited then 0 else 1 := by
  cases moves with
  | sendFails pc => rcases pc with pc | pc <;> simp [pc]
  | _ => rename_i pc; simp_all

theorem step_toGiveBack {p next : Process} {action : Action} (t : Nat)
    (moved : step p action = some next) :
    givesBack t p action + toGiveBack t next ≤ toGiveBack t p := by
  cases moves moved with
  | creates main =>
      simp only [givesBack, toGiveBack, Nat.zero_add]
      by_cases inside : t < p.threads.length
      · exact Nat.le_of_eq (by rw [List.getElem?_append_left inside])
      · rw [List.getElem?_eq_none (Nat.le_of_not_lt inside)]
        split
        · exact Nat.le_refl _
        · split <;> omega
  | @thread u answer old after sh running here steps =>
      obtain ⟨inside, rfl⟩ := List.getElem?_eq_some_iff.mp here
      by_cases same : u = t
      · subst same
        simpa [givesBack, toGiveBack, here, inside] using steps.toGiveBack
      · simp [givesBack, toGiveBack, same, List.getElem?_set_ne same]
  | _ => simp [givesBack, toGiveBack]

theorem gives_back_once {p : Process} {actions : List Action}
    (run : Transition.Run step (fun _ _ => True) .initial actions p) (t : Nat) :
    Transition.totalCost step (givesBack t) .initial actions ≤ 1 := by
  have waiting : Transition.Run step (fun _ _ => True ∧ True) .initial actions p :=
    run.weaken fun _ _ _ => ⟨trivial, trivial⟩
  have paid : ∀ state action next, True → True → True → step state action = some next →
      True ∧ givesBack t state action ≤ toGiveBack t state ∧
        (True → givesBack t state action + toGiveBack t next ≤ toGiveBack t state) := by
    intro state action next _ _ _ moved
    have spent := step_toGiveBack t moved
    exact ⟨trivial, Nat.le_trans (Nat.le_add_right _ _) spent, fun _ => spent⟩
  exact waiting.cost_le_potential paid trivial

/-- In every reachable state of the service the counter is the number of counted
threads and at most `NUM_THREADS_AVAL`, and only counted threads encrypt; a thread
that is admitted is not told to wait later, and gives its slot back at most
once. -/
theorem service_slots {p later : Process} {actions more : List Action}
    (run : Transition.Run step (fun _ _ => True) .initial actions p)
    (goes : Transition.Run step (fun _ _ => True) p more later) (t : Nat) :
    SlotLaw p ∧
      ((∃ th, p.threads[t]? = some th ∧ th.block = false) →
        ∀ th, later.threads[t]? = some th → th.pc ≠ .sendWait) ∧
      Transition.totalCost step (givesBack t) .initial actions ≤ 1 := by
  have slots : Slots p := run.invariant (fun _ _ _ slots _ moved => step_slots slots moved)
    initial_slots
  have slotsLater : Slots later := goes.invariant
    (fun _ _ _ slots _ moved => step_slots slots moved) slots
  refine ⟨slots.law, ?_, gives_back_once run t⟩
  intro admitted th found pc
  obtain ⟨same, foundSame, unblocked⟩ := goes.invariant
    (fun _ _ _ admitted _ moved => step_admitted admitted moved) admitted
  rw [found, Option.some.injEq] at foundSame
  subst foundSame
  rw [(slotsLater.branched t th found).waits pc] at unblocked
  cases unblocked

def served : List Action :=
  [.accept 4, .create 0, .thread 0 .none, .thread 0 (.recv (some [104, 105])),
    .thread 0 .none, .thread 0 .none, .thread 0 .none, .thread 0 .none, .thread 0 .none,
    .thread 0 (.send true)]

def leaves : List Action :=
  [.thread 0 (.recv none), .thread 0 .none, .thread 0 .none, .thread 0 .none, .thread 0 .none]

theorem served_done : (Transition.runActions step .initial served).isSome := by decide

def afterServed : Process := (Transition.runActions step .initial served).get served_done

theorem leaves_done : (Transition.runActions step afterServed leaves).isSome := by decide

theorem service_slots_served :
    let later := (Transition.runActions step afterServed leaves).get leaves_done
    SlotLaw afterServed ∧
      ((∃ th, afterServed.threads[0]? = some th ∧ th.block = false) →
        ∀ th, later.threads[0]? = some th → th.pc ≠ .sendWait) ∧
      Transition.totalCost step (givesBack 0) .initial served ≤ 1 :=
  service_slots (Transition.run_of_isSome _ _ served_done)
    (Transition.run_of_isSome _ _ leaves_done) 0

end AndroidKernel.Server
