import AndroidKernel.Transition
import AndroidKernel.ServerSteps

/-!
How a connection gets from `main` to a service thread: through the one variable
`connectfd`, whose address every thread is given. A thread obtains the connection
it was created for if it reads before the next `accept` stores there. Later reads
only find later connections, so whoever is late loses its own for good.
-/

namespace AndroidKernel.Server

theorem getElem?_threads_set {threads : List Thread} {t i : Nat} {new th : Thread}
    (found : (threads.set t new)[i]? = some th) :
    i = t ∧ th = new ∨ i ≠ t ∧ threads[i]? = some th := by
  rw [List.getElem?_set] at found
  split at found
  · rename_i same
    split at found
    · exact Or.inl ⟨same.symm, (Option.some.inj found).symm⟩
    · cases found
  · rename_i differs
    exact Or.inr ⟨Ne.symm differs, found⟩

theorem getElem?_threads_append {threads : List Thread} {i : Nat} {new th : Thread}
    (found : (threads ++ [new])[i]? = some th) :
    threads[i]? = some th ∨ i = threads.length ∧ th = new := by
  by_cases old : i < threads.length
  · rw [List.getElem?_append_left old] at found
    exact Or.inl found
  · rw [List.getElem?_append_right (Nat.le_of_not_lt old), List.getElem?_singleton] at found
    split at found
    · exact Or.inr ⟨by omega, (Option.some.inj found).symm⟩
    · cases found

section Frames
variable {t : Nat} {th th' : Thread} {sh sh' : Shared} {answer : Answer}

theorem Thread.Moves.call (moves : th.Moves t sh answer th' sh') : th'.call = th.call := by
  cases moves <;> rfl

theorem Thread.Moves.started (moves : th.Moves t sh answer th' sh') : th'.pc ≠ .readFd := by
  cases moves <;> simp

theorem Thread.Moves.connectfd (moves : th.Moves t sh answer th' sh') :
    sh'.connectfd = sh.connectfd := by
  cases moves <;> rfl

theorem Thread.Moves.keeps_fd (moves : th.Moves t sh answer th' sh')
    (started : th.pc ≠ .readFd) :
    th'.newsockfd = th.newsockfd ∧ th'.obtained = th.obtained := by
  cases moves with
  | readsFd pc => exact absurd pc started
  | _ => exact ⟨rfl, rfl⟩

theorem Thread.Moves.reads (moves : th.Moves t sh answer th' sh') (pc : th.pc = .readFd) :
    th'.newsockfd = sh.connectfd ∧ th'.obtained = sh.conns sh.connectfd ∧ sh' = sh := by
  cases moves with
  | readsFd => exact ⟨rfl, rfl, rfl⟩
  | sendFails other => simp [pc] at other
  | _ => rename_i other; simp_all

def Thread.Holds (th : Thread) : Prop :=
  th.pc ≠ .readFd ∧ th.pc ≠ .lockRelease ∧ th.pc ≠ .release ∧ th.pc ≠ .unlockRelease ∧
    th.pc ≠ .exited

/-- Either no descriptor changes and the thread holds its own only if it did or
has just read it, or this is the `close`. -/
theorem Thread.Moves.conns (moves : th.Moves t sh answer th' sh') :
    -- it leaves the descriptors alone, at most reading its own
    (sh'.conns = sh.conns ∧ (th'.Holds → th.Holds ∨ th.pc = .readFd)) ∨
      -- it closes the one it holds
      (th.Holds ∧ ¬ th'.Holds ∧
        sh'.conns = Function.update sh.conns th.newsockfd none) := by
  cases moves with
  | closes pc => exact Or.inr ⟨by simp [Thread.Holds, pc], by simp [Thread.Holds], rfl⟩
  | sendFails pc =>
      refine Or.inl ⟨rfl, fun _ => Or.inl ?_⟩
      rcases pc with pc | pc <;> simp [Thread.Holds, pc]
  | readsFd pc => exact Or.inl ⟨rfl, fun _ => Or.inr pc⟩
  | _ => rename_i pc; exact Or.inl ⟨rfl, by simp_all [Thread.Holds]⟩

end Frames

/-- What is behind `connectfd` is the last connection or nothing, and a thread
never obtains an earlier connection than its own. -/
structure Forward (p : Process) : Prop where
  invalid : p.shared.conns (-1) = none
  latest : p.shared.conns p.shared.connectfd = none ∨
    p.shared.conns p.shared.connectfd = some p.accepts
  call_le : ∀ (i : Nat) (th : Thread), p.threads[i]? = some th → th.call ≤ p.accepts
  call_lt : p.main = .create → ∀ (i : Nat) (th : Thread), p.threads[i]? = some th →
    th.call < p.accepts
  distinct : ∀ (i j : Nat) (a b : Thread), p.threads[i]? = some a → p.threads[j]? = some b →
    a.call = b.call → i = j
  unread : ∀ (i : Nat) (th : Thread), p.threads[i]? = some th → th.pc = .readFd →
    th.obtained = none
  later : ∀ (i : Nat) (th : Thread) (k : Nat), p.threads[i]? = some th → th.obtained = some k →
    th.call ≤ k

theorem initial_forward : Forward .initial where
  invalid := rfl
  latest := Or.inl rfl
  call_le := by simp [Process.initial]
  call_lt := by simp [Process.initial]
  distinct := by simp [Process.initial]
  unread := by simp [Process.initial]
  later := by simp [Process.initial]

theorem Forward.created {p : Process} (fwd : Forward p) (main : p.main = .create) :
    Forward { p with main := .accept, threads := p.threads ++ [.created p.accepts] } := by
  -- the new thread has the last call as its own, and nobody else has that call yet
  have fresh := fwd.call_lt main
  constructor
  · exact fwd.invalid
  · exact fwd.latest
  · intro i th found
    rcases getElem?_threads_append found with old | ⟨-, rfl⟩
    · exact fwd.call_le i th old
    · exact Nat.le_refl _
  · intro other
    cases other
  · intro i j a b foundA foundB same
    rcases getElem?_threads_append foundA with oldA | ⟨rfl, rfl⟩ <;>
      rcases getElem?_threads_append foundB with oldB | ⟨rfl, rfl⟩
    · exact fwd.distinct i j a b oldA oldB same
    · exact absurd same (Nat.ne_of_lt (fresh i a oldA))
    · exact absurd same.symm (Nat.ne_of_lt (fresh j b oldB))
    · rfl
  · intro i th found pc
    rcases getElem?_threads_append found with old | ⟨-, rfl⟩
    · exact fwd.unread i th old pc
    · rfl
  · intro i th k found got
    rcases getElem?_threads_append found with old | ⟨-, rfl⟩
    · exact fwd.later i th k old got
    · cases got

theorem Forward.closed {p : Process} (fwd : Forward p) (fd : Int) :
    Function.update p.shared.conns fd none (-1) = none ∧
      (Function.update p.shared.conns fd none p.shared.connectfd = none ∨
        Function.update p.shared.conns fd none p.shared.connectfd = some p.accepts) := by
  simp only [Function.update_apply]
  constructor
  · split
    · rfl
    · exact fwd.invalid
  · split
    · exact Or.inl rfl
    · exact fwd.latest

/-- What a thread obtains when it reads is not earlier than its own connection. -/
theorem Forward.obtains {p : Process} (fwd : Forward p) {t : Nat} {th th' : Thread} {sh : Shared}
    {answer : Answer} (here : p.threads[t]? = some th)
    (steps : th.Moves t p.shared answer th' sh) {k : Nat} (got : th'.obtained = some k) :
    th.call ≤ k := by
  by_cases pc : th.pc = .readFd
  · rw [(steps.reads pc).2.1] at got
    rcases fwd.latest with nothing | last
    · rw [nothing] at got
      cases got
    · rw [last, Option.some.injEq] at got
      exact got ▸ fwd.call_le t th here
  · exact fwd.later t th k here ((steps.keeps_fd pc).2 ▸ got)

theorem Forward.stepped {p : Process} (fwd : Forward p) {t : Nat} {th th' : Thread} {sh : Shared}
    {answer : Answer} (here : p.threads[t]? = some th)
    (steps : th.Moves t p.shared answer th' sh) :
    Forward { p with shared := sh, threads := p.threads.set t th' } := by
  have conns : sh.conns (-1) = none ∧ (sh.conns p.shared.connectfd = none ∨
      sh.conns p.shared.connectfd = some p.accepts) := by
    rcases steps.conns with ⟨same, -⟩ | ⟨-, -, closed⟩
    · rw [same]
      exact ⟨fwd.invalid, fwd.latest⟩
    · rw [closed]
      exact fwd.closed th.newsockfd
  constructor
  · exact conns.1
  · simpa only [steps.connectfd] using conns.2
  · intro i other found
    rcases getElem?_threads_set found with ⟨-, rfl⟩ | ⟨-, kept⟩
    · exact steps.call ▸ fwd.call_le t th here
    · exact fwd.call_le i other kept
  · intro main i other found
    rcases getElem?_threads_set found with ⟨-, rfl⟩ | ⟨-, kept⟩
    · exact steps.call ▸ fwd.call_lt main t th here
    · exact fwd.call_lt main i other kept
  · intro i j a b foundA foundB same
    -- the thread that moved kept its call, so no two of them come to share one
    rcases getElem?_threads_set foundA with ⟨rfl, rfl⟩ | ⟨-, oldA⟩ <;>
      rcases getElem?_threads_set foundB with ⟨rfl, rfl⟩ | ⟨-, oldB⟩
    · rfl
    · exact fwd.distinct i j _ b here oldB (steps.call ▸ same)
    · exact fwd.distinct i j a _ oldA here (steps.call ▸ same)
    · exact fwd.distinct i j a b oldA oldB same
  · intro i other found pc
    rcases getElem?_threads_set found with ⟨-, rfl⟩ | ⟨-, kept⟩
    · exact absurd pc steps.started
    · exact fwd.unread i other kept pc
  · intro i other k found got
    rcases getElem?_threads_set found with ⟨-, rfl⟩ | ⟨-, kept⟩
    · exact steps.call ▸ fwd.obtains here steps got
    · exact fwd.later i other k kept got

theorem step_forward {p next : Process} {action : Action} (fwd : Forward p)
    (moved : step p action = some next) : Forward next := by
  cases moves moved with
  | acceptFails main =>
      exact
        { invalid := fwd.invalid
          latest := Or.inl fwd.invalid
          call_le := fun i th found => Nat.le_succ_of_le (fwd.call_le i th found)
          call_lt := fun other => by simp [main] at other
          distinct := fwd.distinct
          unread := fwd.unread
          later := fwd.later }
  | @accepts fd main valid unused =>
      have other : (-1 : Int) ≠ fd := by omega
      exact
        { invalid := by simpa [Function.update_of_ne other] using fwd.invalid
          latest := Or.inr (by simp)
          call_le := fun i th found => Nat.le_succ_of_le (fwd.call_le i th found)
          call_lt := fun _ i th found => Nat.lt_succ_of_le (fwd.call_le i th found)
          distinct := fwd.distinct
          unread := fwd.unread
          later := fwd.later }
  | exits main =>
      have closed := fwd.closed p.shared.connectfd
      exact
        { invalid := closed.1
          latest := closed.2
          call_le := fwd.call_le
          call_lt := fun other => by simp at other
          distinct := fwd.distinct
          unread := fwd.unread
          later := fwd.later }
  | creates main => exact fwd.created main
  | createsNone main => exact { fwd with call_lt := fun other => by simp at other }
  | thread running here steps => exact fwd.stepped here steps

theorem run_forward {p start : Process} {actions : List Action} {ok : Process → Action → Prop}
    (fwd : Forward start) (run : Transition.Run step ok start actions p) : Forward p :=
  run.invariant (fun _ _ _ fwd _ moved => step_forward fwd moved) fwd

/-- When a thread reads, `main` has not called `accept` since it created it. -/
def ReadsOwn (p : Process) : Action → Prop
  | .thread t _ => ∀ th ∈ p.threads[t]?, th.pc = .readFd → th.call = p.accepts
  | _ => True

instance (p : Process) (action : Action) : Decidable (ReadsOwn p action) := by
  unfold ReadsOwn
  split <;> infer_instance

structure Owned (p : Process) : Prop where
  ready : p.main = .create → p.shared.conns p.shared.connectfd = some p.accepts
  waiting : ∀ (i : Nat) (th : Thread), p.threads[i]? = some th → th.pc = .readFd →
    th.call = p.accepts → p.shared.conns p.shared.connectfd = some p.accepts
  obtained : ∀ (i : Nat) (th : Thread), p.threads[i]? = some th → th.pc ≠ .readFd →
    th.obtained = some th.call
  opened : ∀ (i : Nat) (th : Thread), p.threads[i]? = some th → th.Holds →
    p.shared.conns th.newsockfd = some th.call

theorem initial_owned : Owned .initial where
  ready := by simp [Process.initial]
  waiting := by simp [Process.initial]
  obtained := by simp [Process.initial]
  opened := by simp [Process.initial]

theorem thread_owned {p : Process} {t : Nat} {th th' : Thread} {sh : Shared} {answer : Answer}
    (fwd : Forward p) (owned : Owned p) (here : p.threads[t]? = some th)
    (steps : th.Moves t p.shared answer th' sh) (own : th.pc = .readFd → th.call = p.accepts) :
    Owned { p with shared := sh, threads := p.threads.set t th' } := by
  rcases steps.conns with ⟨same, holds⟩ | ⟨held, gone, closed⟩
  · -- no descriptor changes, and the thread may have read its own
    refine ⟨?_, ?_, ?_, ?_⟩
    · simpa only [same, steps.connectfd] using owned.ready
    · intro i other found pc
      rcases getElem?_threads_set found with ⟨-, rfl⟩ | ⟨-, old⟩
      · exact absurd pc steps.started
      · simpa only [same, steps.connectfd] using owned.waiting i other old pc
    · intro i other found pc
      rcases getElem?_threads_set found with ⟨-, rfl⟩ | ⟨-, old⟩
      · by_cases reads : th.pc = .readFd
        · rw [(steps.reads reads).2.1, steps.call, own reads]
          exact owned.waiting t th here reads (own reads)
        · rw [(steps.keeps_fd reads).2, steps.call]
          exact owned.obtained t th here reads
      · exact owned.obtained i other old pc
    · intro i other found otherHolds
      simp only [same]
      rcases getElem?_threads_set found with ⟨-, rfl⟩ | ⟨-, old⟩
      · by_cases reads : th.pc = .readFd
        · rw [(steps.reads reads).1, steps.call, own reads]
          exact owned.waiting t th here reads (own reads)
        · rw [(steps.keeps_fd reads).1, steps.call]
          exact owned.opened t th here ((holds otherHolds).resolve_right reads)
      · exact owned.opened i other old otherHolds
  · -- a descriptor is closed, which no other thread holds or is about to read
    have mine := owned.opened t th here held
    have spared : ∀ fd k, p.shared.conns fd = some k → k ≠ th.call →
        Function.update p.shared.conns th.newsockfd none fd = some k := by
      intro fd k opened differs
      by_cases same : fd = th.newsockfd
      · rw [same, mine, Option.some.injEq] at opened
        exact absurd opened.symm differs
      · rwa [Function.update_of_ne same]
    refine ⟨?_, ?_, ?_, ?_⟩
    · intro main
      simp only [closed, steps.connectfd]
      exact spared _ _ (owned.ready main) (Nat.ne_of_gt (fwd.call_lt main t th here))
    · intro i other found pc last
      rcases getElem?_threads_set found with ⟨-, rfl⟩ | ⟨differs, old⟩
      · exact absurd pc steps.started
      · simp only [closed, steps.connectfd]
        refine spared _ _ (owned.waiting i other old pc last) fun same => differs ?_
        exact fwd.distinct i t other th old here (last.trans same)
    · intro i other found pc
      rcases getElem?_threads_set found with ⟨-, rfl⟩ | ⟨-, old⟩
      · rw [(steps.keeps_fd held.1).2, steps.call]
        exact owned.obtained t th here held.1
      · exact owned.obtained i other old pc
    · intro i other found otherHolds
      simp only [closed]
      rcases getElem?_threads_set found with ⟨-, rfl⟩ | ⟨differs, old⟩
      · exact absurd otherHolds gone
      · exact spared _ _ (owned.opened i other old otherHolds) fun same =>
          differs (fwd.distinct i t other th old here same)

theorem step_owned {p next : Process} {action : Action} (fwd : Forward p) (owned : Owned p)
    (own : ReadsOwn p action) (moved : step p action = some next) : Owned next := by
  cases moves moved with
  | acceptFails main =>
      refine ⟨fun other => by simp [main] at other, ?_, owned.obtained, owned.opened⟩
      intro i th found pc last
      exact absurd last (Nat.ne_of_lt (Nat.lt_succ_of_le (fwd.call_le i th found)))
  | @accepts fd main valid unused =>
      refine ⟨fun _ => by simp, ?_, owned.obtained, ?_⟩
      · intro i th found pc last
        exact absurd last (Nat.ne_of_lt (Nat.lt_succ_of_le (fwd.call_le i th found)))
      · intro i th found holds
        have mine := owned.opened i th found holds
        have other : th.newsockfd ≠ fd := fun same => by simp [same, unused] at mine
        simpa [Function.update_of_ne other] using mine
  -- `close(connectfd)` is for the connection that got no thread
  | exits main =>
      refine ⟨fun other => by simp at other, ?_, owned.obtained, ?_⟩
      · intro i th found pc last
        exact absurd last (Nat.ne_of_lt (fwd.call_lt main i th found))
      · intro i th found holds
        have mine := owned.opened i th found holds
        have other : th.newsockfd ≠ p.shared.connectfd := by
          intro same
          rw [same, owned.ready main, Option.some.injEq] at mine
          exact absurd mine.symm (Nat.ne_of_lt (fwd.call_lt main i th found))
        simpa [Function.update_of_ne other] using mine
  | creates main =>
      refine ⟨fun other => by simp at other, fun _ _ _ _ _ => owned.ready main, ?_, ?_⟩
      · intro i th found pc
        rcases getElem?_threads_append found with old | ⟨-, rfl⟩
        · exact owned.obtained i th old pc
        · exact absurd rfl pc
      · intro i th found holds
        rcases getElem?_threads_append found with old | ⟨-, rfl⟩
        · exact owned.opened i th old holds
        · exact absurd rfl holds.1
  | createsNone main =>
      exact { owned with ready := fun other => by simp at other }
  | thread running here steps =>
      exact thread_owned fwd owned here steps (own _ here)

/-- No connection has two threads, and a thread that has started does not leave
the connection it was created for without one. -/
structure Served (p : Process) : Prop where
  once : ∀ (i j : Nat) (a b : Thread) (k : Nat), p.threads[i]? = some a → p.threads[j]? = some b →
    a.obtained = some k → b.obtained = some k → i = j
  nobody_left : ∀ (i : Nat) (th : Thread), p.threads[i]? = some th → th.pc ≠ .readFd →
    ∃ (j : Nat) (own : Thread), p.threads[j]? = some own ∧ own.obtained = some th.call

theorem Owned.served {p : Process} (fwd : Forward p) (owned : Owned p) : Served p where
  once i j a b k foundA foundB gotA gotB := by
    have startedA : a.pc ≠ .readFd := fun pc => by simp [fwd.unread i a foundA pc] at gotA
    have startedB : b.pc ≠ .readFd := fun pc => by simp [fwd.unread j b foundB pc] at gotB
    rw [owned.obtained i a foundA startedA] at gotA
    rw [owned.obtained j b foundB startedB] at gotB
    exact fwd.distinct i j a b foundA foundB (Option.some.inj (gotA.trans gotB.symm))
  nobody_left i th found started := ⟨i, th, found, owned.obtained i th found started⟩

/-- Threads do not swap: since a thread never obtains an earlier connection than
its own, the first that did not obtain its own would leave it to nobody. -/
theorem Served.own {p : Process} (fwd : Forward p) (served : Served p) :
    ∀ (call i : Nat) (th : Thread), p.threads[i]? = some th → th.pc ≠ .readFd → th.call = call →
      th.obtained = some call := by
  intro call
  induction call using Nat.strongRecOn with
  | _ call ih =>
      rintro i th found started rfl
      obtain ⟨j, own, foundOwn, got⟩ := served.nobody_left i th found started
      have ownStarted : own.pc ≠ .readFd := fun pc => by simp [fwd.unread j own foundOwn pc] at got
      rcases Nat.lt_or_eq_of_le (fwd.later j own _ foundOwn got) with earlier | same
      · have gotOwn := ih own.call earlier j own foundOwn ownStarted rfl
        rw [got, Option.some.injEq] at gotOwn
        exact absurd gotOwn.symm (Nat.ne_of_lt earlier)
      · have eq : j = i := fwd.distinct j i own th foundOwn found same
        subst eq
        rw [found, Option.some.injEq] at foundOwn
        exact foundOwn ▸ got

theorem step_obtained {p next : Process} {action : Action} {i : Nat} {th : Thread}
    (moved : step p action = some next) (found : p.threads[i]? = some th)
    (started : th.pc ≠ .readFd) :
    ∃ th', next.threads[i]? = some th' ∧ th'.pc ≠ .readFd ∧ th'.call = th.call ∧
      th'.obtained = th.obtained := by
  rcases step_thread found moved with ⟨_, th', -, found', steps⟩ | ⟨-, same⟩
  · exact ⟨th', found', steps.started, steps.call, (steps.keeps_fd started).2⟩
  · exact ⟨th, same, started, rfl, rfl⟩

theorem run_obtained {p after : Process} {actions : List Action} {ok : Process → Action → Prop}
    {i : Nat} {th : Thread} (run : Transition.Run step ok p actions after)
    (found : p.threads[i]? = some th) (started : th.pc ≠ .readFd) :
    ∃ th', after.threads[i]? = some th' ∧ th'.pc ≠ .readFd ∧ th'.call = th.call ∧
      th'.obtained = th.obtained := by
  induction run generalizing th with
  | refl => exact ⟨th, found, started, rfl, rfl⟩
  | next _ moved _ ih =>
      obtain ⟨middle, foundMiddle, startedMiddle, callMiddle, obtainedMiddle⟩ :=
        step_obtained moved found started
      obtain ⟨last, foundLast, startedLast, callLast, obtainedLast⟩ := ih foundMiddle startedMiddle
      exact ⟨last, foundLast, startedLast, callLast.trans callMiddle,
        obtainedLast.trans obtainedMiddle⟩

/-- If everyone is served in the end, every read on the way was in time. -/
theorem Served.readsOwn {start p : Process} {actions : List Action} (served : Served p)
    (fwd : Forward start) (run : Transition.Run step (fun _ _ => True) start actions p) :
    Transition.Run step ReadsOwn start actions p := by
  have last := run_forward fwd run
  induction run with
  | refl state => exact .refl state
  | @next before middle after action rest _ moved tail ih =>
      refine .next ?_ moved (ih served (step_forward fwd moved) last)
      cases moves moved with
      | @thread t answer th th' sh running here steps =>
          intro other found pc
          rw [here, Option.mem_some_iff] at found
          subst found
          have inside : t < before.threads.length := (List.getElem?_eq_some_iff.mp here).1
          have kept : (before.threads.set t th')[t]? = some th' := by simp [inside]
          obtain ⟨final, foundFinal, startedFinal, callFinal, obtainedFinal⟩ :=
            run_obtained tail kept steps.started
          have own := served.own last _ t final foundFinal startedFinal rfl
          rw [obtainedFinal, (steps.reads pc).2.1, callFinal, steps.call] at own
          rcases fwd.latest with nothing | newest
          · rw [nothing] at own
            cases own
          · rw [newest, Option.some.injEq] at own
            exact own.symm
      | _ => trivial

/-- A run serves every connection once if and only if in each step in which a
thread reads `connectfd`, `main` has not called `accept` again. -/
theorem served_iff {p : Process} {actions : List Action}
    (run : Transition.Run step (fun _ _ => True) .initial actions p) :
    Served p ↔ Transition.Run step ReadsOwn .initial actions p := by
  constructor
  · intro served
    exact served.readsOwn initial_forward run
  · intro inTime
    have keeps : ∀ state action next, Forward state ∧ Owned state → ReadsOwn state action →
        step state action = some next → Forward next ∧ Owned next := by
      rintro state action next ⟨fwd, owned⟩ own moved
      exact ⟨step_forward fwd moved, step_owned fwd owned own moved⟩
    have both := inTime.invariant keeps ⟨initial_forward, initial_owned⟩
    exact both.2.served both.1

def inTurn : List Action :=
  [.accept 4, .create 0, .thread 0 .none, .accept 5, .create 0, .thread 1 .none]

theorem inTurn_done : (Transition.runActions step .initial inTurn).isSome := by decide

theorem served_inTurn : Served ((Transition.runActions step .initial inTurn).get inTurn_done) :=
  (served_iff (Transition.run_of_isSome _ _ inTurn_done)).mpr
    ((Transition.run_of_isSome _ _ inTurn_done).of_allAllowed (by decide))

def late : List Action :=
  [.accept 4, .create 0, .accept 5, .create 0, .thread 0 .none, .thread 1 .none]

theorem late_done : (Transition.runActions step .initial late).isSome := by decide

/-- Both threads obtain the second connection. -/
theorem late_threads_share : ¬ ∀ (p : Process) (actions : List Action),
    Transition.Run step (fun _ _ => True) .initial actions p → Served p := by
  intro all
  have served := all _ late (Transition.run_of_isSome _ _ late_done)
  have second : ∀ i, i = 0 ∨ i = 1 → ∃ th : Thread,
      ((Transition.runActions step .initial late).get late_done).threads[i]? = some th ∧
        th.obtained = some 2 := by
    rintro i (rfl | rfl) <;> apply Option.map_eq_some_iff.mp <;> rfl
  obtain ⟨a, foundA, gotA⟩ := second 0 (Or.inl rfl)
  obtain ⟨b, foundB, gotB⟩ := second 1 (Or.inr rfl)
  exact absurd (served.once 0 1 a b 2 foundA foundB gotA gotB) (by decide)

end AndroidKernel.Server
