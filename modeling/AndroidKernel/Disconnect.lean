import Mathlib.Tactic.IntervalCases
import AndroidKernel.Execution
import AndroidKernel.ReplyStream

/-!
What becomes of a service thread whose client closes the connection. From then on
`recv` returns 0, which none of the exits of the loop tests: the empty string is
not `:q`, it is encrypted and answered like any message, and the next `recv`
returns 0 again. So the thread leaves its loop, in a fair execution of the whole
service, if and only if one of the messages before was `:q`.
-/

namespace AndroidKernel.Server

def ActsFor (t : Nat) (action : Action) : Prop := ∃ answer, action = .thread t answer

/-- The thread `u` has a step that waits for nobody: it is outside `recv` and
`send`, and the mutex is free if it wants it. The calls of the thread `t` return
as well, as its client has sent all it ever sends and takes what it gets. -/
def Ready (t u : Nat) (p : Process) : Prop :=
  ∃ th, p.threads[u]? = some th ∧ ((th.step u p.shared .none).isSome ∨
    u = t ∧ (th.pc = .receive ∨ th.pc = .send ∨ th.pc = .sendWait))

/-- The client of the thread `t` sends these messages and closes the connection:
each `recv` takes the next of them, and returns 0 once there is none. -/
structure HangsUp (msgs : List (List Byte)) (t : Nat) (exec : Transition.Execution step) :
    Prop where
  connected : ∀ i, Connected t (exec.state i) (exec.action i)
  results : ∀ n, ∃ zeros, received t (exec.actions n) <+: msgs ++ List.replicate zeros []
  fair : exec.Fair (Ready t) ActsFor

def Closes (t : Nat) (exec : Transition.Execution step) (i : Nat) : Prop :=
  ActsFor t (exec.action i) ∧ ∃ th, (exec.state i).threads[t]? = some th ∧ th.pc = .close ∧
    (exec.state (i + 1)).shared.conns th.newsockfd = none

def Decrements (t : Nat) (exec : Transition.Execution step) (i : Nat) : Prop :=
  ActsFor t (exec.action i) ∧ (exec.state (i + 1)).shared.numWorkingThread =
    (exec.state i).shared.numWorkingThread - 1

/-- After so many steps and at most one round of the loop for each message the
thread `t` is gone and has released what it held. -/
structure Released (msgs : List (List Byte)) (t : Nat) (exec : Transition.Execution step)
    (n : Nat) (th : Thread) : Prop where
  found : (exec.state n).threads[t]? = some th
  exited : th.pc = .exited
  rounds : (received t (exec.actions n)).length ≤ msgs.length
  closed : ∃ i < n, Closes t exec i
  decremented : th.block = false → ∃ i < n, Decrements t exec i

inductive Heard : List (List Byte) → Thread → Prop where
  | looping {got th} (inside : ¬ th.Left) (decided : th.pc ≠ .testQuit) (going : Going got) :
      Heard got th
  | testing {earlier last th} (pc : th.pc = .testQuit) (going : Going earlier)
      (buffer : th.buffer = last) : Heard (earlier ++ [last]) th
  | left {earlier last th} (out : th.Left) (going : Going earlier) (told : cString last = quit) :
      Heard (earlier ++ [last]) th

section Steps
variable {t : Nat} {th th' : Thread} {sh sh' : Shared} {answer : Answer} {p : Process}

theorem Heard.moves {got : List (List Byte)} (heard : Heard got th)
    (ok : Connected t p (.thread t answer)) (steps : th.Moves t sh answer th' sh') :
    Heard (got ++ received t [.thread t answer]) th' := by
  cases heard with
  | looping inside decided going =>
      cases steps with
      | recvFails => exact absurd rfl ok.1
      | sendFails => exact absurd rfl ok.2
      | receives =>
          simp only [received, if_true]
          exact .testing rfl going rfl
      | closes pc | locksRelease pc | keepsNothing pc | givesBack pc | unlocksRelease pc =>
          exact absurd (by simp [Thread.Left, pc]) inside
      | quits pc | goesOn pc => exact absurd pc decided
      | _ =>
          simp only [received, List.append_nil]
          exact .looping (by simp [Thread.Left]) (by simp) going
  | testing pc going buffer =>
      cases steps with
      | quits _ told =>
          simp only [received, List.append_nil]
          exact .left (Or.inl rfl) going (buffer ▸ told)
      | goesOn _ other =>
          simp only [received, List.append_nil]
          exact .looping (by simp [Thread.Left]) (by simp) (going.append (buffer ▸ other))
      | sendFails => exact absurd rfl ok.2
      | _ => simp_all
  | left out going told =>
      cases steps with
      | closes | locksRelease | keepsNothing | givesBack | unlocksRelease =>
          simp only [received, List.append_nil]
          exact .left (by simp [Thread.Left]) going told
      | sendFails => exact absurd rfl ok.2
      | _ => simp_all [Thread.Left]

def Pc.rank : Pc → Nat
  | .exited => 0
  | .unlockRelease => 1
  | .release => 2
  | .lockRelease => 3
  | .close => 4
  | .receive => 5
  | .readFd | .send | .sendWait => 6
  | .encrypt => 7
  | .unlockAdmission => 8
  | .admission => 9
  | .lockAdmission => 10
  | .testQuit => 11

def Thread.stepsLeft (msgs got : List (List Byte)) (th : Thread) : Nat :=
  8 * (msgs.length - got.length) + th.pc.rank

theorem Thread.Moves.stepsLeft {msgs got : List (List Byte)}
    (ok : Connected t p (.thread t answer)) (steps : th.Moves t sh answer th' sh')
    (more : th.pc = .receive → got.length < msgs.length) :
    th'.stepsLeft msgs (got ++ received t [.thread t answer]) < th.stepsLeft msgs got := by
  cases steps with
  | recvFails => exact absurd rfl ok.1
  | sendFails => exact absurd rfl ok.2
  | receives pc =>
      have room := more pc
      simp only [Thread.stepsLeft, received, if_true, List.length_append, List.length_singleton,
        Pc.rank, pc]
      omega
  | unlocksToWait pc | unlocksToEncrypt pc => simp [Thread.stepsLeft, received, Pc.rank, pc]
  | _ => rename_i pc; simp_all [Thread.stepsLeft, received, Pc.rank]

def Thread.toUnlock (th : Thread) : Nat := if th.pc = .admission ∨ th.pc = .release then 1 else 0

theorem Thread.Moves.toUnlock (steps : th.Moves t sh answer th' sh') (critical : th.Critical)
    (kept : sh'.mutex ≠ none) : th'.toUnlock < th.toUnlock := by
  cases steps with
  | admits pc | passes pc | givesBack pc | keepsNothing pc => simp [Thread.toUnlock, pc]
  | unlocksToWait | unlocksToEncrypt | unlocksRelease => exact absurd rfl kept
  | sendFails pc => rcases pc with pc | pc <;> simp [Thread.Critical, pc] at critical
  | _ => rename_i pc; simp_all [Thread.Critical]

theorem Thread.Critical.ready {u : Nat} (critical : th.Critical)
    (found : p.threads[u]? = some th) : Ready t u p := by
  refine ⟨th, found, Or.inl ?_⟩
  rcases critical with pc | pc | pc | pc <;> simp only [Thread.step, pc]
  · split <;> rfl
  · rfl
  · split <;> rfl
  · rfl

theorem not_ready (found : p.threads[t]? = some th) (waits : ¬ Ready t t p) :
    th.pc = .exited ∨ p.shared.mutex ≠ none := by
  by_contra both
  rw [not_or, not_not] at both
  obtain ⟨alive, free⟩ := both
  refine waits ⟨th, found, ?_⟩
  cases pc : th.pc <;> simp_all [Thread.step]
  · split <;> rfl
  · split <;> rfl
  · split <;> rfl

def Thread.Closed (th : Thread) : Prop :=
  th.pc = .lockRelease ∨ th.pc = .release ∨ th.pc = .unlockRelease ∨ th.pc = .exited

def Thread.GaveBack (th : Thread) : Prop :=
  th.block = false ∧ (th.pc = .unlockRelease ∨ th.pc = .exited)

theorem Thread.Moves.closes_fd (steps : th.Moves t sh answer th' sh') (open_ : ¬ th.Closed)
    (closed : th'.Closed) : th.pc = .close ∧ sh'.conns th.newsockfd = none := by
  cases steps with
  | closes pc => exact ⟨pc, by simp⟩
  | locksRelease pc | keepsNothing pc | givesBack pc | unlocksRelease pc =>
      exact absurd (by simp [Thread.Closed, pc]) open_
  | _ => simp [Thread.Closed] at closed

theorem Thread.Moves.gives_back (steps : th.Moves t sh answer th' sh') (holds : ¬ th.GaveBack)
    (gaveBack : th'.GaveBack) : sh'.numWorkingThread = sh.numWorkingThread - 1 := by
  cases steps with
  | givesBack => rfl
  | unlocksRelease pc => exact absurd ⟨gaveBack.1, Or.inl pc⟩ holds
  | keepsNothing pc blocked =>
      have admitted : th.block = false := gaveBack.1
      rw [blocked] at admitted
      cases admitted
  | _ => simp [Thread.GaveBack] at gaveBack

end Steps

structure Guarded (p : Process) : Prop where
  slots : Slots p
  held : ∀ u, p.shared.mutex = some u → ∃ th, p.threads[u]? = some th ∧ th.Critical

theorem step_guarded {p next : Process} {action : Action} (guarded : Guarded p)
    (moved : step p action = some next) : Guarded next := by
  refine ⟨step_slots guarded.slots moved, ?_⟩
  cases moves moved with
  | creates main =>
      intro u owner
      obtain ⟨th, found, critical⟩ := guarded.held u owner
      have inside : u < p.threads.length := (List.getElem?_eq_some_iff.mp found).1
      exact ⟨th, by simpa [List.getElem?_append_left inside] using found, critical⟩
  | @thread t answer th th' sh running found steps =>
      have inside : t < p.threads.length := (List.getElem?_eq_some_iff.mp found).1
      intro u owner
      rcases steps.mutex with ⟨same, critical_iff⟩ | ⟨-, taken, critical⟩ | ⟨given, -⟩
      · obtain ⟨old, foundOld, critical⟩ := guarded.held u (same.symm.trans owner)
        by_cases isT : u = t
        · subst isT
          rw [found, Option.some.injEq] at foundOld
          subst foundOld
          exact ⟨th', by simp [inside], critical_iff.mpr critical⟩
        · exact ⟨old, by simpa [List.getElem?_set_ne (Ne.symm isT)] using foundOld, critical⟩
      · have same : t = u := Option.some.inj (taken.symm.trans owner)
        subst same
        exact ⟨th', by simp [inside], critical⟩
      · exact absurd (given.symm.trans owner) (by simp)
  | _ => exact guarded.held

theorem initial_guarded : Guarded .initial := ⟨initial_slots, by simp [Process.initial]⟩

/-- Nobody else takes the mutex before it is given back. -/
theorem step_owner {p next : Process} {action : Action} {u : Nat}
    (owner : p.shared.mutex = some u) (moved : step p action = some next)
    (kept : next.shared.mutex ≠ none) : next.shared.mutex = some u := by
  cases moves moved with
  | thread running found steps =>
      rcases steps.mutex with ⟨same, -⟩ | ⟨free, -⟩ | ⟨given, -⟩
      · exact same.trans owner
      · rw [owner] at free
        cases free
      · exact absurd given kept
  | _ => exact owner

section Executions
variable {msgs : List (List Byte)} {exec : Transition.Execution step} {t : Nat} {th : Thread}
  {earlier : List Action}

theorem guarded_at
    (reached : Transition.Run step (fun _ _ => True) .initial earlier (exec.state 0)) (i : Nat) :
    Guarded (exec.state i) :=
  (reached.append (exec.run (fun _ => trivial) i)).invariant
    (fun _ _ _ guarded _ moved => step_guarded guarded moved) initial_guarded

/-- The mutex is free again and again: whoever has it is ready until it is given
back. -/
theorem mutex_free (guarded : ∀ i, Guarded (exec.state i))
    (fair : exec.Fair (Ready t) ActsFor) (start : Nat) :
    ∃ i, start ≤ i ∧ (exec.state i).shared.mutex = none := by
  by_contra never
  have taken : ∀ i, start ≤ i → (exec.state i).shared.mutex ≠ none := fun i late free =>
    never ⟨i, late, free⟩
  obtain ⟨u, first⟩ := Option.ne_none_iff_exists'.mp (taken start (Nat.le_refl _))
  have owner : ∀ i, start ≤ i → (exec.state i).shared.mutex = some u := by
    intro i late
    induction i, late using Nat.le_induction with
    | base => exact first
    | succ i late ih => exact step_owner ih (exec.moves i) (taken (i + 1) (by omega))
  let potential : Nat → Nat := fun i => ((exec.state i).threads[u]?.map Thread.toUnlock).getD 0
  have each : ∀ i, start ≤ i → potential (i + 1) ≤ potential i ∧
      (ActsFor u (exec.action i) → potential (i + 1) < potential i) := by
    intro i late
    obtain ⟨holder, found, critical⟩ := (guarded i).held u (owner i late)
    rcases step_thread found (exec.moves i) with ⟨answer, after, -, found', steps⟩ | ⟨other, same⟩
    · have falls := steps.toUnlock critical (taken (i + 1) (by omega))
      simp only [potential, found, found', Option.map_some, Option.getD_some]
      exact ⟨Nat.le_of_lt falls, fun _ => falls⟩
    · simp only [potential, found, same]
      exact ⟨Nat.le_refl _, fun ⟨answer, acts⟩ => absurd acts (other answer)⟩
  obtain ⟨last, late, rests⟩ := fair.rests u start (fun i late => (each i late).1)
    fun i late => (each i late).2
  obtain ⟨holder, found, critical⟩ := (guarded last).held u (owner last late)
  exact rests last (Nat.le_refl _) (critical.ready found)

theorem thread_enters {inside : Thread → Prop}
    (stays : ∀ i, ∃ th, (exec.state i).threads[t]? = some th)
    (found : (exec.state 0).threads[t]? = some th) (outside : ¬ inside th) {n : Nat} {last : Thread}
    (foundLast : (exec.state n).threads[t]? = some last) (reached : inside last) :
    ∃ i < n, ∃ answer old new, exec.action i = .thread t answer ∧
      (exec.state i).threads[t]? = some old ∧
      old.Moves t (exec.state i).shared answer new (exec.state (i + 1)).shared ∧
      ¬ inside old ∧ inside new := by
  have notYet : ¬ ∃ th, (exec.state 0).threads[t]? = some th ∧ inside th := by
    rintro ⟨same, foundSame, isInside⟩
    rw [found, Option.some.injEq] at foundSame
    exact outside (foundSame ▸ isInside)
  obtain ⟨i, below, before, new, foundNew, isInside⟩ :=
    exec.enters (fun p => ∃ th, p.threads[t]? = some th ∧ inside th) notYet
      ⟨last, foundLast, reached⟩
  obtain ⟨old, foundOld⟩ := stays i
  have notOld : ¬ inside old := fun isIn => before ⟨old, foundOld, isIn⟩
  rcases step_thread foundOld (exec.moves i) with ⟨answer, after, acts, found', steps⟩ | ⟨-, same⟩
  · rw [foundNew, Option.some.injEq] at found'
    subst found'
    exact ⟨i, below, answer, old, new, acts, foundOld, steps, notOld, isInside⟩
  · rw [foundNew, Option.some.injEq] at same
    exact absurd (same ▸ isInside) notOld

theorem heard_at (hangsUp : HangsUp msgs t exec) (found : (exec.state 0).threads[t]? = some th)
    (starts : th.pc = .readFd ∨ th.pc = .receive) (n : Nat) :
    ∃ th, (exec.state n).threads[t]? = some th ∧ Heard (received t (exec.actions n)) th := by
  induction n with
  | zero =>
      refine ⟨th, found, .looping ?_ ?_ .nil⟩
      · rcases starts with pc | pc <;> simp [Thread.Left, pc]
      · rcases starts with pc | pc <;> simp [pc]
  | succ n ih =>
      obtain ⟨old, foundOld, heard⟩ := ih
      rw [exec.actions_succ, received_append]
      rcases step_thread foundOld (exec.moves n) with ⟨answer, new, acts, foundNew, steps⟩ |
        ⟨other, same⟩
      · have ok := hangsUp.connected n
        rw [acts] at ok ⊢
        exact ⟨new, foundNew, heard.moves ok steps⟩
      · rw [received_other other, List.append_nil]
        exact ⟨old, same, heard⟩

/-- A thread that has not been told to leave has messages to come that tell it. -/
theorem Going.shorter {got : List (List Byte)} {zeros : Nat} (going : Going got)
    (cut : got <+: msgs ++ List.replicate zeros [])
    (told : ∃ message ∈ msgs, cString message = quit) : got.length < msgs.length := by
  by_contra long
  have all : msgs <+: got :=
    List.prefix_of_prefix_length_le (List.prefix_append _ _) cut (Nat.le_of_not_lt long)
  obtain ⟨message, inside, isQuit⟩ := told
  exact going message (all.subset inside) isQuit

theorem Heard.going {got : List (List Byte)} (heard : Heard got th) (waits : th.pc = .receive) :
    Going got := by
  cases heard with
  | looping _ _ going => exact going
  | testing pc => simp [waits] at pc
  | left out => simp [Thread.Left, waits] at out

/-- What made a thread leave is one of the messages, as nothing is not `:q`. -/
theorem Heard.told {got : List (List Byte)} {zeros : Nat} (heard : Heard got th) (out : th.Left)
    (cut : got <+: msgs ++ List.replicate zeros []) :
    ∃ message ∈ msgs, cString message = quit := by
  cases heard with
  | looping inside => exact absurd out inside
  | testing pc => simp [Thread.Left, pc] at out
  | @left _ last _ _ going told =>
      rcases List.mem_append.mp (cut.subset (by simp : last ∈ _ ++ [last])) with message | zero
      · exact ⟨last, message, told⟩
      · rw [(List.mem_replicate.mp zero).2] at told
        exact absurd told (by decide)

theorem Heard.rounds {got : List (List Byte)} {zeros : Nat} (heard : Heard got th)
    (cut : got <+: msgs ++ List.replicate zeros [])
    (told : ∃ message ∈ msgs, cString message = quit) : got.length ≤ msgs.length := by
  cases heard with
  | looping _ _ going => exact Nat.le_of_lt (going.shorter cut told)
  | testing _ going | left _ going =>
      rw [List.length_append, List.length_singleton]
      exact going.shorter ((List.prefix_append _ _).trans cut) told

/-- Only so many steps are left, and in the end the thread is gone or waits for a
mutex that is free again and again. -/
theorem exits_of_told
    (reached : Transition.Run step (fun _ _ => True) .initial earlier (exec.state 0))
    (hangsUp : HangsUp msgs t exec) (found : (exec.state 0).threads[t]? = some th)
    (starts : th.pc = .readFd ∨ th.pc = .receive)
    (told : ∃ message ∈ msgs, cString message = quit) :
    ∃ n last, (exec.state n).threads[t]? = some last ∧ last.pc = .exited := by
  choose at_ foundAt heard using heard_at hangsUp found starts
  let potential : Nat → Nat := fun i => (at_ i).stepsLeft msgs (received t (exec.actions i))
  -- a step of this thread uses up some of `stepsLeft`, a step of another leaves it alone
  have each : ∀ i, potential (i + 1) ≤ potential i ∧
      (ActsFor t (exec.action i) → potential (i + 1) < potential i) := by
    intro i
    have recorded : received t (exec.actions (i + 1)) =
        received t (exec.actions i) ++ received t [exec.action i] := by
      rw [exec.actions_succ, received_append]
    rcases step_thread (foundAt i) (exec.moves i) with ⟨answer, new, acts, foundNew, steps⟩ |
      ⟨other, same⟩
    · have isNew : at_ (i + 1) = new := Option.some.inj ((foundAt (i + 1)).symm.trans foundNew)
      have ok := hangsUp.connected i
      have more : (at_ i).pc = .receive → (received t (exec.actions i)).length < msgs.length := by
        intro waits
        obtain ⟨zeros, cut⟩ := hangsUp.results i
        exact ((heard i).going waits).shorter cut told
      rw [acts] at ok
      have falls := steps.stepsLeft ok more
      simp only [potential, recorded, isNew, acts]
      exact ⟨Nat.le_of_lt falls, fun _ => falls⟩
    · have isSame : at_ (i + 1) = at_ i := Option.some.inj ((foundAt (i + 1)).symm.trans same)
      simp only [potential, recorded, isSame, received_other other, List.append_nil]
      exact ⟨Nat.le_refl _, fun ⟨answer, acts⟩ => absurd acts (other answer)⟩
  obtain ⟨last, -, rests⟩ := hangsUp.fair.rests t 0 (fun i _ => (each i).1) fun i _ => (each i).2
  -- a thread that rests for good before its end waits for the mutex, which comes free
  obtain ⟨i, late, free⟩ := mutex_free (guarded_at reached) hangsUp.fair last
  rcases not_ready (foundAt i) (rests i late) with gone | taken
  · exact ⟨i, at_ i, foundAt i, gone⟩
  · exact absurd free taken

end Executions

/-- In a fair execution in which the client closes the connection after these
messages, a thread at the top of its loop, admitted or not, comes to leave it,
closes its descriptor and gives its slot back if and only if one of the messages
is `:q`. Otherwise it takes 0 for the length of one empty message after the
other. -/
theorem disconnected_leaves_iff {msgs : List (List Byte)} {exec : Transition.Execution step}
    {t : Nat} {th : Thread} {earlier : List Action}
    (reached : Transition.Run step (fun _ _ => True) .initial earlier (exec.state 0))
    (found : (exec.state 0).threads[t]? = some th)
    (starts : th.pc = .readFd ∨ th.pc = .receive) (hangsUp : HangsUp msgs t exec) :
    (∃ n last, Released msgs t exec n last) ↔ ∃ message ∈ msgs, cString message = quit := by
  have stays : ∀ i, ∃ th, (exec.state i).threads[t]? = some th := fun i =>
    (heard_at hangsUp found starts i).imp fun _ both => both.1
  constructor
  · rintro ⟨n, last, released⟩
    obtain ⟨same, foundSame, heard⟩ := heard_at hangsUp found starts n
    rw [released.found, Option.some.injEq] at foundSame
    subst foundSame
    obtain ⟨zeros, cut⟩ := hangsUp.results n
    exact heard.told (by simp [Thread.Left, released.exited]) cut
  · intro told
    obtain ⟨n, last, foundLast, exited⟩ := exits_of_told reached hangsUp found starts told
    obtain ⟨same, foundSame, heard⟩ := heard_at hangsUp found starts n
    rw [foundLast, Option.some.injEq] at foundSame
    subst foundSame
    obtain ⟨zeros, cut⟩ := hangsUp.results n
    refine ⟨n, last, foundLast, exited, heard.rounds cut told, ?_, fun admitted => ?_⟩
    · have notClosed : ¬ th.Closed := by rcases starts with pc | pc <;> simp [Thread.Closed, pc]
      obtain ⟨i, below, answer, old, new, acts, foundOld, steps, before, after⟩ :=
        thread_enters stays found notClosed foundLast (by simp [Thread.Closed, exited])
      obtain ⟨pc, closed⟩ := steps.closes_fd before after
      exact ⟨i, below, ⟨answer, acts⟩, old, foundOld, pc, closed⟩
    · have holds : ¬ th.GaveBack := by rcases starts with pc | pc <;> simp [Thread.GaveBack, pc]
      obtain ⟨i, below, answer, old, new, acts, -, steps, before, after⟩ :=
        thread_enters stays found holds foundLast ⟨admitted, Or.inr exited⟩
      exact ⟨i, below, ⟨answer, acts⟩, steps.gives_back before after⟩

def saidHi : List Action :=
  served ++ ([.recv (some []), .none, .none, .none, .none, .none, .send true] : List Answer).map
    (.thread 0)

def emptyRound (i : Nat) : Process where
  main := .accept
  accepts := 1
  shared :=
    { connectfd := 4
      conns := Function.update (fun _ => none) 4 (some 1)
      mutex := if i % 7 = 3 ∨ i % 7 = 4 then some 0 else none
      numWorkingThread := 1 }
  threads :=
    [{ pc := [.receive, .testQuit, .lockAdmission, .admission, .unlockAdmission, .encrypt,
        .send].getD (i % 7) .receive
       newsockfd := 4
       block := false
       buffer := []
       replies := [107, 108]
       call := 1
       obtained := some 1 }]

def emptyAnswer (i : Nat) : Answer :=
  [.recv (some []), .none, .none, .none, .none, .none, .send true].getD (i % 7) .none

theorem emptyRound_moves (i : Nat) :
    step (emptyRound i) (.thread 0 (emptyAnswer i)) = some (emptyRound (i + 1)) := by
  have lower : i % 7 < 7 := Nat.mod_lt _ (by decide)
  have next : (i + 1) % 7 = (i % 7 + 1) % 7 := by omega
  simp only [emptyRound, emptyAnswer, next]
  generalize i % 7 = r at lower
  interval_cases r <;> rfl

def hungUp : Transition.Execution step where
  state := emptyRound
  action i := .thread 0 (emptyAnswer i)
  moves := emptyRound_moves

theorem saidHi_done : (Transition.runActions step .initial saidHi).isSome := by decide

theorem hungUp_reached :
    Transition.Run step (fun _ _ => True) .initial saidHi (hungUp.state 0) :=
  Transition.run_of_isSome _ _ saidHi_done

theorem emptyAnswer_cases (i : Nat) :
    emptyAnswer i = .recv (some []) ∨ emptyAnswer i = .none ∨ emptyAnswer i = .send true := by
  have lower : i % 7 < 7 := Nat.mod_lt _ (by decide)
  simp only [emptyAnswer]
  generalize i % 7 = r at lower
  interval_cases r <;> decide

theorem hungUp_empty (n : Nat) : ∀ chunk ∈ received 0 (hungUp.actions n), chunk = [] := by
  induction n with
  | zero => exact fun _ inside => absurd inside List.not_mem_nil
  | succ n ih =>
      intro chunk inside
      rw [hungUp.actions_succ, received_append, List.mem_append] at inside
      rcases inside with before | new
      · exact ih chunk before
      · rcases emptyAnswer_cases n with answer | answer | answer <;>
          simp only [hungUp, answer, received, if_true, List.mem_singleton, List.not_mem_nil] at new
        exact new

theorem hungUp_hangsUp : HangsUp [] 0 hungUp := by
  constructor
  · intro i
    rcases emptyAnswer_cases i with answer | answer | answer <;>
      simp [Connected, hungUp, answer]
  · intro n
    refine ⟨(received 0 (hungUp.actions n)).length, [], ?_⟩
    simpa using List.eq_replicate_of_mem (hungUp_empty n)
  · intro u often i
    -- the only thread there is acts in every step
    obtain ⟨j, -, th, found, -⟩ := often 0
    have isOnly : u = 0 := by
      have inside : u < 1 := (List.getElem?_eq_some_iff.mp found).1
      omega
    subst isOnly
    exact ⟨i, Nat.le_refl i, emptyAnswer i, rfl⟩

def quitRound (i : Nat) : Process where
  main := .accept
  accepts := 1 + (i - 6)
  shared :=
    { connectfd := if i ≤ 6 then 4 else -1
      conns := if i ≤ 2 then Function.update (fun _ => none) 4 (some 1)
        else Function.update (Function.update (fun _ => none) 4 (some 1)) 4 none
      mutex := [none, none, none, none, some 0, some 0].getD i none
      numWorkingThread := if i ≤ 4 then 1 else 0 }
  threads :=
    [{ pc := [.receive, .testQuit, .close, .lockRelease, .release, .unlockRelease].getD i .exited
       newsockfd := 4
       block := false
       buffer := if i = 0 then [] else quit
       replies := [107, 108]
       call := 1
       obtained := some 1 }]

def quitAction (i : Nat) : Action :=
  ([.recv (some quit), .none, .none, .none, .none, .none].map (.thread 0)).getD i (.accept (-1))

theorem quitRound_moves (i : Nat) :
    step (quitRound i) (quitAction i) = some (quitRound (i + 1)) := by
  by_cases early : i < 6
  · interval_cases i <;> rfl
  · obtain ⟨later, rfl⟩ := Nat.exists_eq_add_of_le' (Nat.le_of_not_lt early)
    simp [step, quitRound, quitAction, Process.accept]
    omega

def saidQuit : Transition.Execution step where
  state := quitRound
  action := quitAction
  moves := quitRound_moves

theorem quitAction_silent (i : Nat) : received 0 [quitAction (i + 1)] = [] := by
  by_cases early : i < 5
  · interval_cases i <;> rfl
  · obtain ⟨later, rfl⟩ := Nat.exists_eq_add_of_le' (Nat.le_of_not_lt early)
    simp [quitAction, received]

theorem saidQuit_received (n : Nat) : received 0 (saidQuit.actions (n + 1)) = [quit] := by
  induction n with
  | zero => rfl
  | succ n ih =>
      rw [saidQuit.actions_succ, received_append, ih]
      exact congrArg ([quit] ++ ·) (quitAction_silent n)

theorem saidQuit_hangsUp : HangsUp [quit] 0 saidQuit := by
  constructor
  · intro i
    by_cases early : i < 6
    · interval_cases i <;> simp [Connected, saidQuit, quitAction]
    · obtain ⟨later, rfl⟩ := Nat.exists_eq_add_of_le' (Nat.le_of_not_lt early)
      simp [Connected, saidQuit, quitAction]
  · rintro (_ | n)
    · exact ⟨0, List.nil_prefix⟩
    · rw [saidQuit_received]
      exact ⟨0, List.prefix_refl _⟩
  · intro u often
    -- nobody is ready once the thread is gone
    obtain ⟨j, late, th, found, ready⟩ := often 6
    exfalso
    obtain ⟨later, rfl⟩ := Nat.exists_eq_add_of_le' late
    have isOnly : u = 0 := by
      have inside : u < 1 := (List.getElem?_eq_some_iff.mp found).1
      omega
    subst isOnly
    have isThread : (quitRound (later + 6)).threads[0]? = some th := found
    simp only [quitRound, List.getElem?_cons_zero, Option.some.injEq] at isThread
    rw [← isThread] at ready
    simp [Thread.step] at ready

/-- The thread leaves the client that said `:q`, and stays with the one that is gone. -/
theorem disconnected_leaves_iff_saidQuit :
    (∃ n last, Released [quit] 0 saidQuit n last) ∧ ¬ ∃ n last, Released [] 0 hungUp n last := by
  have reached : Transition.Run step (fun _ _ => True) .initial saidHi (saidQuit.state 0) :=
    Transition.run_of_isSome _ _ saidHi_done
  constructor
  · exact (disconnected_leaves_iff reached rfl (Or.inr rfl) saidQuit_hangsUp).mpr
      ⟨quit, List.mem_singleton_self quit, by decide⟩
  · intro left
    obtain ⟨message, inside, -⟩ :=
      (disconnected_leaves_iff hungUp_reached rfl (Or.inr rfl) hungUp_hangsUp).mp left
    exact List.not_mem_nil inside

/-- The thread answers nothing with nothing for ever, and keeps its slot. -/
theorem hung_up_stays : ¬ ∀ (msgs : List (List Byte)) (exec : Transition.Execution step) (t : Nat)
    (th : Thread) (earlier : List Action),
    Transition.Run step (fun _ _ => True) .initial earlier (exec.state 0) →
    (exec.state 0).threads[t]? = some th → th.pc = .readFd ∨ th.pc = .receive →
    HangsUp msgs t exec → ∃ n last, Released msgs t exec n last := by
  intro always
  obtain ⟨n, last, released⟩ := always [] hungUp 0 _ saidHi hungUp_reached rfl (Or.inr rfl)
    hungUp_hangsUp
  have lower : n % 7 < 7 := Nat.mod_lt _ (by decide)
  have found : (emptyRound n).threads[0]? = some last := released.found
  have exited := released.exited
  simp only [emptyRound, List.getElem?_cons_zero, Option.some.injEq] at found
  rw [← found] at exited
  simp only at exited
  generalize n % 7 = r at lower exited
  interval_cases r <;> cases exited

end AndroidKernel.Server
