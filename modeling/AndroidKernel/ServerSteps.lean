import AndroidKernel.Server

/-!
What a step of the service can do, said once: a constructor for each transition
of a thread with its guard, and five forms of a step of the process.
-/

namespace AndroidKernel.Server

inductive Thread.Moves (t : Nat) : Thread → Shared → Answer → Thread → Shared → Prop where
  | readsFd {th sh} (pc : th.pc = .readFd) : Moves t th sh .none
      { th with newsockfd := sh.connectfd, obtained := sh.conns sh.connectfd, pc := .receive } sh
  | recvFails {th sh} (pc : th.pc = .receive) :
      Moves t th sh (.recv none) { th with pc := .close } sh
  | receives {th sh data} (pc : th.pc = .receive) (fits : data.length ≤ bufferSize) :
      Moves t th sh (.recv (some data)) { th with buffer := data, pc := .testQuit } sh
  | quits {th sh} (pc : th.pc = .testQuit) (told : cString th.buffer = quit) :
      Moves t th sh .none { th with pc := .close } sh
  | goesOn {th sh} (pc : th.pc = .testQuit) (other : cString th.buffer ≠ quit) :
      Moves t th sh .none { th with pc := .lockAdmission } sh
  | locksAdmission {th sh} (pc : th.pc = .lockAdmission) (free : sh.mutex = none) :
      Moves t th sh .none { th with pc := .admission } { sh with mutex := some t }
  | admits {th sh} (pc : th.pc = .admission) (blocked : th.block = true)
      (room : sh.numWorkingThread < numThreadsAval) :
      Moves t th sh .none { th with block := false, pc := .unlockAdmission }
        { sh with numWorkingThread := sh.numWorkingThread + 1 }
  | passes {th sh} (pc : th.pc = .admission)
      (refused : ¬ (th.block = true ∧ sh.numWorkingThread < numThreadsAval)) :
      Moves t th sh .none { th with pc := .unlockAdmission } sh
  | unlocksToWait {th sh} (pc : th.pc = .unlockAdmission) (blocked : th.block = true) :
      Moves t th sh .none { th with pc := .sendWait } { sh with mutex := none }
  | unlocksToEncrypt {th sh} (pc : th.pc = .unlockAdmission) (admitted : th.block = false) :
      Moves t th sh .none { th with pc := .encrypt } { sh with mutex := none }
  | encrypts {th sh} (pc : th.pc = .encrypt) :
      Moves t th sh .none { th with buffer := th.buffer.map encryptByte, pc := .send } sh
  | sends {th sh} (pc : th.pc = .send) : Moves t th sh (.send true)
      { th with replies := th.replies ++ cString th.buffer, pc := .receive } sh
  | tellsToWait {th sh} (pc : th.pc = .sendWait) : Moves t th sh (.send true)
      { th with replies := th.replies ++ pleaseWait, pc := .receive } sh
  | sendFails {th sh} (pc : th.pc = .send ∨ th.pc = .sendWait) :
      Moves t th sh (.send false) { th with pc := .close } sh
  | closes {th sh} (pc : th.pc = .close) : Moves t th sh .none { th with pc := .lockRelease }
      { sh with conns := Function.update sh.conns th.newsockfd none }
  | locksRelease {th sh} (pc : th.pc = .lockRelease) (free : sh.mutex = none) :
      Moves t th sh .none { th with pc := .release } { sh with mutex := some t }
  | keepsNothing {th sh} (pc : th.pc = .release) (blocked : th.block = true) :
      Moves t th sh .none { th with pc := .unlockRelease } sh
  | givesBack {th sh} (pc : th.pc = .release) (admitted : th.block = false) :
      Moves t th sh .none { th with pc := .unlockRelease }
        { sh with numWorkingThread := sh.numWorkingThread - 1 }
  | unlocksRelease {th sh} (pc : th.pc = .unlockRelease) :
      Moves t th sh .none { th with pc := .exited } { sh with mutex := none }

section Threads
variable {t : Nat} {th th' : Thread} {sh sh' : Shared} {answer : Answer}

theorem Thread.moves (moved : th.step t sh answer = some (th', sh')) :
    Thread.Moves t th sh answer th' sh' := by
  -- the result of a call goes with few program points; what calls nothing can be at most of them
  cases answer with
  | recv data =>
      cases pc : th.pc <;> simp only [Thread.step, pc, reduceCtorEq] at moved
      case receive =>
        cases data with
        | none =>
            simp only [Option.some.injEq, Prod.mk.injEq] at moved
            obtain ⟨rfl, rfl⟩ := moved
            exact .recvFails pc
        | some data =>
            simp only [Option.ite_none_right_eq_some, Option.some.injEq, Prod.mk.injEq] at moved
            obtain ⟨fits, rfl, rfl⟩ := moved
            exact .receives pc fits
  | send ok =>
      cases pc : th.pc <;> simp only [Thread.step, pc, reduceCtorEq] at moved
      case send =>
        cases ok <;> simp only [Option.some.injEq, Prod.mk.injEq, if_true, if_false,
          Bool.false_eq_true] at moved <;> obtain ⟨rfl, rfl⟩ := moved
        · exact .sendFails (Or.inl pc)
        · exact .sends pc
      case sendWait =>
        cases ok <;> simp only [Option.some.injEq, Prod.mk.injEq, if_true, if_false,
          Bool.false_eq_true] at moved <;> obtain ⟨rfl, rfl⟩ := moved
        · exact .sendFails (Or.inr pc)
        · exact .tellsToWait pc
  | none =>
      cases pc : th.pc <;> simp only [Thread.step, pc, reduceCtorEq] at moved
      case readFd =>
        simp only [Option.some.injEq, Prod.mk.injEq] at moved
        obtain ⟨rfl, rfl⟩ := moved
        exact .readsFd pc
      case testQuit =>
        split at moved <;> rename_i test <;> simp only [Option.some.injEq, Prod.mk.injEq] at moved
          <;> obtain ⟨rfl, rfl⟩ := moved
        · exact .quits pc test
        · exact .goesOn pc test
      case lockAdmission =>
        simp only [Option.ite_none_right_eq_some, Option.some.injEq, Prod.mk.injEq] at moved
        obtain ⟨free, rfl, rfl⟩ := moved
        exact .locksAdmission pc free
      case admission =>
        split at moved <;> rename_i test <;> simp only [Option.some.injEq, Prod.mk.injEq] at moved
          <;> obtain ⟨rfl, rfl⟩ := moved
        · exact .admits pc test.1 test.2
        · exact .passes pc test
      case unlockAdmission =>
        simp only [Option.some.injEq, Prod.mk.injEq] at moved
        obtain ⟨rfl, rfl⟩ := moved
        split
        · rename_i block
          exact .unlocksToWait pc block
        · rename_i block
          exact .unlocksToEncrypt pc (Bool.not_eq_true _ ▸ block)
      case encrypt =>
        simp only [Option.some.injEq, Prod.mk.injEq] at moved
        obtain ⟨rfl, rfl⟩ := moved
        exact .encrypts pc
      case close =>
        simp only [Option.some.injEq, Prod.mk.injEq] at moved
        obtain ⟨rfl, rfl⟩ := moved
        exact .closes pc
      case lockRelease =>
        simp only [Option.ite_none_right_eq_some, Option.some.injEq, Prod.mk.injEq] at moved
        obtain ⟨free, rfl, rfl⟩ := moved
        exact .locksRelease pc free
      case release =>
        split at moved <;> rename_i test <;> simp only [Option.some.injEq, Prod.mk.injEq] at moved
          <;> obtain ⟨rfl, rfl⟩ := moved
        · exact .keepsNothing pc test
        · exact .givesBack pc (Bool.not_eq_true _ ▸ test)
      case unlockRelease =>
        simp only [Option.some.injEq, Prod.mk.injEq] at moved
        obtain ⟨rfl, rfl⟩ := moved
        exact .unlocksRelease pc

end Threads

inductive Moves : Process → Action → Process → Prop where
  | acceptFails {p} (main : p.main = .accept) : Moves p (.accept (-1))
      { p with accepts := p.accepts + 1, shared := { p.shared with connectfd := -1 } }
  | accepts {p fd} (main : p.main = .accept) (valid : 0 ≤ fd) (unused : p.shared.conns fd = none) :
      Moves p (.accept fd)
        { p with
          main := .create
          accepts := p.accepts + 1
          shared := { p.shared with
            connectfd := fd
            conns := Function.update p.shared.conns fd (some (p.accepts + 1)) } }
  | exits {p} (main : p.main = .create) : Moves p (.create (-1))
      { p with
        main := .exited
        shared := { p.shared with
          conns := Function.update p.shared.conns p.shared.connectfd none } }
  | creates {p} (main : p.main = .create) : Moves p (.create 0)
      { p with main := .accept, threads := p.threads ++ [.created p.accepts] }
  | createsNone {p result} (main : p.main = .create) : Moves p (.create result)
      { p with main := .accept }
  | thread {p t answer th th' sh} (running : p.main ≠ .exited) (found : p.threads[t]? = some th)
      (moves : th.Moves t p.shared answer th' sh) :
      Moves p (.thread t answer) { p with shared := sh, threads := p.threads.set t th' }

theorem moves {p next : Process} {action : Action} (moved : step p action = some next) :
    Moves p action next := by
  -- a thread moves in the same way wherever `main` stands, as long as it lives
  have running : ∀ t answer, p.main ≠ .exited → step p (.thread t answer) = some next →
      Moves p (.thread t answer) next := by
    intro t answer here taken
    cases found : p.threads[t]? with
    | none => cases main : p.main <;> simp [step, main, found] at taken
    | some th =>
        cases stepped : th.step t p.shared answer with
        | none => cases main : p.main <;> simp [step, main, found, stepped] at taken
        | some pair =>
            have result :
                { p with shared := pair.2, threads := p.threads.set t pair.1 } = next := by
              cases main : p.main <;> simp_all [step]
            exact result ▸ .thread here found (Thread.moves stepped)
  cases main : p.main with
  | accept =>
      cases action with
      | accept result =>
          simp only [step, main, Process.accept] at moved
          split at moved
          · rename_i failed
            subst failed
            rw [Option.some.injEq, ← main] at moved
            exact moved ▸ .acceptFails main
          · simp only [Option.ite_none_right_eq_some, Option.some.injEq] at moved
            obtain ⟨⟨valid, unused⟩, rfl⟩ := moved
            exact .accepts main valid unused
      | create result => simp [step, main] at moved
      | thread t answer => exact running t answer (by simp [main]) moved
  | create =>
      cases action with
      | accept result => simp [step, main] at moved
      | create result =>
          simp only [step, main, Option.some.injEq, Process.pthreadCreate] at moved
          subst moved
          split
          · rename_i failed
            exact failed ▸ .exits main
          · split
            · rename_i fine
              exact fine ▸ .creates main
            · exact .createsNone main
      | thread t answer => exact running t answer (by simp [main]) moved
  | exited => cases action <;> simp [step, main] at moved

theorem step_thread {p next : Process} {action : Action} {t : Nat} {th : Thread}
    (found : p.threads[t]? = some th) (moved : step p action = some next) :
    (∃ answer th', action = .thread t answer ∧ next.threads[t]? = some th' ∧
        th.Moves t p.shared answer th' next.shared) ∨
      (∀ answer, action ≠ .thread t answer) ∧ next.threads[t]? = some th := by
  have inside : t < p.threads.length := (List.getElem?_eq_some_iff.mp found).1
  cases moves moved with
  | creates main =>
      exact Or.inr ⟨by simp, by simpa [List.getElem?_append_left inside] using found⟩
  | @thread u answer old after sh running here steps =>
      by_cases same : u = t
      · subst same
        rw [found, Option.some.injEq] at here
        subst here
        exact Or.inl ⟨answer, after, rfl, by simp [inside], steps⟩
      · exact Or.inr ⟨by simp [same], by simpa [List.getElem?_set_ne same] using found⟩
  | _ => exact Or.inr ⟨by simp, found⟩

end AndroidKernel.Server
