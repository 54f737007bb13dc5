import AndroidKernel.Transition
import AndroidKernel.PtreeListing

/-!
Calls of `ptree` that run at the same time. `tasklist_lock` is taken for
reading, and the reset and the copy are outside it, so any steps of different
calls interleave. A call is a small machine: the shared accesses are one step
each, and the recursion of `DFS` is a stack that only the call itself sees. A
call that finds the cursor as it left it writes what the listing says at the
place where the listing has it; then even the records another call wrote are
the right ones.
-/

namespace AndroidKernel.Ptree

structure Frame where
  head : ListHead
  item : ListHead
  level : Nat
  deriving DecidableEq

inductive Pc where
  /-- `nr_tmp = 0`. -/
  | reset
  /-- A call of `DFS`, up to its test for `NULL`. -/
  | enter (entry : Addr) (level : Nat) (stack : List Frame)
  | write (entry : Addr) (level : Nat) (stack : List Frame)
  /-- `nr_tmp++`. -/
  | increment (entry : Addr) (level : Nat) (stack : List Frame)
  /-- The test of the innermost loop, or the return from the first call. -/
  | loop (stack : List Frame)
  /-- `*nr = nr_tmp`. -/
  | store
  /-- `i < nr_tmp`. -/
  | check (i : Nat)
  | copy (i : Nat)
  | done
  deriving DecidableEq

/-- `written` is a history variable: the records the call wrote so far. -/
structure Call where
  pc : Pc
  written : Nat
  user : UserMemory

structure Calls where
  globals : Globals
  call : Nat → Call

def Calls.moved (s : Calls) (c : Nat) (globals : Globals) (call : Call) : Calls :=
  { globals := globals, call := Function.update s.call c call }

def pushChildren (mem : Memory) (entry : Addr) (level : Nat) (stack : List Frame) : List Frame :=
  if listEmpty mem (.children entry) then stack
  else ⟨.children entry, mem.next (.children entry), level⟩ :: stack

def step (mem : Memory) (s : Calls) (c : Nat) : Option Calls :=
  let call := s.call c
  match call.pc with
  | .reset => some (s.moved c { s.globals with nrTmp := 0 }
      { call with pc := .enter mem.initTask 0 [], written := 0 })
  | .enter entry level stack =>
      if entry = null then some (s.moved c s.globals { call with pc := .loop stack })
      else some (s.moved c s.globals { call with pc := .write entry level stack })
  | .write entry level stack =>
      match record mem entry level s.globals with
      | none => none
      | some globals => some (s.moved c globals { call with pc := .increment entry level stack })
  | .increment entry level stack =>
      some (s.moved c { s.globals with nrTmp := s.globals.nrTmp + 1 }
        { call with pc := .loop (pushChildren mem entry level stack),
                    written := call.written + 1 })
  | .loop [] => some (s.moved c s.globals { call with pc := .store })
  | .loop (frame :: stack) =>
      if frame.item = frame.head then some (s.moved c s.globals { call with pc := .loop stack })
      else
        let rest := { frame with item := mem.next frame.item } :: stack
        some (s.moved c s.globals
          { call with pc := .enter (listEntry frame.item) (frame.level + 1) rest })
  | .store => some (s.moved c s.globals
      { call with pc := .check 0, user := { call.user with nr := s.globals.nrTmp } })
  | .check i =>
      if i < s.globals.nrTmp then some (s.moved c s.globals { call with pc := .copy i })
      else some (s.moved c s.globals { call with pc := .done })
  | .copy i =>
      match copyRecord s.globals i call.user with
      | none => none
      | some user => some (s.moved c s.globals { call with pc := .check (i + 1), user := user })
  | .done => none

inductive Call.Moves (mem : Memory) (g : Globals) (call : Call) : Globals → Call → Prop where
  | resets (pc : call.pc = .reset) : Moves mem g call { g with nrTmp := 0 }
      { call with pc := .enter mem.initTask 0 [], written := 0 }
  | returns {entry level stack} (pc : call.pc = .enter entry level stack) (isNull : entry = null) :
      Moves mem g call g { call with pc := .loop stack }
  | enters {entry level stack} (pc : call.pc = .enter entry level stack) (real : entry ≠ null) :
      Moves mem g call g { call with pc := .write entry level stack }
  | writes {entry level stack globals} (pc : call.pc = .write entry level stack)
      (made : record mem entry level g = some globals) :
      Moves mem g call globals { call with pc := .increment entry level stack }
  | increments {entry level stack} (pc : call.pc = .increment entry level stack) :
      Moves mem g call { g with nrTmp := g.nrTmp + 1 }
        { call with pc := .loop (pushChildren mem entry level stack),
                    written := call.written + 1 }
  | walked (pc : call.pc = .loop []) : Moves mem g call g { call with pc := .store }
  | leaves {frame stack} (pc : call.pc = .loop (frame :: stack)) (ended : frame.item = frame.head) :
      Moves mem g call g { call with pc := .loop stack }
  | descends {frame stack} (pc : call.pc = .loop (frame :: stack))
      (more : frame.item ≠ frame.head) :
      Moves mem g call g { call with
        pc := .enter (listEntry frame.item) (frame.level + 1)
          ({ frame with item := mem.next frame.item } :: stack) }
  | stores (pc : call.pc = .store) : Moves mem g call g
      { call with pc := .check 0, user := { call.user with nr := g.nrTmp } }
  | goesOn {i} (pc : call.pc = .check i) (inside : i < g.nrTmp) :
      Moves mem g call g { call with pc := .copy i }
  | finishes {i} (pc : call.pc = .check i) (ended : ¬ i < g.nrTmp) :
      Moves mem g call g { call with pc := .done }
  | copies {i user} (pc : call.pc = .copy i) (made : copyRecord g i call.user = some user) :
      Moves mem g call g { call with pc := .check (i + 1), user := user }

theorem step_moves {mem : Memory} {s next : Calls} {c : Nat} (moved : step mem s c = some next) :
    ∃ g call, next = s.moved c g call ∧ (s.call c).Moves mem s.globals g call := by
  cases pc : (s.call c).pc with
  | reset =>
      simp only [step, pc, Option.some.injEq] at moved
      exact ⟨_, _, moved.symm, .resets pc⟩
  | enter entry level stack =>
      simp only [step, pc] at moved
      split at moved <;> rename_i test <;> rw [Option.some.injEq] at moved
      · exact ⟨_, _, moved.symm, .returns pc test⟩
      · exact ⟨_, _, moved.symm, .enters pc test⟩
  | write entry level stack =>
      simp only [step, pc] at moved
      split at moved
      · cases moved
      · rename_i globals made
        rw [Option.some.injEq] at moved
        exact ⟨_, _, moved.symm, .writes pc made⟩
  | increment entry level stack =>
      simp only [step, pc, Option.some.injEq] at moved
      exact ⟨_, _, moved.symm, .increments pc⟩
  | loop stack =>
      cases stack with
      | nil =>
          simp only [step, pc, Option.some.injEq] at moved
          exact ⟨_, _, moved.symm, .walked pc⟩
      | cons frame stack =>
          simp only [step, pc] at moved
          split at moved <;> rename_i test <;> rw [Option.some.injEq] at moved
          · exact ⟨_, _, moved.symm, .leaves pc test⟩
          · exact ⟨_, _, moved.symm, .descends pc test⟩
  | store =>
      simp only [step, pc, Option.some.injEq] at moved
      exact ⟨_, _, moved.symm, .stores pc⟩
  | check i =>
      simp only [step, pc] at moved
      split at moved <;> rename_i test <;> rw [Option.some.injEq] at moved
      · exact ⟨_, _, moved.symm, .goesOn pc test⟩
      · exact ⟨_, _, moved.symm, .finishes pc test⟩
  | copy i =>
      simp only [step, pc] at moved
      split at moved
      · cases moved
      · rename_i user made
        rw [Option.some.injEq] at moved
        exact ⟨_, _, moved.symm, .copies pc made⟩
  | done => simp [step, pc] at moved

/-- The call finds the cursor where its own records end: when it writes a
record, increments, and stores the number; a test of the copy loop has the
answer it has for the own records. -/
def OwnCursor (s : Calls) (c : Nat) : Prop :=
  match (s.call c).pc with
  | .write _ _ _ | .increment _ _ _ | .store => s.globals.nrTmp = (s.call c).written
  | .check i => i < s.globals.nrTmp ↔ i < (s.call c).written
  | _ => True

instance (s : Calls) (c : Nat) : Decidable (OwnCursor s c) := by
  unfold OwnCursor
  split <;> infer_instance

def Fresh (s : Calls) : Prop := ∀ c, (s.call c).pc = .reset

structure Returned (mem : Memory) (kids : Forest) (user : UserMemory) : Prop where
  nr : user.nr = (listing mem kids).length
  describes : ∀ i visit, (listing mem kids)[i]? = some visit → Describes mem visit (user.buf i)

section Alone
variable {mem : Memory}

def Alone (mem : Memory) (c : Nat) (s next : Calls) : Prop :=
  ∃ steps, Transition.Run (step mem) (fun _ _ => True) s (List.replicate steps c) next

theorem Alone.refl (c : Nat) (s : Calls) : Alone mem c s s := ⟨0, .refl s⟩

theorem Alone.cons {c : Nat} {s middle next : Calls} (moved : step mem s c = some middle)
    (rest : Alone mem c middle next) : Alone mem c s next := by
  obtain ⟨steps, run⟩ := rest
  exact ⟨steps + 1, .next trivial moved run⟩

theorem Alone.trans {c : Nat} {s middle next : Calls} (one : Alone mem c s middle)
    (two : Alone mem c middle next) : Alone mem c s next := by
  obtain ⟨steps, run⟩ := one
  induction steps generalizing s with
  | zero =>
      cases run
      exact two
  | succ steps ih =>
      cases run with
      | next _ moved tail => exact .cons moved (ih tail)

@[simp] theorem moved_moved (s : Calls) (c : Nat) (g g' : Globals) (call call' : Call) :
    (s.moved c g call).moved c g' call' = s.moved c g' call' := by
  simp [Calls.moved]

@[simp] theorem moved_globals (s : Calls) (c : Nat) (g : Globals) (call : Call) :
    (s.moved c g call).globals = g := rfl

@[simp] theorem moved_call (s : Calls) (c : Nat) (g : Globals) (call : Call) :
    (s.moved c g call).call c = call := by
  simp [Calls.moved]

/-- The steps of a call are those of `DFS` and its loop. The induction is on the
fuel of both functions together. -/
theorem dfs_walk_alone (mem : Memory) (s : Calls) (c : Nat) (call : Call) (fuel : Nat) :
    (∀ entry level stack g next written, dfs mem fuel entry level g = some next →
      ∃ written', Alone mem c
        (s.moved c g { call with pc := .enter entry level stack, written := written })
        (s.moved c next { call with pc := .loop stack, written := written' })) ∧
    ∀ head item level stack g next written, walk mem fuel head item level g = some next →
      ∃ written', Alone mem c
        (s.moved c g { call with pc := .loop (⟨head, item, level⟩ :: stack), written := written })
        (s.moved c next { call with pc := .loop stack, written := written' }) := by
  -- `dfs` and `walk` call each other with one unit of fuel less, so both go in one induction
  induction fuel with
  | zero =>
      constructor
      · intro entry level stack g next written done
        simp [dfs] at done
      · intro head item level stack g next written done
        simp [walk] at done
  | succ fuel ih =>
      obtain ⟨dfsIh, walkIh⟩ := ih
      constructor
      · intro entry level stack g next written done
        rw [dfs] at done
        split at done
        · rename_i isNull
          rw [Option.some.injEq] at done
          subst done
          exact ⟨written, .cons (by simp [step, isNull]) (.refl c _)⟩
        · rename_i real
          split at done
          · cases done
          · rename_i recorded writes
            -- the three steps up to the increment, and then the loop if there are children
            have begun : ∀ rest, pushChildren mem entry level stack = rest →
                Alone mem c
                  (s.moved c g { call with pc := .enter entry level stack, written := written })
                  (s.moved c { recorded with nrTmp := recorded.nrTmp + 1 }
                    { call with pc := .loop rest, written := written + 1 }) := by
              rintro rest rfl
              refine .cons (by simp [step, real]; rfl) (.cons (by simp [step, writes]; rfl)
                (.cons (by simp [step]) (.refl c _)))
            split at done
            · rename_i empty
              rw [Option.some.injEq] at done
              subst done
              exact ⟨written + 1, begun stack (by rw [pushChildren, if_pos empty])⟩
            · rename_i filled
              obtain ⟨written', walked⟩ := walkIh _ _ _ stack _ _ (written + 1) done
              exact ⟨written', (begun _ (by rw [pushChildren, if_neg filled])).trans walked⟩
      · intro head item level stack g next written done
        rw [walk] at done
        split at done
        · rename_i ended
          rw [Option.some.injEq] at done
          subst done
          exact ⟨written, .cons (by simp [step, ended]) (.refl c _)⟩
        · rename_i more
          split at done
          · cases done
          · rename_i middle called
            -- the loop steps to its next child before the call, which the frame below keeps
            obtain ⟨after, first⟩ := dfsIh _ _ (⟨head, mem.next item, level⟩ :: stack) _ _ written
              called
            obtain ⟨written', others⟩ := walkIh _ _ _ stack _ _ after done
            refine ⟨written', .cons ?_ (first.trans others)⟩
            simp [step, more]

theorem copyLoop_alone (mem : Memory) (s : Calls) (c : Nat) (call : Call) (g : Globals)
    (left i : Nat) (all : i + left = g.nrTmp) (user out : UserMemory)
    (done : copyLoop g left i user = some out) :
    Alone mem c (s.moved c g { call with pc := .check i, user := user })
      (s.moved c g { call with pc := .done, user := out }) := by
  induction left generalizing i user with
  | zero =>
      rw [copyLoop, Option.some.injEq] at done
      subst done
      have ended : ¬ i < g.nrTmp := by omega
      exact .cons (by simp [step, ended]) (.refl c _)
  | succ left ih =>
      rw [copyLoop] at done
      split at done
      · cases done
      · rename_i copied copies
        have inside : i < g.nrTmp := by omega
        have tested : step mem (s.moved c g { call with pc := .check i, user := user }) c =
            some (s.moved c g { call with pc := .copy i, user := user }) := by
          simp [step, inside]
        refine .cons tested (.cons ?_ (ih (i + 1) (by omega) copied done))
        simp [step, copies]

/-- A call that no other call disturbs does what `ptree` computes. -/
theorem ptree_alone (mem : Memory) (s : Calls) (c : Nat) (fuel : Nat) (result : PtreeResult)
    (start : (s.call c).pc = .reset)
    (done : ptree mem fuel s.globals (s.call c).user = some result) :
    ∃ written, Alone mem c s (s.moved c result.globals ⟨.done, written, result.user⟩) := by
  rw [ptree] at done
  split at done
  · cases done
  · rename_i filled walked
    split at done
    · cases done
    · rename_i user copied
      rw [Option.some.injEq] at done
      subst done
      obtain ⟨written, dfsRun⟩ := (dfs_walk_alone mem s c (s.call c) fuel).1 mem.initTask 0 [] _ _
        0 walked
      have copyRun := copyLoop_alone mem s c ⟨.store, written, (s.call c).user⟩ filled
        filled.nrTmp 0 (Nat.zero_add _) _ _ copied
      refine ⟨written, .cons (by simp [step, start]) (dfsRun.trans ?_)⟩
      exact .cons (by simp [step]; rfl) (.cons (by simp [step]) copyRun)

end Alone

inductive Todo (mem : Memory) : List Frame → List Visit → Prop
  | nil : Todo mem [] []
  | cons {owner : Addr} {item : ListHead} {level : Nat} {stack : List Frame} {forest : Forest}
      {visits : List Visit} (inMem : forest.InMemory mem owner item)
      (rest : Todo mem stack visits) :
      Todo mem (⟨.children owner, item, level⟩ :: stack) (forest.listing (level + 1) ++ visits)

structure Due (mem : Memory) (entry : Addr) (level : Nat) (stack : List Frame)
    (visits : List Visit) : Prop where
  real : entry ≠ null
  splits : ∃ kids rest, Forest.InMemory mem kids entry (mem.next (.children entry)) ∧
    Todo mem stack rest ∧
    visits = ⟨entry, level, kids.roots⟩ :: (kids.listing (level + 1) ++ rest)

def Recorded (mem : Memory) (visits : List Visit) (g : Globals) (count : Nat) : Prop :=
  ∀ i < count, ∀ visit, visits[i]? = some visit → Describes mem visit (g.bufTmp i)

structure Copied (mem : Memory) (visits : List Visit) (user : UserMemory) (count : Nat) :
    Prop where
  nr : user.nr = visits.length
  describes : ∀ i < count, ∀ visit, visits[i]? = some visit → Describes mem visit (user.buf i)

def Fine (mem : Memory) (visits : List Visit) (g : Globals) (call : Call) : Prop :=
  match call.pc with
  | .reset => True
  | .enter entry level stack | .write entry level stack =>
      Due mem entry level stack (visits.drop call.written) ∧ Recorded mem visits g call.written
  | .increment entry level stack =>
      Due mem entry level stack (visits.drop call.written) ∧
        Recorded mem visits g (call.written + 1)
  | .loop stack =>
      Todo mem stack (visits.drop call.written) ∧ Recorded mem visits g call.written ∧
        call.written ≤ visits.length
  | .store => call.written = visits.length ∧ Recorded mem visits g visits.length
  | .check i =>
      call.written = visits.length ∧ Recorded mem visits g visits.length ∧ i ≤ visits.length ∧
        Copied mem visits call.user i
  | .copy i =>
      call.written = visits.length ∧ Recorded mem visits g visits.length ∧ i < visits.length ∧
        Copied mem visits call.user i
  | .done => Copied mem visits call.user visits.length

section Steps
variable {mem : Memory} {visits : List Visit} {g g' : Globals} {call : Call}

theorem Fine.mono (fine : Fine mem visits g call)
    (keeps : ∀ count, Recorded mem visits g count → Recorded mem visits g' count) :
    Fine mem visits g' call := by
  cases pc : call.pc with
  | reset => simp [Fine, pc]
  | enter entry level stack =>
      simp only [Fine, pc] at fine ⊢
      exact ⟨fine.1, keeps _ fine.2⟩
  | write entry level stack =>
      simp only [Fine, pc] at fine ⊢
      exact ⟨fine.1, keeps _ fine.2⟩
  | increment entry level stack =>
      simp only [Fine, pc] at fine ⊢
      exact ⟨fine.1, keeps _ fine.2⟩
  | loop stack =>
      simp only [Fine, pc] at fine ⊢
      exact ⟨fine.1, keeps _ fine.2.1, fine.2.2⟩
  | store =>
      simp only [Fine, pc] at fine ⊢
      exact ⟨fine.1, keeps _ fine.2⟩
  | check i =>
      simp only [Fine, pc] at fine ⊢
      exact ⟨fine.1, keeps _ fine.2.1, fine.2.2⟩
  | copy i =>
      simp only [Fine, pc] at fine ⊢
      exact ⟨fine.1, keeps _ fine.2.1, fine.2.2⟩
  | done =>
      simp only [Fine, pc] at fine ⊢
      exact fine

theorem Due.here {entry : Addr} {level : Nat} {stack : List Frame} {count : Nat}
    (due : Due mem entry level stack (visits.drop count)) :
    count < visits.length ∧ ∃ kids : Forest,
      kids.InMemory mem entry (mem.next (.children entry)) ∧
        visits[count]? = some ⟨entry, level, kids.roots⟩ := by
  obtain ⟨kids, rest, kidsMem, -, split⟩ := due.splits
  have first : visits[count]? = some ⟨entry, level, kids.roots⟩ := by
    have head := congrArg List.head? split
    rwa [List.head?_drop] at head
  exact ⟨(List.getElem?_eq_some_iff.mp first).1, kids, kidsMem, first⟩

theorem Due.pushed {entry : Addr} {level : Nat} {stack : List Frame} {count : Nat}
    (due : Due mem entry level stack (visits.drop count)) :
    Todo mem (pushChildren mem entry level stack) (visits.drop (count + 1)) := by
  obtain ⟨kids, rest, kidsMem, restTodo, split⟩ := due.splits
  have tail : visits.drop (count + 1) = kids.listing (level + 1) ++ rest := by
    rw [← List.tail_drop, split]
    rfl
  rw [tail, pushChildren]
  split
  · rename_i empty
    have ended : mem.next (.children entry) = .children entry := of_decide_eq_true empty
    cases kids with
    | nil => exact restTodo
    | cons child below after =>
        rw [kidsMem.1] at ended
        exact absurd ended (by simp)
  · exact .cons kidsMem restTodo

/-- A write at the own cursor puts a record of the listing where the listing has
it, which spoils no record that is there. -/
theorem record_recorded {entry : Addr} {level : Nat} {stack : List Frame} {count : Nat}
    (due : Due mem entry level stack (visits.drop count)) (own : g.nrTmp = count)
    (writes : record mem entry level g = some g') :
    (∀ other, Recorded mem visits g other → Recorded mem visits g' other) ∧
      (Recorded mem visits g count → Recorded mem visits g' (count + 1)) := by
  obtain ⟨-, kids, kidsMem, here⟩ := due.here
  rw [record] at writes
  split at writes
  · rw [Option.some.injEq] at writes
    subst writes
    have written : ∀ visit, visits[count]? = some visit →
        Describes mem visit (fill mem entry level (g.bufTmp g.nrTmp)) := by
      intro visit found
      rw [here, Option.some.injEq] at found
      exact found ▸ fill_describes kidsMem level _
    have at_place : ∀ i visit, visits[i]? = some visit →
        (i ≠ count → Describes mem visit (g.bufTmp i)) →
        Describes mem visit (Function.update g.bufTmp g.nrTmp
          (fill mem entry level (g.bufTmp g.nrTmp)) i) := by
      intro i visit found elsewhere
      by_cases same : i = count
      · rw [own, same, Function.update_self, ← own]
        exact written visit (same ▸ found)
      · rw [own, Function.update_of_ne same]
        exact elsewhere same
    constructor
    · intro other recorded i inside visit found
      exact at_place i visit found fun _ => recorded i inside visit found
    · intro recorded i inside visit found
      exact at_place i visit found fun differs => recorded i (by omega) visit found
  · cases writes

theorem Recorded.congr (same : g'.bufTmp = g.bufTmp) (count : Nat)
    (recorded : Recorded mem visits g count) : Recorded mem visits g' count := by
  intro i inside visit found
  rw [same]
  exact recorded i inside visit found

end Steps

theorem Copied.next {mem : Memory} {visits : List Visit} {user : UserMemory} {i : Nat}
    {info : Prinfo} (copied : Copied mem visits user i) (inside : i < visits.length)
    (describes : Describes mem visits[i] info) :
    Copied mem visits { user with buf := Function.update user.buf i info } (i + 1) where
  nr := copied.nr
  describes j low visit found := by
    by_cases same : j = i
    · subst same
      rw [List.getElem?_eq_getElem inside, Option.some.injEq] at found
      simpa [found] using describes
    · simp only [Function.update_of_ne same]
      exact copied.describes j (by omega) visit found

theorem Todo.next {mem : Memory} {visits : List Visit} {frame : Frame} {stack : List Frame}
    (todo : Todo mem (frame :: stack) visits) :
    (frame.item = frame.head ∧ Todo mem stack visits) ∨
      frame.item ≠ frame.head ∧ Due mem (listEntry frame.item) (frame.level + 1)
        ({ frame with item := mem.next frame.item } :: stack) visits := by
  cases todo with
  | @cons owner item level _ forest rest inMem restTodo =>
      cases forest with
      | nil => exact Or.inl ⟨inMem, restTodo⟩
      | cons task below after =>
          obtain ⟨rfl, real, belowMem, afterMem⟩ := inMem
          refine Or.inr ⟨by simp, real, below, _, belowMem, .cons afterMem restTodo, ?_⟩
          simp [Forest.listing, listEntry]

def AllFine (mem : Memory) (visits : List Visit) (s : Calls) : Prop :=
  ∀ c, Fine mem visits s.globals (s.call c)

section Runs
variable {mem : Memory} {kids : Forest} {s next : Calls}

theorem AllFine.moved {visits : List Visit} (fine : AllFine mem visits s) (c : Nat)
    {g : Globals} {call : Call}
    (keeps : ∀ count, Recorded mem visits s.globals count → Recorded mem visits g count)
    (own : Fine mem visits g call) : AllFine mem visits (s.moved c g call) := by
  intro d
  by_cases same : d = c
  · subst same
    simpa using own
  · simp only [Calls.moved, Function.update_of_ne same]
    exact (fine d).mono keeps

theorem step_allFine (tree : ProcessTree mem kids) (fine : AllFine mem (listing mem kids) s)
    (c : Nat) (own : OwnCursor s c) (moved : step mem s c = some next) :
    AllFine mem (listing mem kids) next := by
  obtain ⟨g, call, rfl, moves⟩ := step_moves moved
  have mine := fine c
  have kept : ∀ count, Recorded mem (listing mem kids) s.globals count →
      Recorded mem (listing mem kids) s.globals count := fun _ => id
  cases moves with
  | resets pc =>
      refine fine.moved c (Recorded.congr rfl) ⟨⟨mem.init_ne_null, kids, [], tree, .nil, ?_⟩, ?_⟩
      · simp [listing]
      · exact fun i inside => absurd inside (Nat.not_lt_zero i)
  | returns pc isNull =>
      simp only [Fine, pc] at mine
      exact absurd isNull mine.1.real
  | enters pc real =>
      simp only [Fine, pc] at mine
      exact fine.moved c kept mine
  | writes pc made =>
      simp only [Fine, pc] at mine
      simp only [OwnCursor, pc] at own
      -- the cursor is where this call is, so the others keep their records
      obtain ⟨keeps, more⟩ := record_recorded mine.1 own made
      exact fine.moved c keeps ⟨mine.1, more mine.2⟩
  | increments pc =>
      simp only [Fine, pc] at mine
      exact fine.moved c (Recorded.congr rfl)
        ⟨mine.1.pushed, Recorded.congr rfl _ mine.2, mine.1.here.1⟩
  | walked pc =>
      simp only [Fine, pc] at mine
      obtain ⟨todo, recorded, most⟩ := mine
      -- no loop is open, so nothing of the listing is left
      have all : (s.call c).written = (listing mem kids).length := by
        generalize left : (listing mem kids).drop (s.call c).written = visits at todo
        cases todo
        have none := List.drop_eq_nil_iff.mp left
        omega
      exact fine.moved c kept ⟨all, all ▸ recorded⟩
  | leaves pc ended =>
      simp only [Fine, pc] at mine
      obtain ⟨todo, recorded, most⟩ := mine
      rcases todo.next with ⟨-, rest⟩ | ⟨more, -⟩
      · exact fine.moved c kept ⟨rest, recorded, most⟩
      · exact absurd ended more
  | descends pc more =>
      simp only [Fine, pc] at mine
      obtain ⟨todo, recorded, -⟩ := mine
      rcases todo.next with ⟨ended, -⟩ | ⟨-, due⟩
      · exact absurd ended more
      · exact fine.moved c kept ⟨due, recorded⟩
  | stores pc =>
      simp only [Fine, pc] at mine
      simp only [OwnCursor, pc] at own
      refine fine.moved c kept ⟨mine.1, mine.2, Nat.zero_le _, own.trans mine.1, ?_⟩
      exact fun i inside => absurd inside (Nat.not_lt_zero i)
  | goesOn pc inside =>
      simp only [Fine, pc] at mine
      simp only [OwnCursor, pc] at own
      obtain ⟨all, recorded, -, copied⟩ := mine
      rw [all] at own
      exact fine.moved c kept ⟨all, recorded, own.mp inside, copied⟩
  | @finishes i pc ended =>
      simp only [Fine, pc] at mine
      simp only [OwnCursor, pc] at own
      obtain ⟨all, -, most, copied⟩ := mine
      rw [all] at own
      have whole : i = (listing mem kids).length := by
        have reached := fun inside => ended (own.mpr inside)
        omega
      rw [whole] at copied
      exact fine.moved c kept copied
  | @copies i user pc made =>
      simp only [Fine, pc] at mine
      obtain ⟨all, recorded, inside, copied⟩ := mine
      obtain ⟨info, copies, describes⟩ := copyRecord_some
        (recorded i inside _ (List.getElem?_eq_getElem inside)) (s.call c).user
      rw [copies, Option.some.injEq] at made
      subst made
      exact fine.moved c kept ⟨all, recorded, inside, copied.next inside describes⟩

theorem step_others {c d : Nat} (differs : d ≠ c) (moved : step mem s c = some next) :
    next.call d = s.call d := by
  obtain ⟨g, call, rfl, -⟩ := step_moves moved
  simp [Calls.moved, Function.update_of_ne differs]

/-- At most this many steps of a call are to come, with `n` tasks in the tree: a
task costs one entry, its write and increment, and a test before and after; a
copied record costs its test and itself. -/
def stepsLeft (n : Nat) (call : Call) : Nat :=
  match call.pc with
  | .reset => 7 * n + 3
  | .enter _ _ stack => 5 * (n - call.written) + stack.length + 2 * n + 2
  | .write _ _ stack => 5 * (n - call.written) + stack.length + 2 * n + 1
  | .increment _ _ stack => 5 * (n - call.written) + stack.length + 2 * n
  | .loop stack => 5 * (n - call.written) + stack.length + 2 * n + 3
  | .store => 2 * n + 2
  | .check i => 2 * (n - i) + 1
  | .copy i => 2 * (n - i)
  | .done => 0

theorem pushChildren_length (mem : Memory) (entry : Addr) (level : Nat) (stack : List Frame) :
    (pushChildren mem entry level stack).length ≤ stack.length + 1 := by
  rw [pushChildren]
  split
  · exact Nat.le_succ _
  · exact Nat.le_refl _

theorem step_stepsLeft (fine : AllFine mem (listing mem kids) s) (c : Nat)
    (moved : step mem s c = some next) :
    stepsLeft (listing mem kids).length (next.call c) <
      stepsLeft (listing mem kids).length (s.call c) := by
  obtain ⟨g, call, rfl, moves⟩ := step_moves moved
  have mine := fine c
  rw [moved_call]
  cases moves with
  | resets pc | enters pc | writes pc | walked pc | leaves pc | descends pc | stores pc
  | goesOn pc | finishes pc =>
      simp only [stepsLeft, pc, List.length_nil, List.length_cons]
      omega
  | returns pc isNull =>
      -- the tree has no `NULL` child, so this return is never taken
      simp only [Fine, pc] at mine
      exact absurd isNull mine.1.real
  | @increments entry level stack pc =>
      simp only [Fine, pc] at mine
      have inside := mine.1.here.1
      have longer := pushChildren_length mem entry level stack
      simp only [stepsLeft, pc]
      omega
  | copies pc =>
      simp only [Fine, pc] at mine
      have inside := mine.2.2.1
      simp only [stepsLeft, pc]
      omega

theorem step_isSome (small : (listing mem kids).length ≤ maxNumProc)
    (fine : AllFine mem (listing mem kids) s) (c : Nat) (own : OwnCursor s c)
    (busy : (s.call c).pc ≠ .done) : (step mem s c).isSome := by
  have mine := fine c
  cases pc : (s.call c).pc with
  | write entry level stack =>
      simp only [Fine, pc] at mine
      simp only [OwnCursor, pc] at own
      have inside := mine.1.here.1
      have room : s.globals.nrTmp < maxNumProc := by omega
      simp [step, pc, record, room]
  | copy i =>
      simp only [Fine, pc] at mine
      obtain ⟨-, recorded, inside, -⟩ := mine
      obtain ⟨info, copies, -⟩ := copyRecord_some
        (recorded i inside _ (List.getElem?_eq_getElem inside)) (s.call c).user
      simp [step, pc, copies]
  | loop stack =>
      cases stack with
      | nil => simp [step, pc]
      | cons frame stack =>
          simp only [step, pc]
          split <;> rfl
  | enter entry level stack =>
      simp only [step, pc]
      split <;> rfl
  | check i =>
      simp only [step, pc]
      split <;> rfl
  | done => exact absurd pc busy
  | reset => simp [step, pc]
  | increment entry level stack => simp [step, pc]
  | store => simp [step, pc]

theorem fresh_allFine (visits : List Visit) (fresh : Fresh s) : AllFine mem visits s := by
  intro c
  simp [Fine, fresh c]

theorem run_allFine (tree : ProcessTree mem kids) {start : Calls} {calls : List Nat}
    (fine : AllFine mem (listing mem kids) start)
    (run : Transition.Run (step mem) OwnCursor start calls s) :
    AllFine mem (listing mem kids) s := by
  apply run.invariant
  · intro state c next fine own moved
    exact step_allFine tree fine c own moved
  · exact fine

/-- The steps a call takes in a run, and those it has left, are no more than
those it had at the start. -/
theorem run_steps (tree : ProcessTree mem kids) {start : Calls} {calls : List Nat}
    (fine : AllFine mem (listing mem kids) start)
    (run : Transition.Run (step mem) OwnCursor start calls s) (c : Nat) :
    calls.count c + stepsLeft (listing mem kids).length (s.call c) ≤
      stepsLeft (listing mem kids).length (start.call c) := by
  induction run with
  | refl state => simp
  | @next before middle after d rest own moved tail ih =>
      have later := ih (step_allFine tree fine d own moved)
      by_cases same : d = c
      · subst same
        have less := step_stepsLeft fine d moved
        rw [List.count_cons_self]
        omega
      · rw [step_others (Ne.symm same) moved] at later
        rw [List.count_cons_of_ne same]
        exact later

def NoOverlap (s : Calls) (c : Nat) : Prop :=
  ∀ d, d ≠ c → (s.call d).pc = .reset ∨ (s.call d).pc = .done

def Exclusive (s : Calls) : Prop :=
  ∀ c, (s.call c).pc ≠ .reset → (s.call c).pc ≠ .done → s.globals.nrTmp = (s.call c).written

theorem Exclusive.ownCursor (exclusive : Exclusive s) (c : Nat) : OwnCursor s c := by
  have mine := exclusive c
  cases pc : (s.call c).pc with
  | write | increment | store => simpa [OwnCursor, pc] using mine
  | check i =>
      have same : s.globals.nrTmp = (s.call c).written := mine (by simp [pc]) (by simp [pc])
      simp [OwnCursor, pc, same]
  | reset | enter | loop | copy | done => simp [OwnCursor, pc]

theorem record_nrTmp {entry : Addr} {level : Nat} {g g' : Globals}
    (writes : record mem entry level g = some g') : g'.nrTmp = g.nrTmp := by
  rw [record] at writes
  split at writes
  · rw [Option.some.injEq] at writes
    exact writes ▸ rfl
  · cases writes

theorem step_exclusive (exclusive : Exclusive s) (c : Nat) (alone : NoOverlap s c)
    (moved : step mem s c = some next) : Exclusive next := by
  intro d begun going
  by_cases other : d ≠ c
  · rw [step_others other moved] at begun going
    rcases alone d other with atReset | atDone
    · exact absurd atReset begun
    · exact absurd atDone going
  · obtain rfl : d = c := not_not.mp other
    have mine := exclusive d
    obtain ⟨g, call, rfl, moves⟩ := step_moves moved
    rw [moved_call, moved_globals]
    cases moves with
    | resets pc => rfl
    | writes pc made => rw [record_nrTmp made, mine (by simp [pc]) (by simp [pc])]
    | increments pc => exact congrArg (· + 1) (mine (by simp [pc]) (by simp [pc]))
    | returns pc | enters pc | walked pc | leaves pc | descends pc | stores pc | goesOn pc
    | finishes pc | copies pc => exact mine (by simp [pc]) (by simp [pc])

theorem fresh_exclusive (fresh : Fresh s) : Exclusive s := by
  intro c begun
  exact absurd (fresh c) begun

/-- Calls that run one after the other find the cursor as they left it. -/
theorem run_of_noOverlap {start : Calls} {calls : List Nat} (fresh : Fresh start)
    (run : Transition.Run (step mem) NoOverlap start calls s) :
    Transition.Run (step mem) OwnCursor start calls s := by
  refine run.weaken_invariant ?_ ?_ (fresh_exclusive fresh)
  · intro state c next exclusive alone moved
    exact step_exclusive exclusive c alone moved
  · intro state c exclusive _
    exact exclusive.ownCursor c

/-- In a run of any number of calls in which every call finds the cursor where
its own records end, a call that is done has returned the whole listing, one that
is not can go on, and it ends within a number of steps that only the tree
decides. -/
theorem ptree_concurrent (tree : ProcessTree mem kids)
    (small : (listing mem kids).length ≤ maxNumProc) {start : Calls} (fresh : Fresh start)
    {calls : List Nat} (run : Transition.Run (step mem) OwnCursor start calls s) (c : Nat) :
    ((s.call c).pc = .done → Returned mem kids (s.call c).user) ∧
      ((s.call c).pc ≠ .done → OwnCursor s c → (step mem s c).isSome) ∧
      calls.count c ≤ 7 * (listing mem kids).length + 3 := by
  have fine := run_allFine tree (fresh_allFine _ fresh) run
  refine ⟨?_, fun busy own => step_isSome small fine c own busy, ?_⟩
  · intro done
    have mine := fine c
    simp only [Fine, done] at mine
    exact ⟨mine.nr, fun i visit found =>
      mine.describes i (List.getElem?_eq_some_iff.mp found).1 visit found⟩
  · have steps := run_steps tree (fresh_allFine _ fresh) run c
    simp only [stepsLeft, fresh c] at steps
    omega

end Runs

namespace Sample

def calls : Calls where
  globals := globals
  call _ := { pc := .reset, written := 0, user := user }

def inTurn : List Nat :=
  List.replicate 20 0 ++ List.replicate 20 1 ++ (List.replicate 9 [0, 1]).flatten

theorem inTurn_done : (Transition.runActions (step memory) calls inTurn).isSome := by
  decide +kernel

theorem inTurn_own : Transition.allAllowed (step memory) OwnCursor calls inTurn = true := by
  decide +kernel

end Sample

theorem ptree_concurrent_inTurn :
    let after := (Transition.runActions (step Sample.memory) Sample.calls Sample.inTurn).get
      Sample.inTurn_done
    ((after.call 1).pc = .done → Returned Sample.memory Sample.kids (after.call 1).user) ∧
      ((after.call 1).pc ≠ .done → OwnCursor after 1 →
        (step Sample.memory after 1).isSome) ∧
      Sample.inTurn.count 1 ≤ 7 * (listing Sample.memory Sample.kids).length + 3 :=
  ptree_concurrent Sample.tree (by decide) (fun _ => rfl)
    ((Transition.run_of_isSome _ _ Sample.inTurn_done).of_allAllowed Sample.inTurn_own) 1

namespace Lone

def memory : Memory where
  task _ := Sample.task 0
  next head := head
  initTask := 32
  init_ne_null := by decide

theorem tree : ProcessTree memory .nil := rfl

def overlap : List Nat := [0, 1, 0, 1, 0, 1, 0, 1, 0, 0, 0, 0, 0, 0, 0]

theorem overlap_done : (Transition.runActions (step memory) Sample.calls overlap).isSome := by
  decide +kernel

end Lone

/-- Two calls whose resets come before their walks count one task twice: the
first returns two records for a tree of one task. -/
theorem ptree_overlap_counts_twice :
    ¬ ∀ (mem : Memory) (kids : Forest) (start s : Calls) (calls : List Nat),
      ProcessTree mem kids → (listing mem kids).length ≤ maxNumProc → Fresh start →
      Transition.Run (step mem) (fun _ _ => True) start calls s →
      ∀ c, (s.call c).pc = .done → Returned mem kids (s.call c).user := by
  intro all
  have returned := all Lone.memory .nil Sample.calls _ Lone.overlap Lone.tree (by decide)
    (fun _ => rfl) (Transition.run_of_isSome _ _ Lone.overlap_done) 0 (by decide +kernel)
  have twice : ((((Transition.runActions (step Lone.memory) Sample.calls Lone.overlap).get
      Lone.overlap_done).call 0).user.nr) = 2 := by decide +kernel
  rw [returned.nr] at twice
  exact absurd twice (by decide)

end AndroidKernel.Ptree
