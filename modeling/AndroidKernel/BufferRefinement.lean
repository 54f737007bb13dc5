import AndroidKernel.Buffers
import AndroidKernel.ClientServer

/-!
The loops over the arrays are the service thread and the client seen byte by
byte: every step of these is a run of the loop, the string functions end, and
they find in the cells what is said of the bytes. So the accesses of a thread
stay inside in a run of the whole service exactly as long as its results of
`recv` are short.
-/

namespace AndroidKernel.Buffers

open CellString (Holds)
open Server (Byte cString quit encryptByte bufferSize received)
open Transition (Run)

theorem quit_noZero : 0 ∉ quit := by decide

theorem ServerLoop.run_scan {loop : ServerLoop} {f : StringFunction} {j : Nat}
    (pc : loop.pc = .scan f 0) (before : ∀ i < j, ¬ f.stops i (loop.buffer i))
    (atEnd : f.stops j (loop.buffer j)) :
    Run ServerLoop.step (fun _ _ => True) loop (List.replicate j .walk ++ [.walk])
      { loop with pc := loop.afterScan j f } := by
  have start : loop = { loop with pc := .scan f 0 } := by rw [← pc]
  rw [start]
  refine (Transition.run_repeat (fun i => { loop with pc := .scan f i })
    fun i below => ?_).append (.next trivial ?_ (.refl _))
  · simp [ServerLoop.step, before i below]
  · simp [ServerLoop.step, atEnd, ServerLoop.afterScan]

theorem StringFunction.stops_strcmp (i : Nat) (b : Byte) :
    StringFunction.strcmp.stops i b ↔ b ≠ quit.getD i 0 ∨ b = 0 := by
  simp [stops]

theorem StringFunction.stops_other {f : StringFunction} (notCompare : f ≠ .strcmp) (i : Nat)
    (b : Byte) : f.stops i b ↔ b = 0 := by
  cases f with
  | strcmp => exact absurd rfl notCompare
  | printf | strlen => simp [stops]

/-- `printf` and `strlen` stop at the end of the string. -/
theorem StringFunction.end_of_string {cells : Nat → Byte} {bytes : List Byte}
    (holds : Holds 0 cells bytes) (f : StringFunction) (notCompare : f ≠ .strcmp) :
    (∀ i < (cString bytes).length, ¬ f.stops i (cells i)) ∧
      f.stops (cString bytes).length (cells (cString bytes).length) := by
  obtain ⟨before, atEnd⟩ := holds.string_end
  constructor
  · intro i below
    rw [stops_other notCompare]
    exact before i below
  · rw [stops_other notCompare]
    exact atEnd

/-- `strcmp` stops and tells whether the string is `:q`. -/
theorem StringFunction.end_of_strcmp {cells : Nat → Byte} {bytes : List Byte}
    (holds : Holds 0 cells bytes) :
    ∃ j, (∀ i < j, ¬ StringFunction.strcmp.stops i (cells i)) ∧
      StringFunction.strcmp.stops j (cells j) ∧
      (cells j = quit.getD j 0 ↔ cString bytes = quit) := by
  obtain ⟨j, agree, verdict⟩ := holds.compares quit quit_noZero
  refine ⟨j, fun i below => ?_, ?_, ?_⟩
  · rw [stops_strcmp, not_or, not_not]
    exact agree i below
  · rw [stops_strcmp]
    exact verdict.imp (fun differs => differs.1) fun ended => ended.2.1
  · rcases verdict with ⟨differs, other⟩ | ⟨same, -, told⟩
    · exact iff_of_false differs other
    · exact iff_of_true same told

/-- The encryption loop, by induction on the bytes it has before it. -/
theorem ServerLoop.run_encrypt {after : List Byte} :
    ∀ {loop : ServerLoop} {before : List Byte}, loop.pc = .encrypt before.length →
      Holds 0 loop.buffer (before.map encryptByte ++ after) →
      loop.n = before.length + after.length →
      ∃ buffer, Holds 0 buffer ((before ++ after).map encryptByte) ∧
        Run ServerLoop.step (fun _ _ => True) loop (List.replicate (after.length + 1) .walk)
          { loop with buffer := buffer, pc := .scan .strlen 0 } := by
  induction after with
  | nil =>
      intro loop before pc holds count
      refine ⟨loop.buffer, by simpa using holds, .next trivial ?_ (.refl _)⟩
      simp [ServerLoop.step, pc, count]
  | cons b rest ih =>
      intro loop before pc holds count
      let next : ServerLoop := { loop with
        buffer := Function.update loop.buffer before.length
          (encryptByte (loop.buffer before.length))
        pc := .encrypt (before ++ [b]).length }
      have moved : loop.step .walk = some next := by
        simp [ServerLoop.step, pc, count, next]
      have mappedNext : Holds 0 next.buffer ((before ++ [b]).map encryptByte ++ rest) :=
        holds.map_next
      have countNext : next.n = (before ++ [b]).length + rest.length := by
        simp [next, count]
        omega
      obtain ⟨buffer, mapped, run⟩ := ih rfl mappedNext countNext
      exact ⟨buffer, by simpa using mapped, .next trivial moved run⟩

theorem ServerLoop.run_send {loop : ServerLoop} {len : Nat} (pc : loop.pc = .send 0 len) :
    Run ServerLoop.step (fun _ _ => True) loop (List.replicate len .walk)
      { loop with pc := .send len len } := by
  have start : loop = { loop with pc := .send 0 len } := by rw [← pc]
  rw [start]
  refine Transition.run_repeat (fun i => { loop with pc := .send i len }) fun i below => ?_
  simp [ServerLoop.step, below]

def ServerPc.of (pc : Server.Pc) (block : Bool) : ServerPc :=
  match pc with
  | .readFd | .receive => .recv
  | .testQuit => .scan .strcmp 0
  | .lockAdmission | .admission => .admission
  | .unlockAdmission => if block then .sendWait else .scan .printf 0
  | .encrypt => .scan .printf 0
  | .send => .scan .strlen 0
  | .sendWait => .sendWait
  | .close | .lockRelease | .release | .unlockRelease | .exited => .left

structure Pictures (loop : ServerLoop) (th : Server.Thread) : Prop where
  pc : loop.pc = .of th.pc th.block
  block : loop.block = th.block
  holds : loop.pc ≠ .recv → loop.pc ≠ .left →
    Holds 0 loop.buffer th.buffer ∧ loop.n = th.buffer.length

def Follows (loop : ServerLoop) (th : Server.Thread) (chunks : List (List Byte)) : Prop :=
  ∃ actions next, Run ServerLoop.step (fun _ _ => True) loop actions next ∧ Pictures next th ∧
    ((∀ action ∈ actions, action.Short) ↔ ∀ chunk ∈ chunks, chunk.length ≤ 255)

section Thread
variable {t : Nat} {th th' : Server.Thread} {sh sh' : Server.Shared} {answer : Server.Answer}
  {loop next : ServerLoop}

theorem Follows.none (pictures : Pictures loop th') : Follows loop th' [] :=
  ⟨[], loop, .refl loop, pictures, by simp⟩

theorem Follows.one (action : Action) (moved : loop.step action = some next)
    (pictures : Pictures next th') (short : action.Short) : Follows loop th' [] :=
  ⟨[action], next, .next trivial moved (.refl next), pictures, by simpa using short⟩

theorem Follows.after {actions : List Action} {chunks : List (List Byte)}
    (run : Run ServerLoop.step (fun _ _ => True) loop actions next)
    (short : ∀ action ∈ actions, action.Short) (follows : Follows next th' chunks) :
    Follows loop th' chunks := by
  obtain ⟨later, last, run', pictures, agree⟩ := follows
  refine ⟨actions ++ later, last, run.append run', pictures, ?_⟩
  rw [← agree, List.forall_mem_append]
  exact and_iff_right short

theorem walks_short (count : Nat) : ∀ action ∈ List.replicate count Action.walk, action.Short := by
  intro action inside
  rw [(List.mem_replicate.mp inside).2]
  trivial

theorem scan_short (count : Nat) :
    ∀ action ∈ List.replicate count Action.walk ++ [Action.walk], action.Short := by
  rw [← List.replicate_succ']
  exact walks_short (count + 1)

theorem Follows.sent (pc : loop.pc = .scan .strlen 0) (holds : Holds 0 loop.buffer th.buffer)
    (ok : Bool) (pictures : Pictures { loop with pc := if ok then .recv else .left } th') :
    Follows loop th' [] := by
  obtain ⟨before, atEnd⟩ := StringFunction.end_of_string holds .strlen (by decide)
  refine .after (loop.run_scan pc before atEnd) (scan_short _) ?_
  refine .after (ServerLoop.run_send rfl) (walks_short _) ?_
  exact .one (.send ok) (by simp [ServerLoop.step]) pictures trivial

theorem Follows.compare (pc : loop.pc = .scan .strcmp 0) (holds : Holds 0 loop.buffer th.buffer)
    (pictures : Pictures
      { loop with pc := if cString th.buffer = quit then .left else .admission } th') :
    Follows loop th' [] := by
  obtain ⟨j, before, atEnd, verdict⟩ := StringFunction.end_of_strcmp holds
  refine .after (loop.run_scan pc before atEnd) (scan_short j) (.none ?_)
  simpa only [ServerLoop.afterScan, verdict] using pictures

theorem Pictures.at_pc (pictures : Pictures loop th) {pc : Server.Pc} (here : th.pc = pc) :
    loop.pc = .of pc th.block := here ▸ pictures.pc

theorem pictures_idle (pc : loop.pc = .of th.pc th.block) (block : loop.block = th.block)
    (idle : loop.pc = .recv ∨ loop.pc = .left) : Pictures loop th := by
  refine ⟨pc, block, fun notRecv notLeft => ?_⟩
  rcases idle with here | here
  · exact absurd here notRecv
  · exact absurd here notLeft

theorem Pictures.moves (pictures : Pictures loop th) (steps : th.Moves t sh answer th' sh') :
    Follows loop th' (received t [.thread t answer]) := by
  have block := pictures.block
  cases steps with
  | readsFd here =>
      have pc : loop.pc = .recv := pictures.at_pc here
      exact .none (pictures_idle pc block (Or.inl pc))
  | recvFails here =>
      have pc : loop.pc = .recv := pictures.at_pc here
      have moved : loop.step (.recv none) = some { loop with pc := .left } := by
        simp [ServerLoop.step, pc]
      exact .one (.recv none) moved (pictures_idle rfl block (Or.inr rfl)) trivial
  | @receives data here fits =>
      have pc : loop.pc = .recv := pictures.at_pc here
      have moved : loop.step (.recv (some data)) = some { loop with
          buffer := CellString.store 0 loop.buffer data
          n := data.length
          pc := .scan .strcmp 0 } := by
        simp [ServerLoop.step, pc, fits]
      refine ⟨[.recv (some data)], _, .next trivial moved (.refl _),
        ⟨rfl, block, fun _ _ => ?_⟩, ?_⟩
      · exact ⟨CellString.holds_store 0 _ _, rfl⟩
      · simp [received, Action.Short]
  | quits here told =>
      have pc : loop.pc = .scan .strcmp 0 := pictures.at_pc here
      obtain ⟨holds, -⟩ := pictures.holds (by simp [pc]) (by simp [pc])
      refine .compare pc holds ?_
      rw [if_pos told]
      exact pictures_idle rfl block (Or.inr rfl)
  | goesOn here other =>
      have pc : loop.pc = .scan .strcmp 0 := pictures.at_pc here
      have holds := pictures.holds (by simp [pc]) (by simp [pc])
      refine .compare pc holds.1 ?_
      rw [if_neg other]
      exact ⟨rfl, block, fun _ _ => holds⟩
  -- the admission is one action of the loop, between the thread's two mutex calls
  | locksAdmission here =>
      have pc : loop.pc = .admission := pictures.at_pc here
      exact .none ⟨pc, block, pictures.holds⟩
  | admits here blocked =>
      have pc : loop.pc = .admission := pictures.at_pc here
      have holds := pictures.holds (by simp [pc]) (by simp [pc])
      have moved : loop.step (.admission true) =
          some { loop with block := false, pc := .scan .printf 0 } := by
        simp [ServerLoop.step, pc]
      exact .one (.admission true) moved ⟨rfl, rfl, fun _ _ => holds⟩ trivial
  | passes here refused =>
      have pc : loop.pc = .admission := pictures.at_pc here
      have holds := pictures.holds (by simp [pc]) (by simp [pc])
      cases blocked : th.block with
      | true =>
          have moved : loop.step (.admission false) = some { loop with pc := .sendWait } := by
            simp [ServerLoop.step, pc, block, blocked]
          exact .one (.admission false) moved ⟨rfl, block.trans blocked, fun _ _ => holds⟩ trivial
      | false =>
          have moved : loop.step (.admission false) =
              some { loop with block := false, pc := .scan .printf 0 } := by
            simp [ServerLoop.step, pc, block, blocked]
          exact .one (.admission false) moved ⟨rfl, rfl, fun _ _ => holds⟩ trivial
  | unlocksToWait here blocked =>
      have pc : loop.pc = .of .unlockAdmission th.block := pictures.at_pc here
      rw [blocked] at pc
      exact .none ⟨pc, block, pictures.holds⟩
  | unlocksToEncrypt here admitted =>
      have pc : loop.pc = .of .unlockAdmission th.block := pictures.at_pc here
      rw [admitted] at pc
      exact .none ⟨pc, block, pictures.holds⟩
  | encrypts here =>
      have pc : loop.pc = .scan .printf 0 := pictures.at_pc here
      obtain ⟨holds, count⟩ := pictures.holds (by simp [pc]) (by simp [pc])
      obtain ⟨before, atEnd⟩ := StringFunction.end_of_string holds .printf (by decide)
      refine .after (loop.run_scan pc before atEnd) (scan_short _) ?_
      let printed : ServerLoop := { loop with pc := .encrypt 0 }
      have first : printed.pc = .encrypt ([] : List Byte).length := rfl
      have whole : printed.n = ([] : List Byte).length + th.buffer.length := by
        simpa [printed] using count
      -- `printf` scans the text to its end, and then each byte is encrypted in place
      obtain ⟨buffer, mapped, run⟩ := ServerLoop.run_encrypt first holds whole
      refine .after run (walks_short _) (.none ⟨rfl, block, fun _ _ => ⟨mapped, ?_⟩⟩)
      simpa using count
  | sends here =>
      have pc : loop.pc = .scan .strlen 0 := pictures.at_pc here
      obtain ⟨holds, -⟩ := pictures.holds (by simp [pc]) (by simp [pc])
      exact .sent pc holds true (pictures_idle rfl block (Or.inl rfl))
  | tellsToWait here =>
      have pc : loop.pc = .sendWait := pictures.at_pc here
      have moved : loop.step (.send true) = some { loop with pc := .recv } := by
        simp [ServerLoop.step, pc]
      exact .one (.send true) moved (pictures_idle rfl block (Or.inl rfl)) trivial
  | sendFails here =>
      rcases here with here | here
      · have pc : loop.pc = .scan .strlen 0 := pictures.at_pc here
        obtain ⟨holds, -⟩ := pictures.holds (by simp [pc]) (by simp [pc])
        exact .sent pc holds false (pictures_idle rfl block (Or.inr rfl))
      · have pc : loop.pc = .sendWait := pictures.at_pc here
        have moved : loop.step (.send false) = some { loop with pc := .left } := by
          simp [ServerLoop.step, pc]
        exact .one (.send false) moved (pictures_idle rfl block (Or.inr rfl)) trivial
  | closes here | locksRelease here | keepsNothing here | givesBack here | unlocksRelease here =>
      have pc : loop.pc = .left := pictures.at_pc here
      exact .none (pictures_idle pc block (Or.inr pc))

theorem Follows.trans {chunks more : List (List Byte)} (first : Follows loop th chunks)
    (later : ∀ next, Pictures next th → Follows next th' more) :
    Follows loop th' (chunks ++ more) := by
  obtain ⟨actions, middle, run, pictures, agree⟩ := first
  obtain ⟨actions', last, run', pictures', agree'⟩ := later middle pictures
  refine ⟨actions ++ actions', last, run.append run', pictures', ?_⟩
  rw [List.forall_mem_append, List.forall_mem_append, agree, agree']

end Thread

theorem run_follows {p q : Server.Process} {actions : List Server.Action} {t : Nat}
    {ok : Server.Process → Server.Action → Prop} (run : Run Server.step ok p actions q) :
    ∀ {th : Server.Thread} {loop : ServerLoop}, p.threads[t]? = some th → Pictures loop th →
      ∃ th', q.threads[t]? = some th' ∧ Follows loop th' (received t actions) := by
  induction run with
  | refl =>
      intro th loop found pictures
      exact ⟨th, found, .none pictures⟩
  | @next _ middle _ action rest _ moved _ ih =>
      intro th loop found pictures
      rw [Server.received_cons]
      rcases Server.step_thread found moved with ⟨answer, after, rfl, foundNext, steps⟩ |
        ⟨other, same⟩
      · have step := pictures.moves steps
        obtain ⟨-, last, -, picturesLast, -⟩ := step
        obtain ⟨th', foundLast, -⟩ := ih foundNext picturesLast
        refine ⟨th', foundLast, (pictures.moves steps).trans fun next picturesNext => ?_⟩
        obtain ⟨same, foundSame, follows⟩ := ih foundNext picturesNext
        rw [foundLast, Option.some.injEq] at foundSame
        exact foundSame ▸ follows
      · rw [Server.received_other other, List.nil_append]
        exact ih same pictures

/-- In a run of the whole service the accesses of a thread are those of a run of
its loop, and they stay inside exactly as long as `recv` gives it no more than
255 bytes at a time. -/
theorem service_accesses_inside {p q : Server.Process} {actions : List Server.Action} {t : Nat}
    {th : Server.Thread} {loop : ServerLoop}
    (run : Run Server.step (fun _ _ => True) p actions q) (found : p.threads[t]? = some th)
    (top : th.pc = .readFd ∨ th.pc = .receive) (pictures : Pictures loop th) :
    ∃ th' accesses last, q.threads[t]? = some th' ∧ Pictures last th' ∧
      Run ServerLoop.step (fun _ _ => True) loop accesses last ∧
      (Run ServerLoop.step (fun loop action => Inside (loop.touches action)) loop accesses last ↔
        ∀ chunk ∈ received t actions, chunk.length ≤ 255) := by
  obtain ⟨th', foundLast, accesses, last, loopRun, picturesLast, agree⟩ :=
    run_follows run found pictures
  have start : loop.pc = .recv := by
    rcases top with here | here
    · exact pictures.at_pc here
    · exact pictures.at_pc here
  refine ⟨th', accesses, last, foundLast, picturesLast, loopRun, ?_⟩
  rw [ServerLoop.run_inside_iff start loopRun, agree]

def ClientPc.of : ClientServer.ClientPc → ClientPc
  | .gets => .gets
  | .send => .scan .strlen 0
  | .testQuit => .scan .strcmp 0
  | .recv => .recv
  | .exited => .left

structure ClientPictures (loop : ClientLoop) (client : ClientServer.Client) : Prop where
  pc : loop.pc = .of client.pc
  content : client.pc = .send ∨ client.pc = .testQuit → Holds 0 loop.content client.content

theorem ClientLoop.run_scan {loop : ClientLoop} {f : StringFunction} {j : Nat}
    (pc : loop.pc = .scan f 0) (before : ∀ i < j, ¬ f.stops i (loop.scanned f i))
    (atEnd : f.stops j (loop.scanned f j)) :
    Run ClientLoop.step (fun _ _ => True) loop (List.replicate j .walk ++ [.walk])
      { loop with pc := loop.afterScan j f } := by
  have start : loop = { loop with pc := .scan f 0 } := by rw [← pc]
  have reads : ∀ pc, ClientLoop.scanned { loop with pc := pc } f = loop.scanned f := fun _ => by
    cases f <;> rfl
  rw [start]
  refine (Transition.run_repeat (fun i => { loop with pc := .scan f i })
    fun i below => ?_).append (.next trivial ?_ (.refl _))
  · simp [ClientLoop.step, reads, before i below]
  · cases f <;> simp [ClientLoop.step, reads, atEnd, ClientLoop.afterScan]

theorem ClientLoop.run_send {loop : ClientLoop} {len : Nat} (pc : loop.pc = .send 0 len) :
    Run ClientLoop.step (fun _ _ => True) loop (List.replicate len .walk)
      { loop with pc := .send len len } := by
  have start : loop = { loop with pc := .send 0 len } := by rw [← pc]
  rw [start]
  refine Transition.run_repeat (fun i => { loop with pc := .send i len }) fun i below => ?_
  simp [ClientLoop.step, below]

theorem ClientLoop.run_line {loop : ClientLoop} {bytes : List Byte}
    (pc : loop.pc = .scan .strlen 0) (holds : Holds 0 loop.content bytes) :
    ∃ actions, Run ClientLoop.step (fun _ _ => True) loop actions
      { loop with pc := .scan .strcmp 0 } := by
  let len := (cString bytes).length
  obtain ⟨before, atEnd⟩ := StringFunction.end_of_string holds .strlen (by decide)
  have scanned : Run ClientLoop.step (fun _ _ => True) loop _ { loop with pc := .send 0 len } :=
    loop.run_scan pc before atEnd
  have given : Run ClientLoop.step (fun _ _ => True) { loop with pc := .send 0 len } _
      { loop with pc := .send len len } := ClientLoop.run_send rfl
  have moved : ClientLoop.step { loop with pc := .send len len } (.send true) =
      some { loop with pc := .scan .strcmp 0 } := by
    simp [ClientLoop.step]
  exact ⟨_, (scanned.append given).append (.next trivial moved (.refl _))⟩

/-- Every step of the conversation is one of the client's loop too, as long as
the answers are no longer than `recv` is asked for. -/
theorem ClientPictures.moves {t : Nat} {s next : ClientServer.Pair} {action : ClientServer.Action}
    {loop : ClientLoop} (pictures : ClientPictures loop s.client)
    (steps : ClientServer.Moves t s action next)
    (fits : ∀ message ∈ s.toClient.arrived, message.length ≤ bufferSize) :
    ∃ actions last, Run ClientLoop.step (fun _ _ => True) loop actions last ∧
      ClientPictures last next.client := by
  have rests : ClientPictures loop s.client → ∃ actions last,
      Run ClientLoop.step (fun _ _ => True) loop actions last ∧ ClientPictures last s.client :=
    fun pictures => ⟨[], loop, .refl loop, pictures⟩
  have pc := pictures.pc
  cases steps with
  | @types line here =>
      rw [here] at pc
      have moved : loop.step (.gets line) = some { loop with
          content := CellString.store 0 loop.content line
          pc := .scan .strlen 0 } := by
        simp [ClientLoop.step, pc, ClientPc.of]
      exact ⟨[.gets line], _, .next trivial moved (.refl _), rfl, fun _ =>
        CellString.holds_store 0 _ _⟩
  | asks here =>
      rw [here] at pc
      have holds := pictures.content (Or.inl here)
      obtain ⟨actions, run⟩ := ClientLoop.run_line pc holds
      exact ⟨actions, _, run, rfl, fun _ => holds⟩
  | leaves here told =>
      rw [here] at pc
      have holds := pictures.content (Or.inr here)
      obtain ⟨j, before, atEnd, verdict⟩ := StringFunction.end_of_strcmp holds
      refine ⟨_, _, loop.run_scan pc before atEnd, ?_, ?_⟩
      · simp only [ClientLoop.afterScan, if_pos (verdict.mpr told), ClientPc.of]
      · rintro (other | other) <;> cases other
  | waits here other =>
      rw [here] at pc
      have holds := pictures.content (Or.inr here)
      obtain ⟨j, before, atEnd, verdict⟩ := StringFunction.end_of_strcmp holds
      refine ⟨_, _, loop.run_scan pc before atEnd, ?_, ?_⟩
      · simp only [ClientLoop.afterScan, if_neg fun same => other (verdict.mp same), ClientPc.of]
      · rintro (other | other) <;> cases other
  | @hears message toClient here taken =>
      rw [here] at pc
      -- what `recv` takes was on the way to the client, so it fits the buffer
      have arrived : message ∈ s.toClient.arrived := by
        simp only [ClientServer.Channel.take] at taken
        split at taken
        · cases taken
        · rename_i first rest queue
          rw [Option.some.injEq, Prod.mk.injEq] at taken
          rw [queue, ← taken.1]
          exact List.mem_cons_self
      have moved : loop.step (.recv (some message)) = some { loop with
          buffer := CellString.store 0 loop.buffer message
          pc := .scan .printf 0 } := by
        simp [ClientLoop.step, pc, ClientPc.of, fits message arrived]
      obtain ⟨before, atEnd⟩ := StringFunction.end_of_string
        (CellString.holds_store 0 loop.buffer message) .printf (by decide)
      refine ⟨_, _, .next trivial moved (ClientLoop.run_scan rfl before atEnd), rfl, ?_⟩
      rintro (other | other) <;> cases other
  | deliversToServer | deliversToClient => exact rests pictures
  | serves moves => cases moves <;> exact rests pictures

end AndroidKernel.Buffers
