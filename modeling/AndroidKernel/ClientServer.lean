import AndroidKernel.ReplyStream

/-!
A client on one connection of the service, with everything else the service does
around it. Message boundaries are kept and the connection does not fail. A line
that is not empty makes the thread send exactly one message, whether it is
admitted or not, so there is always one thing on the way; an empty line is not
sent at all, and both sides wait.
-/

namespace AndroidKernel.ClientServer

open Server (Byte cString quit pleaseWait)

inductive ClientPc where
  | gets
  | send
  /-- `strcmp(content, ":q")`. -/
  | testQuit
  | recv
  | exited
  deriving DecidableEq

structure Client where
  pc : ClientPc
  /-- The line that `gets` read. -/
  content : List Byte
  /-- The bytes of the last `recv`. -/
  buffer : List Byte

/-- One direction of the connection: messages on the way, and those that a
`recv` finds. -/
structure Channel where
  flight : List (List Byte)
  arrived : List (List Byte)
  deriving DecidableEq

/-- A `send` of no bytes sends nothing. -/
def Channel.put (ch : Channel) (message : List Byte) : Channel :=
  if message = [] then ch else { ch with flight := ch.flight ++ [message] }

def Channel.deliver (ch : Channel) : Option Channel :=
  match ch.flight with
  | [] => none
  | message :: rest => some { flight := rest, arrived := ch.arrived ++ [message] }

def Channel.take (ch : Channel) : Option (List Byte × Channel) :=
  match ch.arrived with
  | [] => none
  | message :: rest => some (message, { ch with arrived := rest })

def Channel.pending (ch : Channel) : List (List Byte) := ch.arrived ++ ch.flight

structure Pair where
  client : Client
  toServer : Channel
  toClient : Channel
  server : Server.Process

inductive Action where
  /-- The user types a line. -/
  | gets (line : List Byte)
  | client
  | deliverToServer
  | deliverToClient
  | server (action : Server.Action)
  deriving DecidableEq

def clientStep (s : Pair) : Option Pair :=
  match s.client.pc with
  | .send => some { s with
      toServer := s.toServer.put (cString s.client.content)
      client := { s.client with pc := .testQuit } }
  | .testQuit =>
      if cString s.client.content = quit then
        some { s with client := { s.client with pc := .exited } }
      else some { s with client := { s.client with pc := .recv } }
  | .recv =>
      match s.toClient.take with
      | none => none
      | some (message, toClient) => some { s with
          toClient := toClient
          client := { s.client with buffer := message, pc := .gets } }
  | _ => none

def outgoing (th : Server.Thread) : List Byte :=
  match th.pc with
  | .send => cString th.buffer
  | .sendWait => pleaseWait
  | _ => []

/-- A step of the service, in which the thread `t` is on the other end: its
`recv` takes what has arrived, its `send` puts a message on the way, and neither
fails. -/
def serverStep (t : Nat) (s : Pair) (action : Server.Action) : Option Pair :=
  match Server.step s.server action with
  | none => none
  | some server =>
      match action with
      | .thread u (.recv data) =>
          if u ≠ t then some { s with server := server }
          else
            match s.toServer.take with
            | none => none
            | some (message, toServer) =>
                if data = some message then
                  some { s with server := server, toServer := toServer }
                else none
      | .thread u (.send ok) =>
          if u ≠ t then some { s with server := server }
          else
            match s.server.threads[t]? with
            | none => none
            | some th =>
                if ok then
                  some { s with server := server, toClient := s.toClient.put (outgoing th) }
                else none
      | _ => some { s with server := server }

/-- `content` has room for 255 bytes and the terminator. -/
def step (t : Nat) (s : Pair) : Action → Option Pair
  | .gets line =>
      if s.client.pc = .gets ∧ line.length < 256 then
        some { s with client := { s.client with content := line, pc := .send } }
      else none
  | .client => clientStep s
  | .deliverToServer =>
      match s.toServer.deliver with
      | none => none
      | some ch => some { s with toServer := ch }
  | .deliverToClient =>
      match s.toClient.deliver with
      | none => none
      | some ch => some { s with toClient := ch }
  | .server action => serverStep t s action

inductive ServerMoves (t : Nat) (s : Pair) : Server.Action → Pair → Prop where
  | receives {message toServer server} (taken : s.toServer.take = some (message, toServer))
      (moved : Server.step s.server (.thread t (.recv (some message))) = some server) :
      ServerMoves t s (.thread t (.recv (some message)))
        { s with server := server, toServer := toServer }
  | sends {th server} (found : s.server.threads[t]? = some th)
      (moved : Server.step s.server (.thread t (.send true)) = some server) :
      ServerMoves t s (.thread t (.send true))
        { s with server := server, toClient := s.toClient.put (outgoing th) }
  | other {action server} (moved : Server.step s.server action = some server)
      (own : ∀ answer, action = .thread t answer → answer = .none) :
      ServerMoves t s action { s with server := server }

theorem serverMoves {t : Nat} {s next : Pair} {action : Server.Action}
    (moved : serverStep t s action = some next) : ServerMoves t s action next := by
  rw [serverStep] at moved
  cases stepped : Server.step s.server action with
  | none => simp [stepped] at moved
  | some server =>
      simp only [stepped] at moved
      -- only `recv` and `send` of the thread `t` touch the two channels
      cases action with
      | accept result | create result =>
          rw [Option.some.injEq] at moved
          exact moved ▸ .other stepped (by simp)
      | thread u answer =>
          cases answer with
          | none =>
              rw [Option.some.injEq] at moved
              exact moved ▸ .other stepped (by simp)
          | recv data =>
              simp only at moved
              split at moved
              · rename_i differs
                rw [Option.some.injEq] at moved
                exact moved ▸ .other stepped (by simp [differs])
              · rename_i same
                obtain rfl : u = t := not_not.mp same
                split at moved
                · cases moved
                · rename_i message toServer taken
                  rw [Option.ite_none_right_eq_some, Option.some.injEq] at moved
                  obtain ⟨rfl, rfl⟩ := moved
                  exact .receives taken stepped
          | send ok =>
              simp only at moved
              split at moved
              · rename_i differs
                rw [Option.some.injEq] at moved
                exact moved ▸ .other stepped (by simp [differs])
              · rename_i same
                obtain rfl : u = t := not_not.mp same
                split at moved
                · cases moved
                · rename_i th found
                  rw [Option.ite_none_right_eq_some, Option.some.injEq] at moved
                  obtain ⟨rfl, rfl⟩ := moved
                  exact .sends found stepped

inductive Moves (t : Nat) (s : Pair) : Action → Pair → Prop where
  | types {line} (pc : s.client.pc = .gets) :
      Moves t s (.gets line) { s with client := { s.client with content := line, pc := .send } }
  | asks (pc : s.client.pc = .send) : Moves t s .client
      { s with
        toServer := s.toServer.put (cString s.client.content)
        client := { s.client with pc := .testQuit } }
  | leaves (pc : s.client.pc = .testQuit) (told : cString s.client.content = quit) :
      Moves t s .client { s with client := { s.client with pc := .exited } }
  | waits (pc : s.client.pc = .testQuit) (other : cString s.client.content ≠ quit) :
      Moves t s .client { s with client := { s.client with pc := .recv } }
  | hears {message toClient} (pc : s.client.pc = .recv)
      (taken : s.toClient.take = some (message, toClient)) : Moves t s .client
      { s with toClient := toClient, client := { s.client with buffer := message, pc := .gets } }
  | deliversToServer {ch} (delivered : s.toServer.deliver = some ch) :
      Moves t s .deliverToServer { s with toServer := ch }
  | deliversToClient {ch} (delivered : s.toClient.deliver = some ch) :
      Moves t s .deliverToClient { s with toClient := ch }
  | serves {action next} (moves : ServerMoves t s action next) : Moves t s (.server action) next

theorem moves {t : Nat} {s next : Pair} {action : Action} (moved : step t s action = some next) :
    Moves t s action next := by
  cases action with
  | gets line =>
      simp only [step, Option.ite_none_right_eq_some, Option.some.injEq] at moved
      obtain ⟨⟨pc, -⟩, rfl⟩ := moved
      exact .types pc
  | client =>
      simp only [step, clientStep] at moved
      split at moved
      · rename_i pc
        rw [Option.some.injEq] at moved
        exact moved ▸ .asks pc
      · rename_i pc
        split at moved <;> rename_i test <;> rw [Option.some.injEq] at moved
        · exact moved ▸ .leaves pc test
        · exact moved ▸ .waits pc test
      · rename_i pc
        split at moved
        · cases moved
        · rename_i message toClient taken
          rw [Option.some.injEq] at moved
          exact moved ▸ .hears pc taken
      · cases moved
  | deliverToServer =>
      simp only [step] at moved
      split at moved
      · cases moved
      · rename_i ch delivered
        rw [Option.some.injEq] at moved
        exact moved ▸ .deliversToServer delivered
  | deliverToClient =>
      simp only [step] at moved
      split at moved
      · cases moved
      · rename_i ch delivered
        rw [Option.some.injEq] at moved
        exact moved ▸ .deliversToClient delivered
  | server action => exact .serves (serverMoves moved)

theorem cString_noNul (bytes : List Byte) : 0 ∉ cString bytes := by
  intro inside
  simpa using List.mem_takeWhile_imp inside

def Resting (th : Server.Thread) : Prop := th.pc = .readFd ∨ th.pc = .receive

def Asking (client : Client) : Prop :=
  client.pc = .testQuit ∨ client.pc = .recv ∧ cString client.content ≠ quit

inductive Working (message : List Byte) (th : Server.Thread) : Prop where
  | tests (pc : th.pc = .testQuit) (buffer : th.buffer = message)
  | decides (pc : th.pc = .lockAdmission ∨ th.pc = .admission ∨ th.pc = .unlockAdmission ∨
      th.pc = .encrypt) (buffer : th.buffer = message) (other : message ≠ quit)
  | sends (pc : th.pc = .send) (buffer : th.buffer = message.map Server.encryptByte)
      (other : message ≠ quit)
  | refuses (pc : th.pc = .sendWait) (other : message ≠ quit)

inductive Talk (client : Client) :
    List (List Byte) → List (List Byte) → Server.Thread → Prop where
  | idle {th} (pc : client.pc = .gets ∨ client.pc = .send) (rests : Resting th) :
      Talk client [] [] th
  | silent {th} (asks : Asking client) (empty : cString client.content = []) (rests : Resting th) :
      Talk client [] [] th
  | asked {th} (asks : Asking client) (full : cString client.content ≠ []) (rests : Resting th) :
      Talk client [cString client.content] [] th
  | working {th} (asks : Asking client) (full : cString client.content ≠ [])
      (works : Working (cString client.content) th) : Talk client [] [] th
  | answered {th message} (asks : Asking client) (full : cString client.content ≠ [])
      (other : cString client.content ≠ quit) (rests : th.pc = .receive) :
      Talk client [] [message] th
  | parted {th} (pc : client.pc = .testQuit) (told : cString client.content = quit)
      (gone : th.Left) : Talk client [] [] th
  | finished {th toServer toClient} (pc : client.pc = .exited) : Talk client toServer toClient th

section Steps
variable {t : Nat} {client : Client} {toServer toClient : List (List Byte)}
  {th th' : Server.Thread} {sh sh' : Server.Shared} {answer : Server.Answer}

theorem Resting.moves (rests : Resting th) (steps : th.Moves t sh .none th' sh') :
    Resting th' := by
  cases steps with
  | readsFd => exact Or.inr rfl
  | _ => simp_all [Resting]

theorem left_moves (gone : th.Left) (steps : th.Moves t sh .none th' sh') : th'.Left := by
  cases steps with
  | closes | locksRelease | keepsNothing | givesBack | unlocksRelease =>
      simp [Server.Thread.Left]
  | _ => simp_all [Server.Thread.Left]

/-- The thread works on, or the message was `:q` and it leaves its loop. -/
theorem Working.moves {message : List Byte} (noNul : 0 ∉ message) (works : Working message th)
    (steps : th.Moves t sh .none th' sh') : Working message th' ∨ message = quit ∧ th'.Left := by
  cases works with
  | tests pc buffer =>
      have whole : cString th.buffer = message := by rw [buffer, Server.cString_of_noNul noNul]
      cases steps with
      | quits _ told => exact Or.inr ⟨whole.symm.trans told, Or.inl rfl⟩
      | goesOn _ other =>
          exact Or.inl (.decides (Or.inl rfl) buffer fun told => other (whole.trans told))
      | _ => simp_all
  | decides pc buffer other =>
      cases steps with
      | locksAdmission => exact Or.inl (.decides (Or.inr (Or.inl rfl)) buffer other)
      | admits | passes => exact Or.inl (.decides (Or.inr (Or.inr (Or.inl rfl))) buffer other)
      | unlocksToWait => exact Or.inl (.refuses rfl other)
      | unlocksToEncrypt => exact Or.inl (.decides (Or.inr (Or.inr (Or.inr rfl))) buffer other)
      | encrypts => exact Or.inl (.sends rfl (by rw [buffer]) other)
      | _ => simp_all
  | sends pc buffer other => cases steps <;> simp_all
  | refuses pc other => cases steps <;> simp_all

theorem Working.outgoing_ne_nil {message : List Byte} (noNul : 0 ∉ message) (full : message ≠ [])
    (works : Working message th) (steps : th.Moves t sh (.send true) th' sh') :
    outgoing th ≠ [] ∧ message ≠ quit := by
  cases works with
  | sends pc buffer other =>
      refine ⟨?_, other⟩
      rw [outgoing, pc, buffer]
      simpa [Server.cString_encrypt noNul] using full
  | refuses pc other =>
      refine ⟨?_, other⟩
      simp [outgoing, pc, pleaseWait]
  | tests pc => cases steps <;> simp_all
  | decides pc => cases steps <;> simp_all

theorem sends_rests (steps : th.Moves t sh (.send true) th' sh') : th'.pc = .receive := by
  cases steps <;> rfl

theorem Talk.threadMoves (talk : Talk client toServer toClient th)
    (steps : th.Moves t sh .none th' sh') : Talk client toServer toClient th' := by
  cases talk with
  | idle pc rests => exact .idle pc (rests.moves steps)
  | silent asks empty rests => exact .silent asks empty (rests.moves steps)
  | asked asks full rests => exact .asked asks full (rests.moves steps)
  | working asks full works =>
      rcases works.moves (cString_noNul _) steps with goes | ⟨told, gone⟩
      · exact .working asks full goes
      · rcases asks with pc | ⟨-, other⟩
        · exact .parted pc told gone
        · exact absurd told other
  | answered asks full other rests => cases steps <;> simp_all
  | parted pc told gone => exact .parted pc told (left_moves gone steps)
  | finished pc => exact .finished pc

theorem Talk.threadReceives {message : List Byte} {rest : List (List Byte)}
    (talk : Talk client (message :: rest) toClient th)
    (steps : th.Moves t sh (.recv (some message)) th' sh') : Talk client rest toClient th' := by
  cases talk with
  | asked asks full rests =>
      cases steps with
      | receives => exact .working asks full (.tests rfl rfl)
  | finished pc => exact .finished pc

theorem Talk.threadSends (talk : Talk client toServer toClient th)
    (steps : th.Moves t sh (.send true) th' sh') :
    Talk client toServer
      (if outgoing th = [] then toClient else toClient ++ [outgoing th]) th' := by
  cases talk with
  | working asks full works =>
      obtain ⟨something, other⟩ := works.outgoing_ne_nil (cString_noNul _) full steps
      rw [if_neg something]
      exact .answered asks full other (sends_rests steps)
  | finished pc => exact .finished pc
  | idle _ rests | silent _ _ rests | asked _ _ rests => cases steps <;> simp_all [Resting]
  | answered _ _ _ rests => cases steps <;> simp_all
  | parted _ _ gone => cases steps <;> simp_all [Server.Thread.Left]

end Steps

theorem pending_put (ch : Channel) (message : List Byte) :
    (ch.put message).pending = if message = [] then ch.pending else ch.pending ++ [message] := by
  rw [Channel.put]
  split
  · rfl
  · simp [Channel.pending]

theorem pending_deliver {ch after : Channel} (moved : ch.deliver = some after) :
    after.pending = ch.pending := by
  rw [Channel.deliver] at moved
  split at moved
  · cases moved
  · rename_i message rest flight
    rw [Option.some.injEq] at moved
    subst moved
    simp [Channel.pending, flight]

theorem pending_take {ch after : Channel} {message : List Byte}
    (moved : ch.take = some (message, after)) : ch.pending = message :: after.pending := by
  rw [Channel.take] at moved
  split at moved
  · cases moved
  · rename_i first rest arrived
    simp only [Option.some.injEq, Prod.mk.injEq] at moved
    obtain ⟨rfl, rfl⟩ := moved
    simp [Channel.pending, arrived]

def Talking (t : Nat) (s : Pair) : Prop :=
  ∃ th, s.server.threads[t]? = some th ∧
    Talk s.client s.toServer.pending s.toClient.pending th

theorem ServerMoves.talking {t : Nat} {s next : Pair} {action : Server.Action}
    (moves : ServerMoves t s action next) (talking : Talking t s) : Talking t next := by
  obtain ⟨th, found, talk⟩ := talking
  cases moves with
  | receives taken stepped =>
      rcases Server.step_thread found stepped with ⟨_, th', same, found', steps⟩ | ⟨other, -⟩
      · cases same
        rw [pending_take taken] at talk
        exact ⟨th', found', talk.threadReceives steps⟩
      · exact absurd rfl (other _)
  | sends here stepped =>
      rw [found, Option.some.injEq] at here
      subst here
      rcases Server.step_thread found stepped with ⟨_, th', same, found', steps⟩ | ⟨other, -⟩
      · cases same
        refine ⟨th', found', ?_⟩
        simp only [pending_put]
        exact talk.threadSends steps
      · exact absurd rfl (other _)
  | other stepped own =>
      rcases Server.step_thread found stepped with ⟨answer, th', same, found', steps⟩ | ⟨-, found'⟩
      · obtain rfl := own answer same
        exact ⟨th', found', talk.threadMoves steps⟩
      · exact ⟨th, found', talk⟩

theorem step_talking {t : Nat} {s next : Pair} {action : Action} (talking : Talking t s)
    (moved : step t s action = some next) : Talking t next := by
  have stays := talking
  obtain ⟨th, found, talk⟩ := talking
  -- what is on the way is all that `Talk` sees of the connection
  cases moves moved with
  | types pc =>
      refine ⟨th, found, ?_⟩
      simp only
      generalize s.toServer.pending = toServer at talk
      generalize s.toClient.pending = toClient at talk
      cases talk with
      | idle _ rests => exact .idle (Or.inr rfl) rests
      | silent asks | asked asks | working asks | answered asks => simp [Asking, pc] at asks
      | parted other | finished other => simp [pc] at other
  | asks pc =>
      refine ⟨th, found, ?_⟩
      simp only [pending_put]
      generalize s.toServer.pending = toServer at talk
      generalize s.toClient.pending = toClient at talk
      cases talk with
      | idle _ rests =>
          split
          · rename_i empty
            exact .silent (Or.inl rfl) empty rests
          · rename_i full
            exact .asked (Or.inl rfl) full rests
      | silent asks | asked asks | working asks | answered asks => simp [Asking, pc] at asks
      | parted other | finished other => simp [pc] at other
  | leaves pc told => exact ⟨th, found, .finished rfl⟩
  | waits pc other =>
      refine ⟨th, found, ?_⟩
      have asks : Asking { s.client with pc := .recv } := Or.inr ⟨rfl, other⟩
      simp only
      generalize s.toServer.pending = toServer at talk
      generalize s.toClient.pending = toClient at talk
      cases talk with
      | idle wrong => simp [pc] at wrong
      | silent _ empty rests => exact .silent asks empty rests
      | asked _ full rests => exact .asked asks full rests
      | working _ full works => exact .working asks full works
      | answered _ full _ rests => exact .answered asks full other rests
      | parted _ told => exact absurd told other
      | finished wrong => simp [pc] at wrong
  | @hears message toClient pc taken =>
      refine ⟨th, found, ?_⟩
      rw [pending_take taken] at talk
      simp only
      generalize s.toServer.pending = toServer at talk
      generalize toClient.pending = rest at talk
      cases talk with
      -- a message that waits for the client is an answer, after which the server rests
      | answered _ _ _ rests => exact .idle (Or.inl rfl) (Or.inr rests)
      | finished wrong => simp [pc] at wrong
  | deliversToServer delivered =>
      exact ⟨th, found, by simpa only [pending_deliver delivered] using talk⟩
  | deliversToClient delivered =>
      exact ⟨th, found, by simpa only [pending_deliver delivered] using talk⟩
  | serves moves => exact moves.talking stays

structure Start (t : Nat) (s : Pair) : Prop where
  client : s.client.pc = .gets
  toServer : s.toServer.pending = []
  toClient : s.toClient.pending = []
  thread : ∃ th, s.server.threads[t]? = some th ∧ Resting th

theorem Start.talking {t : Nat} {s : Pair} (start : Start t s) : Talking t s := by
  obtain ⟨th, found, rests⟩ := start.thread
  refine ⟨th, found, ?_⟩
  rw [start.toServer, start.toClient]
  exact .idle (Or.inl start.client) rests

theorem run_talking {t : Nat} {start s : Pair} {actions : List Action}
    {ok : Pair → Action → Prop} (begins : Start t start)
    (run : Transition.Run (step t) ok start actions s) : Talking t s :=
  run.invariant (fun _ _ _ talking _ moved => step_talking talking moved) begins.talking

/-- Both sides are blocked in `recv`, and nothing is on the way. -/
structure Deadlocked (t : Nat) (s : Pair) : Prop where
  client : s.client.pc = .recv
  thread : ∃ th, s.server.threads[t]? = some th ∧ th.pc = .receive
  toServer : s.toServer = { flight := [], arrived := [] }
  toClient : s.toClient = { flight := [], arrived := [] }

theorem pending_eq_nil {ch : Channel} (empty : ch.pending = []) :
    ch = { flight := [], arrived := [] } := by
  obtain ⟨arrived, flight⟩ := List.append_eq_nil_iff.mp empty
  cases ch
  simp_all

theorem deadlocked_iff {t : Nat} {s : Pair} (talking : Talking t s) :
    Deadlocked t s ↔ s.client.pc = .recv ∧ cString s.client.content = [] ∧
      ∃ th, s.server.threads[t]? = some th ∧ th.pc = .receive := by
  obtain ⟨th, found, talk⟩ := talking
  constructor
  · intro dead
    obtain ⟨other, found', waits⟩ := dead.thread
    rw [found, Option.some.injEq] at found'
    subst found'
    refine ⟨dead.client, ?_, th, found, waits⟩
    have client := dead.client
    rw [dead.toServer, dead.toClient] at talk
    cases talk with
    | silent _ empty => exact empty
    | idle pc => simp [client] at pc
    | working _ _ works =>
        cases works with
        | tests pc | sends pc | refuses pc => simp [waits] at pc
        | decides pc => simp [waits] at pc
    | parted pc | finished pc => simp [client] at pc
  · rintro ⟨client, empty, other, found', waits⟩
    rw [found, Option.some.injEq] at found'
    subst found'
    have nothing : s.toServer.pending = [] ∧ s.toClient.pending = [] := by
      generalize s.toServer.pending = toServer at talk ⊢
      generalize s.toClient.pending = toClient at talk ⊢
      cases talk with
      | idle | silent | working | parted => exact ⟨rfl, rfl⟩
      | asked _ full => exact absurd empty full
      | answered _ full => exact absurd empty full
      | finished pc => simp [client] at pc
    exact ⟨client, ⟨th, found, waits⟩, pending_eq_nil nothing.1, pending_eq_nil nothing.2⟩

def Speaks (_ : Pair) : Action → Prop
  | .gets line => cString line ≠ []
  | _ => True

instance (s : Pair) (action : Action) : Decidable (Speaks s action) := by
  unfold Speaks
  split <;> infer_instance

def Spoken (s : Pair) : Prop := s.client.pc ≠ .gets → cString s.client.content ≠ []

theorem step_content {t : Nat} {s next : Pair} {action : Action}
    (moved : step t s action = some next) :
    (∃ line, action = .gets line ∧ next.client.content = line) ∨
      next.client.content = s.client.content ∧
        (next.client.pc ≠ .gets → s.client.pc ≠ .gets) := by
  cases moves moved with
  | @types line => exact Or.inl ⟨line, rfl, rfl⟩
  | asks pc | leaves pc | waits pc | hears pc => exact Or.inr ⟨rfl, fun _ => by simp [pc]⟩
  | deliversToServer | deliversToClient => exact Or.inr ⟨rfl, id⟩
  | serves moves =>
      cases moves with
      | receives | sends | other => exact Or.inr ⟨rfl, id⟩

theorem step_spoken {t : Nat} {s next : Pair} {action : Action} (spoken : Spoken s)
    (speaks : Speaks s action) (moved : step t s action = some next) : Spoken next := by
  intro reads
  rcases step_content moved with ⟨line, rfl, content⟩ | ⟨content, before⟩
  · exact content ▸ speaks
  · exact content ▸ spoken (before reads)

/-- In every run of a client and the service, both sides wait for each other with
nothing on the way exactly when the client waits for an answer to an empty line
and the thread for a message; so never, if no empty line is typed. -/
theorem no_deadlock {t : Nat} {start s : Pair} {actions : List Action} (begins : Start t start)
    (run : Transition.Run (step t) (fun _ _ => True) start actions s) :
    (Deadlocked t s ↔ s.client.pc = .recv ∧ cString s.client.content = [] ∧
        ∃ th, s.server.threads[t]? = some th ∧ th.pc = .receive) ∧
      (Transition.Run (step t) Speaks start actions s → ¬ Deadlocked t s) := by
  have exact_when := deadlocked_iff (run_talking begins run)
  refine ⟨exact_when, ?_⟩
  intro speaks dead
  have fresh : Spoken start := fun reads => absurd begins.client reads
  have spoken : Spoken s := speaks.invariant
    (fun _ _ _ spoken speaks moved => step_spoken spoken speaks moved) fresh
  obtain ⟨reads, empty, -⟩ := exact_when.mp dead
  exact spoken (by simp [reads]) empty

theorem created_done : (Transition.runActions Server.step .initial
    [.accept 4, .create 0]).isSome := by decide

def fresh : Pair where
  client := { pc := .gets, content := [], buffer := [] }
  toServer := { flight := [], arrived := [] }
  toClient := { flight := [], arrived := [] }
  server := (Transition.runActions Server.step .initial [.accept 4, .create 0]).get created_done

theorem fresh_start : Start 0 fresh where
  client := rfl
  toServer := rfl
  toClient := rfl
  thread := ⟨Server.Thread.created 1, rfl, Or.inl rfl⟩

def hi : List Action :=
  [.gets [104, 105], .client, .deliverToServer, .client] ++
    [.none, .recv (some [104, 105]), .none, .none, .none, .none, .none, .send true].map
      (fun answer => .server (.thread 0 answer)) ++
    [.deliverToClient, .client]

theorem hi_done : (Transition.runActions (step 0) fresh hi).isSome := by decide

theorem no_deadlock_hi :
    ¬ Deadlocked 0 ((Transition.runActions (step 0) fresh hi).get hi_done) :=
  (no_deadlock fresh_start (Transition.run_of_isSome _ _ hi_done)).2
    ((Transition.run_of_isSome _ _ hi_done).of_allAllowed (by decide))

def emptyLine : List Action := [.gets [], .client, .client, .server (.thread 0 .none)]

theorem emptyLine_done : (Transition.runActions (step 0) fresh emptyLine).isSome := by decide

/-- Nothing is sent for the empty line, and the client waits for an answer. -/
theorem empty_line_deadlocks :
    ¬ ∀ (t : Nat) (start s : Pair) (actions : List Action), Start t start →
      Transition.Run (step t) (fun _ _ => True) start actions s → ¬ Deadlocked t s := by
  intro never
  refine never 0 fresh _ emptyLine fresh_start (Transition.run_of_isSome _ _ emptyLine_done) ?_
  exact ⟨rfl, ⟨_, rfl, rfl⟩, rfl, rfl⟩

end AndroidKernel.ClientServer
