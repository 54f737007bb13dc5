import AndroidKernel.CellString
import AndroidKernel.Transition
import AndroidKernel.Server

/-!
The loops of a service thread and of the client, one access to their arrays of
256 bytes at a time. `recv` may return as many bytes as the array has, and the
terminator is stored behind them. Where it lands inside, every string function
and the encryption stop there at the latest; so the accesses stay inside exactly
as long as no `recv` returns 256 bytes and no line for `gets` has 256.
-/

namespace AndroidKernel.Buffers

open Server (Byte bufferSize quit encryptByte)

inductive Action where
  /-- `recv`: no bytes for a negative result. -/
  | recv (data : Option (List Byte))
  | gets (line : List Byte)
  /-- The critical section of the service, and whether there is room. -/
  | admission (room : Bool)
  /-- The next byte of a string function, of the encryption or of `send`. -/
  | walk
  | send (ok : Bool)

/-- The string functions of the two loops: `strcmp(.., ":q")`, `printf` with `%s`,
and `strlen`. -/
inductive StringFunction where
  | strcmp
  | printf
  | strlen
  deriving DecidableEq

def StringFunction.stops (f : StringFunction) (i : Nat) (b : Byte) : Bool :=
  match f with
  | .strcmp => b ≠ quit.getD i 0 || b = 0
  | .printf | .strlen => b = 0

inductive ServerPc where
  /-- `recv`, and the terminator behind what it returned. -/
  | recv
  | scan (f : StringFunction) (i : Nat)
  | admission
  | encrypt (i : Nat)
  | send (i len : Nat)
  | sendWait
  | left
  deriving DecidableEq

structure ServerLoop where
  pc : ServerPc
  /-- The memory from `buffer[0]` on. -/
  buffer : Nat → Byte
  n : Nat
  block : Bool

def ServerLoop.afterScan (loop : ServerLoop) (i : Nat) : StringFunction → ServerPc
  | .strcmp => if loop.buffer i = quit.getD i 0 then .left else .admission
  | .printf => .encrypt 0
  | .strlen => .send 0 i

def ServerLoop.step (loop : ServerLoop) (action : Action) : Option ServerLoop :=
  match loop.pc, action with
  | .recv, .recv none => some { loop with pc := .left }
  | .recv, .recv (some data) =>
      if data.length ≤ bufferSize then
        some { loop with
          buffer := CellString.store 0 loop.buffer data, n := data.length, pc := .scan .strcmp 0 }
      else none
  | .scan f i, .walk =>
      if f.stops i (loop.buffer i) then some { loop with pc := loop.afterScan i f }
      else some { loop with pc := .scan f (i + 1) }
  | .admission, .admission room =>
      if loop.block && !room then some { loop with pc := .sendWait }
      else some { loop with block := false, pc := .scan .printf 0 }
  | .encrypt i, .walk =>
      if i < loop.n then
        some { loop with
          buffer := Function.update loop.buffer i (encryptByte (loop.buffer i))
          pc := .encrypt (i + 1) }
      else some { loop with pc := .scan .strlen 0 }
  | .send i len, .walk => if i < len then some { loop with pc := .send (i + 1) len } else none
  | .send i len, .send ok =>
      if i = len then some { loop with pc := if ok then .recv else .left } else none
  | .sendWait, .send ok => some { loop with pc := if ok then .recv else .left }
  | _, _ => none

def ServerLoop.touches (loop : ServerLoop) : Action → List Nat
  | .recv (some data) => List.range data.length ++ [data.length]
  | .walk =>
      match loop.pc with
      | .scan _ i => [i]
      | .encrypt i => if i < loop.n then [i] else []
      | .send i len => if i < len then [i] else []
      | _ => []
  | _ => []

inductive ClientPc where
  | gets
  | scan (f : StringFunction) (i : Nat)
  | send (i len : Nat)
  /-- `recv`, and the terminator behind what it returned. -/
  | recv
  | left
  deriving DecidableEq

structure ClientLoop where
  pc : ClientPc
  /-- The memory from `content[0]` on. -/
  content : Nat → Byte
  /-- The memory from `buffer[0]` on. -/
  buffer : Nat → Byte

def ClientLoop.scanned (loop : ClientLoop) : StringFunction → Nat → Byte
  | .printf => loop.buffer
  | .strcmp | .strlen => loop.content

def ClientLoop.afterScan (loop : ClientLoop) (i : Nat) : StringFunction → ClientPc
  | .strlen => .send 0 i
  | .strcmp => if loop.content i = quit.getD i 0 then .left else .recv
  | .printf => .gets

def ClientLoop.step (loop : ClientLoop) (action : Action) : Option ClientLoop :=
  match loop.pc, action with
  | .gets, .gets line =>
      some { loop with content := CellString.store 0 loop.content line, pc := .scan .strlen 0 }
  | .scan f i, .walk =>
      if f.stops i (loop.scanned f i) then some { loop with pc := loop.afterScan i f }
      else some { loop with pc := .scan f (i + 1) }
  | .send i len, .walk => if i < len then some { loop with pc := .send (i + 1) len } else none
  | .send i len, .send ok =>
      if i = len then some { loop with pc := if ok then .scan .strcmp 0 else .left } else none
  | .recv, .recv none => some { loop with pc := .left }
  | .recv, .recv (some data) =>
      if data.length ≤ bufferSize then
        some { loop with buffer := CellString.store 0 loop.buffer data, pc := .scan .printf 0 }
      else none
  | _, _ => none

def ClientLoop.touches (loop : ClientLoop) : Action → List Nat
  | .gets bytes | .recv (some bytes) => List.range bytes.length ++ [bytes.length]
  | .walk =>
      match loop.pc with
      | .scan _ i => [i]
      | .send i len => if i < len then [i] else []
      | _ => []
  | _ => []

def Inside (touched : List Nat) : Prop := ∀ i ∈ touched, i < bufferSize

theorem inside_nil : Inside [] := fun _ touched => absurd touched List.not_mem_nil

theorem inside_singleton {i : Nat} (inside : i < bufferSize) : Inside [i] := by
  intro k touched
  rwa [List.mem_singleton.mp touched]

theorem inside_below {i bound : Nat} (fits : bound ≤ bufferSize) :
    Inside (if i < bound then [i] else []) := by
  split
  · rename_i below
    exact inside_singleton (Nat.lt_of_lt_of_le below fits)
  · exact inside_nil

/-- What comes in leaves room for the terminator. -/
def Action.Short : Action → Prop
  | .recv (some bytes) | .gets bytes => bytes.length ≤ 255
  | _ => True

theorem inside_store (bytes : List Byte) :
    Inside (List.range bytes.length ++ [bytes.length]) ↔ bytes.length ≤ 255 := by
  constructor
  · intro inside
    have last : bytes.length < 256 := inside bytes.length (by simp)
    omega
  · intro short i touched
    rw [List.mem_append, List.mem_range, List.mem_singleton] at touched
    rw [bufferSize]
    omega

structure Stops (cells : Nat → Byte) (stop i : Nat) : Prop where
  ahead : i ≤ stop
  fits : stop < bufferSize
  zero : cells stop = 0

section Walks
variable {cells : Nat → Byte} {stop i : Nat}

theorem Stops.inside (stops : Stops cells stop i) : Inside [i] :=
  inside_singleton (Nat.lt_of_le_of_lt stops.ahead stops.fits)

theorem Stops.restart (stops : Stops cells stop i) : Stops cells stop 0 :=
  ⟨Nat.zero_le stop, stops.fits, stops.zero⟩

/-- Every string function stops at a zero. -/
theorem Stops.next (stops : Stops cells stop i) {f : StringFunction}
    (goesOn : ¬ f.stops i (cells i)) : Stops cells stop (i + 1) := by
  have ahead := stops.ahead
  have notHere : i ≠ stop := by
    rintro rfl
    cases f <;> simp [StringFunction.stops, stops.zero] at goesOn
  exact ⟨by omega, stops.fits, stops.zero⟩

theorem stops_store (cells : Nat → Byte) {bytes : List Byte} (short : bytes.length ≤ 255) :
    Stops (CellString.store 0 cells bytes) bytes.length 0 :=
  ⟨Nat.zero_le _, Nat.lt_succ_of_le short, CellString.store_nul 0 cells bytes⟩

end Walks

section Service
variable {loop next : ServerLoop} {action : Action}

def ServerLoop.Bounded (loop : ServerLoop) : Prop :=
  match loop.pc with
  | .recv | .left => True
  | .scan _ i => Stops loop.buffer loop.n i
  | .send _ len => Stops loop.buffer loop.n len
  | .admission | .encrypt _ | .sendWait => Stops loop.buffer loop.n 0

theorem ServerLoop.Bounded.inside (bounded : loop.Bounded) (short : action.Short) :
    Inside (loop.touches action) := by
  cases action with
  | recv data =>
      cases data with
      | none => exact inside_nil
      | some data => exact (inside_store data).mpr short
  | walk =>
      simp only [ServerLoop.touches]
      simp only [ServerLoop.Bounded] at bounded
      cases pc : loop.pc with
      | scan f i =>
          rw [pc] at bounded
          exact bounded.inside
      | encrypt i =>
          rw [pc] at bounded
          exact inside_below (Nat.le_of_lt bounded.fits)
      | send i len =>
          rw [pc] at bounded
          exact inside_below (Nat.le_of_lt (Nat.lt_of_le_of_lt bounded.ahead bounded.fits))
      | recv | admission | sendWait | left => exact inside_nil
  | gets | admission | send => exact inside_nil

theorem ServerLoop.Bounded.step (bounded : loop.Bounded) (short : action.Short)
    (moved : loop.step action = some next) : next.Bounded := by
  simp only [ServerLoop.Bounded] at bounded
  cases pc : loop.pc with
  | recv =>
      cases action with
      | recv data =>
          cases data with
          | none =>
              simp only [ServerLoop.step, pc, Option.some.injEq] at moved
              exact moved ▸ trivial
          | some data =>
              simp only [ServerLoop.step, pc, Option.ite_none_right_eq_some, Option.some.injEq]
                at moved
              -- a short chunk leaves room for its terminator
              exact moved.2 ▸ stops_store loop.buffer short
      | _ => simp [ServerLoop.step, pc] at moved
  | scan f i =>
      rw [pc] at bounded
      cases action with
      | walk =>
          simp only [ServerLoop.step, pc] at moved
          split_ifs at moved with stops <;> rw [Option.some.injEq] at moved <;> subst moved
          · cases f with
            | strcmp =>
                simp only [ServerLoop.Bounded, ServerLoop.afterScan]
                split_ifs
                · trivial
                · exact bounded.restart
            | printf => exact bounded.restart
            | strlen => exact bounded
          -- the cell was not the terminator, so the next one is still inside
          · exact bounded.next stops
      | _ => simp [ServerLoop.step, pc] at moved
  | admission =>
      rw [pc] at bounded
      cases action with
      | admission room =>
          simp only [ServerLoop.step, pc] at moved
          split_ifs at moved <;> rw [Option.some.injEq] at moved <;> subst moved
          · exact bounded
          · exact bounded
      | _ => simp [ServerLoop.step, pc] at moved
  | encrypt i =>
      rw [pc] at bounded
      cases action with
      | walk =>
          simp only [ServerLoop.step, pc] at moved
          split_ifs at moved with more <;> rw [Option.some.injEq] at moved <;> subst moved
          · -- the terminator is behind the bytes that are encrypted
            have kept : Function.update loop.buffer i (encryptByte (loop.buffer i)) loop.n = 0 := by
              rw [Function.update_of_ne (Nat.ne_of_gt more)]
              exact bounded.zero
            exact ⟨Nat.zero_le _, bounded.fits, kept⟩
          · exact bounded
      | _ => simp [ServerLoop.step, pc] at moved
  | send i len =>
      rw [pc] at bounded
      cases action with
      | walk =>
          simp only [ServerLoop.step, pc, Option.ite_none_right_eq_some, Option.some.injEq] at moved
          exact moved.2 ▸ bounded
      | send ok =>
          simp only [ServerLoop.step, pc, Option.ite_none_right_eq_some, Option.some.injEq] at moved
          cases ok <;> exact moved.2 ▸ trivial
      | _ => simp [ServerLoop.step, pc] at moved
  | sendWait =>
      cases action with
      | send ok =>
          simp only [ServerLoop.step, pc, Option.some.injEq] at moved
          cases ok <;> exact moved ▸ trivial
      | _ => simp [ServerLoop.step, pc] at moved
  | left => simp [ServerLoop.step, pc] at moved

theorem ServerLoop.short_of_inside (inside : Inside (loop.touches action))
    (moved : loop.step action = some next) : action.Short := by
  cases action with
  | recv data =>
      cases data with
      | none => trivial
      | some data => exact (inside_store data).mp inside
  | gets line => cases pc : loop.pc <;> simp [ServerLoop.step, pc] at moved
  | admission | walk | send => trivial

theorem ServerLoop.run_inside_iff {actions : List Action} (top : loop.pc = .recv)
    (run : Transition.Run ServerLoop.step (fun _ _ => True) loop actions next) :
    Transition.Run ServerLoop.step (fun loop action => Inside (loop.touches action)) loop actions
      next ↔ ∀ action ∈ actions, action.Short := by
  constructor
  · intro inside
    exact inside.actions_good fun _ _ _ inside moved => short_of_inside inside moved
  · intro short
    have start : loop.Bounded := by simp [ServerLoop.Bounded, top]
    exact (run.of_actions short).weaken_invariant
      (fun _ _ _ bounded short moved => bounded.step short moved)
      (fun _ _ bounded short => bounded.inside short) start

end Service

section Client
variable {loop next : ClientLoop} {action : Action}

def ClientLoop.Bounded (loop : ClientLoop) : Prop :=
  match loop.pc with
  | .gets | .recv | .left => True
  | .scan f i => ∃ stop, Stops (loop.scanned f) stop i
  | .send _ len => ∃ stop, Stops loop.content stop len

theorem ClientLoop.Bounded.inside (bounded : loop.Bounded) (short : action.Short) :
    Inside (loop.touches action) := by
  cases action with
  | recv data =>
      cases data with
      | none => exact inside_nil
      | some data => exact (inside_store data).mpr short
  | gets line => exact (inside_store line).mpr short
  | walk =>
      simp only [ClientLoop.touches]
      simp only [ClientLoop.Bounded] at bounded
      cases pc : loop.pc with
      | scan f i =>
          rw [pc] at bounded
          obtain ⟨stop, stops⟩ := bounded
          exact stops.inside
      | send i len =>
          rw [pc] at bounded
          obtain ⟨stop, stops⟩ := bounded
          exact inside_below (Nat.le_of_lt (Nat.lt_of_le_of_lt stops.ahead stops.fits))
      | gets | recv | left => exact inside_nil
  | admission | send => exact inside_nil

theorem ClientLoop.Bounded.step (bounded : loop.Bounded) (short : action.Short)
    (moved : loop.step action = some next) : next.Bounded := by
  simp only [ClientLoop.Bounded] at bounded
  cases pc : loop.pc with
  | gets =>
      cases action with
      | gets line =>
          simp only [ClientLoop.step, pc, Option.some.injEq] at moved
          -- `gets` ends a short line inside `content`, and nothing writes there afterwards
          exact moved ▸ ⟨line.length, stops_store loop.content short⟩
      | _ => simp [ClientLoop.step, pc] at moved
  | scan f i =>
      rw [pc] at bounded
      obtain ⟨stop, found⟩ := bounded
      cases action with
      | walk =>
          simp only [ClientLoop.step, pc] at moved
          split_ifs at moved with stops <;> rw [Option.some.injEq] at moved <;> subst moved
          · cases f with
            | strcmp =>
                simp only [ClientLoop.Bounded, ClientLoop.afterScan]
                split_ifs <;> trivial
            | printf => trivial
            | strlen => exact ⟨stop, found⟩
          · exact ⟨stop, found.next stops⟩
      | _ => simp [ClientLoop.step, pc] at moved
  | send i len =>
      rw [pc] at bounded
      obtain ⟨stop, found⟩ := bounded
      cases action with
      | walk =>
          simp only [ClientLoop.step, pc, Option.ite_none_right_eq_some, Option.some.injEq] at moved
          exact moved.2 ▸ ⟨stop, found⟩
      | send ok =>
          simp only [ClientLoop.step, pc, Option.ite_none_right_eq_some, Option.some.injEq] at moved
          cases ok
          · exact moved.2 ▸ trivial
          · exact moved.2 ▸ ⟨stop, found.restart⟩
      | _ => simp [ClientLoop.step, pc] at moved
  | recv =>
      cases action with
      | recv data =>
          cases data with
          | none =>
              simp only [ClientLoop.step, pc, Option.some.injEq] at moved
              exact moved ▸ trivial
          | some data =>
              simp only [ClientLoop.step, pc, Option.ite_none_right_eq_some, Option.some.injEq]
                at moved
              exact moved.2 ▸ ⟨data.length, stops_store loop.buffer short⟩
      | _ => simp [ClientLoop.step, pc] at moved
  | left => simp [ClientLoop.step, pc] at moved

theorem ClientLoop.short_of_inside (inside : Inside (loop.touches action)) : action.Short := by
  cases action with
  | recv data =>
      cases data with
      | none => trivial
      | some data => exact (inside_store data).mp inside
  | gets line => exact (inside_store line).mp inside
  | admission | walk | send => trivial

theorem ClientLoop.run_inside_iff {actions : List Action} (top : loop.pc = .gets)
    (run : Transition.Run ClientLoop.step (fun _ _ => True) loop actions next) :
    Transition.Run ClientLoop.step (fun loop action => Inside (loop.touches action)) loop actions
      next ↔ ∀ action ∈ actions, action.Short := by
  constructor
  · intro inside
    exact inside.actions_good fun _ _ _ inside _ => short_of_inside inside
  · intro short
    have start : loop.Bounded := by simp [ClientLoop.Bounded, top]
    exact (run.of_actions short).weaken_invariant
      (fun _ _ _ bounded short moved => bounded.step short moved)
      (fun _ _ bounded short => bounded.inside short) start

end Client

/-- In a run of either loop, whatever lay in the arrays before, every access is
inside them if and only if no result of `recv` and no line for `gets` is longer
than 255 bytes. -/
theorem accesses_inside_iff {server serverLast : ServerLoop} {client clientLast : ClientLoop}
    {serverActions clientActions : List Action} (serverTop : server.pc = .recv)
    (serverRun : Transition.Run ServerLoop.step (fun _ _ => True) server serverActions serverLast)
    (clientTop : client.pc = .gets)
    (clientRun : Transition.Run ClientLoop.step (fun _ _ => True) client clientActions
      clientLast) :
    (Transition.Run ServerLoop.step (fun loop action => Inside (loop.touches action)) server
        serverActions serverLast ∧
      Transition.Run ClientLoop.step (fun loop action => Inside (loop.touches action)) client
        clientActions clientLast) ↔
      (∀ action ∈ serverActions, action.Short) ∧ ∀ action ∈ clientActions, action.Short :=
  and_congr (ServerLoop.run_inside_iff serverTop serverRun)
    (ClientLoop.run_inside_iff clientTop clientRun)

def freshServer : ServerLoop := { pc := .recv, buffer := fun _ => 0, n := 0, block := true }

def freshClient : ClientLoop := { pc := .gets, content := fun _ => 0, buffer := fun _ => 0 }

def quitServer : List Action := [.recv (some quit), .walk, .walk, .walk]

def quitClient : List Action :=
  [.gets quit, .walk, .walk, .walk, .walk, .walk, .send true, .walk, .walk, .walk]

theorem quitServer_done :
    (Transition.runActions ServerLoop.step freshServer quitServer).isSome := by decide

theorem quitClient_done :
    (Transition.runActions ClientLoop.step freshClient quitClient).isSome := by decide

theorem accesses_inside_iff_quit :
    let serverLast := (Transition.runActions ServerLoop.step freshServer quitServer).get
      quitServer_done
    let clientLast := (Transition.runActions ClientLoop.step freshClient quitClient).get
      quitClient_done
    (Transition.Run ServerLoop.step (fun loop action => Inside (loop.touches action)) freshServer
        quitServer serverLast ∧
      Transition.Run ClientLoop.step (fun loop action => Inside (loop.touches action)) freshClient
        quitClient clientLast) ↔
      (∀ action ∈ quitServer, action.Short) ∧ ∀ action ∈ quitClient, action.Short :=
  accesses_inside_iff rfl (Transition.run_of_isSome _ _ quitServer_done) rfl
    (Transition.run_of_isSome _ _ quitClient_done)

def fullChunk : List Byte := List.replicate 256 97

theorem full_chunk_overruns : ¬ ∀ (server serverLast : ServerLoop) (client clientLast : ClientLoop)
    (serverActions clientActions : List Action), server.pc = .recv →
    Transition.Run ServerLoop.step (fun _ _ => True) server serverActions serverLast →
    client.pc = .gets →
    Transition.Run ClientLoop.step (fun _ _ => True) client clientActions clientLast →
    Transition.Run ServerLoop.step (fun loop action => Inside (loop.touches action)) server
        serverActions serverLast ∧
      Transition.Run ClientLoop.step (fun loop action => Inside (loop.touches action)) client
        clientActions clientLast := by
  intro always
  have asked : fullChunk.length = bufferSize := List.length_replicate
  have moved : freshServer.step (.recv (some fullChunk)) = some { freshServer with
      buffer := CellString.store 0 freshServer.buffer fullChunk
      n := fullChunk.length
      pc := .scan .strcmp 0 } := by
    simp [ServerLoop.step, freshServer, asked]
  obtain ⟨inside, -⟩ := always freshServer _ freshClient freshClient [.recv (some fullChunk)] [] rfl
    (.next trivial moved (.refl _)) rfl (.refl _)
  -- the terminator goes behind the array
  have short := (ServerLoop.run_inside_iff rfl (.next trivial moved (.refl _))).mp inside
    (.recv (some fullChunk)) List.mem_cons_self
  have atMost : fullChunk.length ≤ 255 := short
  rw [asked] at atMost
  exact absurd atMost (by decide)

end AndroidKernel.Buffers
