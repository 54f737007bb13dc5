import Mathlib.Data.List.Basic
import Mathlib.Logic.Function.Basic

/-!
The encryption service of the first project: `main` accepts connections and
starts one `server` thread for each, which answers what it receives. At most
two threads encrypt at a time; the others tell their clients to wait. A step is
one access to what the threads share or one system call, whose result the
action carries, so the steps of `main` and of the threads interleave freely.
-/

namespace AndroidKernel.Server

abbrev Byte := UInt8

def numThreadsAval : Int := 2

def bufferSize : Nat := 256

/-- The string a buffer holds once the terminator is stored behind these bytes.
With 256 of them the terminator is the byte behind the buffer, which is taken to
be part of no other variable. -/
def cString (bytes : List Byte) : List Byte := bytes.takeWhile (· ≠ 0)

def quit : List Byte := [58, 113]

def pleaseWait : List Byte :=
  [80, 108, 101, 97, 115, 101, 32, 119, 97, 105, 116, 32, 46, 46, 46, 0]

def encryptByte (b : Byte) : Byte :=
  let b := if 97 ≤ b ∧ b ≤ 122 then (b - 97 + 3) % 26 + 97 else b
  if 65 ≤ b ∧ b ≤ 90 then (b - 65 + 3) % 26 + 65 else b

inductive Pc where
  /-- `newsockfd = *((int*)sockfd)`. -/
  | readFd
  | receive
  /-- The terminator, and `strcmp(buffer, ":q")`. -/
  | testQuit
  | lockAdmission
  | admission
  | unlockAdmission
  | encrypt
  | send
  | sendWait
  /-- `close(newsockfd)`, after the loop. -/
  | close
  | lockRelease
  | release
  | unlockRelease
  | exited
  deriving DecidableEq

/-- `buffer` is the `n` bytes of the last `recv`. The last three fields are
history: what the thread sent, how many calls of `accept` there were when it was
created, and the connection behind the descriptor it read. -/
structure Thread where
  pc : Pc
  newsockfd : Int
  block : Bool
  buffer : List Byte
  replies : List Byte
  call : Nat
  obtained : Option Nat

def Thread.created (call : Nat) : Thread where
  pc := .readFd
  newsockfd := -1
  block := true
  buffer := []
  replies := []
  call := call
  obtained := none

/-- What `main` and the threads share. `conns` tells which connection a
descriptor is open on; a connection is named by the call of `accept` that
returned it. -/
structure Shared where
  connectfd : Int
  conns : Int → Option Nat
  mutex : Option Nat
  numWorkingThread : Int

inductive Answer where
  | none
  /-- `recv`: no bytes for a negative result. -/
  | recv (data : Option (List Byte))
  | send (ok : Bool)
  deriving DecidableEq

def Thread.step (t : Nat) (th : Thread) (sh : Shared) : Answer → Option (Thread × Shared)
  | .recv data =>
      match th.pc, data with
      | .receive, Option.none => some ({ th with pc := .close }, sh)
      | .receive, some data =>
          if data.length ≤ bufferSize then
            some ({ th with buffer := data, pc := .testQuit }, sh)
          else Option.none
      | _, _ => Option.none
  | .send ok =>
      match th.pc with
      | .send =>
          if ok then
            some ({ th with replies := th.replies ++ cString th.buffer, pc := .receive }, sh)
          else some ({ th with pc := .close }, sh)
      | .sendWait =>
          if ok then some ({ th with replies := th.replies ++ pleaseWait, pc := .receive }, sh)
          else some ({ th with pc := .close }, sh)
      | _ => Option.none
  | .none =>
      match th.pc with
      | .readFd =>
          some ({ th with newsockfd := sh.connectfd, obtained := sh.conns sh.connectfd,
                          pc := .receive }, sh)
      | .testQuit =>
          if cString th.buffer = quit then some ({ th with pc := .close }, sh)
          else some ({ th with pc := .lockAdmission }, sh)
      | .lockAdmission =>
          if sh.mutex = Option.none then
            some ({ th with pc := .admission }, { sh with mutex := some t })
          else Option.none
      | .admission =>
          if th.block ∧ sh.numWorkingThread < numThreadsAval then
            some ({ th with block := false, pc := .unlockAdmission },
              { sh with numWorkingThread := sh.numWorkingThread + 1 })
          else some ({ th with pc := .unlockAdmission }, sh)
      | .unlockAdmission =>
          -- the mutex is given back, and `if(!block)` decides
          some ({ th with pc := if th.block then .sendWait else .encrypt },
            { sh with mutex := Option.none })
      | .encrypt => some ({ th with buffer := th.buffer.map encryptByte, pc := .send }, sh)
      | .close =>
          some ({ th with pc := .lockRelease },
            { sh with conns := Function.update sh.conns th.newsockfd Option.none })
      | .lockRelease =>
          if sh.mutex = Option.none then
            some ({ th with pc := .release }, { sh with mutex := some t })
          else Option.none
      | .release =>
          if th.block then some ({ th with pc := .unlockRelease }, sh)
          else some ({ th with pc := .unlockRelease },
            { sh with numWorkingThread := sh.numWorkingThread - 1 })
      | .unlockRelease => some ({ th with pc := .exited }, { sh with mutex := Option.none })
      | _ => Option.none

inductive MainPc where
  | accept
  | create
  | exited
  deriving DecidableEq

structure Process where
  main : MainPc
  /-- The calls of `accept` so far. -/
  accepts : Nat
  shared : Shared
  threads : List Thread

def Process.initial : Process where
  main := .accept
  accepts := 0
  shared := { connectfd := -1, conns := fun _ => none, mutex := none, numWorkingThread := 0 }
  threads := []

/-- `connectfd = accept(..)` with its test. A descriptor that is returned was not
in use. -/
def Process.accept (p : Process) (result : Int) : Option Process :=
  if result = -1 then
    some { p with accepts := p.accepts + 1, shared := { p.shared with connectfd := -1 } }
  else if 0 ≤ result ∧ p.shared.conns result = none then
    some { p with
      main := .create
      accepts := p.accepts + 1
      shared := { p.shared with
        connectfd := result
        conns := Function.update p.shared.conns result (some (p.accepts + 1)) } }
  else none

/-- `pthread_create(&tid, NULL, server, &connectfd)` with its test, which is for
-1 only: with another error the loop goes on and there is no thread. -/
def Process.pthreadCreate (p : Process) (result : Int) : Process :=
  if result = -1 then
    { p with
      main := .exited
      shared := { p.shared with
        conns := Function.update p.shared.conns p.shared.connectfd none } }
  else if result = 0 then
    { p with main := .accept, threads := p.threads ++ [.created p.accepts] }
  else { p with main := .accept }

inductive Action where
  | accept (result : Int)
  | create (result : Int)
  | thread (t : Nat) (answer : Answer)
  deriving DecidableEq

def step (p : Process) (action : Action) : Option Process :=
  match p.main, action with
  | .accept, .accept result => p.accept result
  | .create, .create result => some (p.pthreadCreate result)
  | .accept, .thread t answer | .create, .thread t answer =>
      match p.threads[t]? with
      | none => none
      | some th =>
          match th.step t p.shared answer with
          | none => none
          | some (th, sh) => some { p with shared := sh, threads := p.threads.set t th }
  | _, _ => none

end AndroidKernel.Server
