import Mathlib.Data.BitVec
import Mathlib.Logic.Function.Basic

/-!
The `ptree` module of the first project: the recursive `DFS`, which writes into
a global buffer at a global cursor, and the system call that copies the buffer
out. The links of the process tree are the `struct list_head`s of the kernel, so
a list of children is a ring through the head in the parent and the `sibling`
fields of the children. A write beyond the buffer and a string without an end
are `none`, as is a walk that runs out of fuel.
-/

namespace AndroidKernel.Ptree

abbrev Addr := Nat

def null : Addr := 0

structure CharArray (size : Nat) where
  bytes : List UInt8
  size_eq : bytes.length = size

def CharArray.str {size : Nat} (array : CharArray size) : List UInt8 :=
  array.bytes.takeWhile (· ≠ 0)

def taskCommLen : Nat := 16

/-- What `DFS` reads of a task. The kernel keeps `comm` NUL-terminated, and
`long` has the 32 bits of `uid_t` on this machine. -/
structure Task where
  pid : Int
  state : Int
  uid : BitVec 32
  comm : CharArray taskCommLen
  comm_ends : 0 ∈ comm.bytes

inductive ListHead where
  | children (task : Addr)
  | sibling (task : Addr)
  deriving DecidableEq

structure Memory where
  task : Addr → Task
  next : ListHead → ListHead
  /-- `&init_task`. -/
  initTask : Addr
  init_ne_null : initTask ≠ null

def listEmpty (mem : Memory) (head : ListHead) : Bool := mem.next head = head

/-- `list_entry(item, struct task_struct, sibling)`. The field `children` lies
one `list_head` before `sibling`, so from the head of a list the macro makes an
address eight bytes before the task. -/
def listEntry : ListHead → Addr
  | .sibling task => task
  | .children task => task - 8

structure Prinfo where
  parentPid : Int
  pid : Int
  firstChildPid : Int
  nextSiblingPid : Int
  state : Int
  uid : BitVec 32
  comm : CharArray 64
  level : Nat

def maxNumProc : Nat := 10000

structure Globals where
  nrTmp : Nat
  bufTmp : Nat → Prinfo

/-- What `strncpy` writes: always `count` bytes. -/
def strncpy (count : Nat) (src : List UInt8) : List UInt8 :=
  (src.takeWhile (· ≠ 0) ++ List.replicate count 0).take count

/-- `get_task_comm`; the bytes after the first 16 stay. -/
def getTaskComm (dst : CharArray 64) (task : Task) : CharArray 64 where
  bytes := strncpy taskCommLen task.comm.bytes ++ dst.bytes.drop taskCommLen
  size_eq := by
    have size := dst.size_eq
    simp [strncpy, taskCommLen, size]

def strcpy (dst src : CharArray 64) : Option (CharArray 64) :=
  if ends : src.str.length < 64 then
    some
      { bytes := src.str ++ 0 :: dst.bytes.drop (src.str.length + 1)
        size_eq := by
          have size := dst.size_eq
          simp only [List.length_append, List.length_cons, List.length_drop, size]
          omega }
  else none

def nextPid (mem : Memory) (head : ListHead) : Int :=
  if listEmpty mem head then 0
  else
    let entry := listEntry (mem.next head)
    -- the empty list was caught above; the address is tested all the same
    if entry ≠ null then (mem.task entry).pid else 0

/-- The fields `DFS` fills in; `parent_pid` is not one of them. -/
def fill (mem : Memory) (entry : Addr) (level : Nat) (old : Prinfo) : Prinfo :=
  { old with
    level := level
    pid := (mem.task entry).pid
    state := (mem.task entry).state
    uid := (mem.task entry).uid
    comm := getTaskComm old.comm (mem.task entry)
    firstChildPid := nextPid mem (.children entry)
    nextSiblingPid := nextPid mem (.sibling entry) }

/-- The record write, `none` beyond the end of `buf_tmp`. -/
def record (mem : Memory) (entry : Addr) (level : Nat) (g : Globals) : Option Globals :=
  if g.nrTmp < maxNumProc then
    some { g with
      bufTmp := Function.update g.bufTmp g.nrTmp (fill mem entry level (g.bufTmp g.nrTmp)) }
  else none

mutual

def dfs (mem : Memory) : Nat → Addr → Nat → Globals → Option Globals
  | 0, _, _, _ => none
  | fuel + 1, entry, level, g =>
      if entry = null then some g
      else
        match record mem entry level g with
        | none => none
        | some g =>
            -- the cursor moves only after the record is complete
            let g := { g with nrTmp := g.nrTmp + 1 }
            if listEmpty mem (.children entry) then some g
            else walk mem fuel (.children entry) (mem.next (.children entry)) level g

def walk (mem : Memory) : Nat → ListHead → ListHead → Nat → Globals → Option Globals
  | 0, _, _, _, _ => none
  | fuel + 1, head, item, level, g =>
      if item = head then some g
      else
        match dfs mem fuel (listEntry item) (level + 1) g with
        | none => none
        | some g => walk mem fuel head (mem.next item) level g

end

structure UserMemory where
  nr : Nat
  buf : Nat → Prinfo

def copyRecord (g : Globals) (i : Nat) (user : UserMemory) : Option UserMemory :=
  -- the bytes behind the terminator stay the caller's
  match strcpy (user.buf i).comm (g.bufTmp i).comm with
  | none => none
  | some comm => some { user with
      buf := Function.update user.buf i { g.bufTmp i with comm := comm } }

def copyLoop (g : Globals) : Nat → Nat → UserMemory → Option UserMemory
  | 0, _, user => some user
  | left + 1, i, user =>
      match copyRecord g i user with
      | none => none
      | some user => copyLoop g left (i + 1) user

structure PtreeResult where
  ret : Int
  globals : Globals
  user : UserMemory

def ptree (mem : Memory) (fuel : Nat) (g : Globals) (user : UserMemory) : Option PtreeResult :=
  match dfs mem fuel mem.initTask 0 { g with nrTmp := 0 } with
  | none => none
  | some g =>
      match copyLoop g g.nrTmp 0 { user with nr := g.nrTmp } with
      | none => none
      | some user => some { ret := 0, globals := g, user := user }

end AndroidKernel.Ptree
