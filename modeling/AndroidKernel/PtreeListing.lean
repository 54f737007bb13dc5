import Mathlib.Data.List.TakeWhile
import AndroidKernel.PtreeStores

/-!
`ptree` returns the pre-order listing of the process tree. `DFS` writes the
listing of what it walks behind what is written already, and the copy loop
copies it out record by record.
-/

namespace AndroidKernel.Ptree

structure Describes (mem : Memory) (visit : Visit) (info : Prinfo) : Prop where
  pid : info.pid = (mem.task visit.task).pid
  state : info.state = (mem.task visit.task).state
  uid : info.uid = (mem.task visit.task).uid
  comm : info.comm.str = (mem.task visit.task).comm.str
  level : info.level = visit.level
  firstChildPid : info.firstChildPid =
    match visit.children with
    | [] => 0
    | child :: _ => (mem.task child).pid

theorem takeWhile_terminated (text tail : List UInt8) (plain : ∀ byte ∈ text, byte ≠ 0) :
    (text ++ 0 :: tail).takeWhile (· ≠ 0) = text := by
  rw [List.takeWhile_append_of_pos fun byte member => by simpa using plain byte member]
  simp

theorem str_plain {size : Nat} (array : CharArray size) : ∀ byte ∈ array.str, byte ≠ 0 := by
  intro byte member
  simpa using List.mem_takeWhile_imp member

theorem str_short {size : Nat} (array : CharArray size) (ends : 0 ∈ array.bytes) :
    array.str.length < size := by
  have prefix' : array.str <+: array.bytes := List.takeWhile_prefix _
  have le := prefix'.length_le
  rw [array.size_eq] at le
  rcases Nat.lt_or_eq_of_le le with short | full
  · exact short
  · -- a string as long as the array would be all of it, NUL included
    have all : array.str = array.bytes := prefix'.eq_of_length (full.trans array.size_eq.symm)
    exact absurd rfl (str_plain array 0 (all ▸ ends))

theorem getTaskComm_str (dst : CharArray 64) (task : Task) :
    (getTaskComm dst task).str = task.comm.str := by
  have short := str_short task.comm task.comm_ends
  obtain ⟨gap, room⟩ := Nat.exists_eq_add_of_lt short
  have copied : strncpy taskCommLen task.comm.bytes =
      task.comm.str ++ 0 :: List.replicate gap 0 := by
    have whole : (task.comm.str ++ List.replicate taskCommLen 0).take taskCommLen =
        task.comm.str ++ List.replicate (gap + 1) 0 := by
      rw [List.take_append, List.take_of_length_le (by omega), List.take_replicate]
      congr 2
      omega
    exact whole
  have bytes : (getTaskComm dst task).bytes =
      task.comm.str ++ 0 :: (List.replicate gap 0 ++ dst.bytes.drop taskCommLen) := by
    simp [getTaskComm, copied]
  rw [CharArray.str, bytes]
  exact takeWhile_terminated _ _ (str_plain task.comm)

theorem strcpy_some (dst src : CharArray 64) (short : src.str.length < 64) :
    ∃ copied, strcpy dst src = some copied ∧ copied.str = src.str := by
  rw [strcpy, dif_pos short]
  exact ⟨_, rfl, takeWhile_terminated _ _ (str_plain src)⟩

theorem nextPid_children {mem : Memory} {task : Addr} {kids : Forest}
    (inMem : kids.InMemory mem task (mem.next (.children task))) :
    nextPid mem (.children task) =
      match kids.roots with
      | [] => 0
      | child :: _ => (mem.task child).pid := by
  cases kids with
  | nil =>
      have empty : mem.next (.children task) = .children task := inMem
      simp [nextPid, listEmpty, empty, Forest.roots]
  | cons child below rest =>
      obtain ⟨first, real, -, -⟩ := inMem
      simp [nextPid, listEmpty, first, listEntry, real, Forest.roots]

theorem fill_describes {mem : Memory} {task : Addr} {kids : Forest}
    (inMem : kids.InMemory mem task (mem.next (.children task))) (level : Nat)
    (old : Prinfo) : Describes mem ⟨task, level, kids.roots⟩ (fill mem task level old) where
  pid := rfl
  state := rfl
  uid := rfl
  comm := getTaskComm_str old.comm (mem.task task)
  level := rfl
  firstChildPid := nextPid_children inMem

structure Writes (mem : Memory) (visits : List Visit) (before after : Globals) : Prop where
  cursor : after.nrTmp = before.nrTmp + visits.length
  kept : ∀ i < before.nrTmp, after.bufTmp i = before.bufTmp i
  written : ∀ i visit, visits[i]? = some visit →
    Describes mem visit (after.bufTmp (before.nrTmp + i))

theorem Forest.InMemory.visited {mem : Memory} {forest : Forest} {owner : Addr} {item : ListHead}
    (inMem : forest.InMemory mem owner item) (level : Nat) : ∀ visit ∈ forest.listing level,
      ∃ kids : Forest, kids.InMemory mem visit.task (mem.next (.children visit.task)) ∧
        visit.children = kids.roots := by
  induction forest generalizing owner item level with
  | nil =>
      intro visit member
      simp [Forest.listing] at member
  | cons task kids rest below after =>
      obtain ⟨-, -, kidsMem, restMem⟩ := inMem
      intro visit member
      rcases List.mem_cons.mp member with rfl | later
      · exact ⟨kids, kidsMem, rfl⟩
      · rcases List.mem_append.mp later with inKids | inRest
        · exact below kidsMem (level + 1) visit inKids
        · exact after restMem level visit inRest

theorem ProcessTree.visited {mem : Memory} {kids : Forest} (tree : ProcessTree mem kids)
    (visit : Visit) (member : visit ∈ listing mem kids) :
    ∃ own : Forest, own.InMemory mem visit.task (mem.next (.children visit.task)) ∧
      visit.children = own.roots := by
  rcases List.mem_cons.mp member with rfl | below
  · exact ⟨kids, tree, rfl⟩
  · exact Forest.InMemory.visited tree 1 visit below

theorem ProcessTree.described {mem : Memory} {kids : Forest} (tree : ProcessTree mem kids)
    (visit : Visit) (member : visit ∈ listing mem kids) (old : Prinfo) :
    Describes mem visit (fill mem visit.task visit.level old) := by
  obtain ⟨own, ownMem, children⟩ := tree.visited visit member
  cases visit with
  | mk task level listed =>
      obtain rfl : listed = own.roots := children
      exact fill_describes ownMem level old

theorem ProcessTree.writes {mem : Memory} {kids : Forest} (tree : ProcessTree mem kids)
    {before after : Globals} {stores : List Nat}
    (stored : Stored mem (listing mem kids) before after stores) :
    Writes mem (listing mem kids) before after where
  cursor := stored.cursor
  kept i earlier := stored.kept i (.inl earlier)
  written i visit found := by
    rw [stored.filled i visit found]
    exact tree.described visit (List.mem_of_getElem? found) _

theorem Describes.short {mem : Memory} {visit : Visit} {info : Prinfo}
    (describes : Describes mem visit info) : info.comm.str.length < 64 := by
  have short := str_short (mem.task visit.task).comm (mem.task visit.task).comm_ends
  rw [describes.comm]
  exact Nat.lt_of_lt_of_le short (by decide)

theorem Describes.copied {mem : Memory} {visit : Visit} {info : Prinfo}
    (describes : Describes mem visit info) {comm : CharArray 64} (same : comm.str = info.comm.str) :
    Describes mem visit { info with comm := comm } :=
  { describes with comm := same.trans describes.comm }

/-- A record of `buf_tmp` and what the caller gets of it: only the bytes behind
the end of `comm` may differ. -/
def CopyOf (source target : Prinfo) : Prop :=
  ∃ comm : CharArray 64, comm.str = source.comm.str ∧ target = { source with comm := comm }

theorem copyRecord_copied {g : Globals} {i : Nat} (ends : (g.bufTmp i).comm.str.length < 64)
    (user : UserMemory) :
    ∃ info, copyRecord g i user = some { user with buf := Function.update user.buf i info } ∧
      CopyOf (g.bufTmp i) info := by
  obtain ⟨comm, copied, same⟩ := strcpy_some (user.buf i).comm (g.bufTmp i).comm ends
  rw [copyRecord, copied]
  exact ⟨_, rfl, comm, same, rfl⟩

theorem copyRecord_some {mem : Memory} {visit : Visit} {g : Globals} {i : Nat}
    (describes : Describes mem visit (g.bufTmp i)) (user : UserMemory) :
    ∃ info, copyRecord g i user = some { user with buf := Function.update user.buf i info } ∧
      Describes mem visit info := by
  obtain ⟨info, done, comm, same, rfl⟩ := copyRecord_copied describes.short user
  exact ⟨_, done, describes.copied same⟩

/-- The rounds from `i` on fill in the records up to the end and leave the others
alone. -/
theorem copyLoop_copies (g : Globals) (left i : Nat)
    (ends : ∀ j, i ≤ j → j < i + left → (g.bufTmp j).comm.str.length < 64) (user : UserMemory) :
    ∃ out, copyLoop g left i user = some out ∧ out.nr = user.nr ∧
      (∀ j, j < i ∨ i + left ≤ j → out.buf j = user.buf j) ∧
      ∀ j, i ≤ j → j < i + left → CopyOf (g.bufTmp j) (out.buf j) := by
  induction left generalizing i user with
  | zero =>
      refine ⟨user, rfl, rfl, ?_, ?_⟩
      · intro j outside
        rfl
      · intro j low high
        omega
  | succ left ih =>
      obtain ⟨info, done, copied⟩ := copyRecord_copied (ends i (Nat.le_refl i) (by omega)) user
      obtain ⟨out, looped, nr, kept, filled⟩ := ih (i + 1)
        (fun j low high => ends j (by omega) (by omega))
        { user with buf := Function.update user.buf i info }
      refine ⟨out, ?_, nr, ?_, ?_⟩
      · rw [copyLoop, done]
        exact looped
      · intro j outside
        rw [kept j (by omega)]
        exact Function.update_of_ne (by omega) _ _
      · intro j low high
        by_cases isI : j = i
        · -- the later rounds leave the record of this one alone
          subst isI
          rw [kept j (by omega)]
          simpa using copied
        · exact filled j (by omega) (by omega)

structure ListingReturned (mem : Memory) (kids : Forest) (result : PtreeResult) : Prop where
  ret : result.ret = 0
  nr : result.user.nr = (listing mem kids).length
  describes : ∀ i visit, (listing mem kids)[i]? = some visit →
    Describes mem visit (result.user.buf i)
  once : ((listing mem kids).map Visit.task).Nodup
  met_iff : ∀ task, task ∈ (listing mem kids).map Visit.task ↔
    Relation.ReflTransGen (Child mem) mem.initTask task

structure Delivered (mem : Memory) (kids : Forest) (g : Globals) (user : UserMemory)
    (result : PtreeResult) : Prop where
  listed : ListingReturned mem kids result
  filled : ∀ i visit, (listing mem kids)[i]? = some visit →
    result.globals.bufTmp i = fill mem visit.task visit.level (g.bufTmp i)
  copied : ∀ i < (listing mem kids).length,
    CopyOf (result.globals.bufTmp i) (result.user.buf i)
  kept : ∀ i, (listing mem kids).length ≤ i →
    result.globals.bufTmp i = g.bufTmp i ∧ result.user.buf i = user.buf i

theorem ptreeStores_delivers {mem : Memory} {kids : Forest} (tree : ProcessTree mem kids)
    (g : Globals) (user : UserMemory) (fuel : Nat)
    (enough : 2 * (listing mem kids).length ≤ fuel) :
    ∃ result, ptreeStores mem fuel g user = some (result,
        ⟨List.range' 0 (listing mem kids).length, List.range' 0 (listing mem kids).length⟩) ∧
      Delivered mem kids g user result := by
  obtain ⟨after, stores, walked, stored⟩ := dfs_stores tree { g with nrTmp := 0 } fuel enough
  have cursor : after.nrTmp = (listing mem kids).length := by
    rw [stored.cursor]
    simp
  have described : ∀ i visit, (listing mem kids)[i]? = some visit →
      Describes mem visit (after.bufTmp i) := by
    intro i visit found
    have written := (tree.writes stored).written i visit found
    rwa [Nat.zero_add] at written
  have ends : ∀ j, 0 ≤ j → j < 0 + after.nrTmp → (after.bufTmp j).comm.str.length < 64 := by
    intro j _ below
    have inside : j < (listing mem kids).length := by omega
    exact (described j _ (List.getElem?_eq_getElem inside)).short
  -- every name ends within its array, so no copy runs over
  obtain ⟨out, looped, nr, kept, copied⟩ := copyLoop_copies after after.nrTmp 0 ends
    { user with nr := after.nrTmp }
  have tasks : (listing mem kids).map Visit.task = mem.initTask :: kids.tasks := by
    rw [listing, List.map_cons, Forest.listing_tasks]
  have listed : ListingReturned mem kids { ret := 0, globals := after, user := out } := by
    refine ⟨rfl, nr.trans cursor, ?_, ?_, ?_⟩
    · intro i visit found
      have inside : i < (listing mem kids).length := (List.getElem?_eq_some_iff.mp found).1
      obtain ⟨comm, same, record⟩ := copied i (Nat.zero_le i) (by omega)
      rw [record]
      exact (described i visit found).copied same
    · rw [tasks]
      exact tree.tasks_nodup
    · rw [tasks]
      exact tree.met_iff
  refine ⟨{ ret := 0, globals := after, user := out }, ?_, listed, ?_, ?_, ?_⟩
  · rw [ptreeStores, walked]
    rw [cursor] at looped
    simp only [copyStores_eq, stored.indices, cursor, looped, Option.map_some]
  · intro i visit found
    have record := stored.filled i visit found
    rwa [Nat.zero_add] at record
  · intro i inside
    exact copied i (Nat.zero_le i) (by omega)
  · intro i outside
    constructor
    · exact stored.kept i (.inr (by simpa using outside))
    · exact kept i (.inr (by omega))

theorem ptree_delivers {mem : Memory} {kids : Forest} (tree : ProcessTree mem kids)
    (small : (listing mem kids).length ≤ maxNumProc) (g : Globals) (user : UserMemory)
    (fuel : Nat) (enough : 2 * (listing mem kids).length ≤ fuel) :
    ∃ result, ptree mem fuel g user = some result ∧ Delivered mem kids g user result := by
  obtain ⟨result, ran, delivered⟩ := ptreeStores_delivers tree g user fuel enough
  refine ⟨result, ?_, delivered⟩
  rw [ptree_bounded, ran]
  exact if_pos ((inside_range _).mpr small)

/-- `ptree` on a tree that fits the buffer returns its pre-order listing,
whatever the global variables and the caller's memory held before. -/
theorem ptree_listing {mem : Memory} {kids : Forest} (tree : ProcessTree mem kids)
    (small : (listing mem kids).length ≤ maxNumProc) (g : Globals) (user : UserMemory)
    (fuel : Nat) (enough : 2 * (listing mem kids).length ≤ fuel) :
    ∃ result, ptree mem fuel g user = some result ∧ ListingReturned mem kids result := by
  obtain ⟨result, returned, delivered⟩ := ptree_delivers tree small g user fuel enough
  exact ⟨result, returned, delivered.listed⟩

/-! A small machine: `init_task` with two children, the first of which has one. -/

namespace Sample

def task (pid : Int) : Task where
  pid := pid
  state := 1
  uid := 0
  comm := { bytes := [115, 104] ++ List.replicate 14 0, size_eq := rfl }
  comm_ends := by decide

def next : ListHead → ListHead
  | .children 16 => .sibling 32
  | .sibling 32 => .sibling 48
  | .sibling 48 => .children 16
  | .children 32 => .sibling 64
  | .sibling 64 => .children 32
  | head => head

def memory : Memory where
  task addr := task (addr / 16 - 1)
  next := next
  initTask := 16
  init_ne_null := by decide

def kids : Forest := .cons 32 (.cons 64 .nil .nil) (.cons 48 .nil .nil)

theorem tree : ProcessTree memory kids :=
  ⟨rfl, by decide, ⟨rfl, by decide, rfl, rfl⟩, rfl, by decide, rfl, rfl⟩

def blank : Prinfo where
  parentPid := 0
  pid := 0
  firstChildPid := 0
  nextSiblingPid := 0
  state := 0
  uid := 0
  comm := { bytes := List.replicate 64 0, size_eq := rfl }
  level := 0

def globals : Globals := { nrTmp := 0, bufTmp := fun _ => blank }

def user : UserMemory := { nr := 0, buf := fun _ => blank }

end Sample

theorem ptree_listing_sample :
    ∃ result, ptree Sample.memory 8 Sample.globals Sample.user = some result ∧
      ListingReturned Sample.memory Sample.kids result :=
  ptree_listing Sample.tree (by decide) Sample.globals Sample.user 8 (by decide)

end AndroidKernel.Ptree
