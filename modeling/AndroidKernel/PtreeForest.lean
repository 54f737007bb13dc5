import Mathlib.Logic.Relation
import AndroidKernel.Ptree

/-!
The process tree as the kernel links it: a forest whose sibling lists are the
rings through the parents' heads. The links determine the forest, so no task is
met twice on the walk, and the walk meets what descends from `init_task`.
-/

namespace AndroidKernel.Ptree

inductive Forest where
  | nil
  | cons (task : Addr) (kids rest : Forest)

structure Visit where
  task : Addr
  level : Nat
  children : List Addr

namespace Forest

def roots : Forest → List Addr
  | nil => []
  | cons task _ rest => task :: rest.roots

def size : Forest → Nat
  | nil => 0
  | cons _ kids rest => kids.size + rest.size + 1

def listing (level : Nat) : Forest → List Visit
  | nil => []
  | cons task kids rest =>
      ⟨task, level, kids.roots⟩ :: (kids.listing (level + 1) ++ rest.listing level)

def InMemory (mem : Memory) : Forest → Addr → ListHead → Prop
  | nil, owner, item => item = .children owner
  | cons task kids rest, owner, item =>
      item = .sibling task ∧ task ≠ null ∧
        kids.InMemory mem task (mem.next (.children task)) ∧
        rest.InMemory mem owner (mem.next (.sibling task))

theorem listing_length (forest : Forest) (level : Nat) :
    (forest.listing level).length = forest.size := by
  induction forest generalizing level with
  | nil => rfl
  | cons task kids rest below after =>
      rw [listing, List.length_cons, List.length_append, below, after, size]

end Forest

def ProcessTree (mem : Memory) (kids : Forest) : Prop :=
  kids.InMemory mem mem.initTask (mem.next (.children mem.initTask))

def listing (mem : Memory) (kids : Forest) : List Visit :=
  ⟨mem.initTask, 0, kids.roots⟩ :: kids.listing 1

section Unique
variable {mem : Memory}

/-- The links after one list head determine whose ring it is on and all that
follows. -/
theorem Forest.InMemory.determined {first second : Forest} {owner other : Addr}
    {item : ListHead} (one : first.InMemory mem owner item)
    (two : second.InMemory mem other item) : owner = other ∧ first = second := by
  induction first generalizing second owner other item with
  | nil =>
      have ended : item = .children owner := one
      subst ended
      cases second with
      | nil =>
          have same : ListHead.children owner = .children other := two
          exact ⟨by simpa using same, rfl⟩
      | cons task kids rest => exact absurd two.1 (by simp)
  | cons task kids rest below after =>
      obtain ⟨rfl, -, kidsMem, restMem⟩ := one
      cases second with
      | nil =>
          have wrong : ListHead.sibling task = .children other := two
          exact absurd wrong (by simp)
      | cons task' kids' rest' =>
          obtain ⟨same, -, kidsMem', restMem'⟩ := two
          obtain rfl : task = task' := by simpa using same
          obtain ⟨-, rfl⟩ := below kidsMem kidsMem'
          obtain ⟨rfl, rfl⟩ := after restMem restMem'
          exact ⟨rfl, rfl⟩

def Forest.tasks : Forest → List Addr
  | nil => []
  | cons task kids rest => task :: (kids.tasks ++ rest.tasks)

theorem Forest.listing_tasks (forest : Forest) (level : Nat) :
    (forest.listing level).map Visit.task = forest.tasks := by
  induction forest generalizing level with
  | nil => rfl
  | cons task kids rest below after =>
      rw [listing, List.map_cons, List.map_append, below, after, tasks]

theorem Forest.tasks_length (forest : Forest) : forest.tasks.length = forest.size := by
  induction forest with
  | nil => rfl
  | cons task kids rest below after =>
      rw [tasks, List.length_cons, List.length_append, below, after, size]

/-- What is left of the walk: the rings it is inside of, innermost first, each
with its siblings still to come. -/
inductive Pending (mem : Memory) : ListHead → List (Addr × Forest) → Prop
  | root {item : ListHead} {todo : Forest} (inMem : todo.InMemory mem mem.initTask item) :
      Pending mem item [(mem.initTask, todo)]
  | inner {item : ListHead} {owner : Addr} {todo : Forest} {outer : List (Addr × Forest)}
      (inMem : todo.InMemory mem owner item) (below : owner ≠ mem.initTask)
      (rest : Pending mem (mem.next (.sibling owner)) outer) :
      Pending mem item ((owner, todo) :: outer)

def pendingTasks (stack : List (Addr × Forest)) : List Addr :=
  stack.flatMap fun ring => ring.2.tasks

/-- The next list head determines the whole rest of the walk. -/
theorem Pending.determined {item : ListHead} {one two : List (Addr × Forest)}
    (first : Pending mem item one) (second : Pending mem item two) : one = two := by
  induction first generalizing two with
  | root inMem =>
      cases second with
      | root inMem' =>
          obtain ⟨-, rfl⟩ := inMem.determined inMem'
          rfl
      | inner inMem' below' rest' => exact absurd (inMem.determined inMem').1.symm below'
  | inner inMem below rest ih =>
      cases second with
      | root inMem' => exact absurd (inMem.determined inMem').1 below
      | inner inMem' below' rest' =>
          obtain ⟨rfl, rfl⟩ := inMem.determined inMem'
          rw [ih rest']

theorem Pending.leave_ended {item : ListHead} {stack : List (Addr × Forest)}
    (pending : Pending mem item stack) (task : Addr) (after : List Addr)
    (tasks : pendingTasks stack = task :: after) :
    ∃ rest, Pending mem (.sibling task) rest ∧ pendingTasks rest = task :: after := by
  induction pending with
  | @root item todo inMem =>
      cases todo with
      | nil => simp [pendingTasks, Forest.tasks] at tasks
      | cons first kids rest =>
          obtain rfl : first = task := by
            simp only [pendingTasks, Forest.tasks, List.flatMap_cons, List.cons_append] at tasks
            exact (List.cons.inj tasks).1
          exact ⟨_, inMem.1 ▸ .root inMem, tasks⟩
  | @inner item owner todo outer inMem below pendingOuter ih =>
      cases todo with
      | nil => exact ih tasks
      | cons first kids rest =>
          obtain rfl : first = task := by
            simp only [pendingTasks, Forest.tasks, List.flatMap_cons, List.cons_append] at tasks
            exact (List.cons.inj tasks).1
          exact ⟨_, inMem.1 ▸ .inner inMem below pendingOuter, tasks⟩

theorem Pending.descend {task : Addr} {stack : List (Addr × Forest)}
    (pending : Pending mem (.sibling task) stack) (inner : task ≠ mem.initTask)
    (after : List Addr) (tasks : pendingTasks stack = task :: after) :
    ∃ item rest, Pending mem item rest ∧ pendingTasks rest = after := by
  cases pending with
  | @root _ todo inMem =>
      cases todo with
      | nil =>
          have wrong : ListHead.sibling task = .children mem.initTask := inMem
          exact absurd wrong (by simp)
      | cons first kids rest =>
          obtain ⟨same, -, kidsMem, restMem⟩ := inMem
          obtain rfl : task = first := by simpa using same
          refine ⟨_, _, .inner kidsMem inner (.root restMem), ?_⟩
          simp only [pendingTasks, Forest.tasks, List.flatMap_cons, List.cons_append,
            List.append_assoc] at tasks ⊢
          exact (List.cons.inj tasks).2
  | @inner _ owner todo outer inMem below pendingOuter =>
      cases todo with
      | nil =>
          have wrong : ListHead.sibling task = .children owner := inMem
          exact absurd wrong (by simp)
      | cons first kids rest =>
          obtain ⟨same, -, kidsMem, restMem⟩ := inMem
          obtain rfl : task = first := by simpa using same
          refine ⟨_, _, .inner kidsMem inner (.inner restMem below pendingOuter), ?_⟩
          simp only [pendingTasks, Forest.tasks, List.flatMap_cons, List.cons_append,
            List.append_assoc] at tasks ⊢
          exact (List.cons.inj tasks).2

/-- The rest of the walk from any point of it on is a stack that starts at the
task visited next. -/
theorem Pending.from_task {item : ListHead} {stack : List (Addr × Forest)}
    (pending : Pending mem item stack) (before : List Addr) (task : Addr) (after : List Addr)
    (fresh : mem.initTask ∉ before) (split : pendingTasks stack = before ++ task :: after) :
    ∃ rest, Pending mem (.sibling task) rest ∧ pendingTasks rest = task :: after := by
  induction before generalizing item stack with
  | nil => exact pending.leave_ended task after split
  | cons first before ih =>
      have freshFirst : first ≠ mem.initTask := fun same => fresh (by simp [same])
      have freshRest : mem.initTask ∉ before := fun inside => fresh (List.mem_cons_of_mem _ inside)
      obtain ⟨here, pendingHere, tasks⟩ := pending.leave_ended first _ split
      obtain ⟨_, rest, pendingRest, tasksRest⟩ := pendingHere.descend freshFirst _ tasks
      exact ih pendingRest freshRest tasksRest

theorem Pending.kids_first {task : Addr} {stack : List (Addr × Forest)}
    (pending : Pending mem (.sibling task) stack) {kids : Forest}
    (kidsMem : kids.InMemory mem task (mem.next (.children task))) :
    kids.size < (pendingTasks stack).length := by
  have ring : ∀ {owner : Addr} {todo : Forest}, todo.InMemory mem owner (.sibling task) →
      kids.size < todo.tasks.length := by
    intro owner todo inMem
    cases todo with
    | nil =>
        have wrong : ListHead.sibling task = .children owner := inMem
        exact absurd wrong (by simp)
    | cons first below rest =>
        obtain ⟨same, -, belowMem, -⟩ := inMem
        obtain rfl : task = first := by simpa using same
        obtain ⟨-, rfl⟩ := kidsMem.determined belowMem
        rw [Forest.tasks_length, Forest.size]
        omega
  cases pending with
  | root inMem => simpa [pendingTasks] using ring inMem
  | inner inMem below rest =>
      have inside := ring inMem
      simp only [pendingTasks, List.flatMap_cons, List.length_append]
      omega

/-- `init_task` is not below itself: its children would be a part of themselves. -/
theorem ProcessTree.init_fresh {kids : Forest} (tree : ProcessTree mem kids) :
    mem.initTask ∉ kids.tasks := by
  intro inside
  obtain ⟨before, after, split, fresh⟩ := List.eq_append_cons_of_mem inside
  have whole : Pending mem (mem.next (.children mem.initTask)) [(mem.initTask, kids)] := .root tree
  obtain ⟨rest, pending, tasks⟩ := whole.from_task before mem.initTask after fresh
    (by simpa [pendingTasks] using split)
  have more := pending.kids_first tree
  rw [tasks, List.length_cons, ← kids.tasks_length, split, List.length_append,
    List.length_cons] at more
  omega

theorem nodup_of_splits (items : List Addr)
    (once : ∀ before item after, items = before ++ item :: after → item ∉ after) :
    items.Nodup := by
  induction items with
  | nil => exact List.nodup_nil
  | cons item items ih =>
      refine List.nodup_cons.mpr ⟨once [] item items rfl, ih fun before other after split => ?_⟩
      exact once (item :: before) other after (by rw [split]; rfl)

/-- A task met twice would leave the same walk both times, once with more to
come than the other time. -/
theorem ProcessTree.tasks_nodup {kids : Forest} (tree : ProcessTree mem kids) :
    (mem.initTask :: kids.tasks).Nodup := by
  refine List.nodup_cons.mpr ⟨tree.init_fresh, nodup_of_splits _ fun before task after split => ?_⟩
  intro again
  obtain ⟨between, last, rfl⟩ := List.append_of_mem again
  have whole : Pending mem (mem.next (.children mem.initTask)) [(mem.initTask, kids)] := .root tree
  have fresh : ∀ part, part ⊆ kids.tasks → mem.initTask ∉ part := fun part inside member =>
    tree.init_fresh (inside member)
  have start : pendingTasks [(mem.initTask, kids)] = kids.tasks := by simp [pendingTasks]
  obtain ⟨one, pendingOne, tasksOne⟩ := whole.from_task before task _
    (fresh before (by rw [split]; exact List.subset_append_left _ _)) (start.trans split)
  obtain ⟨two, pendingTwo, tasksTwo⟩ := whole.from_task (before ++ task :: between) task last
    (fresh _ (by rw [split, ← List.cons_append, ← List.append_assoc]
                 exact List.subset_append_left _ _))
    (by rw [start, split, List.append_assoc, List.cons_append])
  have same : one = two := pendingOne.determined pendingTwo
  rw [same, tasksTwo] at tasksOne
  have lengths := congrArg List.length tasksOne
  simp only [List.length_cons, List.length_append] at lengths
  omega

end Unique

def Child (mem : Memory) (parent task : Addr) : Prop :=
  ∃ steps, mem.next^[steps] (.children parent) = .sibling task

section Descendants
variable {mem : Memory}

theorem Forest.InMemory.descends {forest : Forest} {owner : Addr} {item : ListHead}
    (inMem : forest.InMemory mem owner item) (steps : Nat)
    (place : mem.next^[steps] (.children owner) = item) :
    ∀ task ∈ forest.tasks, Relation.ReflTransGen (Child mem) owner task := by
  induction forest generalizing owner item steps with
  | nil =>
      intro task member
      simp [tasks] at member
  | cons first kids rest below after =>
      obtain ⟨rfl, -, kidsMem, restMem⟩ := inMem
      intro task member
      rcases List.mem_cons.mp member with rfl | deeper
      · exact .single ⟨steps, place⟩
      · rcases List.mem_append.mp deeper with inKids | inRest
        · exact .head ⟨steps, place⟩ (below kidsMem 1 rfl task inKids)
        · exact after restMem (steps + 1) (by rw [Function.iterate_succ_apply', place]) task inRest

theorem Forest.InMemory.around {kids : Forest} {owner : Addr}
    (inMem : kids.InMemory mem owner (mem.next (.children owner))) (steps : Nat) :
    ∃ left : Forest, left.InMemory mem owner (mem.next^[steps + 1] (.children owner)) ∧
      left.tasks ⊆ kids.tasks := by
  induction steps with
  | zero => exact ⟨kids, inMem, List.Subset.refl _⟩
  | succ steps ih =>
      obtain ⟨left, leftMem, inside⟩ := ih
      rw [Function.iterate_succ_apply']
      cases left with
      | nil =>
          have ended : mem.next^[steps + 1] (.children owner) = .children owner := leftMem
          rw [ended]
          exact ⟨kids, inMem, List.Subset.refl _⟩
      | cons first below rest =>
          obtain ⟨here, -, -, restMem⟩ := leftMem
          rw [here]
          refine ⟨rest, restMem, fun task member => inside ?_⟩
          exact List.mem_cons_of_mem _ (List.mem_append_right _ member)

theorem Forest.InMemory.children_in {kids : Forest} {owner task : Addr}
    (inMem : kids.InMemory mem owner (mem.next (.children owner)))
    (child : Child mem owner task) : task ∈ kids.tasks := by
  obtain ⟨steps, place⟩ := child
  cases steps with
  | zero =>
      have wrong : ListHead.children owner = .sibling task := place
      exact absurd wrong (by simp)
  | succ steps =>
      obtain ⟨left, leftMem, inside⟩ := inMem.around steps
      rw [place] at leftMem
      cases left with
      | nil =>
          have wrong : ListHead.sibling task = .children owner := leftMem
          exact absurd wrong (by simp)
      | cons first below rest =>
          obtain rfl : task = first := by simpa using leftMem.1
          exact inside List.mem_cons_self

theorem Forest.InMemory.kids_of {forest : Forest} {owner : Addr} {item : ListHead}
    (inMem : forest.InMemory mem owner item) (task : Addr) (member : task ∈ forest.tasks) :
    ∃ kids : Forest, kids.InMemory mem task (mem.next (.children task)) ∧
      kids.tasks ⊆ forest.tasks := by
  induction forest generalizing owner item with
  | nil => simp [tasks] at member
  | cons first kids rest below after =>
      obtain ⟨rfl, -, kidsMem, restMem⟩ := inMem
      have low : kids.tasks ⊆ (cons first kids rest).tasks := fun other inside =>
        List.mem_cons_of_mem _ (List.mem_append_left _ inside)
      have high : rest.tasks ⊆ (cons first kids rest).tasks := fun other inside =>
        List.mem_cons_of_mem _ (List.mem_append_right _ inside)
      rcases List.mem_cons.mp member with rfl | deeper
      · exact ⟨kids, kidsMem, low⟩
      · rcases List.mem_append.mp deeper with inKids | inRest
        · obtain ⟨found, foundMem, inside⟩ := below kidsMem inKids
          exact ⟨found, foundMem, fun other there => low (inside there)⟩
        · obtain ⟨found, foundMem, inside⟩ := after restMem inRest
          exact ⟨found, foundMem, fun other there => high (inside there)⟩

theorem ProcessTree.met_iff {kids : Forest} (tree : ProcessTree mem kids) (task : Addr) :
    task ∈ mem.initTask :: kids.tasks ↔
      Relation.ReflTransGen (Child mem) mem.initTask task := by
  constructor
  · intro member
    rcases List.mem_cons.mp member with rfl | inside
    · exact .refl
    · exact Forest.InMemory.descends tree 1 rfl task inside
  · intro descends
    induction descends with
    | refl => exact List.mem_cons_self
    | tail _ child ih =>
        rcases List.mem_cons.mp ih with rfl | inside
        · exact List.mem_cons_of_mem _ (Forest.InMemory.children_in tree child)
        · obtain ⟨own, ownMem, within⟩ := Forest.InMemory.kids_of tree _ inside
          exact List.mem_cons_of_mem _ (within (ownMem.children_in child))

end Descendants

end AndroidKernel.Ptree
