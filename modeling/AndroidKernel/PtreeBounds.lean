import AndroidKernel.PtreeListing

/-!
Neither `DFS` nor the copy loop looks at the end of its array, so what keeps
`ptree` inside is the number of tasks alone. The arrays have `MAX_NUM_PROC`
records; the kernel numbers more tasks than that.
-/

namespace AndroidKernel.Ptree

def pidMaxDefault : Nat := 32768

/-- Every store lies in its array, and the call delivers or fails with what lies
around the arrays untouched. -/
structure StaysInside (mem : Memory) (kids : Forest) (g : Globals) (user : UserMemory)
    (result : PtreeResult) (stores : Stores) : Prop where
  bufTmp : Inside stores.bufTmp
  caller : Inside stores.user
  delivers : ListingReturned mem kids result ∨ result.ret < 0
  bufTmp_end : ∀ i, maxNumProc ≤ i → result.globals.bufTmp i = g.bufTmp i
  caller_end : ∀ i, maxNumProc ≤ i → result.user.buf i = user.buf i

section Bounds
variable {mem : Memory} {kids : Forest} {g : Globals} {user : UserMemory} {result : PtreeResult}

theorem Delivered.stays_inside (delivered : Delivered mem kids g user result) :
    StaysInside mem kids g user result
        ⟨List.range' 0 (listing mem kids).length, List.range' 0 (listing mem kids).length⟩ ↔
      (listing mem kids).length ≤ maxNumProc := by
  constructor
  · intro inside
    exact (inside_range _).mp inside.bufTmp
  · intro small
    constructor
    · exact (inside_range _).mpr small
    · exact (inside_range _).mpr small
    · exact .inl delivered.listed
    · intro i beyond
      exact (delivered.kept i (by omega)).1
    · intro i beyond
      exact (delivered.kept i (by omega)).2

/-- The call stays inside its buffers exactly on a tree that fits them. -/
theorem ptree_stays_inside_iff (tree : ProcessTree mem kids) (g : Globals) (user : UserMemory)
    (fuel : Nat) (enough : 2 * (listing mem kids).length ≤ fuel) :
    ∃ result stores, ptreeStores mem fuel g user = some (result, stores) ∧
      (StaysInside mem kids g user result stores ↔ (listing mem kids).length ≤ maxNumProc) := by
  obtain ⟨result, ran, delivered⟩ := ptreeStores_delivers tree g user fuel enough
  exact ⟨result, _, ran, delivered.stays_inside⟩

theorem ptree_stays_inside_iff_sample :
    ∃ result stores, ptreeStores Sample.memory 8 Sample.globals Sample.user =
        some (result, stores) ∧
      (StaysInside Sample.memory Sample.kids Sample.globals Sample.user result stores ↔
        (listing Sample.memory Sample.kids).length ≤ maxNumProc) :=
  ptree_stays_inside_iff Sample.tree Sample.globals Sample.user 8 (by decide)

end Bounds

/-! A machine with as many processes as one likes: `count` children of `init_task`,
one behind the other, and nothing below them. -/

namespace Crowd

def next (count : Nat) : ListHead → ListHead
  | .children task => if task = 16 ∧ 0 < count then .sibling 32 else .children task
  | .sibling task => if task < 16 + 16 * count then .sibling (task + 16) else .children 16

def memory (count : Nat) : Memory where
  task addr := Sample.task (addr / 16 - 1)
  next := next count
  initTask := 16
  init_ne_null := Sample.memory.init_ne_null

def kids (task : Nat) : Nat → Forest
  | 0 => .nil
  | left + 1 => .cons task .nil (kids (task + 16) left)

theorem kids_size (task : Nat) (left : Nat) : (kids task left).size = left := by
  induction left generalizing task with
  | zero => rfl
  | succ left ih =>
      rw [kids, Forest.size, Forest.size, ih]
      omega

theorem kids_inMemory (count left : Nat) (some : left < count) (task : Nat)
    (place : task + 16 * left = 16 + 16 * count) :
    (kids task (left + 1)).InMemory (memory count) 16 (.sibling task) := by
  induction left generalizing task with
  | zero =>
      have last : ¬ task < 16 + 16 * count := by omega
      have leaf : ¬ (task = 16 ∧ 0 < count) := by omega
      have real : task ≠ 0 := by omega
      refine ⟨rfl, real, ?_, ?_⟩
      · exact if_neg leaf
      · exact if_neg last
  | succ left ih =>
      have more : task < 16 + 16 * count := by omega
      have leaf : ¬ (task = 16 ∧ 0 < count) := by omega
      have real : task ≠ 0 := by omega
      refine ⟨rfl, real, ?_, ?_⟩
      · exact if_neg leaf
      · have step : (memory count).next (.sibling task) = .sibling (task + 16) := if_pos more
        rw [step]
        exact ih (by omega) (task + 16) (by omega)

theorem tree (left : Nat) : ProcessTree (memory (left + 1)) (kids 32 (left + 1)) :=
  kids_inMemory (left + 1) left (Nat.lt_succ_self left) 32 (by omega)

theorem listing_length (left : Nat) :
    (listing (memory (left + 1)) (kids 32 (left + 1))).length = left + 2 := by
  rw [listing, List.length_cons, Forest.listing_length, kids_size]

end Crowd

/-- With ten thousand children of `init_task` the call leaves its buffers, though
the kernel has pids for three times as many. -/
theorem crowd_overruns : ¬ ∀ mem kids, ProcessTree mem kids →
    (listing mem kids).length ≤ pidMaxDefault →
    ∀ g user fuel, 2 * (listing mem kids).length ≤ fuel →
      ∃ result stores, ptreeStores mem fuel g user = some (result, stores) ∧
        StaysInside mem kids g user result stores := by
  intro always
  have tree := Crowd.tree 9999
  have count := Crowd.listing_length 9999
  obtain ⟨result, ran, delivered⟩ :=
    ptreeStores_delivers tree Sample.globals Sample.user 20002 (by omega)
  obtain ⟨other, stores, again, inside⟩ := always _ _ tree (by rw [count]; decide)
    Sample.globals Sample.user 20002 (by omega)
  rw [ran, Option.some.injEq, Prod.mk.injEq] at again
  obtain ⟨rfl, rfl⟩ := again
  have small := delivered.stays_inside.mp inside
  rw [count, maxNumProc] at small
  omega

end AndroidKernel.Ptree
