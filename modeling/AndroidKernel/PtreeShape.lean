import AndroidKernel.PreOrder
import AndroidKernel.PtreeListing

/-!
The listing determines the process tree. What the test program prints, a level
and a pid a line, is the pre-order listing with depths of the tree of pids, and a
scan from its end reads the tree back.
-/

namespace AndroidKernel.Ptree

open PreOrder

def Forest.shape : Forest → OrderedForest Addr
  | nil => .nil
  | cons task kids rest => .cons task kids.shape rest.shape

theorem Forest.listing_levels (forest : Forest) (level : Nat) :
    (forest.listing level).map (fun visit => (visit.level, visit.task)) =
      forest.shape.levels level := by
  induction forest generalizing level with
  | nil => rfl
  | cons task kids rest below after =>
      simp [listing, shape, OrderedForest.levels, below, after]

def treeShape (mem : Memory) (kids : Forest) : OrderedForest Addr :=
  .cons mem.initTask kids.shape .nil

theorem listing_levels (mem : Memory) (kids : Forest) :
    (listing mem kids).map (fun visit => (visit.level, visit.task)) =
      (treeShape mem kids).levels 0 := by
  simp [listing, treeShape, OrderedForest.levels, Forest.listing_levels]

def pidTree (mem : Memory) (kids : Forest) : OrderedForest Int :=
  (treeShape mem kids).map fun task => (mem.task task).pid

def printed (user : UserMemory) : List (Nat × Int) :=
  (List.range user.nr).map fun i => ((user.buf i).level, (user.buf i).pid)

theorem ListingReturned.printed {mem : Memory} {kids : Forest} {result : PtreeResult}
    (returned : ListingReturned mem kids result) :
    printed result.user = (pidTree mem kids).levels 0 := by
  rw [pidTree, OrderedForest.levels_map, ← listing_levels, List.map_map]
  apply List.ext_getElem
  · simp [Ptree.printed, returned.nr]
  · intro i inPrint inListing
    have inside : i < (listing mem kids).length := by simpa using inListing
    have record := returned.describes i _ (List.getElem?_eq_getElem inside)
    simp [Ptree.printed, record.level, record.pid]

/-- From what is printed a decoder recovers the tree of pids, and so two trees
that print the same are the same. -/
theorem printed_determines_tree {first second : Memory} {firstKids secondKids : Forest}
    (firstTree : ProcessTree first firstKids) (secondTree : ProcessTree second secondKids)
    (firstSmall : (listing first firstKids).length ≤ maxNumProc)
    (secondSmall : (listing second secondKids).length ≤ maxNumProc)
    (firstGlobals secondGlobals : Globals) (firstUser secondUser : UserMemory)
    (firstFuel secondFuel : Nat) (firstEnough : 2 * (listing first firstKids).length ≤ firstFuel)
    (secondEnough : 2 * (listing second secondKids).length ≤ secondFuel) :
    ∃ one two, ptree first firstFuel firstGlobals firstUser = some one ∧
      ptree second secondFuel secondGlobals secondUser = some two ∧
      decode 0 (printed one.user) = pidTree first firstKids ∧
      decode 0 (printed two.user) = pidTree second secondKids ∧
      (printed one.user = printed two.user ↔
        pidTree first firstKids = pidTree second secondKids) := by
  obtain ⟨one, oneReturned, oneDelivered⟩ :=
    ptree_delivers firstTree firstSmall firstGlobals firstUser firstFuel firstEnough
  obtain ⟨two, twoReturned, twoDelivered⟩ :=
    ptree_delivers secondTree secondSmall secondGlobals secondUser secondFuel secondEnough
  have onePrinted := oneDelivered.listed.printed
  have twoPrinted := twoDelivered.listed.printed
  refine ⟨one, two, oneReturned, twoReturned, ?_, ?_, ?_⟩
  · rw [onePrinted, decode_levels]
  · rw [twoPrinted, decode_levels]
  · rw [onePrinted, twoPrinted]
    constructor
    · exact levels_injective 0
    · intro same
      rw [same]

def Sample.moved : ListHead → ListHead
  | .children 32 => .children 32
  | .children 48 => .sibling 64
  | .sibling 64 => .children 48
  | head => Sample.next head

def Sample.movedMemory : Memory := { Sample.memory with next := Sample.moved }

def Sample.movedKids : Forest := .cons 32 .nil (.cons 48 (.cons 64 .nil .nil) .nil)

theorem Sample.movedTree : ProcessTree Sample.movedMemory Sample.movedKids :=
  ⟨rfl, by decide, rfl, rfl, by decide, ⟨rfl, by decide, rfl, rfl⟩, rfl⟩

theorem printed_determines_tree_sample :
    ∃ one two, ptree Sample.memory 8 Sample.globals Sample.user = some one ∧
      ptree Sample.movedMemory 8 Sample.globals Sample.user = some two ∧
      decode 0 (printed one.user) = pidTree Sample.memory Sample.kids ∧
      decode 0 (printed two.user) = pidTree Sample.movedMemory Sample.movedKids ∧
      (printed one.user = printed two.user ↔
        pidTree Sample.memory Sample.kids = pidTree Sample.movedMemory Sample.movedKids) :=
  printed_determines_tree Sample.tree Sample.movedTree (by decide) (by decide) Sample.globals
    Sample.globals Sample.user Sample.user 8 8 (by decide) (by decide)

end AndroidKernel.Ptree
