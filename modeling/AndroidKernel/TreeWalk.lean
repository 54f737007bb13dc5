import Mathlib.Algebra.BigOperators.Group.Finset.Basic
import Mathlib.Algebra.Order.BigOperators.Group.Finset
import Mathlib.Logic.Function.Basic
import Mathlib.Logic.Relation
import AndroidKernel.PreOrder
import AndroidKernel.RunList

/-!
Walking a tree that is given by parent pointers and lists of children, with one
loop and no stack: a visitor on the way down, one on the way up, and the walk
ends at the first error. On links that describe an ordered tree the loop does
what the recursion over the tree does. Leaves can be added and removed. Nothing
here knows what the nodes are.
-/

namespace AndroidKernel.TreeWalk

open PreOrder RunList

variable {Node Data : Type}

structure Links (Node : Type) where
  parent : Node → Option Node
  children : Node → List Node

/-- A visitor gives back the data and a code; any code but 0 ends the walk. -/
abbrev Visitor (Node Data : Type) := Node → Data → Data × Int

def nop : Visitor Node Data := fun _ data => (data, 0)

inductive Place (Node : Type) where
  | down (node : Node)
  /-- The loop over the children of a node, at one of them or at its end. -/
  | loop (node : Node) (child : Option Node)

section Walk
variable [DecidableEq Node] (links : Links Node) (origin : Option Node)
  (down up : Visitor Node Data)

def step : Place Node × Data → Place Node × Data ⊕ Data × Int
  | (.down node, data) =>
      let out := down node data
      if out.2 ≠ 0 then .inr out else .inl (.loop node (links.children node).head?, out.1)
  | (.loop _ (some child), data) => .inl (.down child, data)
  | (.loop node none, data) =>
      let out := up node data
      if out.2 ≠ 0 ∨ some node = origin then .inr out
      else
        match links.parent node with
        | none => .inr out
        -- back in the parent's loop, which goes on with the next sibling
        | some above => .inl (.loop above (ringNext (links.children above) node), out.1)

def run : Nat → Place Node × Data → Option (Data × Int)
  | 0, _ => none
  | fuel + 1, state =>
      match step links origin down up state with
      | .inr out => some out
      | .inl next => run fuel next

end Walk

def visit (down up : Visitor Node Data) : OrderedForest Node → Data → Data × Int
  | .nil, data => (data, 0)
  | .cons label below after, data =>
      let entered := down label data
      if entered.2 ≠ 0 then entered
      else
        let inside := visit down up below entered.1
        if inside.2 ≠ 0 then inside
        else
          let left := up label inside.1
          if left.2 ≠ 0 then left else visit down up after left.1

def roots : OrderedForest Node → List Node
  | .nil => []
  | .cons label _ after => label :: roots after

def labels : OrderedForest Node → List Node
  | .nil => []
  | .cons label below after => label :: (labels below ++ labels after)

def size : OrderedForest Node → Nat
  | .nil => 0
  | .cons _ below after => 1 + size below + size after

/-- The links describe the forest, whose trees hang from `above`. -/
def Linked (links : Links Node) : Option Node → OrderedForest Node → Prop
  | _, .nil => True
  | above, .cons label below after =>
      links.parent label = above ∧ links.children label = roots below ∧
        Linked links (some label) below ∧ Linked links above after

theorem roots_subset_labels (forest : OrderedForest Node) : roots forest ⊆ labels forest := by
  induction forest with
  | nil => exact List.Subset.refl []
  | cons label below after _ ihAfter =>
      intro node member
      rcases List.mem_cons.mp member with rfl | later
      · exact List.mem_cons_self
      · exact List.mem_cons_of_mem _ (List.mem_append_right _ (ihAfter later))

theorem roots_nodup {forest : OrderedForest Node} (unique : (labels forest).Nodup) :
    (roots forest).Nodup := by
  induction forest with
  | nil => exact List.nodup_nil
  | cons label below after _ ihAfter =>
      obtain ⟨absent, rest⟩ := List.nodup_cons.mp unique
      have uniqueAfter := (List.nodup_append.mp rest).2.1
      refine List.nodup_cons.mpr ⟨fun inside => absent ?_, ihAfter uniqueAfter⟩
      exact List.mem_append_right _ (roots_subset_labels after inside)

/-- The children of a node of the forest are in it, each once. -/
theorem Linked.children_subset {links : Links Node} {above : Option Node}
    {forest : OrderedForest Node} (linked : Linked links above forest)
    (unique : (labels forest).Nodup) : ∀ node ∈ labels forest,
      links.children node ⊆ labels forest ∧ (links.children node).Nodup := by
  induction forest generalizing above with
  | nil => exact fun _ inside => absurd inside List.not_mem_nil
  | cons label below after ihBelow ihAfter =>
      obtain ⟨-, listed, linkedBelow, linkedAfter⟩ := linked
      obtain ⟨-, uniqueRest⟩ := List.nodup_cons.mp unique
      obtain ⟨uniqueBelow, uniqueAfter, -⟩ := List.nodup_append.mp uniqueRest
      intro node member
      rcases List.mem_cons.mp member with rfl | rest
      · rw [listed]
        exact ⟨fun child inside => List.mem_cons_of_mem _ (List.mem_append_left _
          (roots_subset_labels below inside)), roots_nodup uniqueBelow⟩
      · rcases List.mem_append.mp rest with inBelow | inAfter
        · obtain ⟨subset, once⟩ := ihBelow linkedBelow uniqueBelow node inBelow
          exact ⟨fun child inside => List.mem_cons_of_mem _ (List.mem_append_left _
            (subset inside)), once⟩
        · obtain ⟨subset, once⟩ := ihAfter linkedAfter uniqueAfter node inAfter
          exact ⟨fun child inside => List.mem_cons_of_mem _ (List.mem_append_right _
            (subset inside)), once⟩

section Walk
variable [DecidableEq Node] {links : Links Node} {origin : Option Node}
  {down up : Visitor Node Data}

theorem run_down (fuel : Nat) (node : Node) (data : Data) :
    run links origin down up (fuel + 1) (.down node, data) =
      if (down node data).2 ≠ 0 then some (down node data)
      else run links origin down up fuel
        (.loop node (links.children node).head?, (down node data).1) := by
  by_cases failed : (down node data).2 ≠ 0
  · simp only [run, step, if_pos failed]
  · simp only [run, step, if_neg failed]

theorem run_child (fuel : Nat) (node child : Node) (data : Data) :
    run links origin down up (fuel + 1) (.loop node (some child), data) =
      run links origin down up fuel (.down child, data) := rfl

theorem run_leave (fuel : Nat) (node : Node) (data : Data) :
    run links origin down up (fuel + 1) (.loop node none, data) =
      if (up node data).2 ≠ 0 ∨ some node = origin then some (up node data)
      else
        match links.parent node with
        | none => some (up node data)
        | some above => run links origin down up fuel
            (.loop above (ringNext (links.children above) node), (up node data).1) := by
  by_cases stops : (up node data).2 ≠ 0 ∨ some node = origin
  · simp only [run, step, if_pos stops]
  · simp only [run, step, if_neg stops]
    cases links.parent node <;> rfl

/-- The loop over the children of a node, from any of them on. The induction is
on the trees that are left; each node costs three steps. -/
theorem run_forest (forest : OrderedForest Node) (above : Node) (front : List Node) (data : Data)
    (linked : Linked links (some above) forest) (unique : (labels forest).Nodup)
    (list : links.children above = front ++ roots forest)
    (fresh : ∀ node ∈ front, node ∉ labels forest)
    (outside : ∀ node ∈ labels forest, some node ≠ origin) (fuel : Nat) :
    run links origin down up (3 * size forest + fuel) (.loop above (roots forest).head?, data) =
      if (visit down up forest data).2 ≠ 0 then some (visit down up forest data)
      else run links origin down up fuel (.loop above none, (visit down up forest data).1) := by
  induction forest generalizing above front data fuel with
  | nil => simp [size, visit, roots]
  | cons label below after ihBelow ihAfter =>
      obtain ⟨hangs, listed, linkedBelow, linkedAfter⟩ := linked
      obtain ⟨absent, uniqueRest⟩ := List.nodup_cons.mp unique
      obtain ⟨uniqueBelow, uniqueAfter, apart⟩ := List.nodup_append.mp uniqueRest
      have inBelow : ∀ node ∈ labels below, some node ≠ origin := fun node member =>
        outside node (List.mem_cons_of_mem _ (List.mem_append_left _ member))
      have inAfter : ∀ node ∈ labels after, some node ≠ origin := fun node member =>
        outside node (List.mem_cons_of_mem _ (List.mem_append_right _ member))
      have here : some label ≠ origin := outside label List.mem_cons_self
      have notFront : label ∉ front := fun inside => fresh label inside List.mem_cons_self
      have next : ringNext (links.children above) label = (roots after).head? := by
        rw [list, roots, ringNext_split front (roots after) label notFront]
      have cost : 3 * size (OrderedForest.cons label below after) + fuel =
          3 * size below + (3 * size after + fuel + 1) + 1 + 1 := by
        simp only [size]
        omega
      rw [cost, roots, List.head?_cons]
      rw [run_child, run_down, visit]
      by_cases entered : (down label data).2 ≠ 0
      · simp only [if_pos entered]
      · simp only [if_neg entered]
        rw [listed, ihBelow label [] _ linkedBelow uniqueBelow (by rw [listed, List.nil_append])
          (fun _ inside => absurd inside List.not_mem_nil) inBelow]
        by_cases inside : (visit down up below (down label data).1).2 ≠ 0
        · simp only [if_pos inside]
        · simp only [if_neg inside, run_leave, here, or_false, hangs, next]
          by_cases left : (up label (visit down up below (down label data).1).1).2 ≠ 0
          · simp only [if_pos left]
          · simp only [if_neg left]
            apply ihAfter above (front ++ [label]) _ linkedAfter uniqueAfter _ _ inAfter fuel
            · rw [list, roots, List.append_assoc, List.singleton_append]
            · intro node member inside
              rcases List.mem_append.mp member with early | last
              · exact fresh node early (List.mem_cons_of_mem _ (List.mem_append_right _ inside))
              · rw [List.mem_singleton.mp last] at inside
                exact absent (List.mem_append_right _ inside)

/-- From the node where the walk starts the loop does what the recursion does. -/
theorem run_tree (root : Node) (below : OrderedForest Node) (data : Data)
    (linked : Linked links (some root) below) (list : links.children root = roots below)
    (unique : (labels below).Nodup) (top : some root = origin ∨ links.parent root = none)
    (outside : ∀ node ∈ labels below, some node ≠ origin) (fuel : Nat)
    (enough : 3 * size below + 2 ≤ fuel) :
    run links origin down up fuel (.down root, data) =
      some (visit down up (.cons root below .nil) data) := by
  obtain ⟨spare, rfl⟩ := Nat.exists_eq_add_of_le enough
  have cost : 3 * size below + 2 + spare = 3 * size below + (spare + 1) + 1 := by omega
  rw [cost, run_down, visit]
  by_cases entered : (down root data).2 ≠ 0
  · simp only [if_pos entered]
  · simp only [if_neg entered]
    rw [list, run_forest below root [] _ linked unique (by rw [list, List.nil_append])
      (fun _ inside => absurd inside List.not_mem_nil) outside]
    by_cases inside : (visit down up below (down root data).1).2 ≠ 0
    · simp only [if_pos inside]
    · simp only [if_neg inside, run_leave]
      generalize up root (visit down up below (down root data).1).1 = left
      obtain ⟨rest, code⟩ := left
      by_cases failed : code ≠ 0
      · simp [failed]
      · obtain rfl := not_not.mp failed
        rcases top with same | none'
        · simp [same, visit]
        · by_cases same : some root = origin
          · simp [same, visit]
          · simp [same, none', visit]

end Walk

def checker (check : Node → Int) : Visitor Node Data := fun node data => (data, check node)

def firstError (check : Node → Int) : List Node → Int
  | [] => 0
  | node :: rest => if check node ≠ 0 then check node else firstError check rest

theorem firstError_append (check : Node → Int) (front back : List Node) :
    firstError check (front ++ back) =
      if firstError check front ≠ 0 then firstError check front else firstError check back := by
  induction front with
  | nil => simp [firstError]
  | cons node rest ih =>
      by_cases bad : check node ≠ 0
      · simp [firstError, bad]
      · simp only [List.cons_append, firstError, if_neg bad, ih]

theorem firstError_eq_zero (check : Node → Int) (nodes : List Node) :
    firstError check nodes = 0 ↔ ∀ node ∈ nodes, check node = 0 := by
  induction nodes with
  | nil => simp [firstError]
  | cons node rest ih =>
      by_cases bad : check node = 0
      · simp [firstError, bad, ih]
      · simp [firstError, bad]

theorem visit_checker (check : Node → Int) (forest : OrderedForest Node) (data : Data) :
    visit (checker check) nop forest data = (data, firstError check (labels forest)) := by
  induction forest generalizing data with
  | nil => rfl
  | cons label below after ihBelow ihAfter =>
      rw [labels, firstError, firstError_append, visit, ihBelow]
      by_cases own : check label ≠ 0
      · have entered : (checker check label data).2 ≠ 0 := own
        rw [if_pos own, if_pos entered]
        rfl
      · have entered : ¬ (checker check label data).2 ≠ 0 := own
        rw [if_neg own, if_neg entered]
        by_cases inside : firstError check (labels below) ≠ 0
        · simp only [if_pos inside]
          rfl
        · simp only [if_neg inside]
          exact ihAfter data

theorem visit_nop (down : Visitor Node Data) (label : Node) (below : OrderedForest Node)
    (data : Data) :
    visit down nop (.cons label below .nil) data =
      if (down label data).2 ≠ 0 then down label data
      else visit down nop below (down label data).1 := by
  rw [visit]
  generalize visit down nop below (down label data).1 = inside
  obtain ⟨left, code⟩ := inside
  by_cases failed : code = 0
  · subst failed
    simp [nop, visit]
  · simp [failed]

def Above (links : Links Node) (node below : Node) : Prop :=
  Relation.ReflTransGen (fun high low => links.parent low = some high) node below

theorem linked_above {links : Links Node} {top : Node} {forest : OrderedForest Node}
    (linked : Linked links (some top) forest) : ∀ node ∈ labels forest, Above links top node := by
  generalize hangs : some top = above at linked
  induction forest generalizing top above with
  | nil => exact fun _ inside => absurd inside List.not_mem_nil
  | cons label below after ihBelow ihAfter =>
      subst hangs
      obtain ⟨parent, -, linkedBelow, linkedAfter⟩ := linked
      intro node member
      rcases List.mem_cons.mp member with rfl | rest
      · exact .single parent
      · rcases List.mem_append.mp rest with inBelow | inAfter
        · exact .head parent (ihBelow _ rfl linkedBelow node inBelow)
        · exact ihAfter _ rfl linkedAfter node inAfter

theorem Linked.parent_mem {links : Links Node} {top : Node} {forest : OrderedForest Node}
    (linked : Linked links (some top) forest) : ∀ node ∈ labels forest,
      ∃ high, links.parent node = some high ∧ (high = top ∨ high ∈ labels forest) := by
  generalize hangs : some top = above at linked
  induction forest generalizing top above with
  | nil => exact fun _ inside => absurd inside List.not_mem_nil
  | cons label below after ihBelow ihAfter =>
      subst hangs
      obtain ⟨parent, -, linkedBelow, linkedAfter⟩ := linked
      intro node member
      simp only [labels, List.mem_cons, List.mem_append] at member ⊢
      rcases member with rfl | inBelow | inAfter
      · exact ⟨top, parent, .inl rfl⟩
      · obtain ⟨high, up, same | inside⟩ := ihBelow _ rfl linkedBelow node inBelow
        · exact ⟨high, up, .inr (.inl same)⟩
        · exact ⟨high, up, .inr (.inr (.inl inside))⟩
      · obtain ⟨high, up, same | inside⟩ := ihAfter _ rfl linkedAfter node inAfter
        · exact ⟨high, up, .inl same⟩
        · exact ⟨high, up, .inr (.inr (.inr inside))⟩

/-- Links that agree on a set of nodes closed upwards have the same order on it. -/
theorem Above.congr {links other : Links Node} {inside : Node → Prop}
    (closed : ∀ node, inside node → ∀ high, links.parent node = some high → inside high)
    (same : ∀ node, inside node → other.parent node = links.parent node) {high low : Node}
    (start : inside low) : Above other high low ↔ Above links high low := by
  constructor
  · intro above
    induction above with
    | refl => exact .refl
    | tail _ last ih =>
        rw [same _ start] at last
        exact (ih (closed _ start _ last)).tail last
  · intro above
    induction above with
    | refl => exact .refl
    | tail _ last ih => exact (ih (closed _ start _ last)).tail ((same _ start).trans last)

section Weights
variable [DecidableEq Node]

theorem sum_cover_le (weight : Node → Nat) {all left right : Finset Node}
    (cover : all ⊆ left ∪ right) :
    ∑ node ∈ all, weight node ≤ ∑ node ∈ left, weight node + ∑ node ∈ right, weight node := by
  calc ∑ node ∈ all, weight node
      ≤ ∑ node ∈ left ∪ right, weight node := Finset.sum_le_sum_of_subset cover
    _ ≤ ∑ node ∈ left, weight node + ∑ node ∈ right, weight node := by
        rw [← Finset.sum_union_inter]
        exact Nat.le_add_right _ _

/-- Where no node's children outweigh it, nodes none of which lies above
another weigh no more than the roots. -/
theorem antichain_le {links : Links Node} {above : Option Node} (weight : Node → Nat)
    (forest : OrderedForest Node) (linked : Linked links above forest)
    (unique : (labels forest).Nodup)
    (heavier : ∀ node ∈ labels forest,
      ((links.children node).map weight).sum ≤ weight node) (chosen : Finset Node)
    (apart : ∀ high ∈ chosen, ∀ low ∈ chosen, Above links high low → high = low) :
    ∑ node ∈ chosen with node ∈ labels forest, weight node ≤
      ((roots forest).map weight).sum := by
  induction forest generalizing above with
  | nil => simp [labels]
  | cons label below after ihBelow ihAfter =>
      obtain ⟨-, listed, linkedBelow, linkedAfter⟩ := linked
      obtain ⟨absent, uniqueRest⟩ := List.nodup_cons.mp unique
      obtain ⟨uniqueBelow, uniqueAfter, -⟩ := List.nodup_append.mp uniqueRest
      have down := ihBelow linkedBelow uniqueBelow fun node member =>
        heavier node (List.mem_cons_of_mem _ (List.mem_append_left _ member))
      have right := ihAfter linkedAfter uniqueAfter fun node member =>
        heavier node (List.mem_cons_of_mem _ (List.mem_append_right _ member))
      have own := heavier label List.mem_cons_self
      rw [listed] at own
      have head : ((roots (.cons label below after)).map weight).sum =
          weight label + ((roots after).map weight).sum := List.sum_cons
      by_cases taken : label ∈ chosen
      · -- nothing below a chosen node is chosen
        have cover : (chosen.filter fun node => node ∈ labels (.cons label below after)) ⊆
            {label} ∪ chosen.filter fun node => node ∈ labels after := by
          intro node member
          obtain ⟨inChosen, inside⟩ := Finset.mem_filter.mp member
          rcases List.mem_cons.mp inside with rfl | rest
          · simp
          · rcases List.mem_append.mp rest with inBelow | inAfter
            · have high := linked_above linkedBelow node inBelow
              simp [apart label taken node inChosen high]
            · simp [inChosen, inAfter]
        have split := sum_cover_le weight cover
        rw [Finset.sum_singleton] at split
        omega
      · have cover : (chosen.filter fun node => node ∈ labels (.cons label below after)) ⊆
            (chosen.filter fun node => node ∈ labels below) ∪
              chosen.filter fun node => node ∈ labels after := by
          intro node member
          obtain ⟨inChosen, inside⟩ := Finset.mem_filter.mp member
          rcases List.mem_cons.mp inside with rfl | rest
          · exact absurd inChosen taken
          · simpa [inChosen] using rest
        have split := sum_cover_le weight cover
        omega

end Weights

section Leaves
variable [DecidableEq Node] {links : Links Node}

def addLeaf (links : Links Node) (above node : Node) : Links Node where
  parent := Function.update links.parent node (some above)
  children := Function.update
    (Function.update links.children above (node :: links.children above)) node []

def removeLeaf (links : Links Node) (above node : Node) : Links Node where
  parent := links.parent
  children := Function.update links.children above ((links.children above).erase node)

def insert (above node : Node) : OrderedForest Node → OrderedForest Node
  | .nil => .nil
  | .cons label below after =>
      if label = above then .cons label (.cons node .nil below) after
      else .cons label (insert above node below) (insert above node after)

def remove (node : Node) : OrderedForest Node → OrderedForest Node
  | .nil => .nil
  | .cons label below after =>
      if label = node then after else .cons label (remove node below) (remove node after)

omit [DecidableEq Node] in
theorem Linked.congr {other : Links Node} {above : Option Node} {forest : OrderedForest Node}
    (linked : Linked links above forest)
    (same : ∀ node ∈ labels forest, other.parent node = links.parent node ∧
      other.children node = links.children node) : Linked other above forest := by
  induction forest generalizing above with
  | nil => trivial
  | cons label below after ihBelow ihAfter =>
      obtain ⟨hangs, listed, linkedBelow, linkedAfter⟩ := linked
      obtain ⟨parent, children⟩ := same label List.mem_cons_self
      have sameBelow := fun node member =>
        same node (List.mem_cons_of_mem _ (List.mem_append_left _ member))
      have sameAfter := fun node member =>
        same node (List.mem_cons_of_mem _ (List.mem_append_right _ member))
      exact ⟨parent.trans hangs, children.trans listed, ihBelow linkedBelow sameBelow,
        ihAfter linkedAfter sameAfter⟩

omit [DecidableEq Node] in
theorem Linked.root {above : Option Node} {forest : OrderedForest Node}
    (linked : Linked links above forest) {node : Node} (member : node ∈ roots forest) :
    links.parent node = above := by
  induction forest generalizing above with
  | nil => exact absurd member List.not_mem_nil
  | cons label below after _ ihAfter =>
      obtain ⟨hangs, -, -, linkedAfter⟩ := linked
      rcases List.mem_cons.mp member with rfl | later
      · exact hangs
      · exact ihAfter linkedAfter later

theorem insert_absent {above : Node} (node : Node) {forest : OrderedForest Node}
    (absent : above ∉ labels forest) : insert above node forest = forest := by
  induction forest with
  | nil => rfl
  | cons label below after ihBelow ihAfter =>
      simp only [labels, List.mem_cons, List.mem_append, not_or] at absent
      rw [insert, if_neg (Ne.symm absent.1), ihBelow absent.2.1, ihAfter absent.2.2]

theorem roots_insert (above node : Node) (forest : OrderedForest Node) :
    roots (insert above node forest) = roots forest := by
  induction forest with
  | nil => rfl
  | cons label below after _ ihAfter =>
      rw [insert]
      split
      next => rfl
      next => rw [roots, roots, ihAfter]

theorem labels_insert {above : Node} (node : Node) {forest : OrderedForest Node}
    (unique : (labels forest).Nodup) (inside : above ∈ labels forest) :
    (labels (insert above node forest)).Perm (node :: labels forest) := by
  induction forest with
  | nil => exact absurd inside List.not_mem_nil
  | cons label below after ihBelow ihAfter =>
      obtain ⟨absent, uniqueRest⟩ := List.nodup_cons.mp unique
      obtain ⟨uniqueBelow, uniqueAfter, apart⟩ := List.nodup_append.mp uniqueRest
      rw [insert]
      split
      next same => exact List.Perm.swap node label _
      next other =>
        have rest := (List.mem_cons.mp inside).resolve_left fun same => other same.symm
        refine .trans ?_ (List.Perm.swap node label _)
        refine List.Perm.cons label ?_
        by_cases inBelow : above ∈ labels below
        · have notAfter : above ∉ labels after := fun later => apart above inBelow above later rfl
          rw [insert_absent node notAfter]
          exact (ihBelow uniqueBelow inBelow).append_right _
        · have inAfter := (List.mem_append.mp rest).resolve_left inBelow
          rw [insert_absent node inBelow]
          exact ((ihAfter uniqueAfter inAfter).append_left _).trans List.perm_middle

theorem addLeaf_parent {above node other : Node} (differs : other ≠ node) :
    (addLeaf links above node).parent other = links.parent other :=
  Function.update_of_ne differs _ _

theorem addLeaf_children {above node other : Node} (differs : other ≠ node)
    (elsewhere : other ≠ above) :
    (addLeaf links above node).children other = links.children other := by
  simp [addLeaf, differs, elsewhere]

theorem addLeaf_above {above node : Node} (differs : above ≠ node) :
    (addLeaf links above node).children above = node :: links.children above := by
  simp [addLeaf, differs]

theorem Linked.insert {top : Option Node} {above node : Node} {forest : OrderedForest Node}
    (linked : Linked links top forest) (unique : (labels forest).Nodup)
    (fresh : node ∉ labels forest) :
    Linked (addLeaf links above node) top (insert above node forest) := by
  induction forest generalizing top with
  | nil => trivial
  | cons label below after ihBelow ihAfter =>
      obtain ⟨hangs, listed, linkedBelow, linkedAfter⟩ := linked
      obtain ⟨absent, uniqueRest⟩ := List.nodup_cons.mp unique
      obtain ⟨uniqueBelow, uniqueAfter, apart⟩ := List.nodup_append.mp uniqueRest
      simp only [labels, List.mem_cons, List.mem_append, not_or] at fresh absent
      have own : label ≠ node := fun same => fresh.1 same.symm
      rw [TreeWalk.insert]
      split
      next same =>
        subst same
        have frame : ∀ other, other ≠ node → other ≠ label →
            (addLeaf links label node).parent other = links.parent other ∧
              (addLeaf links label node).children other = links.children other :=
          fun other differs elsewhere =>
            ⟨addLeaf_parent differs, addLeaf_children differs elsewhere⟩
        have leaf : (addLeaf links label node).parent node = some label ∧
            (addLeaf links label node).children node = [] := by
          constructor <;> exact Function.update_self _ _ _
        refine ⟨(addLeaf_parent own).trans hangs, ?_, ⟨leaf.1, leaf.2, trivial, ?_⟩, ?_⟩
        · rw [addLeaf_above own, listed]
          rfl
        · exact linkedBelow.congr fun other member => frame other
            (fun same => fresh.2.1 (same ▸ member)) fun same => absent.1 (same ▸ member)
        · exact linkedAfter.congr fun other member => frame other
            (fun same => fresh.2.2 (same ▸ member)) fun same => absent.2 (same ▸ member)
      next other =>
        refine ⟨(addLeaf_parent own).trans hangs, ?_, ihBelow linkedBelow uniqueBelow fresh.2.1,
          ihAfter linkedAfter uniqueAfter fresh.2.2⟩
        rw [addLeaf_children own other, listed, roots_insert]

theorem roots_remove (node : Node) (forest : OrderedForest Node) :
    roots (remove node forest) = (roots forest).erase node := by
  induction forest with
  | nil => rfl
  | cons label below after _ ihAfter =>
      rw [remove]
      by_cases same : label = node
      · subst same
        rw [if_pos rfl, roots, List.erase_cons_head]
      · rw [if_neg same, roots, roots, ihAfter, List.erase_cons_tail (by simpa using same)]

/-- A leaf that is taken away is the only node that goes. -/
theorem labels_remove {top : Option Node} {node : Node} {forest : OrderedForest Node}
    (linked : Linked links top forest) (unique : (labels forest).Nodup)
    (leaf : links.children node = []) :
    labels (remove node forest) = (labels forest).erase node := by
  induction forest generalizing top with
  | nil => rfl
  | cons label below after ihBelow ihAfter =>
      obtain ⟨-, listed, linkedBelow, linkedAfter⟩ := linked
      obtain ⟨-, uniqueRest⟩ := List.nodup_cons.mp unique
      obtain ⟨uniqueBelow, uniqueAfter, apart⟩ := List.nodup_append.mp uniqueRest
      rw [remove]
      by_cases same : label = node
      · subst same
        have none : below = .nil := by
          cases below with
          | nil => rfl
          | cons first _ _ => simp [leaf, roots] at listed
        rw [if_pos rfl, labels, List.erase_cons_head, none, labels, List.nil_append]
      · rw [if_neg same, labels, labels, List.erase_cons_tail (by simpa using same),
          ihBelow linkedBelow uniqueBelow, ihAfter linkedAfter uniqueAfter]
        by_cases inBelow : node ∈ labels below
        · have notAfter : node ∉ labels after := fun later => apart node inBelow node later rfl
          rw [List.erase_append_left _ inBelow, List.erase_of_not_mem notAfter]
        · rw [List.erase_append_right _ inBelow, List.erase_of_not_mem inBelow]

theorem Linked.remove {top : Option Node} {above node : Node} {forest : OrderedForest Node}
    (linked : Linked links top forest) (unique : (labels forest).Nodup)
    (hangs : links.parent node = some above)
    (outside : ∀ high, top = some high → high ∉ labels forest) :
    Linked (removeLeaf links above node) top (remove node forest) := by
  induction forest generalizing top with
  | nil => trivial
  | cons label below after ihBelow ihAfter =>
      obtain ⟨parent, listed, linkedBelow, linkedAfter⟩ := linked
      obtain ⟨absent, uniqueRest⟩ := List.nodup_cons.mp unique
      obtain ⟨uniqueBelow, uniqueAfter, apart⟩ := List.nodup_append.mp uniqueRest
      have outAfter : ∀ high, top = some high → high ∉ labels after := fun high same member =>
        outside high same (List.mem_cons_of_mem _ (List.mem_append_right _ member))
      have outBelow : ∀ high, some label = some high → high ∉ labels below := by
        rintro high same member
        obtain rfl := Option.some.inj same
        exact absent (List.mem_append_left _ member)
      rw [TreeWalk.remove]
      split
      next same =>
        subst same
        refine linkedAfter.congr fun other member => ⟨rfl, Function.update_of_ne ?_ _ _⟩
        rintro rfl
        exact outAfter other (parent.symm.trans hangs) member
      next differs =>
        refine ⟨parent, ?_, ihBelow linkedBelow uniqueBelow outBelow,
          ihAfter linkedAfter uniqueAfter outAfter⟩
        rw [roots_remove, ← listed]
        by_cases same : label = above
        · subst same
          exact Function.update_self _ _ _
        · -- a child of another node has another parent
          have stays : node ∉ links.children label := by
            intro child
            rw [listed] at child
            have parent' := linkedBelow.root child
            rw [hangs, Option.some.injEq] at parent'
            exact same parent'.symm
          rw [List.erase_of_not_mem stays]
          exact Function.update_of_ne same _ _

end Leaves

end AndroidKernel.TreeWalk
