import AndroidKernel.Runqueue
import AndroidKernel.TreeWalk

/-!
The tree of task groups: `walk_tg_tree` of both kernels, and what creating and
destroying a group does to the links. 3.4 walks from a node it is given and
stops there again, 3.1 always from the root, whose parent is null.
-/

namespace AndroidKernel

open PreOrder TreeWalk

structure TaskGroups where
  links : Links Group
  /-- The list `task_groups`. -/
  groups : List Group

namespace TaskGroups

/-- `walk_tg_tree`. The fuel covers every group; `none` would be a walk that
does not end. -/
def walkTgTree {Data : Type} (kernel : Kernel) (tg : TaskGroups) (down up : Visitor Group Data)
    (data : Data) : Option (Data × Int) :=
  let origin :=
    match kernel with
    | .goldfish => some rootTaskGroup
    | .tegra => none
  run tg.links origin down up (3 * tg.groups.length + 2) (.down rootTaskGroup, data)

def schedCreateGroup (tg : TaskGroups) (parent group : Group) : TaskGroups where
  links := addLeaf tg.links parent group
  groups := group :: tg.groups

def schedDestroyGroup (tg : TaskGroups) (group : Group) : TaskGroups where
  links :=
    match tg.links.parent group with
    | some parent => removeLeaf tg.links parent group
    | none => tg.links
  groups := tg.groups.erase group

def init : TaskGroups where
  links := { parent := fun _ => none, children := fun _ => [] }
  groups := [rootTaskGroup]

structure Rooted (tg : TaskGroups) (below : OrderedForest Group) : Prop where
  linked : Linked tg.links none (.cons rootTaskGroup below .nil)
  unique : (labels (.cons rootTaskGroup below .nil)).Nodup
  listed : (labels (.cons rootTaskGroup below .nil)).Perm tg.groups

theorem size_eq (forest : OrderedForest Group) : size forest = (labels forest).length := by
  induction forest with
  | nil => rfl
  | cons label below after ihBelow ihAfter =>
      rw [size, labels, List.length_cons, List.length_append, ihBelow, ihAfter]
      omega

theorem init_rooted : Rooted init .nil where
  linked := ⟨rfl, rfl, trivial, trivial⟩
  unique := List.nodup_singleton _
  listed := .refl _

section Rooted
variable {tg : TaskGroups} {below : OrderedForest Group}

theorem Rooted.mem_iff (rooted : Rooted tg below) {group : Group} :
    group ∈ tg.groups ↔ group ∈ labels (.cons rootTaskGroup below .nil) :=
  rooted.listed.mem_iff.symm

theorem Rooted.children_groups (rooted : Rooted tg below) {group : Group}
    (known : group ∈ tg.groups) :
    (∀ child ∈ tg.links.children group, child ∈ tg.groups) ∧
      (tg.links.children group).Nodup := by
  obtain ⟨subset, once⟩ :=
    rooted.linked.children_subset rooted.unique group (rooted.mem_iff.mp known)
  exact ⟨fun child inside => rooted.mem_iff.mpr (subset inside), once⟩

/-- Every walk ends, and visits the tree in order. -/
theorem Rooted.walk {Data : Type} (rooted : Rooted tg below) (kernel : Kernel)
    (down up : Visitor Group Data) (data : Data) :
    walkTgTree kernel tg down up data =
      some (visit down up (.cons rootTaskGroup below .nil) data) := by
  obtain ⟨top, list, linked, -⟩ := rooted.linked
  have unique := rooted.unique
  simp only [labels, List.append_nil, List.nodup_cons] at unique
  have length := rooted.listed.length_eq
  simp only [labels, List.append_nil, List.length_cons] at length
  have enough : 3 * size below + 2 ≤ 3 * tg.groups.length + 2 := by
    rw [size_eq]
    omega
  unfold walkTgTree
  cases kernel with
  | goldfish =>
      apply run_tree rootTaskGroup below data linked list unique.2 (.inl rfl) _ _ enough
      intro node member same
      obtain rfl := Option.some.inj same
      exact unique.1 member
  | tegra =>
      apply run_tree rootTaskGroup below data linked list unique.2 (.inr top) _ _ enough
      intro node _ same
      cases same

theorem Rooted.parent_cases (rooted : Rooted tg below) {group : Group}
    (known : group ∈ tg.groups) : (group = rootTaskGroup ∧ tg.links.parent group = none) ∨
      (group ≠ rootTaskGroup ∧ ∃ high, tg.links.parent group = some high ∧ high ∈ tg.groups) := by
  obtain ⟨top, -, linked, -⟩ := rooted.linked
  have unique := rooted.unique
  simp only [labels, List.append_nil, List.nodup_cons] at unique
  rcases List.mem_cons.mp (rooted.mem_iff.mp known) with rfl | member
  · exact .inl ⟨rfl, top⟩
  · have inBelow : group ∈ labels below := by simpa [labels] using member
    have other : group ≠ rootTaskGroup := fun same => unique.1 (same ▸ inBelow)
    obtain ⟨high, hangs, same | inside⟩ := linked.parent_mem group inBelow
    · exact .inr ⟨other, high, hangs, rooted.mem_iff.mpr (same ▸ List.mem_cons_self)⟩
    · exact .inr ⟨other, high, hangs, rooted.mem_iff.mpr (by simp [labels, inside])⟩

theorem Rooted.parent_none (rooted : Rooted tg below) {group : Group}
    (known : group ∈ tg.groups) : tg.links.parent group = none ↔ group = rootTaskGroup := by
  rcases rooted.parent_cases known with ⟨same, none'⟩ | ⟨other, high, hangs, -⟩
  · exact iff_of_true none' same
  · exact iff_of_false (by simp [hangs]) other

theorem Rooted.parent_groups (rooted : Rooted tg below) {group : Group}
    (known : group ∈ tg.groups) (high : Group) (hangs : tg.links.parent group = some high) :
    high ∈ tg.groups := by
  rcases rooted.parent_cases known with ⟨-, none'⟩ | ⟨-, other, hangs', member⟩
  · rw [hangs] at none'
    cases none'
  · rw [hangs, Option.some.injEq] at hangs'
    exact hangs' ▸ member

theorem Rooted.above_groups (rooted : Rooted tg below) {high group : Group}
    (known : group ∈ tg.groups) (above : Above tg.links high group) : high ∈ tg.groups := by
  induction above with
  | refl => exact known
  | tail _ last ih => exact ih (rooted.parent_groups known _ last)

theorem Rooted.create (rooted : Rooted tg below) {parent group : Group}
    (known : parent ∈ tg.groups) (fresh : group ∉ tg.groups) :
    ∃ grown, Rooted (schedCreateGroup tg parent group) grown := by
  have inside := rooted.mem_iff.mp known
  have outside := rooted.mem_iff.not.mp fresh
  have linked := @Linked.insert _ _ _ _ parent _ _ rooted.linked rooted.unique outside
  have perm := labels_insert group rooted.unique inside
  have unique := perm.nodup_iff.mpr (List.nodup_cons.mpr ⟨outside, rooted.unique⟩)
  have listed := perm.trans (rooted.listed.cons group)
  by_cases root : rootTaskGroup = parent
  · simp only [TreeWalk.insert, if_pos root] at linked unique listed
    exact ⟨.cons group .nil below, linked, unique, listed⟩
  · simp only [TreeWalk.insert, if_neg root] at linked unique listed
    exact ⟨TreeWalk.insert parent group below, linked, unique, listed⟩

theorem Rooted.destroy (rooted : Rooted tg below) {group : Group}
    (other : group ≠ rootTaskGroup) (known : group ∈ tg.groups)
    (leaf : tg.links.children group = []) :
    ∃ pruned, Rooted (schedDestroyGroup tg group) pruned := by
  obtain ⟨-, -, linkedBelow, -⟩ := rooted.linked
  have perm := labels_remove rooted.linked rooted.unique leaf
  have unique : (labels (remove group (.cons rootTaskGroup below .nil))).Nodup := by
    rw [perm]
    exact rooted.unique.erase group
  have listed : (labels (remove group (.cons rootTaskGroup below .nil))).Perm
      (tg.groups.erase group) := by
    rw [perm]
    exact rooted.listed.erase group
  have inBelow : group ∈ labels below := by
    have inside := rooted.mem_iff.mp known
    simpa [labels, other] using inside
  obtain ⟨parent, hangs⟩ : ∃ parent, tg.links.parent group = some parent :=
    (linkedBelow.parent_mem group inBelow).imp fun _ => And.left
  have linked := rooted.linked.remove rooted.unique hangs fun _ same => by cases same
  simp only [remove, if_neg other.symm] at linked unique listed
  refine ⟨remove group below, ?_, unique, listed⟩
  simp only [schedDestroyGroup, hangs]
  exact linked

end Rooted

end TaskGroups

end AndroidKernel
