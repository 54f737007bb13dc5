import AndroidKernel.PtreeShape

/-!
`parent_pid` is a field that the copy loop hands out but `DFS` never fills in, so
every record says 0, as the static buffer did when the module was loaded. The
parent of a record is the nearest one before it that is one level up, and 0 is
its pid only where the swapper is the one task with children.
-/

namespace AndroidKernel.Ptree

open PreOrder

/-- The global variables any number of calls after the module was loaded; a
static array starts zeroed. -/
inductive Loaded : Globals → Prop
  | load {g : Globals} (zeroed : ∀ i, (g.bufTmp i).parentPid = 0) : Loaded g
  | call {g : Globals} {mem : Memory} {fuel : Nat} {user : UserMemory} {result : PtreeResult}
      (before : Loaded g) (done : ptree mem fuel g user = some result) : Loaded result.globals

structure NearestAbove (buf : Nat → Prinfo) (i j : Nat) : Prop where
  earlier : j < i
  level : (buf j).level + 1 = (buf i).level
  between : ∀ k, j < k → k < i → (buf k).level + 1 ≠ (buf i).level

structure ParentsReported (user : UserMemory) : Prop where
  root : (user.buf 0).parentPid = 0
  below : ∀ i < user.nr, 0 < (user.buf i).level →
    ∃ j, NearestAbove user.buf i j ∧ (user.buf i).parentPid = (user.buf j).pid

theorem NearestAbove.unique {buf : Nat → Prinfo} {i j k : Nat} (one : NearestAbove buf i j)
    (two : NearestAbove buf i k) : j = k := by
  rcases Nat.lt_trichotomy j k with before | same | after
  · exact absurd two.level (one.between k before two.earlier)
  · exact same
  · exact absurd one.level (two.between j after one.earlier)

theorem store_parentPid (mem : Memory) (entry : Addr) (level : Nat) (g : Globals) (i : Nat) :
    ((store mem entry level g).bufTmp i).parentPid = (g.bufTmp i).parentPid := by
  by_cases here : i = g.nrTmp
  · simp [store, here, fill]
  · simp [store, here]

theorem stores_parentPid (mem : Memory) (fuel : Nat) :
    (∀ entry level g reached, dfsStores mem fuel entry level g = some reached →
      ∀ i, (reached.1.bufTmp i).parentPid = (g.bufTmp i).parentPid) ∧
    (∀ head item level g reached, walkStores mem fuel head item level g = some reached →
      ∀ i, (reached.1.bufTmp i).parentPid = (g.bufTmp i).parentPid) := by
  induction fuel with
  | zero => simp [dfsStores, walkStores]
  | succ fuel ih =>
      obtain ⟨ihDfs, ihWalk⟩ := ih
      constructor
      · intro entry level g reached done i
        rw [dfsStores] at done
        split at done
        · cases done
          rfl
        · split at done
          · cases done
            exact store_parentPid mem entry level g i
          · obtain ⟨walked, below, rfl⟩ := Option.map_eq_some_iff.mp done
            rw [ihWalk _ _ _ _ _ below i, store_parentPid]
      · intro head item level g reached done i
        rw [walkStores] at done
        split at done
        · cases done
          rfl
        · split at done
          · cases done
          · rename_i called first
            obtain ⟨walked, rest, rfl⟩ := Option.map_eq_some_iff.mp done
            rw [ihWalk _ _ _ _ _ rest i, ihDfs _ _ _ _ first i]

theorem ptree_parentPid {mem : Memory} {fuel : Nat} {g : Globals} {user : UserMemory}
    {result : PtreeResult} (done : ptree mem fuel g user = some result) (i : Nat) :
    (result.globals.bufTmp i).parentPid = (g.bufTmp i).parentPid := by
  rw [ptree, dfs_bounded] at done
  cases walked : dfsStores mem fuel mem.initTask 0 { g with nrTmp := 0 } with
  | none => simp [walked, bounded] at done
  | some reached =>
      by_cases inside : Inside reached.2
      · simp only [walked, bounded, if_pos inside] at done
        cases looped : copyLoop reached.1 reached.1.nrTmp 0 { user with nr := reached.1.nrTmp } with
        | none => simp [looped] at done
        | some out =>
            simp only [looped, Option.some.injEq] at done
            rw [← done]
            exact (stores_parentPid mem fuel).1 _ _ _ _ walked i
      · simp [walked, bounded, inside] at done

theorem Loaded.parentPid {g : Globals} (loaded : Loaded g) :
    ∀ i, (g.bufTmp i).parentPid = 0 := by
  induction loaded with
  | load zeroed => exact zeroed
  | call before done ih =>
      intro i
      rw [ptree_parentPid done i, ih i]

theorem Delivered.parentPid {mem : Memory} {kids : Forest} {g : Globals} {user : UserMemory}
    {result : PtreeResult} (delivered : Delivered mem kids g user result) (i : Nat)
    (inside : i < (listing mem kids).length) :
    (result.user.buf i).parentPid = (g.bufTmp i).parentPid := by
  obtain ⟨comm, -, record⟩ := delivered.copied i inside
  rw [record, delivered.filled i _ (List.getElem?_eq_getElem inside), fill]

section Family
variable {mem : Memory} {kids : Forest}

theorem Forest.family_visits (forest : Forest) (above : Addr) (level : Nat) :
    ∀ entry ∈ forest.shape.family above level, entry.1 = above ∧ forest.roots ≠ [] ∨
      ∃ visit ∈ forest.listing level, visit.task = entry.1 ∧ visit.children ≠ [] := by
  induction forest generalizing above level with
  | nil =>
      intro entry member
      simp [shape, OrderedForest.family] at member
  | cons task kids rest below after =>
      intro entry member
      rcases List.mem_cons.mp member with rfl | later
      · exact .inl ⟨rfl, List.cons_ne_nil _ _⟩
      · rcases List.mem_append.mp later with inKids | inRest
        · right
          rcases below task (level + 1) entry inKids with ⟨same, some⟩ | ⟨visit, inside, found⟩
          · exact ⟨⟨task, level, kids.roots⟩, List.mem_cons_self, same.symm, some⟩
          · exact ⟨visit, List.mem_cons_of_mem _ (List.mem_append_left _ inside), found⟩
        · rcases after above level entry inRest with ⟨same, -⟩ | ⟨visit, inside, found⟩
          · exact .inl ⟨same, List.cons_ne_nil _ _⟩
          · exact .inr ⟨visit, List.mem_cons_of_mem _ (List.mem_append_right _ inside), found⟩

theorem Forest.visits_family (forest : Forest) (above : Addr) (level : Nat) :
    ∀ visit ∈ forest.listing level, visit.children ≠ [] →
      ∃ entry ∈ forest.shape.family above level, entry.1 = visit.task := by
  induction forest generalizing above level with
  | nil =>
      intro visit member
      simp [listing] at member
  | cons task kids rest below after =>
      intro visit member some
      rcases List.mem_cons.mp member with rfl | later
      · cases kids with
        | nil => exact absurd rfl some
        | cons child grandchildren others =>
            exact ⟨(task, level + 1, child),
              List.mem_cons_of_mem _ (List.mem_append_left _ List.mem_cons_self), rfl⟩
      · rcases List.mem_append.mp later with inKids | inRest
        · obtain ⟨entry, inside, same⟩ := below task (level + 1) visit inKids some
          exact ⟨entry, List.mem_cons_of_mem _ (List.mem_append_left _ inside), same⟩
        · obtain ⟨entry, inside, same⟩ := after above level visit inRest some
          exact ⟨entry, List.mem_cons_of_mem _ (List.mem_append_right _ inside), same⟩

theorem Forest.InMemory.family_child {forest : Forest} {owner : Addr} {item : ListHead}
    (inMem : forest.InMemory mem owner item) (steps : Nat)
    (place : mem.next^[steps] (.children owner) = item) (level : Nat) :
    ∀ entry ∈ forest.shape.family owner level, Child mem entry.1 entry.2.2 := by
  induction forest generalizing owner item steps level with
  | nil =>
      intro entry member
      simp [shape, OrderedForest.family] at member
  | cons task kids rest below after =>
      obtain ⟨rfl, -, kidsMem, restMem⟩ := inMem
      intro entry member
      rcases List.mem_cons.mp member with rfl | later
      · exact ⟨steps, place⟩
      · rcases List.mem_append.mp later with inKids | inRest
        · exact below kidsMem 1 rfl (level + 1) entry inKids
        · exact after restMem (steps + 1) (by rw [Function.iterate_succ_apply', place]) level
            entry inRest

def family (mem : Memory) (kids : Forest) : List (Addr × Nat × Addr) :=
  kids.shape.family mem.initTask 1

theorem family_length (mem : Memory) (kids : Forest) :
    (family mem kids).length + 1 = (listing mem kids).length := by
  have lengths := congrArg List.length (OrderedForest.family_levels kids.shape mem.initTask 1)
  rw [List.length_map, ← Forest.listing_levels, List.length_map] at lengths
  rw [family, lengths, listing, List.length_cons]

/-- The parent stands in the listing as the nearest task one level up. -/
theorem family_nearest (i : Nat) (entry : Addr × Nat × Addr)
    (found : (family mem kids)[i]? = some entry) :
    let items := (listing mem kids).map fun visit => (visit.level, visit.task)
    items[i + 1]? = some entry.2 ∧ ∃ j < i + 1, items[j]? = some (entry.2.1 - 1, entry.1) ∧
      ∀ k item, j < k → k < i + 1 → items[k]? = some item → item.1 ≠ entry.2.1 - 1 := by
  intro items
  have split : items = (0, mem.initTask) :: kids.shape.levels 1 := by
    simp [items, listing, Forest.listing_levels]
  have annotated := congrArg (·[i]?)
    (annotate_levels kids.shape mem.initTask 0 [(0, mem.initTask)] rfl)
  simp only [annotate_get, List.getElem?_map] at annotated
  rw [family] at found
  rw [Nat.zero_add, found, Option.map_some, Option.map_eq_some_iff] at annotated
  obtain ⟨item, there, same⟩ := annotated
  obtain ⟨nearestIs, rfl⟩ := Prod.mk.inj same
  constructor
  · rw [split, List.getElem?_cons_succ, there]
  · apply nearest_position
    rw [split, List.take_succ_cons, List.reverse_cons]
    exact nearestIs

end Family

section Call
variable {mem : Memory} {kids : Forest} {g : Globals} {user : UserMemory} {result : PtreeResult}

theorem ListingReturned.item (listed : ListingReturned mem kids result) (i : Nat)
    (item : Nat × Addr)
    (found : ((listing mem kids).map fun visit => (visit.level, visit.task))[i]? = some item) :
    (result.user.buf i).level = item.1 ∧ (result.user.buf i).pid = (mem.task item.2).pid := by
  rw [List.getElem?_map, Option.map_eq_some_iff] at found
  obtain ⟨visit, there, rfl⟩ := found
  have record := listed.describes i visit there
  exact ⟨record.level, record.pid⟩

theorem ListingReturned.nearest (listed : ListingReturned mem kids result) (i : Nat)
    (entry : Addr × Nat × Addr) (found : (family mem kids)[i]? = some entry) :
    (result.user.buf (i + 1)).level = entry.2.1 ∧
      (result.user.buf (i + 1)).pid = (mem.task entry.2.2).pid ∧
      ∃ j, NearestAbove result.user.buf (i + 1) j ∧
        (listing mem kids)[j]?.map Visit.task = some entry.1 ∧
        (result.user.buf j).pid = (mem.task entry.1).pid := by
  obtain ⟨own, j, before, above, between⟩ := family_nearest i entry found
  have levels := listed.item (i + 1) entry.2 own
  have parent := listed.item j _ above
  have deep : 1 ≤ entry.2.1 := by
    apply kids.shape.le_levels 1 entry.2
    rw [← kids.shape.family_levels mem.initTask 1]
    exact List.mem_map.mpr ⟨entry, List.mem_of_getElem? found, rfl⟩
  have parentTask : (listing mem kids)[j]?.map Visit.task = some entry.1 := by
    have second := congrArg (Option.map Prod.snd) above
    simpa using second
  refine ⟨levels.1, levels.2, j, ⟨before, ?_, ?_⟩, parentTask, parent.2⟩
  · rw [parent.1, levels.1]
    omega
  · intro k after upto same
    -- record `k` describes a task that is not one level up
    have listedAt : k < (listing mem kids).length := by
      have inside := (List.getElem?_eq_some_iff.mp found).1
      have lengths := family_length mem kids
      omega
    have there : ((listing mem kids).map fun visit => (visit.level, visit.task))[k]? = some _ :=
      List.getElem?_eq_getElem (by simpa using listedAt)
    have other := between k _ after upto there
    rw [(listed.item k _ there).1, levels.1] at same
    omega

theorem ListingReturned.entry (listed : ListingReturned mem kids result) (i : Nat)
    (inside : i < result.user.nr) (deep : 0 < (result.user.buf i).level) :
    ∃ before entry, i = before + 1 ∧ (family mem kids)[before]? = some entry := by
  cases i with
  | zero =>
      have root := listed.describes 0 ⟨mem.initTask, 0, kids.roots⟩ rfl
      rw [root.level] at deep
      exact absurd deep (Nat.lt_irrefl 0)
  | succ before =>
      have lengths := family_length mem kids
      have room : before < (family mem kids).length := by
        rw [listed.nr] at inside
        omega
      exact ⟨before, _, rfl, List.getElem?_eq_getElem room⟩

theorem ListingReturned.nearest_child (tree : ProcessTree mem kids)
    (listed : ListingReturned mem kids result) (i j : Nat) (inside : i < result.user.nr)
    (above : NearestAbove result.user.buf i j) :
    ∃ parent task, (listing mem kids)[j]?.map Visit.task = some parent ∧
      (listing mem kids)[i]?.map Visit.task = some task ∧ Child mem parent task := by
  have deep : 0 < (result.user.buf i).level := by
    rw [← above.level]
    exact Nat.succ_pos _
  obtain ⟨before, entry, rfl, found⟩ := listed.entry i inside deep
  obtain ⟨-, -, other, nearest, parent, -⟩ := listed.nearest before entry found
  obtain rfl : j = other := above.unique nearest
  have own := congrArg (Option.map Prod.snd) (family_nearest before entry found).1
  refine ⟨entry.1, entry.2.2, parent, by simpa using own, ?_⟩
  exact Forest.InMemory.family_child tree 1 rfl 1 entry (List.mem_of_getElem? found)

def ParentsZero (mem : Memory) (kids : Forest) : Prop :=
  ∀ visit ∈ listing mem kids, visit.children ≠ [] → (mem.task visit.task).pid = 0

theorem Delivered.parents_reported (loaded : Loaded g)
    (delivered : Delivered mem kids g user result) :
    ParentsReported result.user ↔ ParentsZero mem kids := by
  have listed := delivered.listed
  have silent : ∀ i < result.user.nr, (result.user.buf i).parentPid = 0 := by
    intro i inside
    rw [delivered.parentPid i (listed.nr ▸ inside), loaded.parentPid i]
  constructor
  · intro reported visit member some
    -- the first child has its parent's record nearest above, and reports 0
    have parent : ∃ entry ∈ family mem kids, entry.1 = visit.task := by
      rcases List.mem_cons.mp member with rfl | below
      · cases kids with
        | nil => exact absurd rfl some
        | cons child grandchildren others => exact ⟨_, List.mem_cons_self, rfl⟩
      · exact kids.visits_family mem.initTask 1 visit below some
    obtain ⟨entry, inside, same⟩ := parent
    obtain ⟨i, found⟩ := List.mem_iff_getElem?.mp inside
    obtain ⟨-, -, j, nearest, -, pid⟩ := listed.nearest i entry found
    have room : i + 1 < result.user.nr := by
      have within := (List.getElem?_eq_some_iff.mp found).1
      have lengths := family_length mem kids
      rw [listed.nr]
      omega
    have deep : 0 < (result.user.buf (i + 1)).level := by
      rw [← nearest.level]
      exact Nat.succ_pos _
    obtain ⟨other, above, told⟩ := reported.below (i + 1) room deep
    rw [← same, ← pid, nearest.unique above, ← told, silent (i + 1) room]
  · intro zero
    constructor
    · apply silent
      rw [listed.nr]
      exact Nat.succ_pos _
    · intro i inside deep
      obtain ⟨before, entry, rfl, found⟩ := listed.entry i inside deep
      obtain ⟨-, -, j, nearest, -, pid⟩ := listed.nearest before entry found
      refine ⟨j, nearest, ?_⟩
      rw [silent _ inside, pid]
      rcases kids.family_visits mem.initTask 1 entry (List.mem_of_getElem? found) with
        ⟨same, some⟩ | ⟨visit, member, same, some⟩
      · rw [same]
        exact (zero ⟨mem.initTask, 0, kids.roots⟩ List.mem_cons_self some).symm
      · rw [← same]
        exact (zero visit (List.mem_cons_of_mem _ member) some).symm

/-- `ptree` tells the parents exactly where 0 is the right answer for all of them. -/
theorem parents_reported_iff (loaded : Loaded g) (tree : ProcessTree mem kids)
    (small : (listing mem kids).length ≤ maxNumProc) (user : UserMemory) (fuel : Nat)
    (enough : 2 * (listing mem kids).length ≤ fuel) :
    ∃ result, ptree mem fuel g user = some result ∧
      (∀ i j, i < result.user.nr → NearestAbove result.user.buf i j →
        ∃ parent task, (listing mem kids)[j]?.map Visit.task = some parent ∧
          (listing mem kids)[i]?.map Visit.task = some task ∧ Child mem parent task) ∧
      (ParentsReported result.user ↔ ParentsZero mem kids) := by
  obtain ⟨result, returned, delivered⟩ := ptree_delivers tree small g user fuel enough
  refine ⟨result, returned, ?_, delivered.parents_reported loaded⟩
  intro i j inside above
  exact delivered.listed.nearest_child tree i j inside above

end Call

theorem Sample.loaded : Loaded Sample.globals := .load fun _ => rfl

theorem parents_reported_iff_sample :
    ∃ result, ptree Sample.memory 8 Sample.globals Sample.user = some result ∧
      (∀ i j, i < result.user.nr → NearestAbove result.user.buf i j →
        ∃ parent task, (listing Sample.memory Sample.kids)[j]?.map Visit.task = some parent ∧
          (listing Sample.memory Sample.kids)[i]?.map Visit.task = some task ∧
          Child Sample.memory parent task) ∧
      (ParentsReported result.user ↔ ParentsZero Sample.memory Sample.kids) :=
  parents_reported_iff Sample.loaded Sample.tree (by decide) Sample.user 8 (by decide)

/-- The grandchild of the small machine has a parent with pid 1 and reports 0. -/
theorem sample_parent_missing : ¬ ∀ g mem kids, Loaded g → ProcessTree mem kids →
    (listing mem kids).length ≤ maxNumProc →
    ∀ user fuel, 2 * (listing mem kids).length ≤ fuel →
      ∃ result, ptree mem fuel g user = some result ∧ ParentsReported result.user := by
  intro always
  obtain ⟨result, returned, reported⟩ := always _ _ _ Sample.loaded Sample.tree (by decide)
    Sample.user 8 (by decide)
  obtain ⟨other, again, delivered⟩ := ptree_delivers Sample.tree (by decide) Sample.globals
    Sample.user 8 (by decide)
  obtain rfl : result = other := by simpa [returned] using again
  have zero := (delivered.parents_reported Sample.loaded).mp reported
  have pid := zero ⟨32, 1, [64]⟩ (by simp [listing, Sample.kids, Forest.listing, Forest.roots])
    (List.cons_ne_nil _ _)
  exact absurd pid (by decide)

end AndroidKernel.Ptree
