import AndroidKernel.PtreeListing

/-!
`next_sibling_pid`. The link of the last child leads to the head of the list in
the parent, which `DFS` takes for one more `sibling` field: it reads a pid eight
bytes before that of the parent, where the parent has its flag bits `did_exec`
and so on. The recorded listing shows the 1 behind every last child of a process
that has called `exec`, and the 0 behind those of the kernel threads.
-/

namespace AndroidKernel.Ptree

/-- What is read as the pid behind the last child. -/
def closingPid (mem : Memory) (parent : Addr) : Int :=
  if listEntry (.children parent) ≠ null then (mem.task (listEntry (.children parent))).pid else 0

def RecordOf (mem : Memory) (kids : Forest) (i : Nat) (task : Addr) : Prop :=
  (listing mem kids)[i]?.map Visit.task = some task

/-- Each record names the task that follows on the list of children, if one does. -/
structure SiblingsLinked (mem : Memory) (kids : Forest) (user : UserMemory) : Prop where
  root : (user.buf 0).nextSiblingPid = 0
  next : ∀ visit ∈ listing mem kids, ∀ front task follower back,
    visit.children = front ++ task :: follower :: back →
    ∀ i, RecordOf mem kids i task → (user.buf i).nextSiblingPid = (mem.task follower).pid
  last : ∀ visit ∈ listing mem kids, ∀ front task, visit.children = front ++ [task] →
    ∀ i, RecordOf mem kids i task → (user.buf i).nextSiblingPid = 0

inductive Follows (user : UserMemory) : Int → List Int → Prop
  | stop : Follows user 0 []
  | step {i : Nat} {rest : List Int} (inside : i < user.nr) (real : (user.buf i).pid ≠ 0)
      (tail : Follows user (user.buf i).nextSiblingPid rest) :
      Follows user (user.buf i).pid ((user.buf i).pid :: rest)

/-- From every record, its first child and then next siblings are its children. -/
def ChildrenEnumerated (mem : Memory) (kids : Forest) (user : UserMemory) : Prop :=
  ∀ i visit, (listing mem kids)[i]? = some visit → ∀ pids,
    Follows user (user.buf i).firstChildPid pids ↔
      pids = visit.children.map fun child => (mem.task child).pid

/-- As the kernel hands out pids: 0 is the swapper's, and no two are the same. -/
structure PidsDistinct (mem : Memory) (kids : Forest) : Prop where
  swapper : (mem.task mem.initTask).pid = 0
  distinct : ((listing mem kids).map fun visit => (mem.task visit.task).pid).Nodup

section Ring
variable {mem : Memory}

/-- A ring has no task that is linked to itself; going on would never end. -/
theorem Forest.InMemory.moves_on {forest : Forest} {owner task : Addr}
    (inMem : forest.InMemory mem owner (.sibling task)) :
    mem.next (.sibling task) ≠ .sibling task := by
  intro stuck
  induction forest with
  | nil =>
      have wrong : ListHead.sibling task = .children owner := inMem
      cases wrong
  | cons first kids rest _ after =>
      obtain ⟨same, -, -, restMem⟩ := inMem
      obtain rfl : task = first := by simpa using same
      rw [stuck] at restMem
      exact after restMem

theorem Forest.InMemory.root_real {forest : Forest} {owner : Addr} {item : ListHead}
    (inMem : forest.InMemory mem owner item) : ∀ root ∈ forest.roots, root ≠ null := by
  induction forest generalizing item with
  | nil =>
      intro root member
      simp [roots] at member
  | cons task kids rest _ after =>
      obtain ⟨-, real, -, restMem⟩ := inMem
      intro root member
      rcases List.mem_cons.mp member with rfl | later
      · exact real
      · exact after restMem root later

def linkTo (owner : Addr) : List Addr → ListHead
  | [] => .children owner
  | follower :: _ => .sibling follower

theorem Forest.InMemory.link {forest : Forest} {owner : Addr} {item : ListHead}
    (inMem : forest.InMemory mem owner item) : item = linkTo owner forest.roots := by
  cases forest with
  | nil => exact inMem
  | cons task kids rest => exact inMem.1

theorem Forest.InMemory.follower {forest : Forest} {owner : Addr} {item : ListHead}
    (inMem : forest.InMemory mem owner item) (front : List Addr) (task : Addr)
    (back : List Addr) (split : forest.roots = front ++ task :: back) :
    mem.next (.sibling task) ≠ .sibling task ∧
      mem.next (.sibling task) = linkTo owner back := by
  induction front generalizing forest item with
  | nil =>
      cases forest with
      | nil => cases split
      | cons first kids rest =>
          obtain ⟨rfl, rfl⟩ := List.cons.inj split
          constructor
          · exact (inMem.1 ▸ inMem).moves_on
          · exact inMem.2.2.2.link
  | cons first front ih =>
      cases forest with
      | nil => cases split
      | cons other kids rest =>
          obtain ⟨-, -, -, restMem⟩ := inMem
          exact ih restMem (List.cons.inj split).2

theorem nextPid_follower {kids : Forest} {owner : Addr}
    (inMem : kids.InMemory mem owner (mem.next (.children owner))) (front : List Addr)
    (task follower : Addr) (back : List Addr)
    (roots : kids.roots = front ++ task :: follower :: back) :
    nextPid mem (.sibling task) = (mem.task follower).pid := by
  obtain ⟨moves, link⟩ := inMem.follower front task (follower :: back) roots
  have real : follower ≠ null := inMem.root_real follower (by simp [roots])
  rw [link] at moves
  rw [linkTo] at link moves
  simp [nextPid, listEmpty, link, moves, listEntry, real]

theorem nextPid_last {kids : Forest} {owner : Addr}
    (inMem : kids.InMemory mem owner (mem.next (.children owner))) (front : List Addr)
    (task : Addr) (roots : kids.roots = front ++ [task]) :
    nextPid mem (.sibling task) = closingPid mem owner := by
  obtain ⟨-, link⟩ := inMem.follower front task [] roots
  rw [linkTo] at link
  simp [nextPid, listEmpty, link, closingPid]

end Ring

section Call
variable {mem : Memory} {kids : Forest} {g : Globals} {user : UserMemory} {result : PtreeResult}

theorem Forest.roots_tasks (forest : Forest) : forest.roots ⊆ forest.tasks := by
  induction forest with
  | nil => simp [roots]
  | cons task kids rest _ after =>
      intro root member
      rcases List.mem_cons.mp member with rfl | later
      · exact List.mem_cons_self
      · exact List.mem_cons_of_mem _ (List.mem_append_right _ (after later))

theorem Forest.children_tasks (forest : Forest) (level : Nat) :
    ∀ visit ∈ forest.listing level, visit.children ⊆ forest.tasks := by
  induction forest generalizing level with
  | nil =>
      intro visit member
      simp [listing] at member
  | cons task kids rest below after =>
      intro visit member child inChildren
      apply List.mem_cons_of_mem
      apply List.mem_append.mpr
      rcases List.mem_cons.mp member with rfl | later
      · exact .inl (kids.roots_tasks inChildren)
      · rcases List.mem_append.mp later with inKids | inRest
        · exact .inl (below (level + 1) visit inKids inChildren)
        · exact .inr (after level visit inRest inChildren)

theorem listing_children (visit : Visit) (member : visit ∈ listing mem kids) :
    visit.children ⊆ kids.tasks := by
  rcases List.mem_cons.mp member with rfl | below
  · exact kids.roots_tasks
  · exact kids.children_tasks 1 visit below

theorem recordOf_child (visit : Visit) (member : visit ∈ listing mem kids) (child : Addr)
    (inChildren : child ∈ visit.children) : ∃ i, RecordOf mem kids i child := by
  have met : child ∈ (listing mem kids).map Visit.task := by
    rw [listing, List.map_cons, Forest.listing_tasks]
    exact List.mem_cons_of_mem _ (listing_children visit member inChildren)
  obtain ⟨i, found⟩ := List.mem_iff_getElem?.mp met
  exact ⟨i, by rwa [List.getElem?_map] at found⟩

theorem Delivered.nextSibling (delivered : Delivered mem kids g user result) (i : Nat)
    (task : Addr) (record : RecordOf mem kids i task) :
    (result.user.buf i).nextSiblingPid = nextPid mem (.sibling task) := by
  obtain ⟨visit, found, rfl⟩ := Option.map_eq_some_iff.mp record
  obtain ⟨comm, -, copied⟩ := delivered.copied i (List.getElem?_eq_some_iff.mp found).1
  rw [copied, delivered.filled i visit found, fill]

def ListsClose (mem : Memory) (kids : Forest) : Prop :=
  ∀ visit ∈ listing mem kids, visit.children ≠ [] → closingPid mem visit.task = 0

theorem Delivered.siblings_linked (tree : ProcessTree mem kids)
    (alone : mem.next (.sibling mem.initTask) = .sibling mem.initTask)
    (delivered : Delivered mem kids g user result) :
    SiblingsLinked mem kids result.user ↔ ListsClose mem kids := by
  constructor
  · intro linked visit member some
    obtain ⟨own, ownMem, children⟩ := tree.visited visit member
    have split := (List.dropLast_concat_getLast some).symm
    obtain ⟨i, record⟩ := recordOf_child visit member _ (List.getLast_mem some)
    rw [← nextPid_last ownMem _ _ (children.symm.trans split), ← delivered.nextSibling i _ record]
    exact linked.last visit member _ _ split i record
  · intro closes
    constructor
    · rw [delivered.nextSibling 0 mem.initTask rfl]
      simp [nextPid, listEmpty, alone]
    · intro visit member front task follower back children i record
      obtain ⟨own, ownMem, roots⟩ := tree.visited visit member
      rw [delivered.nextSibling i task record]
      exact nextPid_follower ownMem front task follower back (roots.symm.trans children)
    · intro visit member front task children i record
      obtain ⟨own, ownMem, roots⟩ := tree.visited visit member
      rw [delivered.nextSibling i task record,
        nextPid_last ownMem front task (roots.symm.trans children)]
      exact closes visit member (by simp [children])

theorem PidsDistinct.real (pids : PidsDistinct mem kids) (task : Addr)
    (member : task ∈ kids.tasks) : (mem.task task).pid ≠ 0 := by
  have distinct := pids.distinct
  rw [listing, List.map_cons, pids.swapper] at distinct
  intro zero
  apply (List.nodup_cons.mp distinct).1
  rw [← kids.listing_tasks 1] at member
  obtain ⟨visit, inside, rfl⟩ := List.mem_map.mp member
  exact List.mem_map.mpr ⟨visit, inside, zero⟩

theorem PidsDistinct.record (pids : PidsDistinct mem kids)
    (listed : ListingReturned mem kids result) (i : Nat) (task : Addr)
    (inside : i < result.user.nr) (known : ∃ j, RecordOf mem kids j task)
    (same : (result.user.buf i).pid = (mem.task task).pid) : RecordOf mem kids i task := by
  obtain ⟨j, record⟩ := known
  obtain ⟨visit, found, rfl⟩ := Option.map_eq_some_iff.mp record
  rw [listed.nr] at inside
  have here := List.getElem?_eq_getElem inside
  have own := listed.describes i _ here
  obtain ⟨within, there⟩ := List.getElem?_eq_some_iff.mp found
  have first : i < ((listing mem kids).map fun visit => (mem.task visit.task).pid).length := by
    simpa using inside
  have second : j < ((listing mem kids).map fun visit => (mem.task visit.task).pid).length := by
    simpa using within
  have alike : ((listing mem kids).map fun visit => (mem.task visit.task).pid)[i] =
      ((listing mem kids).map fun visit => (mem.task visit.task).pid)[j] := by
    simp [there, ← same, own.pid]
  have equal : i = j := pids.distinct.getElem_inj_iff.mp alike
  rw [equal]
  exact record

theorem follows_iff (user : UserMemory) (pid : Int) (pids : List Int) :
    Follows user pid pids ↔ pid = 0 ∧ pids = [] ∨
      ∃ i rest, i < user.nr ∧ pid ≠ 0 ∧ (user.buf i).pid = pid ∧
        Follows user (user.buf i).nextSiblingPid rest ∧ pids = pid :: rest := by
  constructor
  · intro follows
    cases follows with
    | stop => exact .inl ⟨rfl, rfl⟩
    | @step i rest inside real tail => exact .inr ⟨i, rest, inside, real, rfl, tail, rfl⟩
  · rintro (⟨rfl, rfl⟩ | ⟨i, rest, inside, real, rfl, tail, rfl⟩)
    · exact .stop
    · exact .step inside real tail

def firstPid (mem : Memory) : List Addr → Int
  | [] => 0
  | task :: _ => (mem.task task).pid

theorem SiblingsLinked.firstPid (linked : SiblingsLinked mem kids user) (visit : Visit)
    (member : visit ∈ listing mem kids) (front : List Addr) (task : Addr) (back : List Addr)
    (children : visit.children = front ++ task :: back) (i : Nat)
    (record : RecordOf mem kids i task) :
    (user.buf i).nextSiblingPid = firstPid mem back := by
  cases back with
  | nil => exact linked.last visit member front task children i record
  | cons follower back => exact linked.next visit member front task follower back children i record

/-- The induction is on the children still to come. -/
theorem SiblingsLinked.follows (linked : SiblingsLinked mem kids result.user)
    (pids : PidsDistinct mem kids) (listed : ListingReturned mem kids result) (visit : Visit)
    (member : visit ∈ listing mem kids) (back front : List Addr)
    (children : visit.children = front ++ back) (met : List Int) :
    Follows result.user (Ptree.firstPid mem back) met ↔
      met = back.map fun child => (mem.task child).pid := by
  induction back generalizing front met with
  | nil =>
      rw [follows_iff]
      simp [Ptree.firstPid]
  | cons child back ih =>
      have inChildren : child ∈ visit.children := by simp [children]
      have known := recordOf_child visit member child inChildren
      have real := pids.real child (listing_children visit member inChildren)
      have rest := ih (front ++ [child]) (by simp [children])
      have next : ∀ i, RecordOf mem kids i child →
          (result.user.buf i).nextSiblingPid = Ptree.firstPid mem back := fun i record =>
        linked.firstPid visit member front child back children i record
      rw [follows_iff, Ptree.firstPid, List.map_cons]
      constructor
      · rintro (⟨zero, -⟩ | ⟨i, tail, inside, -, same, follows, rfl⟩)
        · exact absurd zero real
        · rw [next i (pids.record listed i child inside known same), rest] at follows
          rw [follows]
      · rintro rfl
        obtain ⟨i, record⟩ := known
        obtain ⟨own, found, same⟩ := Option.map_eq_some_iff.mp record
        have inside : i < result.user.nr := by
          rw [listed.nr]
          exact (List.getElem?_eq_some_iff.mp found).1
        have pid := (listed.describes i own found).pid
        rw [same] at pid
        refine .inr ⟨i, _, inside, real, pid, ?_, rfl⟩
        rw [next i record, rest]

theorem SiblingsLinked.enumerated (linked : SiblingsLinked mem kids result.user)
    (pids : PidsDistinct mem kids) (listed : ListingReturned mem kids result) :
    ChildrenEnumerated mem kids result.user := by
  intro i visit found met
  have first : (result.user.buf i).firstChildPid = Ptree.firstPid mem visit.children := by
    rw [(listed.describes i visit found).firstChildPid]
    cases visit.children with
    | nil => rfl
    | cons child others => rfl
  rw [first]
  exact linked.follows pids listed visit (List.mem_of_getElem? found) visit.children [] rfl met

/-- The sibling links are right exactly where a 0 is read behind each last child,
and with the pids of the kernel they then lead through the children. -/
theorem siblings_linked_iff (tree : ProcessTree mem kids)
    (alone : mem.next (.sibling mem.initTask) = .sibling mem.initTask)
    (small : (listing mem kids).length ≤ maxNumProc) (g : Globals) (user : UserMemory)
    (fuel : Nat) (enough : 2 * (listing mem kids).length ≤ fuel) :
    ∃ result, ptree mem fuel g user = some result ∧
      (SiblingsLinked mem kids result.user ↔ ListsClose mem kids) ∧
      (PidsDistinct mem kids →
        (SiblingsLinked mem kids result.user ∧ ChildrenEnumerated mem kids result.user ↔
          ListsClose mem kids)) := by
  obtain ⟨result, returned, delivered⟩ := ptree_delivers tree small g user fuel enough
  have linked := delivered.siblings_linked tree alone
  refine ⟨result, returned, linked, fun pids => ?_⟩
  constructor
  · intro both
    exact linked.mp both.1
  · intro closes
    have links := linked.mpr closes
    exact ⟨links, links.enumerated pids delivered.listed⟩

end Call

theorem siblings_linked_iff_sample :
    ∃ result, ptree Sample.memory 8 Sample.globals Sample.user = some result ∧
      (SiblingsLinked Sample.memory Sample.kids result.user ↔
        ListsClose Sample.memory Sample.kids) ∧
      (PidsDistinct Sample.memory Sample.kids →
        (SiblingsLinked Sample.memory Sample.kids result.user ∧
            ChildrenEnumerated Sample.memory Sample.kids result.user ↔
          ListsClose Sample.memory Sample.kids)) :=
  siblings_linked_iff Sample.tree rfl (by decide) Sample.globals Sample.user 8 (by decide)

def Sample.execMemory : Memory where
  task addr := Sample.task (if addr = 24 then 1 else if addr = 8 then 0 else addr / 16 - 1)
  next := Sample.next
  initTask := 16
  init_ne_null := Sample.memory.init_ne_null

theorem Sample.execTree : ProcessTree Sample.execMemory Sample.kids := Sample.tree

/-- The only child of that process names pid 1 as its sibling. -/
theorem only_child_has_sibling : ¬ ∀ mem kids, ProcessTree mem kids →
    mem.next (.sibling mem.initTask) = .sibling mem.initTask → PidsDistinct mem kids →
    (listing mem kids).length ≤ maxNumProc →
    ∀ g user fuel, 2 * (listing mem kids).length ≤ fuel →
      ∃ result, ptree mem fuel g user = some result ∧
        SiblingsLinked mem kids result.user ∧ ChildrenEnumerated mem kids result.user := by
  intro always
  have pids : PidsDistinct Sample.execMemory Sample.kids := ⟨rfl, by decide⟩
  obtain ⟨result, returned, linked, -⟩ := always _ _ Sample.execTree rfl pids (by decide)
    Sample.globals Sample.user 8 (by decide)
  obtain ⟨other, again, delivered⟩ := ptree_delivers Sample.execTree (by decide) Sample.globals
    Sample.user 8 (by decide)
  obtain rfl : result = other := by simpa [returned] using again
  have closes := (delivered.siblings_linked Sample.execTree rfl).mp linked
  have word := closes ⟨32, 1, [64]⟩
    (by simp [listing, Sample.kids, Forest.listing, Forest.roots]) (List.cons_ne_nil _ _)
  exact absurd word (by decide)

end AndroidKernel.Ptree
