import AndroidKernel.PtreeForest

/-!
`ptree` as the machine runs it: the stores into `buf_tmp` and into the caller's
array are carried out at whatever index the cursor has, since the source looks at
neither end, and each is noted down. On a process tree the walk stores one record
a task, in pre-order, at consecutive indices. The functions with the bounds made
explicit return exactly when all these indices lie inside.
-/

namespace AndroidKernel.Ptree

def store (mem : Memory) (entry : Addr) (level : Nat) (g : Globals) : Globals where
  nrTmp := g.nrTmp + 1
  bufTmp := Function.update g.bufTmp g.nrTmp (fill mem entry level (g.bufTmp g.nrTmp))

mutual

def dfsStores (mem : Memory) : Nat → Addr → Nat → Globals → Option (Globals × List Nat)
  | 0, _, _, _ => none
  | fuel + 1, entry, level, g =>
      if entry = null then some (g, [])
      else if listEmpty mem (.children entry) then some (store mem entry level g, [g.nrTmp])
      else
        (walkStores mem fuel (.children entry) (mem.next (.children entry)) level
          (store mem entry level g)).map fun walked => (walked.1, g.nrTmp :: walked.2)

def walkStores (mem : Memory) :
    Nat → ListHead → ListHead → Nat → Globals → Option (Globals × List Nat)
  | 0, _, _, _, _ => none
  | fuel + 1, head, item, level, g =>
      if item = head then some (g, [])
      else
        match dfsStores mem fuel (listEntry item) (level + 1) g with
        | none => none
        | some called =>
            (walkStores mem fuel head (mem.next item) level called.1).map
              fun walked => (walked.1, called.2 ++ walked.2)

end

def copyStores (g : Globals) : Nat → Nat → UserMemory → Option (UserMemory × List Nat)
  | 0, _, user => some (user, [])
  | left + 1, i, user =>
      match copyRecord g i user with
      | none => none
      | some user =>
          (copyStores g left (i + 1) user).map fun copied => (copied.1, i :: copied.2)

structure Stores where
  bufTmp : List Nat
  user : List Nat

def ptreeStores (mem : Memory) (fuel : Nat) (g : Globals) (user : UserMemory) :
    Option (PtreeResult × Stores) :=
  match dfsStores mem fuel mem.initTask 0 { g with nrTmp := 0 } with
  | none => none
  | some walked =>
      match copyStores walked.1 walked.1.nrTmp 0 { user with nr := walked.1.nrTmp } with
      | none => none
      | some copied =>
          some ({ ret := 0, globals := walked.1, user := copied.1 }, ⟨walked.2, copied.2⟩)

structure Stored (mem : Memory) (visits : List Visit) (before after : Globals)
    (stores : List Nat) : Prop where
  indices : stores = List.range' before.nrTmp visits.length
  cursor : after.nrTmp = before.nrTmp + visits.length
  filled : ∀ i visit, visits[i]? = some visit → after.bufTmp (before.nrTmp + i) =
    fill mem visit.task visit.level (before.bufTmp (before.nrTmp + i))
  kept : ∀ i, i < before.nrTmp ∨ before.nrTmp + visits.length ≤ i →
    after.bufTmp i = before.bufTmp i

namespace Stored
variable {mem : Memory} {before middle after : Globals}

theorem nil : Stored mem [] before before [] := by
  constructor
  · rfl
  · rfl
  · intro i visit found
    simp at found
  · intro i outside
    rfl

theorem single (visit : Visit) :
    Stored mem [visit] before (store mem visit.task visit.level before) [before.nrTmp] := by
  constructor
  · rfl
  · rfl
  · intro i other found
    cases i with
    | zero =>
        obtain rfl : visit = other := by simpa using found
        exact Function.update_self ..
    | succ i => simp at found
  · intro i outside
    apply Function.update_of_ne
    simp only [List.length_singleton] at outside
    omega

theorem append {first second : List Visit} {one two : List Nat}
    (stored : Stored mem first before middle one) (more : Stored mem second middle after two) :
    Stored mem (first ++ second) before after (one ++ two) := by
  have cursor := stored.cursor
  constructor
  · rw [stored.indices, more.indices, cursor, List.length_append, List.range'_append_1]
  · rw [more.cursor, cursor, List.length_append, Nat.add_assoc]
  · intro i visit found
    by_cases early : i < first.length
    · -- the second part stores behind all of the first
      rw [List.getElem?_append_left early] at found
      rw [more.kept _ (.inl (by omega))]
      exact stored.filled i visit found
    · rw [List.getElem?_append_right (by omega)] at found
      have late := more.filled (i - first.length) visit found
      have place : middle.nrTmp + (i - first.length) = before.nrTmp + i := by omega
      rw [place] at late
      rw [late, stored.kept _ (.inr (by omega))]
  · intro i outside
    rw [List.length_append] at outside
    rw [more.kept i (by omega), stored.kept i (by omega)]

end Stored

theorem dfs_stored {mem : Memory} {task : Addr} {kids : Forest} (real : task ≠ null)
    (inMem : kids.InMemory mem task (mem.next (.children task))) (level : Nat) (g : Globals)
    (fuel : Nat)
    (below : ∀ g : Globals, ∃ after stores,
      walkStores mem fuel (.children task) (mem.next (.children task)) level g =
        some (after, stores) ∧ Stored mem (kids.listing (level + 1)) g after stores) :
    ∃ after stores, dfsStores mem (fuel + 1) task level g = some (after, stores) ∧
      Stored mem (⟨task, level, kids.roots⟩ :: kids.listing (level + 1)) g after stores := by
  have own : Stored mem [⟨task, level, kids.roots⟩] g (store mem task level g) [g.nrTmp] :=
    .single ⟨task, level, kids.roots⟩
  rw [dfsStores, if_neg real]
  cases kids with
  | nil =>
      have empty : listEmpty mem (.children task) = true := decide_eq_true inMem
      rw [if_pos empty]
      exact ⟨_, _, rfl, own⟩
  | cons child grandchildren rest =>
      have filled : ¬ listEmpty mem (.children task) = true := by
        obtain ⟨first, -⟩ := inMem
        simp [listEmpty, first]
      obtain ⟨after, stores, walked, stored⟩ := below (store mem task level g)
      rw [if_neg filled, walked]
      exact ⟨after, g.nrTmp :: stores, rfl, own.append stored⟩

/-- The walk over a ring stores the listing of the forest it links. The induction
is on the forest: the first sibling is one call of `DFS`, which contains the walk
over its children. -/
theorem walk_stored (mem : Memory) (forest : Forest) {owner : Addr} {item : ListHead}
    (inMem : forest.InMemory mem owner item) (level : Nat) (g : Globals) (fuel : Nat)
    (enough : 2 * forest.size < fuel) :
    ∃ after stores, walkStores mem fuel (.children owner) item level g = some (after, stores) ∧
      Stored mem (forest.listing (level + 1)) g after stores := by
  induction forest generalizing owner item level g fuel with
  | nil =>
      obtain ⟨fuel, rfl⟩ : ∃ rest, fuel = rest + 1 := ⟨fuel - 1, by omega⟩
      have ended : item = .children owner := inMem
      exact ⟨g, [], by rw [walkStores, if_pos ended], .nil⟩
  | cons task kids rest below after =>
      simp only [Forest.size] at enough
      obtain ⟨fuel, rfl⟩ : ∃ rest, fuel = rest + 2 := ⟨fuel - 2, by omega⟩
      obtain ⟨rfl, real, kidsMem, restMem⟩ := inMem
      obtain ⟨middle, first, called, one⟩ := dfs_stored real kidsMem (level + 1) g fuel
        fun g => below kidsMem (level + 1) g fuel (by omega)
      obtain ⟨final, others, walked, two⟩ := after restMem level middle (fuel + 1) (by omega)
      have stepped : walkStores mem (fuel + 2) (.children owner) (.sibling task) level g =
          some (final, first ++ others) := by
        rw [walkStores, if_neg (by simp), listEntry, called]
        simp only [walked, Option.map_some]
      exact ⟨final, first ++ others, stepped, one.append two⟩

theorem dfs_stores {mem : Memory} {kids : Forest} (tree : ProcessTree mem kids) (g : Globals)
    (fuel : Nat) (enough : 2 * (listing mem kids).length ≤ fuel) :
    ∃ after stores, dfsStores mem fuel mem.initTask 0 g = some (after, stores) ∧
      Stored mem (listing mem kids) g after stores := by
  rw [listing, List.length_cons, Forest.listing_length] at enough
  obtain ⟨fuel, rfl⟩ : ∃ rest, fuel = rest + 1 := ⟨fuel - 1, by omega⟩
  apply dfs_stored mem.init_ne_null tree 0 g
  intro g
  exact walk_stored mem kids tree 0 g fuel (by omega)

def Inside (stores : List Nat) : Prop := ∀ i ∈ stores, i < maxNumProc

instance (stores : List Nat) : Decidable (Inside stores) :=
  inferInstanceAs (Decidable (∀ i ∈ stores, i < maxNumProc))

theorem inside_append (first second : List Nat) :
    Inside (first ++ second) ↔ Inside first ∧ Inside second :=
  List.forall_mem_append

def bounded : Option (Globals × List Nat) → Option Globals
  | none => none
  | some reached => if Inside reached.2 then some reached.1 else none

theorem bounded_after (stores : List Nat) (rest : Option (Globals × List Nat)) :
    bounded (rest.map fun walked => (walked.1, stores ++ walked.2)) =
      if Inside stores then bounded rest else none := by
  cases rest with
  | none => simp [bounded]
  | some walked =>
      by_cases inside : Inside stores
      · simp [bounded, inside_append, inside]
      · simp [bounded, inside_append, inside]

theorem record_store (mem : Memory) (entry : Addr) (level : Nat) (g : Globals)
    (rest : Globals → Option Globals) :
    (match record mem entry level g with
      | none => none
      | some g => rest { g with nrTmp := g.nrTmp + 1 }) =
      if Inside [g.nrTmp] then rest (store mem entry level g) else none := by
  by_cases room : g.nrTmp < maxNumProc
  · simp [record, store, Inside, room]
  · simp [record, Inside, room]

/-- The walk with bounds is the walk without, cut off where that leaves the
buffer. Both functions go down together, so the induction is on the fuel. -/
theorem dfs_walk_bounded (mem : Memory) (fuel : Nat) :
    (∀ entry level g, dfs mem fuel entry level g = bounded (dfsStores mem fuel entry level g)) ∧
    (∀ head item level g,
      walk mem fuel head item level g = bounded (walkStores mem fuel head item level g)) := by
  induction fuel with
  | zero => simp [dfs, dfsStores, walk, walkStores, bounded]
  | succ fuel ih =>
      obtain ⟨ihDfs, ihWalk⟩ := ih
      constructor
      · intro entry level g
        rw [dfs, dfsStores]
        by_cases ended : entry = null
        · simp [ended, bounded, Inside]
        rw [if_neg ended, if_neg ended]
        have opened := record_store mem entry level g fun g =>
          if listEmpty mem (.children entry) then some g
          else walk mem fuel (.children entry) (mem.next (.children entry)) level g
        refine opened.trans ?_
        by_cases empty : listEmpty mem (.children entry) = true
        · rw [if_pos empty, if_pos empty, bounded]
        · rw [if_neg empty, if_neg empty, ihWalk]
          exact (bounded_after [g.nrTmp] _).symm
      · intro head item level g
        rw [walk, walkStores]
        by_cases ended : item = head
        · simp [ended, bounded, Inside]
        rw [if_neg ended, if_neg ended, ihDfs]
        cases dfsStores mem fuel (listEntry item) (level + 1) g with
        | none => rfl
        | some called =>
            rw [bounded_after, bounded]
            by_cases inside : Inside called.2
            · rw [if_pos inside, if_pos inside]
              exact ihWalk head (mem.next item) level called.1
            · rw [if_neg inside, if_neg inside]

theorem dfs_bounded (mem : Memory) (fuel : Nat) (entry : Addr) (level : Nat) (g : Globals) :
    dfs mem fuel entry level g = bounded (dfsStores mem fuel entry level g) :=
  (dfs_walk_bounded mem fuel).1 entry level g

theorem copyStores_eq (g : Globals) (left i : Nat) (user : UserMemory) :
    copyStores g left i user =
      (copyLoop g left i user).map fun copied => (copied, List.range' i left) := by
  induction left generalizing i user with
  | zero => rfl
  | succ left ih =>
      rw [copyStores, copyLoop]
      cases copyRecord g i user with
      | none => rfl
      | some next =>
          simp only [ih, Option.map_map]
          rfl

theorem ptree_bounded (mem : Memory) (fuel : Nat) (g : Globals) (user : UserMemory) :
    ptree mem fuel g user =
      match ptreeStores mem fuel g user with
      | none => none
      | some ran => if Inside ran.2.bufTmp then some ran.1 else none := by
  rw [ptree, ptreeStores, dfs_bounded]
  cases dfsStores mem fuel mem.initTask 0 { g with nrTmp := 0 } with
  | none => rfl
  | some walked =>
      rw [bounded]
      by_cases inside : Inside walked.2
      · simp only [copyStores_eq, if_pos inside]
        cases copyLoop walked.1 walked.1.nrTmp 0 { user with nr := walked.1.nrTmp } with
        | none => rfl
        | some copied => simp [inside]
      · simp only [copyStores_eq, if_neg inside]
        cases copyLoop walked.1 walked.1.nrTmp 0 { user with nr := walked.1.nrTmp } with
        | none => rfl
        | some copied => simp [inside]

theorem inside_range (count : Nat) : Inside (List.range' 0 count) ↔ count ≤ maxNumProc := by
  rw [Inside]
  constructor
  · intro inside
    by_contra beyond
    have last := inside maxNumProc (List.mem_range'_1.mpr ⟨by omega, by omega⟩)
    omega
  · intro room i member
    have upto := (List.mem_range'_1.mp member).2
    omega

end AndroidKernel.Ptree
