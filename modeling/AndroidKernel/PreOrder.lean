import Mathlib.Data.List.Basic

/-!
Ordered forests and their pre-order listings with depths. The depths alone tell
the shape: a scan from the right keeps the groups of siblings that still wait
for a parent, and each item takes the group one deeper as its children. A scan
from the left finds the parent of an item as the nearest one before it that is
one level up. Nothing here knows what the labels are.
-/

namespace AndroidKernel.PreOrder

universe u v
variable {Label : Type u}

inductive OrderedForest (Label : Type u) where
  | nil
  | cons (label : Label) (below after : OrderedForest Label)
  deriving DecidableEq, Repr

namespace OrderedForest

def map {Other : Type v} (f : Label → Other) : OrderedForest Label → OrderedForest Other
  | nil => nil
  | cons label below after => cons (f label) (below.map f) (after.map f)

def levels (depth : Nat) : OrderedForest Label → List (Nat × Label)
  | nil => []
  | cons label below after => (depth, label) :: (below.levels (depth + 1) ++ after.levels depth)

theorem levels_map {Other : Type v} (f : Label → Other) (forest : OrderedForest Label)
    (depth : Nat) :
    (forest.map f).levels depth = (forest.levels depth).map fun item => (item.1, f item.2) := by
  induction forest generalizing depth with
  | nil => rfl
  | cons label below after ihBelow ihAfter => simp [map, levels, ihBelow, ihAfter]

theorem le_levels (forest : OrderedForest Label) (depth : Nat) :
    ∀ item ∈ forest.levels depth, depth ≤ item.1 := by
  induction forest generalizing depth with
  | nil =>
      intro item member
      simp [levels] at member
  | cons label below after ihBelow ihAfter =>
      intro item member
      rcases List.mem_cons.mp member with rfl | later
      · exact Nat.le_refl depth
      · rcases List.mem_append.mp later with inBelow | inAfter
        · have deeper := ihBelow (depth + 1) item inBelow
          omega
        · exact ihAfter depth item inAfter

end OrderedForest

abbrev Stack (Label : Type u) := List (Nat × OrderedForest Label)

def takeGroup (depth : Nat) : Stack Label → OrderedForest Label × Stack Label
  | [] => (.nil, [])
  | top :: stack => if top.1 = depth then (top.2, stack) else (.nil, top :: stack)

def attach (item : Nat × Label) (stack : Stack Label) : Stack Label :=
  let children := takeGroup (item.1 + 1) stack
  let siblings := takeGroup item.1 children.2
  (item.1, .cons item.2 children.1 siblings.1) :: siblings.2

def scan (items : List (Nat × Label)) (stack : Stack Label) : Stack Label :=
  items.foldr attach stack

def decode (depth : Nat) (items : List (Nat × Label)) : OrderedForest Label :=
  (takeGroup depth (scan items [])).1

def Below (depth : Nat) : Stack Label → Prop
  | [] => True
  | top :: _ => top.1 < depth

theorem takeGroup_below {depth : Nat} {stack : Stack Label} (low : Below depth stack) :
    takeGroup depth stack = (.nil, stack) := by
  cases stack with
  | nil => rfl
  | cons top rest =>
      have above : top.1 < depth := low
      rw [takeGroup, if_neg (Nat.ne_of_lt above)]

/-- The scan over the listing of a forest leaves the forest as one group on top
of what was there. The induction is on the forest; the scan meets the trees
after the first root, then those below it, and the root last. -/
theorem scan_levels (forest : OrderedForest Label) (depth : Nat) (stack : Stack Label)
    (low : Below depth stack) :
    takeGroup depth (scan (forest.levels depth) stack) = (forest, stack) ∧
      Below (depth + 1) (scan (forest.levels depth) stack) := by
  induction forest generalizing depth stack with
  | nil =>
      constructor
      · exact takeGroup_below low
      · cases stack with
        | nil => trivial
        | cons top rest => exact Nat.lt_succ_of_lt low
  | cons label below after ihBelow ihAfter =>
      have afterwards := ihAfter depth stack low
      have inside := ihBelow (depth + 1) _ afterwards.2
      have scanned : scan ((OrderedForest.cons label below after).levels depth) stack =
          (depth, .cons label below after) :: stack := by
        rw [OrderedForest.levels, scan, List.foldr_cons, List.foldr_append]
        change attach (depth, label)
          (scan (below.levels (depth + 1)) (scan (after.levels depth) stack)) = _
        simp only [attach, inside.1, afterwards.1]
      rw [scanned]
      constructor
      · rw [takeGroup, if_pos rfl]
      · exact Nat.lt_succ_self depth

theorem decode_levels (forest : OrderedForest Label) (depth : Nat) :
    decode depth (forest.levels depth) = forest := by
  have scanned := (scan_levels forest depth [] trivial).1
  exact congrArg Prod.fst scanned

theorem levels_injective (depth : Nat) {first second : OrderedForest Label}
    (same : first.levels depth = second.levels depth) : first = second := by
  calc first = decode depth (first.levels depth) := (decode_levels first depth).symm
    _ = decode depth (second.levels depth) := by rw [same]
    _ = second := decode_levels second depth

def nearest (depth : Nat) (seen : List (Nat × Label)) : Option Label :=
  (seen.find? fun item => item.1 = depth).map Prod.snd

def annotate (seen : List (Nat × Label)) : List (Nat × Label) → List (Option Label × Nat × Label)
  | [] => []
  | item :: rest => (nearest (item.1 - 1) seen, item) :: annotate (item :: seen) rest

namespace OrderedForest

def family (above : Label) (depth : Nat) : OrderedForest Label → List (Label × Nat × Label)
  | nil => []
  | cons label below after =>
      (above, depth, label) :: (below.family label (depth + 1) ++ after.family above depth)

theorem family_levels (forest : OrderedForest Label) (above : Label) (depth : Nat) :
    (forest.family above depth).map Prod.snd = forest.levels depth := by
  induction forest generalizing above depth with
  | nil => rfl
  | cons label below after ihBelow ihAfter => simp [family, levels, ihBelow, ihAfter]

end OrderedForest

theorem annotate_append (front back seen : List (Nat × Label)) :
    annotate seen (front ++ back) =
      annotate seen front ++ annotate (front.reverse ++ seen) back := by
  induction front generalizing seen with
  | nil => rfl
  | cons item front ih => simp [annotate, ih]

theorem nearest_passes (depth : Nat) (passed seen : List (Nat × Label))
    (deeper : ∀ item ∈ passed, depth < item.1) :
    nearest depth (passed ++ seen) = nearest depth seen := by
  have none : passed.find? (fun item => item.1 = depth) = none := by
    rw [List.find?_eq_none]
    intro item member
    have deep := deeper item member
    simp only [decide_eq_true_eq]
    omega
  rw [nearest, List.find?_append, none, Option.none_or, nearest]

/-- In a listing the nearest item one level up is the parent in the tree. The
children of the first root see the root; the roots after it see past all of it. -/
theorem annotate_levels (forest : OrderedForest Label) (above : Label) (depth : Nat)
    (seen : List (Nat × Label)) (known : nearest depth seen = some above) :
    annotate seen (forest.levels (depth + 1)) =
      (forest.family above (depth + 1)).map fun entry => (some entry.1, entry.2) := by
  induction forest generalizing above depth seen with
  | nil => rfl
  | cons label below after ihBelow ihAfter =>
      have own : nearest (depth + 1) ((depth + 1, label) :: seen) = some label := by
        simp [nearest]
      have past : nearest depth
          ((below.levels (depth + 1 + 1)).reverse ++ (depth + 1, label) :: seen) = some above := by
        rw [nearest_passes, ← List.singleton_append, nearest_passes, known]
        · intro item member
          rw [List.mem_singleton.mp member]
          exact Nat.lt_succ_self depth
        · intro item member
          have deep := below.le_levels (depth + 1 + 1) item (List.mem_reverse.mp member)
          omega
      rw [OrderedForest.levels, OrderedForest.family, annotate, annotate_append,
        ihBelow label (depth + 1) _ own, ihAfter above depth _ past]
      simp [known]

theorem annotate_get (items seen : List (Nat × Label)) (i : Nat) :
    (annotate seen items)[i]? = items[i]?.map fun item =>
      (nearest (item.1 - 1) ((items.take i).reverse ++ seen), item) := by
  induction items generalizing seen i with
  | nil => simp [annotate]
  | cons item rest ih =>
      cases i with
      | zero => simp [annotate]
      | succ i => simp [annotate, ih]

/-- Where the nearest item one sees from position `i` stands. -/
theorem nearest_position (items : List (Nat × Label)) (depth : Nat) (i : Nat) (label : Label)
    (found : nearest depth (items.take i).reverse = some label) :
    ∃ j < i, items[j]? = some (depth, label) ∧
      ∀ k item, j < k → k < i → items[k]? = some item → item.1 ≠ depth := by
  -- on the number of items above, from which the search runs backwards
  induction i with
  | zero => simp [nearest] at found
  | succ i ih =>
      -- position `i` is either the one found or is passed over
      have passed (earlier : nearest depth (items.take i).reverse = some label)
          (other : ∀ item, items[i]? = some item → item.1 ≠ depth) :
          ∃ j < i + 1, items[j]? = some (depth, label) ∧
            ∀ k item, j < k → k < i + 1 → items[k]? = some item → item.1 ≠ depth := by
        obtain ⟨j, before, here, between⟩ := ih earlier
        refine ⟨j, Nat.lt_succ_of_lt before, here, fun k item after upto there => ?_⟩
        rcases Nat.lt_succ_iff_lt_or_eq.mp upto with inside | rfl
        · exact between k item after inside there
        · exact other item there
      rw [List.take_add_one] at found
      cases last : items[i]? with
      | none =>
          rw [last, Option.toList_none, List.append_nil] at found
          apply passed found
          intro item there
          rw [last] at there
          cases there
      | some item =>
          rw [last, Option.toList_some, List.reverse_append, List.reverse_singleton,
            List.singleton_append, nearest] at found
          by_cases same : item.1 = depth
          · simp only [same, decide_true, List.find?_cons_of_pos, Option.map_some,
              Option.some.injEq] at found
            refine ⟨i, Nat.lt_succ_self i, ?_, fun k _ after upto => by omega⟩
            rw [last, ← same, ← found]
          · rw [List.find?_cons_of_neg (by simpa using same)] at found
            apply passed found
            intro other there
            rw [last, Option.some.injEq] at there
            exact there ▸ same

end AndroidKernel.PreOrder
