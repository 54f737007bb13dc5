import Mathlib.Data.List.Nodup
import Mathlib.Algebra.BigOperators.Group.List.Basic
import Mathlib.Algebra.Order.BigOperators.Group.List
import Mathlib.Data.Int.Cast.Basic
import Mathlib.Data.List.Perm.Subperm
import Mathlib.Data.List.TakeWhile
import Mathlib.Algebra.BigOperators.Ring.Finset

/-!
Duplicate-free queues and the counters kept beside them. A queue is a circular
list whose head is not an element; `ringNext` and `ringPrev` read the link
fields of an element, `none` standing for the head. `Counts` relates an integer
counter to the elements it is meant to count, so that each operation on the
counter has one rule.
-/

namespace AndroidKernel.RunList

variable {Item : Type} [DecidableEq Item]

def ringNext (queue : List Item) (item : Item) : Option Item :=
  (queue.dropWhile (fun other => other != item)).tail.head?

def ringPrev (queue : List Item) (item : Item) : Option Item :=
  ringNext queue.reverse item

theorem ringNext_split (front back : List Item) (item : Item) (absent : item ∉ front) :
    ringNext (front ++ item :: back) item = back.head? := by
  have skipped : (front ++ item :: back).dropWhile (fun other => other != item) =
      item :: back := by
    rw [List.dropWhile_append_of_pos]
    · simp
    · intro other member
      simpa using fun same : other = item => absent (same ▸ member)
  simp [ringNext, skipped]

theorem ringPrev_split (front back : List Item) (item : Item) (absent : item ∉ back) :
    ringPrev (front ++ item :: back) item = front.getLast? := by
  have turned : (front ++ item :: back).reverse = back.reverse ++ item :: front.reverse := by
    simp
  rw [ringPrev, turned, ringNext_split _ _ _ (by simpa using absent), List.head?_reverse]

theorem ringNext_absent (queue : List Item) (item : Item) (absent : item ∉ queue) :
    ringNext queue item = none := by
  have dropped : queue.dropWhile (fun other => other != item) = [] := by
    rw [List.dropWhile_eq_nil_iff]
    intro other member
    simpa using fun same : other = item => absent (same ▸ member)
  simp [ringNext, dropped]

/-- The two link fields of an element differ exactly when the element shares
the list with another one: with the head alone both point at the head. -/
theorem ring_links_differ (queue : List Item) (item : Item) (unique : queue.Nodup)
    (member : item ∈ queue) : ringPrev queue item ≠ ringNext queue item ↔ 2 ≤ queue.length := by
  obtain ⟨front, back, rfl⟩ := List.append_of_mem member
  have notBack : item ∉ back := by
    have tailUnique := (List.nodup_append.mp unique).2.1
    exact (List.nodup_cons.mp tailUnique).1
  have apart := (List.nodup_append.mp unique).2.2
  have notFront : item ∉ front := fun inside => apart item inside item (by simp) rfl
  rw [ringPrev_split _ _ _ notBack, ringNext_split _ _ _ notFront]
  simp only [List.length_append, List.length_cons]
  constructor
  · intro differ
    by_contra short
    have emptyFront : front = [] := List.eq_nil_of_length_eq_zero (by omega)
    have emptyBack : back = [] := List.eq_nil_of_length_eq_zero (by omega)
    simp [emptyFront, emptyBack] at differ
  · intro long same
    cases back with
    | nil =>
        have someLast : front.getLast? ≠ none := by
          rw [ne_eq, List.getLast?_eq_none_iff]
          rintro rfl
          simp at long
        exact someLast (by simpa using same)
    | cons first rest =>
        have inFront : first ∈ front := List.mem_of_getLast? (by simpa using same)
        exact apart first inFront first (by simp) rfl

def Counts (count : Int) (counted : Item → Prop) : Prop :=
  ∃ items : List Item, items.Nodup ∧ (∀ item, item ∈ items ↔ counted item) ∧
    count = items.length

section Counts
omit [DecidableEq Item]

theorem Counts.congr {count : Int} {before after : Item → Prop} (counts : Counts count before)
    (same : ∀ item, before item ↔ after item) : Counts count after := by
  obtain ⟨items, unique, exact', size⟩ := counts
  exact ⟨items, unique, fun item => (exact' item).trans (same item), size⟩

theorem Counts.none (counted : Item → Prop) (empty : ∀ item, ¬ counted item) :
    Counts 0 counted :=
  ⟨[], List.nodup_nil, fun item => by simp [empty item], rfl⟩

theorem Counts.nonneg {count : Int} {counted : Item → Prop} (counts : Counts count counted) :
    0 ≤ count := by
  obtain ⟨items, _, _, size⟩ := counts
  omega

theorem Counts.of_list (queue : List Item) (unique : queue.Nodup) {counted : Item → Prop}
    (exact' : ∀ item, item ∈ queue ↔ counted item) : Counts (queue.length : Int) counted :=
  ⟨queue, unique, exact', rfl⟩

theorem Counts.le {few many : Int} {fewer more : Item → Prop} (left : Counts few fewer)
    (right : Counts many more) (imp : ∀ item, fewer item → more item) : few ≤ many := by
  obtain ⟨small, smallUnique, smallExact, rfl⟩ := left
  obtain ⟨large, _, largeExact, rfl⟩ := right
  have subset : small ⊆ large := fun item member =>
    (largeExact item).mpr (imp item ((smallExact item).mp member))
  exact_mod_cast smallUnique.length_le_of_subset subset

theorem Counts.unique {left right : Int} {counted : Item → Prop} (first : Counts left counted)
    (second : Counts right counted) : left = right :=
  le_antisymm (first.le second fun _ => id) (second.le first fun _ => id)

/-- Two counters with the same value, one counting part of what the other
counts, count the same items. -/
theorem Counts.eq_of_imp {count : Int} {fewer more : Item → Prop} (left : Counts count fewer)
    (right : Counts count more) (imp : ∀ item, fewer item → more item) (item : Item)
    (large : more item) : fewer item := by
  obtain ⟨small, smallUnique, smallExact, size⟩ := left
  obtain ⟨big, bigUnique, bigExact, size'⟩ := right
  have subset : small ⊆ big := fun item member =>
    (bigExact item).mpr (imp item ((smallExact item).mp member))
  have short : big.length ≤ small.length := by omega
  have perm := (smallUnique.subperm subset).perm_of_length_le short
  exact (smallExact item).mp (perm.mem_iff.mpr ((bigExact item).mpr large))

theorem Counts.pos {count : Int} {counted : Item → Prop} (counts : Counts count counted)
    (item : Item) (member : counted item) : 1 ≤ count := by
  obtain ⟨items, _, exact', rfl⟩ := counts
  have inside := (exact' item).mpr member
  have := List.length_pos_of_mem inside
  omega

theorem Counts.zero_iff {count : Int} {counted : Item → Prop} (counts : Counts count counted) :
    count = 0 ↔ ∀ item, ¬ counted item := by
  obtain ⟨items, _, exact', rfl⟩ := counts
  constructor
  · intro zero item member
    have inside := (exact' item).mpr member
    have := List.length_pos_of_mem inside
    omega
  · intro empty
    cases items with
    | nil => rfl
    | cons item rest => exact absurd ((exact' item).mp (by simp)) (empty item)

theorem Counts.add {count : Int} {before after : Item → Prop} (counts : Counts count before)
    (item : Item) (fresh : ¬ before item)
    (joined : ∀ other, after other ↔ before other ∨ other = item) :
    Counts (count + 1) after := by
  obtain ⟨items, unique, exact', rfl⟩ := counts
  refine ⟨item :: items, List.nodup_cons.mpr ⟨fun inside => fresh ((exact' item).mp inside),
    unique⟩, fun other => ?_, by simp⟩
  rw [List.mem_cons, exact', joined, or_comm]

end Counts

theorem Counts.remove {count : Int} {before after : Item → Prop} (counts : Counts count before)
    (item : Item) (member : before item)
    (left : ∀ other, after other ↔ before other ∧ other ≠ item) :
    Counts (count - 1) after := by
  obtain ⟨items, unique, exact', rfl⟩ := counts
  have inside := (exact' item).mpr member
  refine ⟨items.erase item, unique.erase item, fun other => ?_, ?_⟩
  · rw [unique.mem_erase_iff, exact', left, and_comm]
  · rw [List.length_erase_of_mem inside]
    have := List.length_pos_of_mem inside
    omega

structure Lists (queue : List Item) (listed : Item → Prop) : Prop where
  unique : queue.Nodup
  mem_iff : ∀ item, item ∈ queue ↔ listed item

section Lists
variable {queue : List Item} {before after : Item → Prop}

omit [DecidableEq Item] in
theorem Lists.congr (lists : Lists queue before) (same : ∀ item, before item ↔ after item) :
    Lists queue after :=
  ⟨lists.unique, fun item => (lists.mem_iff item).trans (same item)⟩

omit [DecidableEq Item] in
theorem Lists.perm {other : List Item} (lists : Lists queue before)
    (perm : queue.Perm other) : Lists other before :=
  ⟨perm.nodup_iff.mp lists.unique, fun item => (perm.mem_iff.symm).trans (lists.mem_iff item)⟩

theorem Lists.erase (lists : Lists queue before) (item : Item)
    (left : ∀ other, after other ↔ before other ∧ other ≠ item) :
    Lists (queue.erase item) after := by
  refine ⟨lists.unique.erase item, fun other => ?_⟩
  rw [lists.unique.mem_erase_iff, lists.mem_iff, left, and_comm]

omit [DecidableEq Item] in
theorem Lists.push (lists : Lists queue before) (item : Item) (head : Bool)
    (fresh : ¬ before item) (joined : ∀ other, after other ↔ before other ∨ other = item) :
    Lists (if head then item :: queue else queue ++ [item]) after := by
  have absent : item ∉ queue := fun member => fresh ((lists.mem_iff item).mp member)
  have first : Lists (item :: queue) after := by
    refine ⟨List.nodup_cons.mpr ⟨absent, lists.unique⟩, fun other => ?_⟩
    rw [List.mem_cons, lists.mem_iff, joined, or_comm]
  cases head with
  | true => exact first
  | false => exact first.perm (List.perm_append_singleton item queue).symm

omit [DecidableEq Item] in
theorem Lists.counts (lists : Lists queue before) : Counts (queue.length : Int) before :=
  Counts.of_list queue lists.unique lists.mem_iff

end Lists

theorem sum_erase (queue : List Item) (item : Item) (value : Item → Int)
    (member : item ∈ queue) :
    ((queue.erase item).map value).sum = (queue.map value).sum - value item := by
  have perm := (List.perm_cons_erase member).map value
  have sum := perm.sum_eq
  simp only [List.map_cons, List.sum_cons] at sum
  omega

theorem sum_erase_nat (queue : List Item) (item : Item) (value : Item → Nat)
    (member : item ∈ queue) :
    (queue.map value).sum = value item + ((queue.erase item).map value).sum := by
  have perm := (List.perm_cons_erase member).map value
  simpa using perm.sum_eq

omit [DecidableEq Item] in
theorem sum_congr {Value : Type} [AddMonoid Value] (queue : List Item)
    (before after : Item → Value) (same : ∀ item ∈ queue, before item = after item) :
    (queue.map before).sum = (queue.map after).sum := by
  rw [List.map_congr_left same]

theorem sum_update (queue : List Item) (unique : queue.Nodup) (item : Item)
    (member : item ∈ queue) (value : Item → Int) (new : Int) :
    (queue.map (Function.update value item new)).sum =
      (queue.map value).sum - value item + new := by
  have others : ((queue.erase item).map (Function.update value item new)).sum =
      ((queue.erase item).map value).sum := by
    apply sum_congr
    intro other inside
    exact Function.update_of_ne (unique.mem_erase_iff.mp inside).1 new value
  have before := sum_erase queue item value member
  have after := sum_erase queue item (Function.update value item new) member
  rw [Function.update_self, others] at after
  omega

theorem le_sum (queue : List Item) (item : Item) (value : Item → Nat) (member : item ∈ queue) :
    value item ≤ (queue.map value).sum := by
  rw [sum_erase_nat queue item value member]
  omega

theorem le_sum_cast (queue : List Item) (item : Item) (value : Item → Nat)
    (member : item ∈ queue) :
    (value item : Int) ≤ (queue.map fun other => (value other : Int)).sum := by
  have cast : (queue.map fun other => (value other : Int)).sum =
      (((queue.map value).sum : Nat) : Int) := by
    rw [Nat.cast_list_sum, List.map_map]
    rfl
  rw [cast]
  exact_mod_cast le_sum queue item value member

theorem sum_le_of_subset (few many : List Item) (unique : few.Nodup) (subset : few ⊆ many)
    (small big : Item → Nat) (le : ∀ item ∈ few, small item ≤ big item) :
    (few.map small).sum ≤ (many.map big).sum := by
  induction few generalizing many with
  | nil => exact Nat.zero_le _
  | cons first rest ih =>
      obtain ⟨absent, uniqueRest⟩ := List.nodup_cons.mp unique
      have member : first ∈ many := subset List.mem_cons_self
      have others : rest ⊆ many.erase first := by
        intro item inRest
        have differs : item ≠ first := fun same => absent (same ▸ inRest)
        exact (List.mem_erase_of_ne differs).mpr (subset (List.mem_cons_of_mem _ inRest))
      have less := ih (many.erase first) uniqueRest others fun item inRest =>
        le item (List.mem_cons_of_mem _ inRest)
      have head := le first List.mem_cons_self
      rw [sum_erase_nat many first big member, List.map_cons, List.sum_cons]
      omega

/-- One element of the larger list that is lost, or whose value went down, pays
for one more. -/
theorem sum_lt_of_subset (few many : List Item) (unique : few.Nodup) (subset : few ⊆ many)
    (small big : Item → Nat) (le : ∀ item ∈ few, small item ≤ big item) (payer : Item)
    (member : payer ∈ many)
    (pays : payer ∉ few ∧ 1 ≤ big payer ∨ payer ∈ few ∧ small payer + 1 ≤ big payer) :
    1 + (few.map small).sum ≤ (many.map big).sum := by
  have others : few.erase payer ⊆ many.erase payer := by
    intro item inside
    obtain ⟨differs, inFew⟩ := unique.mem_erase_iff.mp inside
    exact (List.mem_erase_of_ne differs).mpr (subset inFew)
  have less := sum_le_of_subset (few.erase payer) (many.erase payer) (unique.erase payer) others
    small big fun item inside => le item (List.mem_of_mem_erase inside)
  rw [sum_erase_nat many payer big member]
  rcases pays with ⟨gone, worth⟩ | ⟨still, worth⟩
  · rw [List.erase_of_not_mem gone] at less
    omega
  · rw [sum_erase_nat few payer small still]
    omega

def ahead (target : Item) (queue : List Item) : List Item :=
  queue.takeWhile (fun other => other != target)

theorem ahead_split (target : Item) (front back : List Item) (absent : target ∉ front) :
    ahead target (front ++ target :: back) = front := by
  rw [ahead, List.takeWhile_append_of_pos]
  · simp
  · intro other member
    simpa using fun same : other = target => absent (same ▸ member)

theorem target_not_ahead (target : Item) (queue : List Item) : target ∉ ahead target queue := by
  intro member
  have differs := List.mem_takeWhile_imp member
  simp at differs

theorem ahead_subset (target : Item) (queue : List Item) :
    ahead target queue ⊆ queue := (List.takeWhile_sublist _).subset

theorem mem_split_ahead (target : Item) (queue : List Item) (member : target ∈ queue) :
    ∃ back, queue = ahead target queue ++ target :: back := by
  obtain ⟨front, back, rfl, absent⟩ := List.eq_append_cons_of_mem member
  exact ⟨back, by rw [ahead_split target front back absent]⟩

theorem ahead_append (target : Item) (queue tail : List Item) (member : target ∈ queue) :
    ahead target (queue ++ tail) = ahead target queue := by
  obtain ⟨back, split⟩ := mem_split_ahead target queue member
  have absent := target_not_ahead target queue
  conv_lhs => rw [split]
  rw [List.append_assoc, List.cons_append, ahead_split _ _ _ absent]

theorem ahead_erase (target other : Item) (queue : List Item) (member : target ∈ queue)
    (differs : other ≠ target) :
    ahead target (queue.erase other) = (ahead target queue).erase other := by
  obtain ⟨back, split⟩ := mem_split_ahead target queue member
  have absent := target_not_ahead target queue
  conv_lhs => rw [split]
  by_cases inside : other ∈ ahead target queue
  · rw [List.erase_append_left _ inside,
      ahead_split _ _ _ fun still => absent (List.mem_of_mem_erase still)]
  · rw [List.erase_append_right _ inside, List.erase_cons_tail (by simpa using differs.symm),
      ahead_split _ _ _ absent, List.erase_of_not_mem inside]

theorem head_ahead_or_target (target : Item) (queue : List Item) (member : target ∈ queue) :
    queue.head? = (ahead target queue).head? ∨
      (ahead target queue = [] ∧ queue.head? = some target) := by
  obtain ⟨back, split⟩ := mem_split_ahead target queue member
  cases front : ahead target queue with
  | nil =>
      refine Or.inr ⟨rfl, ?_⟩
      rw [split, front]
      rfl
  | cons first rest =>
      refine Or.inl ?_
      rw [split, front]
      rfl

section Scan
variable {Place : Type} (weight : Place → Int) (fits : Place → Prop) [DecidablePred fits]

def scan (best : Int × Place) (place : Place) : Int × Place :=
  if fits place ∧ weight place < best.1 then (weight place, place) else best

theorem scan_le (best : Int × Place) (place : Place) :
    (scan weight fits best place).1 ≤ best.1 ∧
      (fits place → (scan weight fits best place).1 ≤ weight place) := by
  rw [scan]
  split
  · rename_i better
    exact ⟨better.2.le, fun _ => le_rfl⟩
  · rename_i kept
    exact ⟨le_rfl, fun ok => not_lt.mp fun less => kept ⟨ok, less⟩⟩

/-- The search never goes above its seed nor above a place that fits. -/
theorem foldl_scan_le (places : List Place) (seed : Int × Place) :
    (places.foldl (scan weight fits) seed).1 ≤ seed.1 ∧
      ∀ place ∈ places, fits place → (places.foldl (scan weight fits) seed).1 ≤ weight place := by
  induction places generalizing seed with
  | nil => exact ⟨le_rfl, fun _ member => absurd member List.not_mem_nil⟩
  | cons first rest ih =>
      obtain ⟨below, least⟩ := ih (scan weight fits seed first)
      obtain ⟨down, here⟩ := scan_le weight fits seed first
      rw [List.foldl_cons]
      refine ⟨below.trans down, fun place member ok => ?_⟩
      rcases List.mem_cons.mp member with rfl | later
      · exact below.trans (here ok)
      · exact least place later ok

/-- It ends at its seed or at a place that fits and is lighter than the seed. -/
theorem foldl_scan_cases (places : List Place) (seed : Int × Place) :
    places.foldl (scan weight fits) seed = seed ∨
      ∃ place ∈ places, fits place ∧ weight place < seed.1 ∧
        places.foldl (scan weight fits) seed = (weight place, place) := by
  induction places generalizing seed with
  | nil => exact Or.inl rfl
  | cons first rest ih =>
      rw [List.foldl_cons]
      have down := (scan_le weight fits seed first).1
      rcases ih (scan weight fits seed first) with same | ⟨place, member, ok, lighter, ends⟩
      · rw [same, scan]
        split
        · rename_i better
          exact Or.inr ⟨first, List.mem_cons_self, better.1, better.2, rfl⟩
        · exact Or.inl rfl
      · exact Or.inr ⟨place, List.mem_cons_of_mem _ member, ok, lighter.trans_le down, ends⟩

end Scan

end AndroidKernel.RunList
