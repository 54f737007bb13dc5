import Mathlib.Data.List.Nodup
import Mathlib.Order.Lattice
import Mathlib.Order.Basic
import Mathlib.Order.MinMax
import Mathlib.Logic.Function.Basic

/-!
First-in, first-out queues by priority, with a bitmap of the queues that are
not empty, against the map from entries to priorities that they stand for.
-/

namespace AndroidKernel

universe u

structure PrioArray (Entry : Type u) where
  queue : Nat → List Entry
  bitmap : Nat → Bool

namespace PrioArray
variable {Entry : Type u}

/-- The lowest set bit below the limit, else the limit. -/
def findFirst (limit : Nat) (array : PrioArray Entry) : Nat :=
  ((List.range limit).find? array.bitmap).getD limit

def empty : PrioArray Entry := { queue := fun _ => [], bitmap := fun _ => false }

section FindFirst
variable (limit : Nat) (array : PrioArray Entry)

theorem findFirst_cases :
    (findFirst limit array < limit ∧ array.bitmap (findFirst limit array) = true ∧
        ∀ prio < findFirst limit array, array.bitmap prio = false) ∨
      (findFirst limit array = limit ∧ ∀ prio < limit, array.bitmap prio = false) := by
  rw [findFirst]
  cases found : (List.range limit).find? array.bitmap with
  | none =>
      right
      rw [List.find?_eq_none] at found
      refine ⟨rfl, fun prio below => ?_⟩
      simpa using found prio (List.mem_range.mpr below)
  | some first =>
      left
      rw [List.find?_range_eq_some] at found
      obtain ⟨set, below, earlier⟩ := found
      exact ⟨List.mem_range.mp below, set, fun prio before => by simpa using earlier prio before⟩

theorem findFirst_le_limit : findFirst limit array ≤ limit := by
  rcases findFirst_cases limit array with ⟨below, -⟩ | ⟨same, -⟩
  · exact below.le
  · exact same.le

variable {limit array}

theorem findFirst_le {prio : Nat} (set : array.bitmap prio = true) (below : prio < limit) :
    findFirst limit array ≤ prio := by
  by_contra later
  rcases findFirst_cases limit array with ⟨-, -, clear⟩ | ⟨-, clear⟩
  · exact Bool.false_ne_true ((clear prio (Nat.lt_of_not_le later)).symm.trans set)
  · exact Bool.false_ne_true ((clear prio below).symm.trans set)

/-- The first bit is fixed by which bits below the limit are set. -/
theorem findFirst_eq {prio : Nat} (set : prio < limit → array.bitmap prio = true)
    (within : prio ≤ limit) (clear : ∀ earlier < prio, array.bitmap earlier = false) :
    findFirst limit array = prio := by
  rcases findFirst_cases limit array with ⟨below, here, before⟩ | ⟨same, none_set⟩
  · by_contra differ
    rcases Nat.lt_or_gt_of_ne differ with early | late
    · exact Bool.false_ne_true ((clear _ early).symm.trans here)
    · exact Bool.false_ne_true ((before _ late).symm.trans (set (late.trans below)))
  · rw [same]
    by_contra differ
    have below := Nat.lt_of_le_of_ne within (Ne.symm differ)
    exact Bool.false_ne_true ((none_set _ below).symm.trans (set below))

end FindFirst

/-- The array holds each entry with a key once, on the queue of its key. -/
structure Represents (array : PrioArray Entry) (key : Entry → Option Nat) : Prop where
  unique : ∀ prio, (array.queue prio).Nodup
  mem_iff : ∀ prio entry, entry ∈ array.queue prio ↔ key entry = some prio
  bit_iff : ∀ prio, array.bitmap prio = true ↔ array.queue prio ≠ []

section Contents
variable {array : PrioArray Entry} {key : Entry → Option Nat} {entry : Entry} {prio : Nat}

theorem empty_represents : (empty : PrioArray Entry).Represents fun _ => none where
  unique := fun _ => List.nodup_nil
  mem_iff := by simp [empty]
  bit_iff := by simp [empty]

theorem Represents.absent (holds : array.Represents key) (fresh : key entry = none)
    (other : Nat) : entry ∉ array.queue other := by
  intro member
  rw [(holds.mem_iff other entry).mp member] at fresh
  exact Option.some_ne_none other fresh

theorem Represents.bit (holds : array.Represents key) (here : key entry = some prio) :
    array.bitmap prio = true :=
  (holds.bit_iff prio).mpr (List.ne_nil_of_mem ((holds.mem_iff prio entry).mpr here))

theorem Represents.findFirst_le {limit : Nat} (holds : array.Represents key)
    (here : key entry = some prio) (below : prio < limit) : array.findFirst limit ≤ prio :=
  PrioArray.findFirst_le (holds.bit here) below

/-- The first bit is at most any key, those from the limit on included. -/
theorem Represents.findFirst_le_key (holds : array.Represents key) (limit : Nat)
    (here : key entry = some prio) : array.findFirst limit ≤ prio := by
  rcases Nat.lt_or_ge prio limit with below | beyond
  · exact holds.findFirst_le here below
  · exact (findFirst_le_limit limit array).trans beyond

theorem Represents.first (holds : array.Represents key) {limit : Nat}
    (found : array.findFirst limit < limit) :
    ∃ entry rest, array.queue (array.findFirst limit) = entry :: rest ∧
      key entry = some (array.findFirst limit) := by
  rcases findFirst_cases limit array with ⟨-, set, -⟩ | ⟨same, -⟩
  · obtain ⟨entry, rest, queue⟩ := List.exists_cons_of_ne_nil ((holds.bit_iff _).mp set)
    refine ⟨entry, rest, queue, (holds.mem_iff _ entry).mp ?_⟩
    rw [queue]
    exact List.mem_cons_self
  · exact absurd same found.ne

theorem Represents.findFirst_none (holds : array.Represents key)
    (none_left : ∀ entry, key entry = none) (limit : Nat) : array.findFirst limit = limit := by
  rcases findFirst_cases limit array with ⟨-, set, -⟩ | ⟨same, -⟩
  · obtain ⟨entry, rest, queue⟩ := List.exists_cons_of_ne_nil ((holds.bit_iff _).mp set)
    have member : entry ∈ array.queue (array.findFirst limit) := by
      rw [queue]
      exact List.mem_cons_self
    exact absurd member (holds.absent (none_left entry) _)
  · exact same

end Contents

variable [DecidableEq Entry]

def insert (head : Bool) (prio : Nat) (entry : Entry) (array : PrioArray Entry) :
    PrioArray Entry where
  queue := Function.update array.queue prio
    (if head then entry :: array.queue prio else array.queue prio ++ [entry])
  bitmap := Function.update array.bitmap prio true

/-- The entry leaves whatever queue it is on; only the bit of `prio` is looked at. -/
def remove (prio : Nat) (entry : Entry) (array : PrioArray Entry) : PrioArray Entry where
  queue := fun other => (array.queue other).erase entry
  bitmap := if (array.queue prio).erase entry = [] then Function.update array.bitmap prio false
    else array.bitmap

def requeue (head : Bool) (prio : Nat) (entry : Entry) (array : PrioArray Entry) :
    PrioArray Entry :=
  let without := fun other => (array.queue other).erase entry
  { array with
    queue := Function.update without prio
      (if head then entry :: without prio else without prio ++ [entry]) }

section Represents
variable {array : PrioArray Entry} {key : Entry → Option Nat} {entry : Entry} {prio : Nat}

theorem Represents.insert (holds : array.Represents key) (fresh : key entry = none)
    (head : Bool) (prio : Nat) :
    (array.insert head prio entry).Represents (Function.update key entry (some prio)) := by
  have absent := holds.absent fresh
  refine ⟨fun other => ?_, fun other member => ?_, fun other => ?_⟩
  all_goals by_cases same : other = prio
  · subst same
    simp only [PrioArray.insert, Function.update_self]
    cases head with
    | true => exact List.nodup_cons.mpr ⟨absent other, holds.unique other⟩
    | false =>
        exact (holds.unique other).append (List.nodup_singleton entry)
          (List.disjoint_singleton.mpr (absent other))
  · simpa [PrioArray.insert, Function.update_of_ne same] using holds.unique other
  · subst same
    by_cases this : member = entry
    · subst this
      cases head <;> simp [PrioArray.insert]
    · have before := holds.mem_iff other member
      cases head <;> simp [PrioArray.insert, this, before]
  · by_cases this : member = entry
    · subst this
      simp [PrioArray.insert, Function.update_of_ne same, absent, Ne.symm same]
    · simpa [PrioArray.insert, Function.update_of_ne same, Function.update_of_ne this] using
        holds.mem_iff other member
  · subst same
    cases head <;> simp [PrioArray.insert]
  · simpa [PrioArray.insert, Function.update_of_ne same] using holds.bit_iff other

theorem Represents.erase_other (holds : array.Represents key) (here : key entry = some prio)
    {other : Nat} (differ : other ≠ prio) :
    (array.queue other).erase entry = array.queue other := by
  apply List.erase_of_not_mem
  intro member
  have there := (holds.mem_iff other entry).mp member
  exact differ (Option.some.inj (there.symm.trans here))

theorem Represents.remove (holds : array.Represents key) (here : key entry = some prio) :
    (array.remove prio entry).Represents (Function.update key entry none) := by
  refine ⟨fun other => (holds.unique other).erase entry, fun other member => ?_, fun other => ?_⟩
  · simp only [PrioArray.remove, (holds.unique other).mem_erase_iff, holds.mem_iff]
    by_cases this : member = entry
    · simp [this]
    · simp [this]
  · by_cases same : other = prio
    · subst same
      have set := holds.bit here
      by_cases last : (array.queue other).erase entry = []
      · simp [PrioArray.remove, last]
      · simp [PrioArray.remove, last, set]
    · simp only [PrioArray.remove, holds.erase_other here same]
      split_ifs
      · rw [Function.update_of_ne same]
        exact holds.bit_iff other
      · exact holds.bit_iff other

theorem Represents.requeue (holds : array.Represents key) (here : key entry = some prio)
    (head : Bool) : (array.requeue head prio entry).Represents key := by
  have inside := (holds.mem_iff prio entry).mpr here
  have moved : (array.requeue head prio entry).queue prio |>.Perm (array.queue prio) := by
    simp only [PrioArray.requeue, Function.update_self]
    have first := List.perm_cons_erase inside
    cases head with
    | true => exact first.symm
    | false => exact ((List.perm_append_singleton entry _).trans first.symm)
  have others {other : Nat} (differ : other ≠ prio) :
      (array.requeue head prio entry).queue other = array.queue other := by
    simp only [PrioArray.requeue, Function.update_of_ne differ]
    exact holds.erase_other here differ
  refine ⟨fun other => ?_, fun other member => ?_, fun other => ?_⟩
  all_goals by_cases same : other = prio
  · subst same
    exact moved.nodup_iff.mpr (holds.unique other)
  · rw [others same]
    exact holds.unique other
  · subst same
    rw [moved.mem_iff]
    exact holds.mem_iff other member
  · rw [others same]
    exact holds.mem_iff other member
  · subst same
    have still : (array.requeue head other entry).queue other ≠ [] ↔ array.queue other ≠ [] := by
      simp only [ne_eq, ← List.length_eq_zero_iff, moved.length_eq]
    rw [still]
    exact holds.bit_iff other
  · rw [others same]
    exact holds.bit_iff other

omit [DecidableEq Entry] in
theorem findFirst_insert (limit : Nat) (head : Bool) :
    (array.insert head prio entry).findFirst limit = min (array.findFirst limit) prio := by
  have others {other : Nat} (differ : other ≠ prio) :
      (array.insert head prio entry).bitmap other = array.bitmap other :=
    Function.update_of_ne differ _ _
  have here : (array.insert head prio entry).bitmap prio = true := Function.update_self ..
  apply findFirst_eq
  · intro below
    rcases Nat.le_total (array.findFirst limit) prio with first | first
    · rw [min_eq_left first] at below ⊢
      by_cases same : array.findFirst limit = prio
      · rw [same]
        exact here
      · rcases findFirst_cases limit array with ⟨-, set, -⟩ | ⟨last, -⟩
        · exact (others same).trans set
        · exact absurd below last.ge.not_gt
    · rw [min_eq_right first]
      exact here
  · exact (min_le_left _ _).trans (findFirst_le_limit limit array)
  · intro earlier before
    obtain ⟨first, second⟩ := lt_min_iff.mp before
    rw [others second.ne]
    rcases findFirst_cases limit array with ⟨-, -, clear⟩ | ⟨last, clear⟩
    · exact clear earlier first
    · exact clear earlier (last ▸ first)

theorem Represents.findFirst_remove (holds : array.Represents key) {limit : Nat}
    (here : key entry = some prio) (later : prio ≠ array.findFirst limit) :
    (array.remove prio entry).findFirst limit = array.findFirst limit := by
  have kept {other : Nat} (differ : other ≠ prio) :
      (array.remove prio entry).bitmap other = array.bitmap other := by
    simp only [PrioArray.remove]
    split_ifs
    · exact Function.update_of_ne differ _ _
    · rfl
  have first := lt_of_le_of_ne (holds.findFirst_le_key limit here) later.symm
  apply findFirst_eq
  · intro below
    rcases findFirst_cases limit array with ⟨-, set, -⟩ | ⟨last, -⟩
    · exact (kept first.ne).trans set
    · exact absurd below last.ge.not_gt
  · exact findFirst_le_limit limit array
  · intro earlier before
    rw [kept (before.trans first).ne]
    rcases findFirst_cases limit array with ⟨-, -, clear⟩ | ⟨last, clear⟩
    · exact clear earlier before
    · exact clear earlier (last ▸ before)

end Represents

structure Lists (members : List Entry) (key : Entry → Option Nat) : Prop where
  unique : members.Nodup
  mem_iff : ∀ entry, entry ∈ members ↔ key entry ≠ none

section Lists
variable {members : List Entry} {key : Entry → Option Nat} {entry : Entry}

theorem Lists.insert (lists : Lists members key) (fresh : key entry = none) (prio : Nat) :
    Lists (entry :: members) (Function.update key entry (some prio)) := by
  have absent : entry ∉ members := fun member => (lists.mem_iff entry).mp member fresh
  refine ⟨List.nodup_cons.mpr ⟨absent, lists.unique⟩, fun other => ?_⟩
  by_cases same : other = entry
  · simp [same]
  · simp [same, lists.mem_iff]

theorem Lists.remove (lists : Lists members key) (entry : Entry) :
    Lists (members.erase entry) (Function.update key entry none) := by
  refine ⟨lists.unique.erase entry, fun other => ?_⟩
  rw [lists.unique.mem_erase_iff, lists.mem_iff]
  by_cases same : other = entry
  · simp [same]
  · simp [same]

end Lists

end PrioArray

end AndroidKernel
