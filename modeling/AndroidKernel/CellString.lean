import Mathlib.Data.List.Basic
import Mathlib.Logic.Function.Basic

/-!
Strings in memory. An array is the memory from its first cell on, and nothing
stops a walk over it but what it finds in the cells: it reads on behind the end
of the array until there is a terminator.
-/

namespace AndroidKernel.CellString

universe u
variable {Byte : Type u} {nul : Byte} {cells : Nat → Byte} {bytes : List Byte}

def fill (cells : Nat → Byte) (bytes : List Byte) : Nat → Byte := fun i => bytes.getD i (cells i)

def store (nul : Byte) (cells : Nat → Byte) (bytes : List Byte) : Nat → Byte :=
  Function.update (fill cells bytes) bytes.length nul

theorem store_nul (nul : Byte) (cells : Nat → Byte) (bytes : List Byte) :
    store nul cells bytes bytes.length = nul := by
  simp [store]

structure Holds (nul : Byte) (cells : Nat → Byte) (bytes : List Byte) : Prop where
  byte : ∀ i (inside : i < bytes.length), cells i = bytes[i]
  nul : cells bytes.length = nul

theorem holds_store (nul : Byte) (cells : Nat → Byte) (bytes : List Byte) :
    Holds nul (store nul cells bytes) bytes := by
  constructor
  · intro i inside
    rw [store, Function.update_of_ne (Nat.ne_of_lt inside), fill]
    simp [inside]
  · exact store_nul nul cells bytes

theorem Holds.head {b : Byte} (holds : Holds nul cells (b :: bytes)) : cells 0 = b :=
  holds.byte 0 (Nat.zero_lt_succ _)

theorem Holds.tail {b : Byte} (holds : Holds nul cells (b :: bytes)) :
    Holds nul (fun i => cells (i + 1)) bytes := by
  constructor
  · intro i inside
    exact holds.byte (i + 1) (Nat.succ_lt_succ inside)
  · exact holds.nul

theorem Holds.set (holds : Holds nul cells bytes) (i : Nat) (inside : i < bytes.length) (b : Byte) :
    Holds nul (Function.update cells i b) (bytes.set i b) := by
  constructor
  · intro k within
    by_cases isHere : k = i
    · subst isHere
      simp
    · have old : k < bytes.length := by simpa using within
      rw [Function.update_of_ne isHere, List.getElem_set_ne (Ne.symm isHere)]
      exact holds.byte k old
  · rw [List.length_set, Function.update_of_ne (Nat.ne_of_gt inside)]
    exact holds.nul

theorem Holds.map_next {f : Byte → Byte} {before after : List Byte} {b : Byte}
    (holds : Holds nul cells (before.map f ++ b :: after)) :
    Holds nul (Function.update cells before.length (f (cells before.length)))
      ((before ++ [b]).map f ++ after) := by
  have here : cells before.length = b := by
    rw [holds.byte before.length (by simp), List.getElem_append_right (by simp)]
    simp
  have mapped := holds.set before.length (by simp) (f b)
  rw [List.set_append_right _ _ (by simp)] at mapped
  simpa [here] using mapped

/-- A comparison of the string with a literal stops at `j`: at the first byte
that differs, or at the end of both. -/
structure ComparesAt (nul : Byte) (cells : Nat → Byte) (literal string : List Byte) (j : Nat) :
    Prop where
  agree : ∀ i < j, cells i = literal.getD i nul ∧ cells i ≠ nul
  verdict : cells j ≠ literal.getD j nul ∧ string ≠ literal ∨
    cells j = literal.getD j nul ∧ cells j = nul ∧ string = literal

theorem compares_end {literal : List Byte} (isEnd : cells 0 = nul) (noNul : nul ∉ literal) :
    ComparesAt nul cells literal [] 0 := by
  refine ⟨fun i none => absurd none (Nat.not_lt_zero i), ?_⟩
  cases literal with
  | nil => exact Or.inr ⟨isEnd, isEnd, rfl⟩
  | cons c others =>
      have notNul : nul ≠ c := fun same => noNul (by simp [same])
      exact Or.inl ⟨by simpa [isEnd] using notNul, by simp⟩

variable [DecidableEq Byte]

theorem Holds.string_end (holds : Holds nul cells bytes) :
    (∀ i < (bytes.takeWhile (· ≠ nul)).length, cells i ≠ nul) ∧
      cells (bytes.takeWhile (· ≠ nul)).length = nul := by
  induction bytes generalizing cells with
  | nil => exact ⟨by simp, holds.nul⟩
  | cons b rest ih =>
      have first := holds.head
      by_cases isNul : b = nul
      · simp [isNul, first]
      · obtain ⟨before, atEnd⟩ := ih holds.tail
        simp only [List.takeWhile_cons, isNul, ne_eq, not_false_eq_true, decide_true, if_true,
          List.length_cons]
        refine ⟨fun i inside => ?_, atEnd⟩
        cases i with
        | zero => rwa [first]
        | succ i => exact before i (Nat.lt_of_succ_lt_succ inside)

theorem Holds.compares (holds : Holds nul cells bytes) (literal : List Byte)
    (noNul : nul ∉ literal) : ∃ j, ComparesAt nul cells literal (bytes.takeWhile (· ≠ nul)) j := by
  induction bytes generalizing cells literal with
  | nil => exact ⟨0, compares_end holds.nul noNul⟩
  | cons b rest ih =>
      have first := holds.head
      by_cases isNul : b = nul
      · have ends : (b :: rest).takeWhile (· ≠ nul) = [] := by simp [isNul]
        rw [ends]
        exact ⟨0, compares_end (first.trans isNul) noNul⟩
      · have goesOn : (b :: rest).takeWhile (· ≠ nul) = b :: rest.takeWhile (· ≠ nul) := by
          simp [isNul]
        rw [goesOn]
        cases literal with
        | nil => exact ⟨0, by simp, Or.inl ⟨by simpa [first] using isNul, by simp⟩⟩
        | cons c others =>
            by_cases same : b = c
            · subst same
              have later : nul ∉ others := fun inside => noNul (List.mem_cons_of_mem b inside)
              obtain ⟨j, agree, verdict⟩ := ih holds.tail others later
              refine ⟨j + 1, fun i inside => ?_, by simpa using verdict⟩
              cases i with
              | zero => exact ⟨by simp [first], by rwa [first]⟩
              | succ i => exact agree i (Nat.lt_of_succ_lt_succ inside)
            · exact ⟨0, by simp, Or.inl ⟨by simpa [first] using same, by simp [same]⟩⟩

end AndroidKernel.CellString
