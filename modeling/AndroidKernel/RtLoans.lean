import Mathlib.Tactic.Ring
import AndroidKernel.RtBandwidth
import AndroidKernel.System

/-!
Runtime is never made or lost: in each root domain the runtimes of the CPUs
that are not disabled add up to the group's runtime times their number, so a
CPU that goes away always finds what it lent.
-/

namespace AndroidKernel.RtBandwidth

open RunList

def held (time : RtTime) : Nat := if time.rtRuntime = runtimeInf then 0 else time.rtRuntime

def deviation (base : Nat) (time : RtTime) : Int :=
  if time.rtRuntime = runtimeInf then 0 else (time.rtRuntime : Int) - base

def totalDeviation (base : Nat) (col : Cpu → RtTime) (cpus : List Cpu) : Int :=
  (cpus.map fun c => deviation base (col c)).sum

/-- A closed list of CPUs: what one has too much, others have too little, and
no sum of their runtimes can overflow. -/
structure Closed (base : Nat) (cpus : List Cpu) (col : Cpu → RtTime) : Prop where
  unique : cpus.Nodup
  even : totalDeviation base col cpus = 0
  small : cpus.length * base < 2 ^ 63

@[simp] theorem setRuntime_self (col : Cpu → RtTime) (c : Cpu) (runtime : Nat) :
    (setRuntime col c runtime c).rtRuntime = runtime := by
  simp [setRuntime]

theorem setRuntime_ne (col : Cpu → RtTime) {c other : Cpu} (runtime : Nat)
    (differs : other ≠ c) : setRuntime col c runtime other = col other :=
  Function.update_of_ne differs _ _

theorem setRuntime_rtTime (col : Cpu → RtTime) (c : Cpu) (runtime : Nat) (other : Cpu) :
    (setRuntime col c runtime other).rtTime = (col other).rtTime := by
  by_cases same : other = c
  · subst same
    simp [setRuntime]
  · rw [setRuntime_ne col runtime same]

theorem held_eq {time : RtTime} (finite : time.rtRuntime ≠ runtimeInf) :
    held time = time.rtRuntime := if_neg finite

theorem deviation_eq {base : Nat} {time : RtTime} (finite : time.rtRuntime ≠ runtimeInf) :
    deviation base time = time.rtRuntime - base := if_neg finite

theorem totalDeviation_set (base : Nat) (col : Cpu → RtTime) (cpus : List Cpu)
    (unique : cpus.Nodup) (c : Cpu) (member : c ∈ cpus) (runtime : Nat) :
    totalDeviation base (setRuntime col c runtime) cpus =
      totalDeviation base col cpus - deviation base (col c) +
        deviation base { col c with rtRuntime := runtime } := by
  have pointwise : (fun other => deviation base (setRuntime col c runtime other)) =
      Function.update (fun other => deviation base (col other)) c
        (deviation base { col c with rtRuntime := runtime }) := by
    funext other
    by_cases same : other = c
    · subst same
      simp [setRuntime]
    · rw [setRuntime_ne col runtime same, Function.update_of_ne same]
  rw [totalDeviation, pointwise, sum_update cpus unique c member]
  rfl

/-- Sums go through the deviations: nobody holds more than its share and what
it is off by. -/
theorem held_sum_le (base : Nat) (col : Cpu → RtTime) (cpus : List Cpu) :
    (((cpus.map fun c => held (col c)).sum : Nat) : Int) ≤
      totalDeviation base col cpus + cpus.length * base := by
  induction cpus with
  | nil => simp [totalDeviation]
  | cons c rest ih =>
      have one : (held (col c) : Int) ≤ deviation base (col c) + base := by
        simp only [held, deviation]
        split <;> omega
      simp only [totalDeviation, List.map_cons, List.sum_cons, List.length_cons, Nat.cast_add,
        Nat.cast_one] at ih ⊢
      have expand : ((rest.length : Int) + 1) * base = rest.length * base + base := by ring
      omega

section Closed
variable {base : Nat} {cpus : List Cpu} {col : Cpu → RtTime}

theorem Closed.sum_le (closed : Closed base cpus col) :
    (cpus.map fun c => held (col c)).sum ≤ cpus.length * base := by
  have bound := held_sum_le base col cpus
  rw [closed.even, zero_add] at bound
  exact_mod_cast bound

theorem Closed.le (closed : Closed base cpus col) {c : Cpu} (member : c ∈ cpus)
    (finite : (col c).rtRuntime ≠ runtimeInf) : (col c).rtRuntime ≤ cpus.length * base := by
  have one := le_sum cpus c (fun c => held (col c)) member
  rw [held_eq finite] at one
  exact one.trans closed.sum_le

theorem Closed.add_le (closed : Closed base cpus col) {one two : Cpu} (first : one ∈ cpus)
    (second : two ∈ cpus) (differ : one ≠ two) (finite : (col one).rtRuntime ≠ runtimeInf)
    (finite' : (col two).rtRuntime ≠ runtimeInf) :
    (col one).rtRuntime + (col two).rtRuntime ≤ cpus.length * base := by
  have split := sum_erase_nat cpus one (fun c => held (col c)) first
  have rest := le_sum (cpus.erase one) two (fun c => held (col c))
    ((List.mem_erase_of_ne differ.symm).mpr second)
  have total := closed.sum_le
  simp only [held_eq finite, held_eq finite'] at split rest
  omega

theorem runtimeInf_big : 2 ^ 63 < runtimeInf := by decide

structure Lendable (col : Cpu → RtTime) (lender borrower : Cpu) (diff : Int) : Prop where
  differ : lender ≠ borrower
  open_lender : (col lender).rtRuntime ≠ runtimeInf
  open_borrower : (col borrower).rtRuntime ≠ runtimeInf
  has : diff ≤ (col lender).rtRuntime
  owes : -((col borrower).rtRuntime : Int) ≤ diff

variable {lender borrower : Cpu} {diff : Int}

theorem Closed.lend_values (closed : Closed base cpus col) (first : lender ∈ cpus)
    (second : borrower ∈ cpus) (can : Lendable col lender borrower diff) :
    ((lend col lender borrower diff lender).rtRuntime : Int) = (col lender).rtRuntime - diff ∧
      ((lend col lender borrower diff borrower).rtRuntime : Int) =
        (col borrower).rtRuntime + diff := by
  have both := closed.add_le first second can.differ can.open_lender can.open_borrower
  have small := closed.small
  have has := can.has
  have owes := can.owes
  constructor
  · rw [lend, setRuntime_ne _ _ can.differ, setRuntime_self]
    exact u64_eq (by omega) (by omega)
  · rw [lend, setRuntime_self, setRuntime_ne _ _ can.differ.symm]
    exact u64_eq (by omega) (by omega)

theorem lend_other (col : Cpu → RtTime) (diff : Int) {c : Cpu} (one : c ≠ lender)
    (two : c ≠ borrower) : lend col lender borrower diff c = col c := by
  rw [lend, setRuntime_ne _ _ two, setRuntime_ne _ _ one]

theorem Closed.lend_open (closed : Closed base cpus col) (first : lender ∈ cpus)
    (second : borrower ∈ cpus) (can : Lendable col lender borrower diff) (c : Cpu) :
    (lend col lender borrower diff c).rtRuntime = runtimeInf ↔
      (col c).rtRuntime = runtimeInf := by
  obtain ⟨gave, took⟩ := closed.lend_values first second can
  have both := closed.add_le first second can.differ can.open_lender can.open_borrower
  have small := closed.small
  have big := runtimeInf_big
  have has := can.has
  have owes := can.owes
  by_cases one : c = lender
  · subst one
    exact iff_of_false (by omega) can.open_lender
  · by_cases two : c = borrower
    · subst two
      exact iff_of_false (by omega) can.open_borrower
    · rw [lend_other col diff one two]

theorem Closed.lend (closed : Closed base cpus col) (first : lender ∈ cpus)
    (second : borrower ∈ cpus) (can : Lendable col lender borrower diff) :
    Closed base cpus (lend col lender borrower diff) := by
  obtain ⟨gave, took⟩ := closed.lend_values first second can
  have openLender := (closed.lend_open first second can lender).not.mpr can.open_lender
  have openBorrower := (closed.lend_open first second can borrower).not.mpr can.open_borrower
  refine ⟨closed.unique, ?_, closed.small⟩
  rw [RtBandwidth.lend, setRuntime_ne _ _ can.differ, setRuntime_self] at gave openLender
  rw [RtBandwidth.lend, setRuntime_self] at took openBorrower
  rw [RtBandwidth.lend, totalDeviation_set base _ cpus closed.unique borrower second,
    totalDeviation_set base _ cpus closed.unique lender first, closed.even,
    setRuntime_ne _ _ can.differ.symm, deviation_eq can.open_lender,
    deviation_eq can.open_borrower]
  rw [setRuntime_ne _ _ can.differ.symm] at took openBorrower
  rw [deviation, if_neg openLender, gave, deviation, if_neg openBorrower, took]
  ring

end Closed

/-- What a borrower takes: at most the spare time, up to the period. -/
theorem loan_bounds {rtPeriod weight own : Nat} {spare : Int} {lender : Nat}
    (positive : 0 < spare) (has : spare ≤ lender) (small : own + lender < 2 ^ 63) :
    loan rtPeriod weight own spare ≤ spare ∧
      -(own : Int) ≤ loan rtPeriod weight own spare ∧
      own + loan rtPeriod weight own spare ≤ rtPeriod ∧
      (loan rtPeriod weight own spare < 0 → rtPeriod < own) := by
  have part : spare / weight ≤ spare := Int.ediv_le_self _ positive.le
  have nonneg : 0 ≤ spare / (weight : Int) := Int.ediv_nonneg positive.le (Int.natCast_nonneg _)
  have sum : (u64 (own + spare / weight) : Int) = own + spare / weight :=
    u64_eq (by omega) (by omega)
  simp only [loan]
  split
  next past =>
    have exact : s64 ((rtPeriod : Int) - own) = rtPeriod - own := s64_eq (by omega) (by omega)
    rw [exact]
    omega
  next within =>
    omega

inductive Loans (rtPeriod : Nat) (own : Cpu) (used : Cpu → Nat) (cpus : List Cpu) :
    (Cpu → RtTime) → (Cpu → RtTime) → Prop where
  | refl (col) : Loans rtPeriod own used cpus col col
  | next {col after : Cpu → RtTime} (i : Cpu) (diff : Int) (member : i ∈ cpus)
      (can : Lendable col i own diff) (spare : diff ≤ (col i).rtRuntime - used i)
      (within : (col own).rtRuntime + diff ≤ rtPeriod)
      (back : diff < 0 → rtPeriod < (col own).rtRuntime)
      (rest : Loans rtPeriod own used cpus (lend col i own diff) after) :
      Loans rtPeriod own used cpus col after

section Borrow
variable {base rtPeriod weight : Nat} {own : Cpu} {used : Cpu → Nat} {cpus : List Cpu}

theorem balanceLoop_loans (member : own ∈ cpus) (time : ∀ i ∈ cpus, used i < 2 ^ 63)
    (visits : List Cpu) (inside : visits ⊆ cpus) (more : Bool) (col : Cpu → RtTime)
    (closed : Closed base cpus col) (finite : (col own).rtRuntime ≠ runtimeInf) :
    Loans rtPeriod own used cpus col
      (balanceLoop rtPeriod weight own used visits more col).1 := by
  induction visits generalizing more col with
  | nil => exact .refl col
  | cons i rest ih =>
      have inRest : rest ⊆ cpus := fun c later => inside (List.mem_cons_of_mem _ later)
      have first : i ∈ cpus := inside List.mem_cons_self
      simp only [balanceLoop]
      split
      next skip => exact ih inRest more col closed finite
      next visit =>
        rw [not_or] at visit
        have both := closed.add_le first member visit.1 visit.2 finite
        have small := closed.small
        have exact : s64 ((col i).rtRuntime - used i) = (col i).rtRuntime - used i := by
          have := time i first
          exact s64_eq (by omega) (by omega)
        split
        next spare =>
          rw [exact] at spare ⊢
          obtain ⟨most, least, within, back⟩ := @loan_bounds rtPeriod weight
            (col own).rtRuntime _ (col i).rtRuntime spare (by omega) (by omega)
          have can : Lendable col i own (loan rtPeriod weight (col own).rtRuntime
              ((col i).rtRuntime - used i)) :=
            ⟨visit.1, visit.2, finite, by omega, least⟩
          have still := (closed.lend_open first member can own).not.mpr finite
          refine .next i _ first can most within back ?_
          split
          next => exact .refl _
          next => exact ih inRest true _ (closed.lend first member can) still
        next => exact ih inRest more col closed finite

theorem Loans.closed {col after : Cpu → RtTime} (loans : Loans rtPeriod own used cpus col after)
    (member : own ∈ cpus) (closed : Closed base cpus col) : Closed base cpus after := by
  induction loans with
  | refl => exact closed
  | next i diff first can _ _ _ _ ih => exact ih (closed.lend first member can)

theorem Loans.open_iff {col after : Cpu → RtTime}
    (loans : Loans rtPeriod own used cpus col after) (member : own ∈ cpus)
    (closed : Closed base cpus col) (c : Cpu) :
    (after c).rtRuntime = runtimeInf ↔ (col c).rtRuntime = runtimeInf := by
  induction loans with
  | refl => exact Iff.rfl
  | next i diff first can _ _ _ _ ih =>
      exact (ih (closed.lend first member can)).trans (closed.lend_open first member can c)

theorem Loans.outside {col after : Cpu → RtTime}
    (loans : Loans rtPeriod own used cpus col after) (member : own ∈ cpus) {c : Cpu}
    (elsewhere : c ∉ cpus) : after c = col c := by
  induction loans with
  | refl => rfl
  | next i diff first _ _ _ _ _ ih =>
      rw [ih, lend_other]
      · exact fun same => elsewhere (same ▸ first)
      · exact fun same => elsewhere (same ▸ member)

theorem Loans.rtTime {col after : Cpu → RtTime} (loans : Loans rtPeriod own used cpus col after)
    (c : Cpu) : (after c).rtTime = (col c).rtTime := by
  induction loans with
  | refl => rfl
  | next i diff _ _ _ _ _ _ ih => rw [ih, lend, setRuntime_rtTime, setRuntime_rtTime]

theorem Loans.own_le {col after : Cpu → RtTime}
    (loans : Loans rtPeriod own used cpus col after) (member : own ∈ cpus)
    (closed : Closed base cpus col) (start : (col own).rtRuntime ≤ rtPeriod) :
    (col own).rtRuntime ≤ (after own).rtRuntime ∧ (after own).rtRuntime ≤ rtPeriod := by
  induction loans with
  | refl => exact ⟨le_rfl, start⟩
  | @next col after i diff first can spare within back _ ih =>
      have took := (closed.lend_values first member can).2
      have later := ih (closed.lend first member can) (by omega)
      omega

theorem Loans.keeps_used {col after : Cpu → RtTime}
    (loans : Loans rtPeriod own used cpus col after) (member : own ∈ cpus)
    (closed : Closed base cpus col) {c : Cpu} (other : c ≠ own)
    (start : used c ≤ (col c).rtRuntime) : used c ≤ (after c).rtRuntime := by
  induction loans with
  | refl => exact start
  | @next col after i diff first can spare _ _ _ ih =>
      refine ih (closed.lend first member can) ?_
      by_cases same : c = i
      · subst same
        have gave := (closed.lend_values first member can).1
        omega
      · rw [lend_other col diff same other]
        exact start

end Borrow

inductive Takes (own : Cpu) (cpus : List Cpu) :
    (Cpu → RtTime) → Int → (Cpu → RtTime) → Int → Prop where
  | refl (col) (want) : Takes own cpus col want col want
  | next {col after : Cpu → RtTime} {want left : Int} (i : Cpu) (diff : Int) (member : i ∈ cpus)
      (other : i ≠ own) (finite : (col i).rtRuntime ≠ runtimeInf)
      (has : diff ≤ (col i).rtRuntime) (small : (col i).rtRuntime - diff < 2 ^ 63)
      (rest : Takes own cpus (setRuntime col i (u64 ((col i).rtRuntime - diff))) (want - diff)
        after left) :
      Takes own cpus col want after left

section Reclaim
variable {base : Nat} {own : Cpu} {cpus : List Cpu} {col after : Cpu → RtTime} {want left : Int}

theorem take_value {i : Cpu} {diff : Int} (has : diff ≤ (col i).rtRuntime)
    (small : (col i).rtRuntime - diff < 2 ^ 63) :
    (u64 ((col i).rtRuntime - diff) : Int) = (col i).rtRuntime - diff ∧
      u64 ((col i).rtRuntime - diff) ≠ runtimeInf := by
  have value : (u64 ((col i).rtRuntime - diff) : Int) = (col i).rtRuntime - diff :=
    u64_eq (by omega) (by omega)
  have big := runtimeInf_big
  exact ⟨value, by omega⟩

theorem Takes.own_same (takes : Takes own cpus col want after left) : after own = col own := by
  induction takes with
  | refl => rfl
  | next i diff _ other _ _ _ _ ih => rw [ih, setRuntime_ne _ _ other.symm]

theorem Takes.outside (takes : Takes own cpus col want after left) {c : Cpu}
    (elsewhere : c ∉ cpus) : after c = col c := by
  induction takes with
  | refl => rfl
  | next i diff member _ _ _ _ _ ih =>
      rw [ih, setRuntime_ne]
      exact fun same => elsewhere (same ▸ member)

theorem Takes.open_iff (takes : Takes own cpus col want after left) (c : Cpu) :
    (after c).rtRuntime = runtimeInf ↔ (col c).rtRuntime = runtimeInf := by
  induction takes with
  | refl => exact Iff.rfl
  | @next col after want left i diff _ _ finite has small _ ih =>
      refine ih.trans ?_
      by_cases same : c = i
      · subst same
        rw [setRuntime_self]
        exact iff_of_false (take_value has small).2 finite
      · rw [setRuntime_ne col _ same]

theorem Takes.rtTime (takes : Takes own cpus col want after left) (c : Cpu) :
    (after c).rtTime = (col c).rtTime := by
  induction takes with
  | refl => rfl
  | next i diff _ _ _ _ _ _ ih => rw [ih, setRuntime_rtTime]

theorem Takes.total (takes : Takes own cpus col want after left) (unique : cpus.Nodup) :
    totalDeviation base after cpus = totalDeviation base col cpus - (want - left) := by
  induction takes with
  | refl => omega
  | @next col after want left i diff member _ finite has small _ ih =>
      obtain ⟨value, open'⟩ := take_value has small
      have set := totalDeviation_set base col cpus unique i member
        (u64 ((col i).rtRuntime - diff))
      rw [deviation_eq finite, deviation, if_neg open', value] at set
      rw [ih, set]
      omega

def Room (own : Cpu) (cpus : List Cpu) (want : Int) (col : Cpu → RtTime) : Prop :=
  ∀ i ∈ cpus, i ≠ own → (col i).rtRuntime ≠ runtimeInf →
    (col i).rtRuntime < 2 ^ 63 ∧ (col i).rtRuntime - want < 2 ^ 63

theorem reclaimLoop_takes (visits : List Cpu) (inside : visits ⊆ cpus) (want : Int)
    (col : Cpu → RtTime) (room : Room own cpus want col) :
    Takes own cpus col want (reclaimLoop own visits want col).1
      (reclaimLoop own visits want col).2 := by
  induction visits generalizing want col with
  | nil => exact .refl col want
  | cons i rest ih =>
      have inRest : rest ⊆ cpus := fun c later => inside (List.mem_cons_of_mem _ later)
      have first : i ∈ cpus := inside List.mem_cons_self
      simp only [reclaimLoop]
      split
      next => exact ih inRest want col room
      next visit =>
        rw [not_or] at visit
        obtain ⟨small, gift⟩ := room i first visit.1 visit.2
        split
        next wants =>
          have exact : s64 (col i).rtRuntime = (col i).rtRuntime := s64_eq (by omega) (by omega)
          rw [exact]
          have has : min ((col i).rtRuntime : Int) want ≤ (col i).rtRuntime := min_le_left _ _
          have below : ((col i).rtRuntime : Int) - min ((col i).rtRuntime : Int) want < 2 ^ 63 := by
            omega
          obtain ⟨value, -⟩ := take_value has below
          refine .next i _ first visit.1 visit.2 has below ?_
          split
          next done =>
            rw [done]
            exact .refl _ _
          next more =>
            refine ih inRest _ _ ?_
            intro other member differs finite
            by_cases same : other = i
            · subst same
              rw [setRuntime_self] at finite ⊢
              omega
            · rw [setRuntime_ne col _ same] at finite ⊢
              have := room other member differs finite
              omega
        next surplus =>
          refine .next i want first visit.1 visit.2 (by omega) gift ?_
          rw [sub_self]
          exact .refl _ _

/-- The greedy loop gets all it wants, or all there is. -/
theorem reclaimLoop_left (visits : List Cpu) (unique : visits.Nodup) (want : Int)
    (col : Cpu → RtTime) (wants : 0 < want)
    (small : ∀ i ∈ visits, (col i).rtRuntime ≠ runtimeInf → (col i).rtRuntime < 2 ^ 63)
    (enough : want ≤ ((visits.map fun i => if i = own then 0 else held (col i)).sum : Nat)) :
    (reclaimLoop own visits want col).2 = 0 := by
  induction visits generalizing want col with
  | nil => simp at enough; omega
  | cons i rest ih =>
      obtain ⟨absent, uniqueRest⟩ := List.nodup_cons.mp unique
      have smallRest := fun j (later : j ∈ rest) => small j (List.mem_cons_of_mem _ later)
      rw [List.map_cons, List.sum_cons] at enough
      simp only [reclaimLoop, if_pos wants]
      split
      next skip =>
        have nothing : (if i = own then 0 else held (col i)) = 0 := by
          rcases skip with same | closed
          · exact if_pos same
          · simp [held, closed]
        rw [nothing, zero_add] at enough
        exact ih uniqueRest want col wants smallRest enough
      next visit =>
        rw [not_or] at visit
        have below := small i List.mem_cons_self visit.2
        have exact : s64 (col i).rtRuntime = (col i).rtRuntime := s64_eq (by omega) (by omega)
        rw [if_neg visit.1, held_eq visit.2] at enough
        rw [exact]
        split
        next => rfl
        next more =>
          have same : ∀ (runtime : Nat), ∀ j ∈ rest, setRuntime col i runtime j = col j :=
            fun runtime j later => setRuntime_ne col runtime fun e => absent (e ▸ later)
          refine ih uniqueRest _ _ (by omega) ?_ ?_
          · intro j later
            rw [same _ j later]
            exact smallRest j later
          · rw [sum_congr rest _ (fun j => if j = own then 0 else held (col j))
              (fun j later => by rw [same _ j later])]
            rw [Nat.cast_add] at enough
            omega

/-- A surplus finds a taker as soon as one other CPU is open. -/
theorem reclaimLoop_surplus (visits : List Cpu) (want : Int) (col : Cpu → RtTime)
    (surplus : ¬ want > 0)
    (taker : ∃ i ∈ visits, i ≠ own ∧ (col i).rtRuntime ≠ runtimeInf) :
    (reclaimLoop own visits want col).2 = 0 := by
  induction visits with
  | nil => simp at taker
  | cons i rest ih =>
      simp only [reclaimLoop, if_neg surplus]
      split
      next skip =>
        obtain ⟨j, member, other, finite⟩ := taker
        rcases List.mem_cons.mp member with rfl | later
        · exact absurd skip (not_or.mpr ⟨other, finite⟩)
        · exact ih ⟨j, later, other, finite⟩
      next => rfl

/-- After `__disable_runtime` nothing is left wanting, and the CPU can be closed. -/
theorem Closed.reclaim (closed : Closed base cpus col) (member : own ∈ cpus)
    (finite : (col own).rtRuntime ≠ runtimeInf) (off : (col own).rtRuntime ≠ base) :
    let want := s64 (base - (col own).rtRuntime)
    Takes own cpus col want (reclaimLoop own cpus want col).1 (reclaimLoop own cpus want col).2 ∧
      want = base - (col own).rtRuntime ∧ (reclaimLoop own cpus want col).2 = 0 := by
  have small := closed.small
  have mine := closed.le member finite
  have long : 0 < cpus.length := List.length_pos_of_mem member
  have baseSmall : base ≤ cpus.length * base := Nat.le_mul_of_pos_left base long
  have exact : s64 ((base : Int) - (col own).rtRuntime) = base - (col own).rtRuntime :=
    s64_eq (by omega) (by omega)
  simp only [exact]
  have room : Room own cpus ((base : Int) - (col own).rtRuntime) col := by
    intro i inside other finite'
    have both := closed.add_le inside member other finite' finite
    omega
  refine ⟨reclaimLoop_takes cpus (List.Subset.refl cpus) _ col room, trivial, ?_⟩
  -- the other open CPUs are off by exactly what is wanted
  have others := totalDeviation_set base col cpus closed.unique own member runtimeInf
  rw [closed.even, deviation_eq finite, deviation, if_pos rfl] at others
  by_cases wants : (0 : Int) < base - (col own).rtRuntime
  · refine reclaimLoop_left cpus closed.unique _ col wants ?_ ?_
    · intro i inside open'
      have := closed.le inside open'
      omega
    · have bound : totalDeviation base (setRuntime col own runtimeInf) cpus ≤
          (((cpus.map fun i => if i = own then 0 else held (col i)).sum : Nat) : Int) := by
        rw [totalDeviation, Nat.cast_list_sum, List.map_map]
        refine List.sum_le_sum fun i _ => ?_
        by_cases same : i = own
        · subst same
          simp [deviation]
        · rw [setRuntime_ne col _ same, Function.comp_apply, if_neg same]
          simp only [deviation, held]
          split <;> omega
      omega
  · refine reclaimLoop_surplus cpus _ col wants ?_
    by_contra alone
    have nothing : totalDeviation base (setRuntime col own runtimeInf) cpus = 0 := by
      refine List.sum_eq_zero fun value inside => ?_
      obtain ⟨i, inCpus, rfl⟩ := List.mem_map.mp inside
      by_cases same : i = own
      · subst same
        simp [deviation]
      · rw [setRuntime_ne col _ same, deviation, if_pos]
        by_contra open'
        exact alone ⟨i, inCpus, same, open'⟩
    omega

end Reclaim

section Runs
variable {kernel : Kernel} {nrCpuIds : Nat}

def Fresh (s : State) (c : Cpu) : Prop :=
  (s.rtRq c).rtRuntime = runtimeInf ∨ (s.rtRq c).rtRuntime = s.rtRuntime

instance (s : State) (c : Cpu) : Decidable (Fresh s c) := inferInstanceAs (Decidable (_ ∨ _))

/-- The code gives a CPU its runtime anew, or moves it to another root domain,
without asking what it has lent. This says where there is nothing to ask, and
that 3.1 looks for neighbours in the right root domain. -/
def Orderly (kernel : Kernel) (s : State) : Op → Prop
  | .balanceRuntime this c _ => kernel = .goldfish ∨ s.rd this = s.rd c
  | .rqAttachRoot c _ _ | .migrationCall c .online => s.online c = false → Fresh s c
  | .updateRuntime c .downFailed | .updateRuntime c .online => Fresh s c
  | .migrationCall _ .downPrepare | .migrationCall _ .downFailed | .migrationCall _ .dying
  | .updateRuntime _ .downPrepare | .updateRuntime _ .dying
  | .account _ _ _ | .setRtBandwidth _ _ => True

instance (s : State) : (op : Op) → Decidable (Orderly kernel s op)
  | .balanceRuntime _ _ _ => inferInstanceAs (Decidable (_ ∨ _))
  | .rqAttachRoot _ _ _ | .migrationCall _ .online => inferInstanceAs (Decidable (_ → _))
  | .updateRuntime _ .downFailed | .updateRuntime _ .online =>
      inferInstanceAs (Decidable (Fresh _ _))
  | .migrationCall _ .downPrepare | .migrationCall _ .downFailed | .migrationCall _ .dying
  | .updateRuntime _ .downPrepare | .updateRuntime _ .dying
  | .account _ _ _ | .setRtBandwidth _ _ => inferInstanceAs (Decidable True)

structure Settled (nrCpuIds : Nat) (s : State) : Prop where
  conserved : ∀ root, totalDeviation s.rtRuntime s.rtRq (span nrCpuIds s root) = 0
  small : s.rtRuntime = runtimeInf ∨ nrCpuIds * s.rtRuntime < 2 ^ 63
  unlimited : s.rtRuntime = runtimeInf → ∀ c < nrCpuIds, (s.rtRq c).rtRuntime = runtimeInf
  time : ∀ c < nrCpuIds, (s.rtRq c).rtTime ≤ runtimeInf
  no_bug : s.bugOn = false

theorem mem_span {s : State} {root : Nat} {c : Cpu} :
    c ∈ span nrCpuIds s root ↔ c < nrCpuIds ∧ s.rd c = root := by
  simp [span]

theorem span_nodup (s : State) (root : Nat) : (span nrCpuIds s root).Nodup :=
  List.nodup_range.filter _

theorem span_length_le (s : State) (root : Nat) : (span nrCpuIds s root).length ≤ nrCpuIds :=
  (List.length_filter_le _ _).trans_eq List.length_range

theorem Settled.closed {s : State} (settled : Settled nrCpuIds s) (root : Nat)
    (limited : s.rtRuntime ≠ runtimeInf) :
    Closed s.rtRuntime (span nrCpuIds s root) s.rtRq := by
  have small := settled.small.resolve_left limited
  have short := Nat.mul_le_mul_right s.rtRuntime (@span_length_le nrCpuIds s root)
  exact ⟨span_nodup s root, settled.conserved root, by omega⟩

theorem totalDeviation_congr {base : Nat} {before after : Cpu → RtTime} {cpus : List Cpu}
    (same : ∀ c ∈ cpus, deviation base (before c) = deviation base (after c)) :
    totalDeviation base before cpus = totalDeviation base after cpus :=
  sum_congr cpus _ _ same

theorem totalDeviation_filter (base : Nat) (col : Cpu → RtTime) (cpus : List Cpu)
    (keep : Cpu → Bool) :
    totalDeviation base col (cpus.filter keep) =
      (cpus.map fun c => if keep c then deviation base (col c) else 0).sum := by
  induction cpus with
  | nil => rfl
  | cons c rest ih =>
      cases kept : keep c with
      | false => simpa [kept] using ih
      | true => simpa [kept, totalDeviation] using ih

theorem Fresh.deviation {s : State} {c : Cpu} (fresh : Fresh s c) :
    deviation s.rtRuntime (s.rtRq c) = 0 := by
  rcases fresh with closed | even
  · exact if_pos closed
  · simp [RtBandwidth.deviation, even]

/-- One entry of the column changes, and counts for as much as before. -/
theorem Settled.update {s : State} (settled : Settled nrCpuIds s) {c : Cpu} {entry : RtTime}
    (same : deviation s.rtRuntime entry = deviation s.rtRuntime (s.rtRq c))
    (unlimited : s.rtRuntime = runtimeInf → entry.rtRuntime = runtimeInf)
    (time : entry.rtTime ≤ runtimeInf) (online : Cpu → Bool) :
    Settled nrCpuIds { s with rtRq := Function.update s.rtRq c entry, online := online } where
  conserved root := by
    refine Eq.trans (totalDeviation_congr fun other _ => ?_) (settled.conserved root)
    dsimp only
    by_cases here : other = c
    · subst here
      rw [Function.update_self, same]
    · rw [Function.update_of_ne here]
  small := settled.small
  unlimited none' other inside := by
    dsimp only
    by_cases here : other = c
    · subst here
      rw [Function.update_self]
      exact unlimited none'
    · rw [Function.update_of_ne here]
      exact settled.unlimited none' other inside
  time other inside := by
    dsimp only
    by_cases here : other = c
    · subst here
      rwa [Function.update_self]
    · rw [Function.update_of_ne here]
      exact settled.time other inside
  no_bug := settled.no_bug

theorem Settled.move {s : State} (settled : Settled nrCpuIds s) {c : Cpu} (fresh : Fresh s c)
    (root : Nat) : Settled nrCpuIds { s with rd := Function.update s.rd c root } where
  conserved other := by
    have before := settled.conserved other
    rw [span, totalDeviation_filter] at before ⊢
    refine Eq.trans (sum_congr _ _ _ fun d _ => ?_) before
    by_cases here : d = c
    · subst here
      rw [fresh.deviation, ite_self, ite_self]
    · simp only [Function.update_of_ne here]
  small := settled.small
  unlimited := settled.unlimited
  time := settled.time
  no_bug := settled.no_bug

theorem Settled.enable {s : State} (settled : Settled nrCpuIds s) {c : Cpu}
    (fresh : Fresh s c) : Settled nrCpuIds (enableRuntime s c) := by
  refine settled.update ?_ (fun none' => none') (Nat.zero_le _) s.online
  rw [fresh.deviation, deviation]
  simp

/-- A column that the loops over one root domain leave: what they may change is
bounded by that domain. -/
theorem Settled.replace {s : State} (settled : Settled nrCpuIds s) (root : Nat)
    (after : Cpu → RtTime) (limited : s.rtRuntime ≠ runtimeInf)
    (even : totalDeviation s.rtRuntime after (span nrCpuIds s root) = 0)
    (outside : ∀ c, c ∉ span nrCpuIds s root → after c = s.rtRq c)
    (time : ∀ c, (after c).rtTime = (s.rtRq c).rtTime) :
    Settled nrCpuIds { s with rtRq := after } where
  conserved other := by
    by_cases same : other = root
    · subst same
      exact even
    · refine Eq.trans (totalDeviation_congr fun c inside => ?_) (settled.conserved other)
      have elsewhere : c ∉ span nrCpuIds s root := by
        intro both
        exact same ((mem_span.mp inside).2.symm.trans (mem_span.mp both).2)
      dsimp only
      rw [outside c elsewhere]
  small := settled.small
  unlimited none' := absurd none' limited
  time c inside := (time c).le.trans (settled.time c inside)
  no_bug := settled.no_bug

/-- A CPU that is not disabled shows that the group is limited. -/
theorem Settled.limited {s : State} (settled : Settled nrCpuIds s) {c : Cpu}
    (inside : c < nrCpuIds) (finite : (s.rtRq c).rtRuntime ≠ runtimeInf) :
    s.rtRuntime ≠ runtimeInf :=
  fun none' => finite (settled.unlimited none' c inside)

/-- What `balance_runtime` does: nothing, or loans within its root domain. -/
theorem Settled.balance_loans {s : State} (settled : Settled nrCpuIds s) {this c : Cpu}
    {used : Cpu → Nat} (inside : c < nrCpuIds) (time : ∀ i < nrCpuIds, used i < 2 ^ 63)
    (domain : kernel = .goldfish ∨ s.rd this = s.rd c) :
    balanceRuntime kernel nrCpuIds s this c used = s ∨
      s.rtRuntime ≠ runtimeInf ∧ c ∈ span nrCpuIds s (s.rd c) ∧
        Closed s.rtRuntime (span nrCpuIds s (s.rd c)) s.rtRq ∧
        ∃ after, balanceRuntime kernel nrCpuIds s this c used = { s with rtRq := after } ∧
          Loans s.rtPeriod c used (span nrCpuIds s (s.rd c)) s.rtRq after := by
  have root : balanceDomain kernel s this c = s.rd c := by
    rcases domain with rfl | same
    · rfl
    · cases kernel with
      | goldfish => rfl
      | tegra => exact same
  rw [balanceRuntime]
  split
  next spent =>
    -- a CPU that is over its runtime has a limit
    have finite : (s.rtRq c).rtRuntime ≠ runtimeInf := by
      have word := settled.time c inside
      omega
    have member : c ∈ span nrCpuIds s (s.rd c) := mem_span.mpr ⟨inside, rfl⟩
    have limited := settled.limited inside finite
    have closed := settled.closed (s.rd c) limited
    refine .inr ⟨limited, member, closed, _, by rw [doBalanceRuntime, root], ?_⟩
    exact balanceLoop_loans member (fun i within => time i (mem_span.mp within).1) _
      (List.Subset.refl _) false s.rtRq closed finite
  next => exact .inl rfl

theorem Settled.balance {s : State} (settled : Settled nrCpuIds s) {this c : Cpu}
    {used : Cpu → Nat} (inside : c < nrCpuIds) (time : ∀ i < nrCpuIds, used i < 2 ^ 63)
    (domain : kernel = .goldfish ∨ s.rd this = s.rd c) :
    Settled nrCpuIds (balanceRuntime kernel nrCpuIds s this c used) := by
  obtain still | ⟨limited, member, closed, after, done, loans⟩ :=
    settled.balance_loans inside time domain
  · rwa [still]
  · rw [done]
    exact settled.replace (s.rd c) after limited (loans.closed member closed).even
      (fun d elsewhere => loans.outside member elsewhere) loans.rtTime

/-- A CPU that is disabled leaves a settled domain behind, and is itself fresh. -/
theorem Settled.disable {s : State} (settled : Settled nrCpuIds s) {c : Cpu}
    (inside : c < nrCpuIds) : Settled nrCpuIds (disableRuntime nrCpuIds s c) ∧
      Fresh (disableRuntime nrCpuIds s c) c := by
  rw [disableRuntime]
  split
  next fresh =>
    have same : deviation s.rtRuntime { s.rtRq c with rtRuntime := runtimeInf } =
        deviation s.rtRuntime (s.rtRq c) := by
      rw [Fresh.deviation fresh, deviation, if_pos rfl]
    exact ⟨settled.update same (fun _ => rfl) (settled.time c inside) s.online,
      .inl (setRuntime_self _ _ _)⟩
  next busy =>
    rw [not_or] at busy
    have member : c ∈ span nrCpuIds s (s.rd c) := mem_span.mpr ⟨inside, rfl⟩
    have limited := settled.limited inside busy.1
    have closed := settled.closed (s.rd c) limited
    obtain ⟨takes, wanted, nothing⟩ := closed.reclaim member busy.1 busy.2
    have total := @Takes.total s.rtRuntime _ _ _ _ _ _ takes closed.unique
    refine ⟨?_, .inl (setRuntime_self _ _ _)⟩
    simp only [nothing, ne_eq, not_true_eq_false, decide_false, Bool.or_false]
    refine settled.replace (s.rd c) _ limited ?_ ?_ ?_
    · rw [totalDeviation_set _ _ _ closed.unique c member, takes.own_same, total, nothing,
        wanted, closed.even, deviation_eq busy.1, deviation, if_pos rfl]
      omega
    · intro d elsewhere
      have differs : d ≠ c := fun same => elsewhere (same ▸ member)
      rw [setRuntime_ne _ _ differs, takes.outside elsewhere]
    · intro d
      rw [setRuntime_rtTime, takes.rtTime]

theorem Settled.setOnline {s : State} (settled : Settled nrCpuIds s) (online : Cpu → Bool) :
    Settled nrCpuIds { s with online := online } :=
  ⟨settled.conserved, settled.small, settled.unlimited, settled.time, settled.no_bug⟩

theorem Settled.setRqOnline {s : State} (settled : Settled nrCpuIds s) {c : Cpu}
    (fresh : s.online c = false → Fresh s c) : Settled nrCpuIds (setRqOnline s c) := by
  rw [RtBandwidth.setRqOnline]
  split
  next => exact settled
  next off =>
    have still := fresh (Bool.eq_false_iff.mpr off)
    exact (settled.setOnline _).enable still

theorem Settled.setRqOffline {s : State} (settled : Settled nrCpuIds s) {c : Cpu}
    (inside : c < nrCpuIds) : Settled nrCpuIds (setRqOffline nrCpuIds s c) := by
  rw [RtBandwidth.setRqOffline]
  split
  next => exact (settled.disable inside).1.setOnline _
  next => exact settled

theorem Settled.offline_fresh {s : State} (settled : Settled nrCpuIds s) {c : Cpu}
    (inside : c < nrCpuIds) (fresh : s.online c = false → Fresh s c) :
    Fresh (RtBandwidth.setRqOffline nrCpuIds s c) c := by
  rw [RtBandwidth.setRqOffline]
  split
  next => exact (settled.disable inside).2
  next off => exact fresh (Bool.eq_false_iff.mpr off)

theorem Settled.rqAttachRoot {s : State} (settled : Settled nrCpuIds s) {c : Cpu}
    (inside : c < nrCpuIds) (fresh : s.online c = false → Fresh s c) (root : Nat)
    (active : Bool) : Settled nrCpuIds (rqAttachRoot nrCpuIds s c root active) := by
  have left := settled.setRqOffline inside
  have free := settled.offline_fresh inside fresh
  have moved := left.move free root
  rw [RtBandwidth.rqAttachRoot]
  cases active with
  | false => exact moved
  | true => exact moved.setRqOnline fun _ => free

theorem Settled.setRtBandwidth {s : State} (settled : Settled nrCpuIds s)
    (rtPeriod rtRuntime : Nat) (small : rtRuntime = runtimeInf ∨ nrCpuIds * rtRuntime < 2 ^ 63) :
    Settled nrCpuIds (setRtBandwidth s rtPeriod rtRuntime) where
  conserved root := by
    refine List.sum_eq_zero fun value member => ?_
    obtain ⟨c, -, rfl⟩ := List.mem_map.mp member
    simp [RtBandwidth.setRtBandwidth, deviation]
  small := small
  unlimited none' _ _ := none'
  time := settled.time
  no_bug := settled.no_bug

theorem Settled.start {s : State} (init : Init nrCpuIds s) : Settled nrCpuIds s where
  conserved root := by
    refine List.sum_eq_zero fun value member => ?_
    obtain ⟨c, inside, rfl⟩ := List.mem_map.mp member
    simp [deviation, init.runtime c (mem_span.mp inside).1]
  small := init.small
  unlimited none' c inside := (init.runtime c inside).trans none'
  time := init.time
  no_bug := init.no_bug

theorem Settled.step {s next : State} {op : Op} (settled : Settled nrCpuIds s)
    (orderly : Orderly kernel s op) (moved : step kernel nrCpuIds s op = some next) :
    Settled nrCpuIds next := by
  rw [RtBandwidth.step] at moved
  split at moved
  next allowed =>
    obtain rfl := Option.some.inj moved
    cases op with
    | balanceRuntime this c used => exact settled.balance allowed.1 allowed.2 orderly
    | account c rtTime rtThrottled =>
        have same : deviation s.rtRuntime { s.rtRq c with
            rtTime := rtTime, rtThrottled := rtThrottled } = deviation s.rtRuntime (s.rtRq c) := rfl
        exact settled.update same (fun none' => settled.unlimited none' c allowed.1) allowed.2
          s.online
    | rqAttachRoot c root active => exact settled.rqAttachRoot allowed orderly root active
    | migrationCall c action =>
        cases action with
        | online => exact settled.setRqOnline orderly
        | dying => exact settled.setRqOffline allowed
        | downPrepare | downFailed => exact settled
    | updateRuntime c action =>
        cases action with
        | downPrepare => exact (settled.disable allowed).1
        | downFailed | online => exact settled.enable orderly
        | dying => exact settled
    | setRtBandwidth rtPeriod rtRuntime =>
        exact settled.setRtBandwidth rtPeriod rtRuntime allowed
  next => simp at moved

theorem reachable_settled {start s : State} {ops : List Op} (init : Init nrCpuIds start)
    (run : Transition.Run (step kernel nrCpuIds) (Orderly kernel) start ops s) :
    Settled nrCpuIds s :=
  run.invariant (fun _ _ _ settled orderly moved => settled.step orderly moved) (.start init)

def openCpus (nrCpuIds : Nat) (s : State) (root : Nat) : List Cpu :=
  (span nrCpuIds s root).filter fun c => (s.rtRq c).rtRuntime ≠ runtimeInf

theorem totalDeviation_open (base : Nat) (col : Cpu → RtTime) (cpus : List Cpu) :
    totalDeviation base col cpus =
      (((cpus.filter fun c => (col c).rtRuntime ≠ runtimeInf).map
          fun c => (col c).rtRuntime).sum : Nat) -
        ((cpus.filter fun c => (col c).rtRuntime ≠ runtimeInf).length * base : Nat) := by
  induction cpus with
  | nil => simp [totalDeviation]
  | cons c rest ih =>
      rw [totalDeviation] at ih
      rw [totalDeviation, List.map_cons, List.sum_cons, ih, List.filter_cons, deviation]
      by_cases closed : (col c).rtRuntime = runtimeInf
      · simp [closed]
      · simp only [closed, ne_eq, not_false_eq_true, decide_true, if_true, if_false, List.map_cons,
          List.sum_cons, List.length_cons, Nat.cast_add, Nat.cast_mul, Nat.cast_one]
        ring

/-- In every run that starts CPUs anew only when nothing is lent, the runtimes
of a root domain's enabled CPUs add up to the group's runtime for each, so no
`BUG_ON(want)` fires. -/
theorem runtime_conserved {start s : State} {ops : List Op} (init : Init nrCpuIds start)
    (run : Transition.Run (step kernel nrCpuIds) (Orderly kernel) start ops s) :
    s.bugOn = false ∧
      ∀ root, ((openCpus nrCpuIds s root).map fun c => (s.rtRq c).rtRuntime).sum =
        (openCpus nrCpuIds s root).length * s.rtRuntime := by
  have settled := reachable_settled init run
  refine ⟨settled.no_bug, fun root => ?_⟩
  have even := settled.conserved root
  rw [totalDeviation_open] at even
  exact_mod_cast sub_eq_zero.mp even

/-- In the same runs a loan never takes what its lender has used, whatever the
lender uses meanwhile, and never lifts the borrower above the period. -/
theorem balance_spares {start s : State} {ops : List Op} (init : Init nrCpuIds start)
    (run : Transition.Run (step kernel nrCpuIds) (Orderly kernel) start ops s) {this c : Cpu}
    {used : Cpu → Nat} (allowed : Allowed nrCpuIds (.balanceRuntime this c used))
    (orderly : Orderly kernel s (.balanceRuntime this c used)) :
    let after := balanceRuntime kernel nrCpuIds s this c used
    (∀ i ≠ c, used i ≤ (s.rtRq i).rtRuntime → used i ≤ (after.rtRq i).rtRuntime) ∧
      ((s.rtRq c).rtRuntime ≤ s.rtPeriod →
        (s.rtRq c).rtRuntime ≤ (after.rtRq c).rtRuntime ∧
          (after.rtRq c).rtRuntime ≤ s.rtPeriod) := by
  have settled := reachable_settled init run
  obtain still | ⟨-, member, closed, after, done, loans⟩ :=
    settled.balance_loans allowed.1 allowed.2 orderly
  · simp only [still]
    exact ⟨fun _ _ enough => enough, fun within => ⟨le_rfl, within⟩⟩
  · simp only [done]
    exact ⟨fun i other enough => loans.keeps_used member closed other enough,
      fun within => loans.own_le member closed within⟩

end Runs

def twoCpus : State where
  rtPeriod := 100
  rtRuntime := 95
  rtRq := fun _ => ⟨0, 95, false⟩
  rd := fun _ => 0
  online := fun _ => true
  bugOn := false

theorem twoCpus_init : Init 2 twoCpus :=
  ⟨fun _ _ => rfl, fun _ _ => Nat.zero_le _, .inr (by decide), rfl⟩

def loanAndDown : List Op :=
  [.account 0 97 false, .balanceRuntime 0 0 fun _ => 0, .updateRuntime 0 .downPrepare]

theorem loanAndDown_run : ∃ s, Transition.Run (step .goldfish 2) (Orderly .goldfish) twoCpus
    loanAndDown s :=
  ⟨_, (Transition.run_of_isSome twoCpus loanAndDown (by decide)).of_allAllowed (by decide)⟩

theorem runtime_conserved_loanAndDown : ∃ s : State, s.bugOn = false ∧
    ∀ root, ((openCpus 2 s root).map fun c => (s.rtRq c).rtRuntime).sum =
      (openCpus 2 s root).length * s.rtRuntime :=
  loanAndDown_run.imp fun _ run => runtime_conserved twoCpus_init run

def overdrawn : State := apply .goldfish 2 twoCpus (.account 0 97 false)

theorem overdrawn_run : Transition.Run (step .goldfish 2) (Orderly .goldfish) twoCpus
    [.account 0 97 false] overdrawn :=
  .next trivial (if_pos ⟨by decide, by decide⟩) (.refl _)

theorem balance_spares_overdrawn :
    let after := balanceRuntime .goldfish 2 overdrawn 0 0 fun _ => 7
    (∀ i ≠ 0, 7 ≤ (overdrawn.rtRq i).rtRuntime → 7 ≤ (after.rtRq i).rtRuntime) ∧
      ((overdrawn.rtRq 0).rtRuntime ≤ overdrawn.rtPeriod →
        (overdrawn.rtRq 0).rtRuntime ≤ (after.rtRq 0).rtRuntime ∧
          (after.rtRq 0).rtRuntime ≤ overdrawn.rtPeriod) :=
  balance_spares twoCpus_init overdrawn_run ⟨by decide, fun _ _ => show 7 < 2 ^ 63 by decide⟩
    (.inl rfl)

/-- Why CPUs must be started anew only once: `set_rq_online` and then the
notifier `update_runtime` both do it, and a loan in between is forgotten. -/
theorem start_twice_leaks : ∃ s, Transition.Run (step .goldfish 2) (fun _ _ => True) twoCpus
    [.account 0 97 false, .balanceRuntime 0 0 fun _ => 0, .updateRuntime 1 .online,
      .updateRuntime 1 .downPrepare, .updateRuntime 0 .downPrepare] s ∧ s.bugOn = true :=
  ⟨_, Transition.run_of_isSome twoCpus _ (by decide), by decide⟩

/-- The state of the scheduler with these runtimes for the group. -/
def lent (s : Sched) (g : Group) (col : Cpu → RtTime) : Sched :=
  { s with rtTime := fun c =>
      Function.update (s.rtTime c) g { s.rtTime c g with rtRuntime := (col c).rtRuntime } }

theorem lent_setRuntime (s : Sched) (g : Group) (col : Cpu → RtTime) (c : Cpu) (runtime : Nat) :
    (lent s g col).modifyRtTime c g (fun time => { time with rtRuntime := runtime }) =
      lent s g (setRuntime col c runtime) := by
  simp only [lent, Sched.modifyRtTime, Sched.mk.injEq, true_and, and_true]
  funext d
  by_cases here : d = c
  · subst here
    simp [setRuntime]
  · simp [setRuntime, Function.update_of_ne here]

/-- The loans of `do_balance_runtime` are runs of the scheduler's own operation
that gives a CPU another runtime, so what holds in its reachable states holds
whatever CPUs lend each other. -/
theorem Loans.scheduler_run {env : Env} (smp : env.smp = true) (s : Sched) (g : Group)
    {rtPeriod : Nat} {own : Cpu} {used : Cpu → Nat} {cpus : List Cpu} {col after : Cpu → RtTime}
    (loans : Loans rtPeriod own used cpus col after) :
    ∃ ops, Transition.Run (AndroidKernel.step env) (fun _ _ => True) (lent s g col) ops
      (lent s g after) := by
  induction loans with
  | refl col => exact ⟨[], .refl _⟩
  | next i diff _ _ _ _ _ _ ih =>
      obtain ⟨ops, rest⟩ := ih
      have moves (col : Cpu → RtTime) (c : Cpu) (runtime : Nat) :
          AndroidKernel.step env (lent s g col) (.balanceRuntime g c runtime) =
            some (lent s g (setRuntime col c runtime)) := by
        rw [← lent_setRuntime]
        exact if_pos smp
      exact ⟨_, .next trivial (moves _ i _) (.next trivial (moves _ own _) rest)⟩

end AndroidKernel.RtBandwidth
