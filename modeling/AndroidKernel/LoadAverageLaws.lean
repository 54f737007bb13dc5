import AndroidKernel.FixedPoint
import AndroidKernel.LoadAverage

/-!
What the load averages come to. Below 1024 active tasks the words never wrap
and the functions are those of fixed-point arithmetic, so `fixed_power_int` is
within half a unit of the power for each factor, the cycles that were missed
come out as if they had been taken one by one, and an average stays between the
numbers of tasks that were read. The clock of the samples misses no cycle and
takes none twice.
-/

namespace AndroidKernel.LoadAverage

open FixedPoint

theorem lowBit (n : Word) : n &&& 1 ≠ 0 ↔ n.toNat % 2 = 1 := by
  rw [Ne, ← BitVec.toNat_inj, BitVec.toNat_and]
  change ¬ n.toNat &&& 1 = 0 ↔ _
  rw [Nat.and_one_is_mod]
  omega

theorem half_toNat (n : Word) : (n >>> 1).toNat = n.toNat / 2 := by
  rw [BitVec.toNat_ushiftRight, Nat.shiftRight_eq_div_pow, pow_one]

section Powers
variable {f : Nat} {result x : Word}

theorem one_shift_toNat (narrow : f ≤ 31) : ((1 : Word) <<< f).toNat = 2 ^ f := by
  have unit : 2 ^ f < 2 ^ 32 := Nat.pow_lt_pow_right (by decide) (by omega)
  rw [BitVec.toNat_shiftLeft, Nat.shiftLeft_eq]
  exact (Nat.mod_eq_of_lt (by simpa using unit)).trans (Nat.one_mul _)

theorem roundedMul_toNat {y : Word} (pos : 0 < f) (narrow : f ≤ 15) (left : x.toNat ≤ 2 ^ f)
    (right : y.toNat ≤ 2 ^ f) : (roundedMul x y f).toNat = roundMul f x.toNat y.toNat := by
  have half : 2 ^ (f - 1) ≤ 2 ^ 14 := Nat.pow_le_pow_right (by decide) (by omega)
  have unit : 2 ^ f ≤ 2 ^ 15 := Nat.pow_le_pow_right (by decide) narrow
  have product : x.toNat * y.toNat ≤ 2 ^ 15 * 2 ^ 15 :=
    Nat.mul_le_mul (left.trans unit) (right.trans unit)
  have exact_mul : x.toNat * y.toNat % 2 ^ 32 = x.toNat * y.toNat :=
    Nat.mod_eq_of_lt (by omega)
  rw [roundedMul, BitVec.toNat_ushiftRight, Nat.shiftRight_eq_div_pow, BitVec.toNat_add,
    BitVec.toNat_mul, one_shift_toNat (by omega), exact_mul, Nat.mod_eq_of_lt (by omega), roundMul]

/-- One turn of the loop on the words is one on the numbers. -/
theorem taken_toNat (pos : 0 < f) (narrow : f ≤ 15) (n : Word) (small : result.toNat ≤ 2 ^ f)
    (base : x.toNat ≤ 2 ^ f) :
    (if n &&& 1 ≠ 0 then roundedMul result x f else result).toNat =
      if n.toNat % 2 = 1 then roundMul f result.toNat x.toNat else result.toNat := by
  by_cases odd : n.toNat % 2 = 1
  · rw [if_pos ((lowBit n).mpr odd), if_pos odd, roundedMul_toNat pos narrow small base]
  · rw [if_neg (mt (lowBit n).mp odd), if_neg odd]

/-- The loop leaves before its last square, which nothing would use. -/
theorem fixedPowerLoop_toNat (pos : 0 < f) (narrow : f ≤ 15) (n : Word)
    (small : result.toNat ≤ 2 ^ f) (base : x.toNat ≤ 2 ^ f) :
    (fixedPowerLoop f result x n).toNat = powLoop f result.toNat x.toNat n.toNat := by
  induction result, x, n using fixedPowerLoop.induct f with
  | case1 result x n half last =>
      have rest : n.toNat / 2 = 0 := (half_toNat n).symm.trans (congrArg BitVec.toNat last)
      rw [fixedPowerLoop, if_pos last, taken_toNat pos narrow n small base]
      by_cases none_ : n.toNat = 0
      · rw [none_, powLoop_zero, if_neg (by decide)]
      · rw [powLoop_next _ _ _ none_, rest, powLoop_zero]
  | case2 result x n taken half more ih =>
      have some_ : n.toNat ≠ 0 := by
        intro zero
        apply more
        apply BitVec.eq_of_toNat_eq
        exact (half_toNat n).trans (by rw [zero]; rfl)
      have taken_eq : taken.toNat =
          if n.toNat % 2 = 1 then roundMul f result.toNat x.toNat else result.toNat :=
        taken_toNat pos narrow n small base
      have square := roundedMul_toNat pos narrow base base
      have taken_le : taken.toNat ≤ 2 ^ f := by
        rw [taken_eq]
        split_ifs
        · exact roundMul_le pos small base
        · exact small
      have step := ih taken_le (square ▸ roundMul_le pos base base)
      rw [square, half_toNat, taken_eq] at step
      rw [fixedPowerLoop, if_neg more]
      exact step.trans (powLoop_next _ _ _ some_).symm

theorem fixedPowerInt_toNat (pos : 0 < f) (narrow : f ≤ 15) (n : Word)
    (base : x.toNat ≤ 2 ^ f) :
    (fixedPowerInt x f n).toNat = powLoop f (2 ^ f) x.toNat n.toNat := by
  have unit := one_shift_toNat (f := f) (by omega)
  unfold fixedPowerInt
  split_ifs with some_
  · rw [fixedPowerLoop_toNat pos narrow n unit.le base, unit]
  · rw [not_not] at some_
    rw [some_, unit]
    exact (powLoop_zero _ _ _).symm

theorem fixedPowerInt_le (pos : 0 < f) (narrow : f ≤ 15) (n : Word) (base : x.toNat ≤ 2 ^ f) :
    (fixedPowerInt x f n).toNat ≤ 2 ^ f := by
  rw [fixedPowerInt_toNat pos narrow n base]
  exact powLoop_le pos n.toNat le_rfl base

theorem fixedPowerInt_error (pos : 0 < f) (narrow : f ≤ 15) (n : Word)
    (base : x.toNat ≤ 2 ^ f) :
    |value f (fixedPowerInt x f n).toNat - value f x.toNat ^ n.toNat| ≤
      n.toNat / 2 ^ (f + 1) := by
  have one : value f (2 ^ f) = 1 := by
    rw [value, Nat.cast_pow, Nat.cast_ofNat]
    exact div_self (by positivity)
  have unit : |value f x.toNat| ≤ 1 := by
    rw [abs_of_nonneg (value_nonneg f _)]
    exact value_le_one base
  have error : |value f (powLoop f (2 ^ f) x.toNat n.toNat) - 1 * value f x.toNat ^ n.toNat| ≤
      0 + n.toNat * (0 + 1 / 2 ^ (f + 1)) :=
    powLoop_error pos n.toNat le_rfl base (by simp [one]) (by simp) (by simp) unit
  rw [fixedPowerInt_toNat pos narrow n base]
  simpa [div_eq_mul_inv] using error

/-- `fixed_power_int` of a base up to one does on 32 bits what the loop does on
unbounded numbers, and is within half a unit of the power for each factor. -/
theorem fixed_power_error (pos : 0 < f) (narrow : f ≤ 15) (n : Word)
    (base : x.toNat ≤ 2 ^ f) :
    (fixedPowerInt x f n).toNat = powLoop f (2 ^ f) x.toNat n.toNat ∧
      |value f (fixedPowerInt x f n).toNat - value f x.toNat ^ n.toNat| ≤
        n.toNat / 2 ^ (f + 1) :=
  ⟨fixedPowerInt_toNat pos narrow n base, fixedPowerInt_error pos narrow n base⟩

end Powers

theorem fixed_power_error_exp1 :
    (fixedPowerInt exp1 fshift 12).toNat = powLoop fshift (2 ^ fshift) exp1.toNat 12 ∧
      |value fshift (fixedPowerInt exp1 fshift 12).toNat - value fshift exp1.toNat ^ 12| ≤
        12 / 2 ^ (fshift + 1) :=
  fixed_power_error (by decide) (by decide) 12 (by decide)

section Averages
variable {load exp active : Word}

theorem fixed1_toNat : fixed1.toNat = 2 ^ fshift := one_shift_toNat (by decide)

theorem calcLoad_toNat (weight : exp.toNat ≤ 2 ^ fshift) (left : load.toNat < 2 ^ 21)
    (right : active.toNat < 2 ^ 21) :
    (calcLoad load exp active).toNat = mix fshift exp.toNat load.toNat active.toNat := by
  have other : (fixed1 - exp).toNat = 2 ^ fshift - exp.toNat := by
    rw [BitVec.toNat_sub_of_le (by rwa [BitVec.le_def, fixed1_toNat]), fixed1_toNat]
  have first : load.toNat * exp.toNat ≤ (2 ^ 21 - 1) * exp.toNat :=
    Nat.mul_le_mul_right _ (by omega)
  have second : active.toNat * (2 ^ fshift - exp.toNat) ≤
      (2 ^ 21 - 1) * (2 ^ fshift - exp.toNat) := Nat.mul_le_mul_right _ (by omega)
  have half : (2 : Nat) ^ (fshift - 1) = 1024 := rfl
  have unit : (2 : Nat) ^ fshift = 2048 := rfl
  rw [unit] at weight second other
  have sum_lt : load.toNat * exp.toNat + active.toNat * (2048 - exp.toNat) + 1024 < 2 ^ 32 := by
    omega
  rw [calcLoad, mix, BitVec.toNat_ushiftRight, Nat.shiftRight_eq_div_pow, BitVec.toNat_add,
    BitVec.toNat_add, BitVec.toNat_mul, BitVec.toNat_mul, other,
    one_shift_toNat (f := fshift - 1) (by decide), half, unit,
    Nat.mod_eq_of_lt (a := load.toNat * exp.toNat) (by omega),
    Nat.mod_eq_of_lt (a := active.toNat * (2048 - exp.toNat)) (by omega),
    Nat.mod_eq_of_lt (a := load.toNat * exp.toNat + active.toNat * (2048 - exp.toNat)) (by omega),
    Nat.mod_eq_of_lt sum_lt]

theorem calcLoad_between (weight : exp.toNat ≤ 2 ^ fshift) {low high : Nat}
    (small : high < 2 ^ 21) (left : low ≤ load.toNat ∧ load.toNat ≤ high)
    (right : low ≤ active.toNat ∧ active.toNat ≤ high) :
    low ≤ (calcLoad load exp active).toNat ∧ (calcLoad load exp active).toNat ≤ high := by
  rw [calcLoad_toNat weight (by omega) (by omega)]
  exact mix_between (by decide) weight left right

theorem calcLoadN_between (weight : exp.toNat ≤ 2 ^ fshift) {low high : Nat}
    (small : high < 2 ^ 21) (left : low ≤ load.toNat ∧ load.toNat ≤ high)
    (right : low ≤ active.toNat ∧ active.toNat ≤ high) (n : Word) :
    low ≤ (calcLoadN load exp active n).toNat ∧ (calcLoadN load exp active n).toNat ≤ high :=
  calcLoad_between (fixedPowerInt_le (by decide) (by decide) n weight) small left right

theorem iterate_toNat (weight : exp.toNat ≤ 2 ^ fshift) (left : load.toNat < 2 ^ 21)
    (right : active.toNat < 2 ^ 21) (n : Nat) :
    ((fun load => calcLoad load exp active)^[n] load).toNat =
      (fun load => mix fshift exp.toNat load active.toNat)^[n] load.toNat ∧
    ((fun load => calcLoad load exp active)^[n] load).toNat < 2 ^ 21 := by
  induction n with
  | zero => exact ⟨rfl, left⟩
  | succ n ih =>
      rw [Function.iterate_succ_apply', Function.iterate_succ_apply', ← ih.1]
      refine ⟨calcLoad_toNat weight ih.2 right, ?_⟩
      have inside := (calcLoad_between weight (by decide) ⟨Nat.zero_le _, Nat.le_pred_of_lt ih.2⟩
        ⟨Nat.zero_le _, Nat.le_pred_of_lt right⟩).2
      exact Nat.lt_of_le_pred (by decide) inside

/-- The cycles that were missed, taken at once, come out as if they had been taken one by
one, but for roundings and the error of the power. -/
theorem missed_cycles_close (weight : exp.toNat ≤ 2 ^ fshift) (left : load.toNat < 2 ^ 21)
    (right : active.toNat < 2 ^ 21) (n : Word) :
    |((calcLoadN load exp active n).toNat : ℚ) -
        ((fun load => calcLoad load exp active)^[n.toNat] load).toNat| ≤
      (n.toNat + 1) / 2 + n.toNat / 2 ^ 12 * |(load.toNat : ℚ) - active.toNat| := by
  have power := fixedPowerInt_error (f := fshift) (by decide) (by decide) n weight
  have powerLe := fixedPowerInt_le (f := fshift) (by decide) (by decide) n weight
  have once := mix_weight_error (by decide) powerLe load.toNat active.toNat power
  have slowly := iterate_mix_error (by decide) weight load.toNat active.toNat n.toNat
  rw [← (iterate_toNat weight left right n.toNat).1] at slowly
  rw [calcLoadN, calcLoad_toNat powerLe left right]
  have both := abs_sub_le
    (mix fshift (fixedPowerInt exp fshift n).toNat load.toNat active.toNat : ℚ)
    (mean (value fshift exp.toNat ^ n.toNat) load.toNat active.toNat)
    ((fun load => calcLoad load exp active)^[n.toNat] load).toNat
  rw [abs_sub_comm (mean _ _ _)] at both
  have width : (2 : ℚ) ^ (fshift + 1) = 2 ^ 12 := rfl
  rw [width] at once
  linarith

end Averages

theorem missed_cycles_close_exp1 :
    |((calcLoadN 4096 exp1 2048 12).toNat : ℚ) -
        ((fun load => calcLoad load exp1 2048)^[12] 4096).toNat| ≤
      (12 + 1) / 2 + 12 / 2 ^ 12 * |(4096 : ℚ) - 2048| :=
  missed_cycles_close (by decide) (by decide) (by decide) 12

def Reads (low high : Nat) (tasks : Word) : Prop :=
  low ≤ tasks.toInt.toNat ∧ tasks.toInt.toNat ≤ high

theorem activeLoad_toNat {low high : Nat} (small : high ≤ 1023) {tasks : Word}
    (reads : Reads low high tasks) : (activeLoad tasks).toNat = tasks.toInt.toNat * 2048 := by
  unfold activeLoad
  split_ifs with positive
  · have exact_int : tasks.toInt = tasks.toNat := by
      rw [BitVec.toInt_eq_toNat_bmod] at positive ⊢
      have bound := tasks.isLt
      rw [Int.bmod_def] at positive ⊢
      omega
    have few : tasks.toNat ≤ 1023 := by
      have below := reads.2
      rw [exact_int] at below
      omega
    rw [exact_int, BitVec.toNat_mul, fixed1_toNat, Int.toNat_natCast]
    exact Nat.mod_eq_of_lt (by simp only [fshift]; omega)
  · rw [Int.toNat_of_nonpos (by omega), Nat.zero_mul]
    rfl

def Between (low high : Nat) (s : State) : Prop :=
  ∀ i, low * 2048 ≤ (s.avenrun i).toNat ∧ (s.avenrun i).toNat ≤ high * 2048

theorem exps_le (i : Fin 3) : (exps i).toNat ≤ 2 ^ fshift := by
  revert i
  decide

section Between
variable {low high : Nat} {s : State} {tasks : Word}

theorem Between.sample (between : Between low high s) (freq : Word) (small : high ≤ 1023)
    (reads : Reads low high tasks) :
    Between low high (LoadAverage.sample s freq (activeLoad tasks)) := by
  intro i
  have active := activeLoad_toNat small reads
  apply calcLoad_between (exps_le i) (by omega) (between i)
  rw [active]
  exact ⟨Nat.mul_le_mul_right _ reads.1, Nat.mul_le_mul_right _ reads.2⟩

theorem Between.catchUp (between : Between low high s) (freq : Word) (small : high ≤ 1023)
    (reads : Reads low high tasks) (n : Word) :
    Between low high (LoadAverage.catchUp s freq (activeLoad tasks) n) := by
  intro i
  have active := activeLoad_toNat small reads
  apply calcLoadN_between (exps_le i) (by omega) (between i)
  rw [active]
  exact ⟨Nat.mul_le_mul_right _ reads.1, Nat.mul_le_mul_right _ reads.2⟩

theorem Between.doTimer {kernel : Kernel} {freq : Word} {timer : Timer} {next : State}
    (between : Between low high s) (small : high ≤ 1023) (reads : Reads low high timer.tasks)
    (missed : Reads low high timer.missed)
    (moved : LoadAverage.doTimer kernel freq s timer = some next) : Between low high next := by
  have later : Between low high (later s timer.ticks.toNat) := between
  simp only [LoadAverage.doTimer, Option.some.injEq] at moved
  subst moved
  cases kernel with
  | goldfish =>
      simp only [calcGlobalLoad, calcGlobalNohz]
      split_ifs
      · exact later
      · exact later.sample freq small reads
      · exact (later.sample freq small reads).catchUp freq small missed _
  | tegra =>
      simp only [calcGlobalLoad, calcGlobalNohzTicks]
      split_ifs
      · exact later
      · exact later.sample freq small reads
      · exact later.catchUp freq small missed _
      · exact (later.catchUp freq small missed _).sample freq small reads
      · exact later
      · exact later.sample freq small reads

end Between

/-- While between `low` and `high` tasks are read, at most 1023, the averages stay between
them: no word wraps, and neither do the cycles that were missed carry them further. -/
theorem averages_between {kernel : Kernel} {freq : Word} {start s : State} {timers : List Timer}
    {low high : Nat} (small : high ≤ 1023) (between : Between low high start)
    (run : Transition.Run (doTimer kernel freq)
      (fun _ timer => Reads low high timer.tasks ∧ Reads low high timer.missed) start timers s) :
    Between low high s := by
  apply run.invariant
  · rintro before timer after between ⟨reads, missed⟩ moved
    exact between.doTimer small reads missed moved
  · exact between

/-- Ten jiffies after booting at `INITIAL_JIFFIES`, five minutes before `jiffies` wraps. -/
def booted : State where
  jiffies64 := 2 ^ 32 - 30000 + 10
  calcLoadUpdate := BitVec.ofNat 32 (2 ^ 32 - 30000 + 501)
  calcLoadIdx := 0
  avenrun _ := 4096
  cycles := 0

def sleep : Timer := ⟨60000, 2, 3⟩

def slept (kernel : Kernel) : State :=
  calcGlobalLoad kernel (later booted 60000) (loadFreq 100) 60000 2 3

theorem slept_run (kernel : Kernel) {ok : State → Timer → Prop} (allowed : ok booted sleep) :
    Transition.Run (doTimer kernel (loadFreq 100)) ok booted [sleep] (slept kernel) :=
  .next allowed rfl (.refl _)

theorem booted_between : Between 2 3 booted :=
  fun _ => (by decide : 2 * 2048 ≤ 4096 ∧ 4096 ≤ 3 * 2048)

theorem averages_between_slept : Between 2 3 (slept .tegra) :=
  averages_between (by decide) booted_between
    (slept_run .tegra (by constructor <;> constructor <;> decide))

end AndroidKernel.LoadAverage
