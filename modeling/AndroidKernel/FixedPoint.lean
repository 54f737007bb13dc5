import Mathlib.Algebra.Order.Field.Basic
import Mathlib.Algebra.Order.Field.Rat
import Mathlib.Tactic.FieldSimp
import Mathlib.Tactic.Linarith
import Mathlib.Tactic.Positivity
import Mathlib.Tactic.Ring

/-!
Numbers with a fixed count of fractional bits, products of them rounded to the
nearest, powers by repeated squaring, and weighted means. Each operation comes
with how far its result is from the exact one.
-/

namespace AndroidKernel.FixedPoint

def value (f a : Nat) : ℚ := a / 2 ^ f

def roundMul (f a b : Nat) : Nat := (a * b + 2 ^ (f - 1)) / 2 ^ f

def powLoop (f result x n : Nat) : Nat :=
  if n = 0 then result
  else powLoop f (if n % 2 = 1 then roundMul f result x else result) (roundMul f x x) (n / 2)
termination_by n

def mix (f w a b : Nat) : Nat := (a * w + b * (2 ^ f - w) + 2 ^ (f - 1)) / 2 ^ f

section Rounding
variable {f : Nat}

theorem round_error (pos : 0 < f) (q : Nat) :
    |(((q + 2 ^ (f - 1)) / 2 ^ f : Nat) : ℚ) - q / 2 ^ f| ≤ 1 / 2 := by
  obtain ⟨g, rfl⟩ := Nat.exists_eq_succ_of_ne_zero pos.ne'
  rw [Nat.succ_sub_one]
  have half : (2 : ℚ) ^ (g + 1) = 2 * 2 ^ g := pow_succ' 2 g
  have positive : (0 : ℚ) < 2 ^ g := by positivity
  have split := Nat.div_add_mod (q + 2 ^ g) (2 ^ (g + 1))
  have small := Nat.mod_lt (q + 2 ^ g) (Nat.two_pow_pos (g + 1))
  set r := (q + 2 ^ g) % 2 ^ (g + 1)
  set d := (q + 2 ^ g) / 2 ^ (g + 1)
  have split' : (2 : ℚ) ^ (g + 1) * d + r = q + 2 ^ g := by exact_mod_cast split
  have small' : (r : ℚ) < 2 ^ (g + 1) := by exact_mod_cast small
  have low : (0 : ℚ) ≤ r := Nat.cast_nonneg r
  have gap : (d : ℚ) - q / 2 ^ (g + 1) = (2 ^ g - r) / 2 ^ (g + 1) := by
    field_simp
    linarith
  rw [Nat.succ_eq_add_one, gap, abs_le, div_le_iff₀ (by positivity), le_div_iff₀ (by positivity)]
  constructor <;> linarith

theorem value_le_one {a : Nat} (small : a ≤ 2 ^ f) : value f a ≤ 1 := by
  rw [value, div_le_one (by positivity)]
  exact_mod_cast small

theorem value_nonneg (f a : Nat) : 0 ≤ value f a := by
  unfold value
  positivity

theorem roundMul_error (pos : 0 < f) (a b : Nat) :
    |value f (roundMul f a b) - value f a * value f b| ≤ 1 / 2 ^ (f + 1) := by
  have error := round_error pos (a * b)
  have scaled : value f (roundMul f a b) - value f a * value f b =
      ((roundMul f a b : ℚ) - ((a * b : Nat) : ℚ) / 2 ^ f) / 2 ^ f := by
    unfold value
    push_cast
    field_simp
  rw [scaled, abs_div, abs_of_pos (show (0 : ℚ) < 2 ^ f by positivity),
    div_le_iff₀ (by positivity), pow_succ]
  calc |(roundMul f a b : ℚ) - ((a * b : Nat) : ℚ) / 2 ^ f|
      ≤ 1 / 2 := error
    _ = 1 / (2 ^ f * 2) * 2 ^ f := by field_simp

theorem roundMul_le {a b : Nat} (pos : 0 < f) (left : a ≤ 2 ^ f) (right : b ≤ 2 ^ f) :
    roundMul f a b ≤ 2 ^ f := by
  have product : a * b ≤ 2 ^ f * 2 ^ f := Nat.mul_le_mul left right
  have half : 2 ^ (f - 1) < 2 ^ f := Nat.pow_lt_pow_right (by decide) (by omega)
  rw [roundMul, ← Nat.lt_succ_iff, Nat.div_lt_iff_lt_mul (Nat.two_pow_pos f), Nat.succ_mul]
  omega

/-- The error of a product of approximations that is itself rounded. -/
theorem mul_error {a b r idealA idealB e d u : ℚ} (left : |a - idealA| ≤ e)
    (right : |b - idealB| ≤ d) (smallA : |idealA| ≤ 1) (smallB : |b| ≤ 1)
    (rounded : |r - a * b| ≤ u) : |r - idealA * idealB| ≤ e + d + u := by
  have split : r - idealA * idealB =
      (r - a * b) + ((a - idealA) * b + idealA * (b - idealB)) := by ring
  have first : |(a - idealA) * b| ≤ e := by
    rw [abs_mul]
    exact (mul_le_of_le_one_right (abs_nonneg _) smallB).trans left
  have second : |idealA * (b - idealB)| ≤ d := by
    rw [abs_mul]
    exact (mul_le_of_le_one_left (abs_nonneg _) smallA).trans right
  have outer := abs_add_le (r - a * b) ((a - idealA) * b + idealA * (b - idealB))
  have inner := abs_add_le ((a - idealA) * b) (idealA * (b - idealB))
  rw [split]
  linarith

end Rounding

theorem powLoop_zero (f result x : Nat) : powLoop f result x 0 = result := by
  rw [powLoop, if_pos rfl]

theorem powLoop_next (f result x : Nat) {n : Nat} (some_ : n ≠ 0) :
    powLoop f result x n =
      powLoop f (if n % 2 = 1 then roundMul f result x else result) (roundMul f x x) (n / 2) := by
  rw [powLoop, if_neg some_]

theorem powLoop_le {f : Nat} (pos : 0 < f) (n : Nat) {result x : Nat} (small : result ≤ 2 ^ f)
    (base : x ≤ 2 ^ f) : powLoop f result x n ≤ 2 ^ f := by
  induction n using Nat.strong_induction_on generalizing result x with
  | h n ih =>
      rw [powLoop]
      split_ifs with done odd
      · exact small
      · exact ih _ (by omega) (roundMul_le pos small base) (roundMul_le pos base base)
      · exact ih _ (by omega) small (roundMul_le pos base base)

/-- Every rounding costs half a unit, and a unit lost in the base counts as often as the
base is used: `n` times in all. -/
theorem powLoop_error {f : Nat} (pos : 0 < f) (n : Nat) {result x : Nat}
    (small : result ≤ 2 ^ f) (base : x ≤ 2 ^ f) {ideal idealX e d : ℚ}
    (result_error : |value f result - ideal| ≤ e) (base_error : |value f x - idealX| ≤ d)
    (unit : |ideal| ≤ 1) (unitX : |idealX| ≤ 1) :
    |value f (powLoop f result x n) - ideal * idealX ^ n| ≤ e + n * (d + 1 / 2 ^ (f + 1)) := by
  induction n using Nat.strong_induction_on generalizing result x ideal idealX e d with
  | h n ih =>
      have bounded {a : Nat} (below : a ≤ 2 ^ f) : |value f a| ≤ 1 := by
        rw [abs_of_nonneg (value_nonneg f a)]
        exact value_le_one below
      have squared := mul_error base_error base_error unitX (bounded base) (roundMul_error pos x x)
      have unitSq : |idealX * idealX| ≤ 1 := by
        rw [abs_mul]
        exact mul_le_one₀ unitX (abs_nonneg _) unitX
      rw [powLoop]
      split_ifs with done odd
      · subst done
        simpa using result_error
      · have multiplied := mul_error result_error base_error unit (bounded base)
          (roundMul_error pos result x)
        have unitMul : |ideal * idealX| ≤ 1 := by
          rw [abs_mul]
          exact mul_le_one₀ unit (abs_nonneg _) unitX
        have rest := ih (n / 2) (by omega) (roundMul_le pos small base)
          (roundMul_le pos base base) multiplied squared unitMul unitSq
        have count : n = 2 * (n / 2) + 1 := by omega
        have power : ideal * idealX ^ n = ideal * idealX * (idealX * idealX) ^ (n / 2) := by
          conv_lhs => rw [count, pow_succ, pow_mul, pow_two]
          ring
        have counted : (n : ℚ) = 2 * ((n / 2 : Nat) : ℚ) + 1 := by exact_mod_cast count
        rw [power, counted]
        linarith
      · have rest := ih (n / 2) (by omega) small (roundMul_le pos base base) result_error squared
          unit unitSq
        have count : n = 2 * (n / 2) := by omega
        have power : ideal * idealX ^ n = ideal * (idealX * idealX) ^ (n / 2) := by
          conv_lhs => rw [count, pow_mul, pow_two]
        have counted : (n : ℚ) = 2 * ((n / 2 : Nat) : ℚ) := by exact_mod_cast count
        rw [power, counted]
        linarith

section Means
variable {f w : Nat}

def mean (weight a b : ℚ) : ℚ := weight * a + (1 - weight) * b

theorem mean_mean (v w a b : ℚ) : mean v (mean w a b) b = mean (v * w) a b := by
  unfold mean
  ring

theorem mix_error (pos : 0 < f) (weight : w ≤ 2 ^ f) (a b : Nat) :
    |(mix f w a b : ℚ) - mean (value f w) a b| ≤ 1 / 2 := by
  have error := round_error pos (a * w + b * (2 ^ f - w))
  have ideal : ((a * w + b * (2 ^ f - w) : Nat) : ℚ) / 2 ^ f = mean (value f w) a b := by
    rw [mean, value]
    push_cast [Nat.cast_sub weight]
    field_simp
  rwa [ideal] at error

theorem mix_weight_error (pos : 0 < f) (weight : w ≤ 2 ^ f) (a b : Nat) {ideal e : ℚ}
    (close : |value f w - ideal| ≤ e) :
    |(mix f w a b : ℚ) - mean ideal a b| ≤ 1 / 2 + e * |(a : ℚ) - b| := by
  have split : (mix f w a b : ℚ) - mean ideal a b =
      ((mix f w a b : ℚ) - mean (value f w) a b) + (value f w - ideal) * (a - b) := by
    unfold mean
    ring
  have moved : |(value f w - ideal) * ((a : ℚ) - b)| ≤ e * |(a : ℚ) - b| := by
    rw [abs_mul]
    exact mul_le_mul_of_nonneg_right close (abs_nonneg _)
  rw [split]
  exact (abs_add_le _ _).trans (add_le_add (mix_error pos weight a b) moved)

theorem mix_between (pos : 0 < f) (weight : w ≤ 2 ^ f) {a b low high : Nat}
    (left : low ≤ a ∧ a ≤ high) (right : low ≤ b ∧ b ≤ high) :
    low ≤ mix f w a b ∧ mix f w a b ≤ high := by
  have half : 2 ^ (f - 1) < 2 ^ f := Nat.pow_lt_pow_right (by decide) (by omega)
  have whole (k : Nat) : k * w + k * (2 ^ f - w) = k * 2 ^ f := by
    rw [← Nat.mul_add, Nat.add_sub_cancel' weight]
  have atLeast := Nat.add_le_add (Nat.mul_le_mul_right w left.1)
    (Nat.mul_le_mul_right (2 ^ f - w) right.1)
  have atMost := Nat.add_le_add (Nat.mul_le_mul_right w left.2)
    (Nat.mul_le_mul_right (2 ^ f - w) right.2)
  rw [whole] at atLeast atMost
  constructor
  · rw [mix, Nat.le_div_iff_mul_le (Nat.two_pow_pos f)]
    exact atLeast.trans (Nat.le_add_right _ _)
  · rw [mix, ← Nat.lt_succ_iff, Nat.div_lt_iff_lt_mul (Nat.two_pow_pos f), Nat.succ_mul]
    exact Nat.add_lt_add_of_le_of_lt atMost half

/-- Mixing in the same number again and again, half a unit lost each time at most. -/
theorem iterate_mix_error (pos : 0 < f) (weight : w ≤ 2 ^ f) (a b n : Nat) :
    |((fun a => mix f w a b)^[n] a : ℚ) - mean (value f w ^ n) a b| ≤ n / 2 := by
  induction n with
  | zero => simp [mean]
  | succ n ih =>
      rw [Function.iterate_succ_apply', Nat.cast_succ]
      set before := (fun a => mix f w a b)^[n] a
      have step := mix_error pos weight before b
      have ideal : mean (value f w ^ (n + 1)) a b =
          mean (value f w) (mean (value f w ^ n) a b) b := by
        rw [mean_mean, pow_succ']
      have carried : |mean (value f w) before b -
          mean (value f w) (mean (value f w ^ n) a b) b| ≤ n / 2 := by
        have factor : mean (value f w) before b - mean (value f w) (mean (value f w ^ n) a b) b =
            value f w * (before - mean (value f w ^ n) a b) := by
          unfold mean
          ring
        rw [factor, abs_mul, abs_of_nonneg (value_nonneg f w)]
        exact (mul_le_of_le_one_left (abs_nonneg _) (value_le_one weight)).trans ih
      have total := abs_add_le ((mix f w before b : ℚ) - mean (value f w) before b)
        (mean (value f w) before b - mean (value f w) (mean (value f w ^ n) a b) b)
      rw [sub_add_sub_cancel] at total
      rw [ideal]
      linarith

end Means

end AndroidKernel.FixedPoint
