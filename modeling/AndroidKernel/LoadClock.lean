import AndroidKernel.LoadAverageLaws

/-!
The clock of the samples, on 32 bits of `jiffies`. Both kernels take every load
cycle that is due and take none twice, whatever the timer interrupts leave out:
3.4 counts the cycles from how late it is, 3.1 from the ticks it is told.
-/

namespace AndroidKernel.LoadAverage

/-- `time_before` on two times that are less than half the range apart. -/
theorem timeBefore_ofNat {a b : Nat} (near : a < b + 2 ^ 31) (far : b < a + 2 ^ 31) :
    timeBefore (BitVec.ofNat 32 a) (BitVec.ofNat 32 b) = decide (a < b) := by
  rw [timeBefore, BitVec.msb_eq_decide, decide_eq_decide, BitVec.toNat_sub, BitVec.toNat_ofNat,
    BitVec.toNat_ofNat]
  omega

theorem ofNat_sub {a b : Nat} (le : b ≤ a) :
    BitVec.ofNat 32 a - BitVec.ofNat 32 b = BitVec.ofNat 32 (a - b) := by
  apply BitVec.eq_of_toNat_eq
  rw [BitVec.toNat_sub, BitVec.toNat_ofNat, BitVec.toNat_ofNat, BitVec.toNat_ofNat]
  omega

theorem sdiv_ofNat {a b : Nat} (left : a < 2 ^ 31) (right : b < 2 ^ 31) :
    (BitVec.ofNat 32 a).sdiv (BitVec.ofNat 32 b) = BitVec.ofNat 32 (a / b) := by
  have positive {c : Nat} (small : c < 2 ^ 31) : (BitVec.ofNat 32 c).msb = false := by
    rw [BitVec.msb_eq_decide, decide_eq_false_iff_not, BitVec.toNat_ofNat]
    omega
  have quotient : a / b ≤ a := Nat.div_le_self a b
  rw [BitVec.sdiv_eq, positive left, positive right]
  apply BitVec.eq_of_toNat_eq
  change (BitVec.ofNat 32 a / BitVec.ofNat 32 b).toNat = _
  rw [BitVec.toNat_udiv, BitVec.toNat_ofNat, BitVec.toNat_ofNat, BitVec.toNat_ofNat,
    Nat.mod_eq_of_lt (a := a) (by omega), Nat.mod_eq_of_lt (a := b) (by omega),
    Nat.mod_eq_of_lt (by omega)]

section Clock
variable {freq first : Nat} {s : State}

def Scheduled (freq first : Nat) (s : State) : Prop :=
  s.calcLoadUpdate = BitVec.ofNat 32 (first + freq * s.cycles)

theorem Scheduled.sample (scheduled : Scheduled freq first s) (active : Word) :
    Scheduled freq first (LoadAverage.sample s (BitVec.ofNat 32 freq) active) := by
  change s.calcLoadUpdate + BitVec.ofNat 32 freq =
    BitVec.ofNat 32 (first + freq * (s.cycles + 1))
  rw [scheduled, Nat.mul_succ, ← Nat.add_assoc, BitVec.ofNat_add _ freq]

theorem Scheduled.catchUp (scheduled : Scheduled freq first s) (active n : Word) :
    Scheduled freq first (LoadAverage.catchUp s (BitVec.ofNat 32 freq) active n) := by
  change s.calcLoadUpdate + n * BitVec.ofNat 32 freq =
    BitVec.ofNat 32 (first + freq * (s.cycles + n.toNat))
  rw [scheduled, Nat.mul_add, ← Nat.add_assoc, BitVec.ofNat_add _ (freq * n.toNat),
    BitVec.ofNat_mul, BitVec.ofNat_toNat, BitVec.setWidth_eq, BitVec.mul_comm n]

theorem Scheduled.before (scheduled : Scheduled freq first s)
    (near : s.jiffies64 < first + freq * s.cycles + 2 ^ 31)
    (far : first + freq * s.cycles < s.jiffies64 + 2 ^ 31) :
    timeBefore (jiffies s) s.calcLoadUpdate = true ↔
      s.jiffies64 < first + freq * s.cycles := by
  rw [scheduled, jiffies, timeBefore_ofNat near far, decide_eq_true_eq]

theorem Scheduled.before_ten (scheduled : Scheduled freq first s)
    (near : s.jiffies64 < first + freq * s.cycles + 2 ^ 31)
    (far : first + freq * s.cycles + 10 < s.jiffies64 + 2 ^ 31) :
    timeBefore (jiffies s) (s.calcLoadUpdate + 10) = true ↔
      s.jiffies64 < first + freq * s.cycles + 10 := by
  have ten : s.calcLoadUpdate + 10 = BitVec.ofNat 32 (first + freq * s.cycles + 10) := by
    rw [scheduled, BitVec.ofNat_add _ 10]
    rfl
  rw [ten, jiffies, timeBefore_ofNat (by omega) far, decide_eq_true_eq]

structure Caught (freq first : Nat) (s : State) : Prop where
  scheduled : Scheduled freq first s
  early : s.jiffies64 < first + freq * s.cycles + 10
  late : first + freq * s.cycles + 10 ≤ s.jiffies64 + freq

/-- However many samples are due, `calc_global_nohz` of 3.4 takes them all. -/
theorem Scheduled.nohz (scheduled : Scheduled freq first s) (wide : 10 < freq)
    (narrow : freq < 2 ^ 20) (near : s.jiffies64 < first + freq * s.cycles + 2 ^ 30 + 10)
    (late : first + freq * s.cycles + 10 ≤ s.jiffies64 + freq) (missed : Word) :
    Caught freq first (calcGlobalNohz s (BitVec.ofNat 32 freq) missed) := by
  have due := scheduled.before_ten (by omega) (by omega)
  rw [calcGlobalNohz]
  split_ifs with waits
  · exact ⟨scheduled, due.mp waits, late⟩
  · rw [due, Nat.not_lt] at waits
    set gap := s.jiffies64 - (first + freq * s.cycles) - 10 with gap_eq
    have delta : jiffies s - s.calcLoadUpdate - 10 = BitVec.ofNat 32 gap := by
      have late' : 10 ≤ s.jiffies64 - (first + freq * s.cycles) := by omega
      rw [scheduled, jiffies, ofNat_sub (by omega)]
      exact ofNat_sub late'
    have cut : gap / freq * freq ≤ gap := Nat.div_mul_le_self gap freq
    have rest : gap < (gap / freq + 1) * freq :=
      Nat.lt_mul_of_div_lt (Nat.lt_succ_self _) (by omega)
    have count : (1 + (jiffies s - s.calcLoadUpdate - 10).sdiv (BitVec.ofNat 32 freq)).toNat =
        1 + gap / freq := by
      have small : 1 + gap / freq < 2 ^ 32 := by
        have le := Nat.div_le_self gap freq
        omega
      rw [delta, sdiv_ofNat (by omega) (by omega)]
      change (BitVec.ofNat 32 1 + _).toNat = _
      rw [← BitVec.ofNat_add, BitVec.toNat_ofNat, Nat.mod_eq_of_lt small]
    have cycles : first + freq * (s.cycles + (1 + gap / freq)) =
        first + freq * s.cycles + (gap / freq + 1) * freq := by ring
    have split : (gap / freq + 1) * freq = gap / freq * freq + freq := Nat.succ_mul _ _
    refine ⟨scheduled.catchUp (activeLoad missed) _, ?_, ?_⟩
    · change s.jiffies64 < first + freq * (s.cycles + _) + 10
      rw [count, cycles]
      omega
    · change first + freq * (s.cycles + _) + 10 ≤ s.jiffies64 + freq
      rw [count, cycles]
      omega

/-- In 3.4 before the first sample the clock may start more than a cycle early. -/
def OnTime (kernel : Kernel) (freq first : Nat) (s : State) : Prop :=
  Caught freq first s ∨
    kernel = .goldfish ∧ s.cycles = 0 ∧ Scheduled freq first s ∧ s.jiffies64 < first + 10 ∧
      first ≤ s.jiffies64 + freq

theorem Scheduled.goldfish (scheduled : Scheduled freq first s) (wide : 10 < freq)
    (narrow : freq < 2 ^ 20) (near : s.jiffies64 < first + freq * s.cycles + 2 ^ 30 + 10)
    (behind : first + freq * s.cycles ≤ s.jiffies64 + freq) (ticks tasks missed : Word) :
    (s.jiffies64 < first + freq * s.cycles + 10 ∧
        calcGlobalLoad .goldfish s (BitVec.ofNat 32 freq) ticks tasks missed = s) ∨
      Caught freq first (calcGlobalLoad .goldfish s (BitVec.ofNat 32 freq) ticks tasks missed) := by
  have due := scheduled.before_ten (by omega) (by omega)
  simp only [calcGlobalLoad]
  split_ifs with waits
  · exact .inl ⟨due.mp waits, rfl⟩
  · right
    rw [due, Nat.not_lt] at waits
    have sampled := scheduled.sample (activeLoad tasks)
    have next : first + freq * (s.cycles + 1) = first + freq * s.cycles + freq := by ring
    apply sampled.nohz wide narrow
    · change s.jiffies64 < first + freq * (s.cycles + 1) + 2 ^ 30 + 10
      omega
    · change first + freq * (s.cycles + 1) + 10 ≤ s.jiffies64 + freq
      omega

structure Nearly (freq first : Nat) (s : State) : Prop where
  scheduled : Scheduled freq first s
  near : s.jiffies64 < first + freq * s.cycles + freq + 10
  late : first + freq * s.cycles + 10 ≤ s.jiffies64 + freq

/-- As many samples as whole cycles fit into the ticks, in 3.1. -/
theorem Caught.nohzTicks (caught : Caught freq first s) (wide : 10 < freq)
    (narrow : freq < 2 ^ 20) {ticks : Word} (short : ticks.toNat < 2 ^ 30) (missed : Word) :
    Nearly freq first
      (calcGlobalNohzTicks (later s ticks.toNat) (BitVec.ofNat 32 freq) ticks missed) := by
  obtain ⟨scheduled, early, late⟩ := caught
  have time : (later s ticks.toNat).jiffies64 = s.jiffies64 + ticks.toNat := rfl
  have same : (later s ticks.toNat).cycles = s.cycles := rfl
  have here : Scheduled freq first (later s ticks.toNat) := scheduled
  have due := here.before (by rw [time, same]; omega) (by rw [time, same]; omega)
  have size : (BitVec.ofNat 32 freq).toNat = freq := by
    rw [BitVec.toNat_ofNat, Nat.mod_eq_of_lt (by omega)]
  rw [time, same] at due
  rw [calcGlobalNohzTicks]
  split_ifs with waits long
  · rw [due] at waits
    exact ⟨here, by rw [time, same]; omega, by rw [time, same]; omega⟩
  · rw [BitVec.le_def, size] at long
    have count : (ticks / BitVec.ofNat 32 freq).toNat = ticks.toNat / freq := by
      rw [BitVec.toNat_udiv, size]
    have cut : ticks.toNat / freq * freq ≤ ticks.toNat := Nat.div_mul_le_self ticks.toNat freq
    have rest : ticks.toNat < (ticks.toNat / freq + 1) * freq :=
      Nat.lt_mul_of_div_lt (Nat.lt_succ_self _) (by omega)
    rw [Nat.succ_mul] at rest
    have cycles : first + freq * (s.cycles + ticks.toNat / freq) =
        first + freq * s.cycles + ticks.toNat / freq * freq := by ring
    refine ⟨here.catchUp (activeLoad missed) _, ?_, ?_⟩
    · change s.jiffies64 + ticks.toNat < first + freq * (s.cycles + _) + freq + 10
      rw [count, cycles]
      omega
    · change first + freq * (s.cycles + _) + 10 ≤ s.jiffies64 + ticks.toNat + freq
      rw [count, cycles]
      omega
  · rw [BitVec.le_def, size, Nat.not_le] at long
    exact ⟨here, by rw [time, same]; omega, by rw [time, same]; omega⟩

theorem Caught.tegra (caught : Caught freq first s) (wide : 10 < freq) (narrow : freq < 2 ^ 20)
    {ticks : Word} (short : ticks.toNat < 2 ^ 30) (tasks missed : Word) :
    Caught freq first
      (calcGlobalLoad .tegra (later s ticks.toNat) (BitVec.ofNat 32 freq) ticks tasks missed) := by
  obtain ⟨scheduled, near, late⟩ := caught.nohzTicks wide narrow short missed
  simp only [calcGlobalLoad]
  set middle := calcGlobalNohzTicks (later s ticks.toNat) (BitVec.ofNat 32 freq) ticks missed
  have due := scheduled.before_ten (by omega) (by omega)
  split_ifs with waits
  · exact ⟨scheduled, due.mp waits, late⟩
  · rw [due, Nat.not_lt] at waits
    have next : first + freq * (middle.cycles + 1) = first + freq * middle.cycles + freq := by ring
    refine ⟨scheduled.sample _, ?_, ?_⟩
    · change middle.jiffies64 < first + freq * (middle.cycles + 1) + 10
      omega
    · change first + freq * (middle.cycles + 1) + 10 ≤ middle.jiffies64 + freq
      omega

theorem OnTime.doTimer {kernel : Kernel} {timer : Timer} {next : State}
    (onTime : OnTime kernel freq first s) (wide : 10 < freq) (narrow : freq < 2 ^ 20)
    (short : timer.ticks.toNat < 2 ^ 30)
    (moved : LoadAverage.doTimer kernel (BitVec.ofNat 32 freq) s timer = some next) :
    OnTime kernel freq first next := by
  obtain rfl := Option.some.inj moved
  have time : (later s timer.ticks.toNat).jiffies64 = s.jiffies64 + timer.ticks.toNat := rfl
  have same : (later s timer.ticks.toNat).cycles = s.cycles := rfl
  rcases onTime with caught | ⟨rfl, none_, scheduled, early, behind⟩
  · cases kernel with
    | goldfish =>
        obtain ⟨scheduled, early, late⟩ := caught
        have here : Scheduled freq first (later s timer.ticks.toNat) := scheduled
        rcases here.goldfish wide narrow (by rw [time, same]; omega) (by rw [time, same]; omega)
          timer.ticks timer.tasks timer.missed with ⟨waits, stays⟩ | caught
        · rw [stays]
          exact .inl ⟨here, waits, by rw [time, same]; omega⟩
        · exact .inl caught
    | tegra => exact .inl (caught.tegra wide narrow short _ _)
  · have here : Scheduled freq first (later s timer.ticks.toNat) := scheduled
    rw [none_] at same
    rcases here.goldfish wide narrow (by rw [time, same]; omega) (by rw [time, same]; omega)
      timer.ticks timer.tasks timer.missed with ⟨waits, stays⟩ | caught
    · rw [same, Nat.mul_zero, Nat.add_zero] at waits
      rw [stays]
      exact .inr ⟨rfl, same, here, waits, by rw [time]; omega⟩
    · exact .inl caught

def cyclesDue (freq first now : Nat) : Nat :=
  if now < first + 10 then 0 else (now - first - 10) / freq + 1

theorem Caught.cycles_eq (caught : Caught freq first s) (wide : 10 < freq) :
    s.cycles = cyclesDue freq first s.jiffies64 := by
  obtain ⟨-, early, late⟩ := caught
  unfold cyclesDue
  cases taken : s.cycles with
  | zero =>
      rw [taken, Nat.mul_zero] at early
      rw [if_pos (by omega)]
  | succ n =>
      rw [taken, Nat.mul_succ] at early late
      have quotient : (s.jiffies64 - first - 10) / freq = n := by
        rw [Nat.div_eq_iff (by omega)]
        constructor
        · rw [Nat.mul_comm]
          omega
        · rw [Nat.mul_comm]
          omega
      rw [if_neg (by omega), quotient]

end Clock

section Runs
variable {kernel : Kernel} {start s : State} {timers : List Timer}

theorem loadFreq_eq (hz : Nat) : loadFreq hz = BitVec.ofNat 32 (5 * hz + 1) := by
  rw [loadFreq, BitVec.ofNat_add, BitVec.ofNat_mul]
  rfl

/-- `sched_init` has set the time of the first sample. For 3.1 ten jiffies have passed
since then: it takes the first sample early when a timer interrupt comes so late. -/
structure Start (kernel : Kernel) (hz first : Nat) (s : State) : Prop where
  update : s.calcLoadUpdate = BitVec.ofNat 32 first
  none_yet : s.cycles = 0
  early : s.jiffies64 < first + 10
  booted : first ≤ s.jiffies64 + (5 * hz + 1)
  settled : kernel = .tegra → first + 10 ≤ s.jiffies64 + (5 * hz + 1)

/-- However the timer interrupts come, just the cycles that are due have been taken. -/
theorem load_cycles_exact {hz first : Nat} (fast : 2 ≤ hz) (slow : hz ≤ 10000)
    (init : Start kernel hz first start)
    (run : Transition.Run (doTimer kernel (loadFreq hz))
      (fun _ timer => timer.ticks.toNat < 2 ^ 30) start timers s) :
    s.cycles = cyclesDue (5 * hz + 1) first s.jiffies64 ∧
      s.calcLoadUpdate = BitVec.ofNat 32 (first + (5 * hz + 1) * s.cycles) := by
  rw [loadFreq_eq] at run
  have begins : OnTime kernel (5 * hz + 1) first start := by
    have scheduled : Scheduled (5 * hz + 1) first start := by
      rw [Scheduled, init.none_yet, init.update, Nat.mul_zero, Nat.add_zero]
    cases kernel with
    | goldfish => exact .inr ⟨rfl, init.none_yet, scheduled, init.early, init.booted⟩
    | tegra =>
        refine .inl ⟨scheduled, ?_, ?_⟩
        · rw [init.none_yet]
          exact init.early
        · rw [init.none_yet]
          exact init.settled rfl
  have onTime : OnTime kernel (5 * hz + 1) first s := by
    apply run.invariant
    · intro before timer after onTime short moved
      exact onTime.doTimer (by omega) (by omega) short moved
    · exact begins
  rcases onTime with caught | ⟨-, none_, scheduled, early, -⟩
  · exact ⟨caught.cycles_eq (by omega), caught.scheduled⟩
  · refine ⟨?_, scheduled⟩
    rw [none_, cyclesDue, if_pos early]

end Runs

theorem booted_start (kernel : Kernel) : Start kernel 100 (2 ^ 32 - 30000 + 501) booted :=
  ⟨rfl, rfl, by decide, by decide, fun _ => by decide⟩

theorem load_cycles_exact_slept :
    (slept .tegra).cycles = cyclesDue (5 * 100 + 1) (2 ^ 32 - 30000 + 501)
        (slept .tegra).jiffies64 ∧
      (slept .tegra).calcLoadUpdate =
        BitVec.ofNat 32 (2 ^ 32 - 30000 + 501 + (5 * 100 + 1) * (slept .tegra).cycles) :=
  load_cycles_exact (by decide) (by decide) (booted_start .tegra) (slept_run .tegra (by decide))

example : cyclesDue (5 * 100 + 1) (2 ^ 32 - 30000 + 501) (2 ^ 32 - 30000 + 60010) = 119 := by
  decide

end AndroidKernel.LoadAverage
