import Mathlib.Data.BitVec
import AndroidKernel.Task
import AndroidKernel.Transition

/-!
The load averages: `calc_load`, `fixed_power_int` and `calc_global_load` of
`core.c` (3.4) and `sched.c` (3.1), in the 32 bits of an `unsigned long` on ARM.
`do_timer`, which is not in the tree, advances `jiffies` and calls
`calc_global_load`. How the CPUs sum up the active tasks is in another module;
here the two values that `calc_load_tasks` is read to have are arguments.
-/

namespace AndroidKernel.LoadAverage

abbrev Word := BitVec 32

def fshift : Nat := 11

def fixed1 : Word := (1 : Word) <<< fshift

def exp1 : Word := 1884
def exp5 : Word := 2014
def exp15 : Word := 2037

def exps : Fin 3 → Word
  | 0 => exp1
  | 1 => exp5
  | 2 => exp15

def loadFreq (hz : Nat) : Word := 5 * BitVec.ofNat 32 hz + 1

def calcLoad (load exp active : Word) : Word :=
  let load := load * exp
  let load := load + active * (fixed1 - exp)
  let load := load + (1 : Word) <<< (fshift - 1)
  load >>> fshift

/-- The product and its rounding, which `fixed_power_int` writes out twice. -/
def roundedMul (x y : Word) (fracBits : Nat) : Word :=
  (x * y + (1 : Word) <<< (fracBits - 1)) >>> fracBits

def fixedPowerLoop (fracBits : Nat) (result x n : Word) : Word :=
  let result := if n &&& 1 ≠ 0 then roundedMul result x fracBits else result
  let half := n >>> 1
  if half = 0 then result else fixedPowerLoop fracBits result (roundedMul x x fracBits) half
termination_by n.toNat
decreasing_by
  rename_i some_
  have pos : (n >>> 1).toNat ≠ 0 := fun zero => some_ (BitVec.eq_of_toNat_eq zero)
  rw [BitVec.toNat_ushiftRight, Nat.shiftRight_eq_div_pow] at pos ⊢
  omega

def fixedPowerInt (x : Word) (fracBits : Nat) (n : Word) : Word :=
  if n ≠ 0 then fixedPowerLoop fracBits ((1 : Word) <<< fracBits) x n
  else (1 : Word) <<< fracBits

def calcLoadN (load exp active n : Word) : Word :=
  calcLoad load (fixedPowerInt exp fshift n) active

def timeBefore (a b : Word) : Bool := (a - b).msb

def activeLoad (tasks : Word) : Word := if 0 < tasks.toInt then tasks * fixed1 else 0

structure State where
  /-- `jiffies_64`, of which `jiffies` is the low word. -/
  jiffies64 : Nat
  calcLoadUpdate : Word
  calcLoadIdx : Word
  avenrun : Fin 3 → Word
  /-- How many load cycles the averages have been moved on. -/
  cycles : Nat

def jiffies (s : State) : Word := BitVec.ofNat 32 s.jiffies64

/-- One cycle of the averages. -/
def sample (s : State) (freq active : Word) : State :=
  { s with
    avenrun := fun i => calcLoad (s.avenrun i) (exps i) active
    calcLoadUpdate := s.calcLoadUpdate + freq
    cycles := s.cycles + 1 }

def catchUp (s : State) (freq active n : Word) : State :=
  { s with
    avenrun := fun i => calcLoadN (s.avenrun i) (exps i) active n
    calcLoadUpdate := s.calcLoadUpdate + n * freq
    cycles := s.cycles + n.toNat }

/-- `calc_global_nohz` of 3.4. -/
def calcGlobalNohz (s : State) (freq tasks : Word) : State :=
  let s :=
    if timeBefore (jiffies s) (s.calcLoadUpdate + 10) then s
    else
      let delta := jiffies s - s.calcLoadUpdate - 10
      catchUp s freq (activeLoad tasks) (1 + delta.sdiv freq)
  { s with calcLoadIdx := s.calcLoadIdx + 1 }

/-- `calc_global_nohz` of 3.1, which comes first and goes by the ticks. -/
def calcGlobalNohzTicks (s : State) (freq ticks tasks : Word) : State :=
  if timeBefore (jiffies s) s.calcLoadUpdate then s
  else if freq ≤ ticks then catchUp s freq (activeLoad tasks) (ticks / freq)
  else s

/-- `calc_global_load`; `tasks` is what the cycle of its own reads in `calc_load_tasks`,
`missed` what is read for the cycles that were missed. -/
def calcGlobalLoad (kernel : Kernel) (s : State) (freq ticks tasks missed : Word) : State :=
  match kernel with
  | .goldfish =>
      if timeBefore (jiffies s) (s.calcLoadUpdate + 10) then s
      else calcGlobalNohz (sample s freq (activeLoad tasks)) freq missed
  | .tegra =>
      let s := calcGlobalNohzTicks s freq ticks missed
      if timeBefore (jiffies s) (s.calcLoadUpdate + 10) then s
      else sample s freq (activeLoad tasks)

structure Timer where
  ticks : Word
  tasks : Word
  missed : Word

def later (s : State) (ticks : Nat) : State := { s with jiffies64 := s.jiffies64 + ticks }

def doTimer (kernel : Kernel) (freq : Word) (s : State) (timer : Timer) : Option State :=
  some (calcGlobalLoad kernel (later s timer.ticks.toNat) freq timer.ticks timer.tasks
    timer.missed)

end AndroidKernel.LoadAverage
