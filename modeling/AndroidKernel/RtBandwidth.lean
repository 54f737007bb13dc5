import Mathlib.Algebra.BigOperators.Group.List.Basic
import Mathlib.Algebra.Order.Ring.Int
import Mathlib.Tactic.Linarith
import AndroidKernel.Runqueue
import AndroidKernel.Transition

/-!
The loan of real-time runtime between the CPUs of a root domain, in the slice
of one task group: `rt.c` of 3.4 and `sched_rt.c` of 3.1, and what hotplug and
the root domains of `core.c` call of them. `rt_b->rt_runtime_lock` makes each
loop one step; the times a loop reads under the lock of another CPU are an
argument, since that CPU may go on running. `RT_RUNTIME_SHARE` is on and the
scheduler is running. Runtimes are `u64` with the top value for no limit.
-/

namespace AndroidKernel.RtBandwidth

def u64 (value : Int) : Nat := (value % 2 ^ 64).toNat

def s64 (value : Int) : Int := value.bmod (2 ^ 64)

theorem u64_eq {value : Int} (nonneg : 0 ≤ value) (small : value < 2 ^ 64) :
    (u64 value : Int) = value := by
  rw [u64, Int.emod_eq_of_lt nonneg small, Int.toNat_of_nonneg nonneg]

theorem s64_eq {value : Int} (low : -2 ^ 63 ≤ value) (high : value < 2 ^ 63) :
    s64 value = value := by
  rw [s64, Int.bmod_def]
  split <;> omega

/-- The bandwidth fields of `struct rt_rq`. -/
structure RtTime where
  rtTime : Nat
  rtRuntime : Nat
  rtThrottled : Bool

def setRuntime (col : Cpu → RtTime) (c : Cpu) (runtime : Nat) : Cpu → RtTime :=
  Function.update col c { col c with rtRuntime := runtime }

def lend (col : Cpu → RtTime) (lender borrower : Cpu) (diff : Int) : Cpu → RtTime :=
  let col := setRuntime col lender (u64 ((col lender).rtRuntime - diff))
  setRuntime col borrower (u64 ((col borrower).rtRuntime + diff))

def loan (rtPeriod weight : Nat) (own : Nat) (spare : Int) : Int :=
  let diff := spare / weight
  if u64 (own + diff) > rtPeriod then s64 (rtPeriod - own) else diff

/-- The loop of `do_balance_runtime`, with `more` and the runtimes so far. -/
def balanceLoop (rtPeriod weight : Nat) (own : Cpu) (used : Cpu → Nat) :
    List Cpu → Bool → (Cpu → RtTime) → (Cpu → RtTime) × Bool
  | [], more, col => (col, more)
  | i :: rest, more, col =>
      if i = own ∨ (col i).rtRuntime = runtimeInf then
        balanceLoop rtPeriod weight own used rest more col
      else
        let spare := s64 ((col i).rtRuntime - used i)
        if spare > 0 then
          let col := lend col i own (loan rtPeriod weight (col own).rtRuntime spare)
          if (col own).rtRuntime = rtPeriod then (col, true)
          else balanceLoop rtPeriod weight own used rest true col
        else balanceLoop rtPeriod weight own used rest more col

/-- The greedy reclaim of `__disable_runtime`, with what is left wanting. -/
def reclaimLoop (own : Cpu) : List Cpu → Int → (Cpu → RtTime) → (Cpu → RtTime) × Int
  | [], want, col => (col, want)
  | i :: rest, want, col =>
      if i = own ∨ (col i).rtRuntime = runtimeInf then reclaimLoop own rest want col
      else if want > 0 then
        let diff := min (s64 (col i).rtRuntime) want
        let col := setRuntime col i (u64 ((col i).rtRuntime - diff))
        if want - diff = 0 then (col, 0) else reclaimLoop own rest (want - diff) col
      else
        -- a surplus goes to the first neighbour, whatever its size
        (setRuntime col i (u64 ((col i).rtRuntime - want)), 0)

structure State where
  rtPeriod : Nat
  rtRuntime : Nat
  rtRq : Cpu → RtTime
  /-- The root domain of each CPU. -/
  rd : Cpu → Nat
  /-- `rq->online`. -/
  online : Cpu → Bool
  /-- Some `BUG_ON(want)` has fired. -/
  bugOn : Bool

section Machine
variable (kernel : Kernel) (nrCpuIds : Nat)

def span (s : State) (root : Nat) : List Cpu :=
  (List.range nrCpuIds).filter fun c => s.rd c = root

/-- 3.1 takes the root domain of the CPU that runs the loop. -/
def balanceDomain (s : State) (this c : Cpu) : Nat :=
  match kernel with
  | .goldfish => s.rd c
  | .tegra => s.rd this

def doBalanceRuntime (s : State) (this c : Cpu) (used : Cpu → Nat) : State :=
  let members := span nrCpuIds s (balanceDomain kernel s this c)
  { s with rtRq := (balanceLoop s.rtPeriod members.length c used members false s.rtRq).1 }

def balanceRuntime (s : State) (this c : Cpu) (used : Cpu → Nat) : State :=
  if (s.rtRq c).rtTime > (s.rtRq c).rtRuntime then doBalanceRuntime kernel nrCpuIds s this c used
  else s

def disableRuntime (s : State) (c : Cpu) : State :=
  if (s.rtRq c).rtRuntime = runtimeInf ∨ (s.rtRq c).rtRuntime = s.rtRuntime then
    { s with rtRq := setRuntime s.rtRq c runtimeInf }
  else
    let want := s64 (s.rtRuntime - (s.rtRq c).rtRuntime)
    let reclaimed := reclaimLoop c (span nrCpuIds s (s.rd c)) want s.rtRq
    { s with
      rtRq := setRuntime reclaimed.1 c runtimeInf
      bugOn := s.bugOn || reclaimed.2 ≠ 0 }

def enableRuntime (s : State) (c : Cpu) : State :=
  { s with
    rtRq := Function.update s.rtRq c
      { rtTime := 0, rtRuntime := s.rtRuntime, rtThrottled := false } }

def setRqOnline (s : State) (c : Cpu) : State :=
  if s.online c then s
  else enableRuntime { s with online := Function.update s.online c true } c

def setRqOffline (s : State) (c : Cpu) : State :=
  if s.online c then
    { disableRuntime nrCpuIds s c with online := Function.update s.online c false }
  else s

def rqAttachRoot (s : State) (c : Cpu) (root : Nat) (active : Bool) : State :=
  let s := setRqOffline nrCpuIds s c
  let s := { s with rd := Function.update s.rd c root }
  if active then setRqOnline s c else s

inductive Hotplug where
  | downPrepare
  | downFailed
  | online
  | dying
  deriving DecidableEq

def updateRuntime (s : State) (c : Cpu) : Hotplug → State
  | .downPrepare => disableRuntime nrCpuIds s c
  | .downFailed | .online => enableRuntime s c
  | .dying => s

def migrationCall (s : State) (c : Cpu) : Hotplug → State
  | .online => setRqOnline s c
  | .dying => setRqOffline nrCpuIds s c
  | .downPrepare | .downFailed => s

def setRtBandwidth (s : State) (rtPeriod rtRuntime : Nat) : State :=
  { s with
    rtPeriod := rtPeriod
    rtRuntime := rtRuntime
    rtRq := fun c => { s.rtRq c with rtRuntime := rtRuntime } }

inductive Op where
  | balanceRuntime (this c : Cpu) (used : Cpu → Nat)
  /-- `update_curr_rt` and the period timer write what a CPU has used. -/
  | account (c : Cpu) (rtTime : Nat) (rtThrottled : Bool)
  | rqAttachRoot (c : Cpu) (root : Nat) (active : Bool)
  | migrationCall (c : Cpu) (action : Hotplug)
  | updateRuntime (c : Cpu) (action : Hotplug)
  | setRtBandwidth (rtPeriod rtRuntime : Nat)

def apply (s : State) : Op → State
  | .balanceRuntime this c used => balanceRuntime kernel nrCpuIds s this c used
  | .account c rtTime rtThrottled =>
      { s with
        rtRq := Function.update s.rtRq c
          { s.rtRq c with rtTime := rtTime, rtThrottled := rtThrottled } }
  | .rqAttachRoot c root active => rqAttachRoot nrCpuIds s c root active
  | .migrationCall c action => migrationCall nrCpuIds s c action
  | .updateRuntime c action => updateRuntime nrCpuIds s c action
  | .setRtBandwidth rtPeriod rtRuntime => setRtBandwidth s rtPeriod rtRuntime

/-- CPUs exist, times are `u64`, and in nanoseconds they stay below 2^63. -/
def Allowed : Op → Prop
  | .balanceRuntime _ c used => c < nrCpuIds ∧ ∀ i < nrCpuIds, used i < 2 ^ 63
  | .account c rtTime _ => c < nrCpuIds ∧ rtTime ≤ runtimeInf
  | .rqAttachRoot c _ _ | .migrationCall c _ | .updateRuntime c _ => c < nrCpuIds
  | .setRtBandwidth _ rtRuntime =>
      rtRuntime = runtimeInf ∨ nrCpuIds * rtRuntime < 2 ^ 63

instance : (op : Op) → Decidable (Allowed nrCpuIds op)
  | .balanceRuntime _ _ _ | .account _ _ _ => inferInstanceAs (Decidable (_ ∧ _))
  | .rqAttachRoot _ _ _ | .migrationCall _ _ | .updateRuntime _ _ =>
      inferInstanceAs (Decidable (_ < _))
  | .setRtBandwidth _ _ => inferInstanceAs (Decidable (_ ∨ _))

def step (s : State) (op : Op) : Option State :=
  if Allowed nrCpuIds op then some (apply kernel nrCpuIds s op) else none

/-- `init_rt_bandwidth` and `init_tg_rt_entry`: every CPU starts with the
runtime of the group. -/
structure Init (s : State) : Prop where
  runtime : ∀ c < nrCpuIds, (s.rtRq c).rtRuntime = s.rtRuntime
  time : ∀ c < nrCpuIds, (s.rtRq c).rtTime ≤ runtimeInf
  small : s.rtRuntime = runtimeInf ∨ nrCpuIds * s.rtRuntime < 2 ^ 63
  no_bug : s.bugOn = false

end Machine

end AndroidKernel.RtBandwidth
