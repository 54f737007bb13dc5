import AndroidKernel.RunQueueLaws
import AndroidKernel.Scheduling

/-!
The short cut of `pick_next_task` in 3.4. It asks the fair class alone when
`nr_running` equals the number of fair tasks, which is sound because the hooks
of every class keep `nr_running` in step. The law is stated where
`pick_next_task` can look: between operations, and in the middle of `__schedule`
after the previous task was put back.
-/

namespace AndroidKernel

/-- Every queued RT task of the CPU is held by a throttled group, or there are none. -/
def NoEligibleRt (env : Env) (s : Sched) (c : Cpu) : Prop :=
  ∀ p, QueuedOn s c p → (s.task p).schedClass = .rt →
    ¬ RtGroups.Eligible env.groups (s.rtState c) p

structure FastPathLaw (env : Env) (s : Sched) (c : Cpu) : Prop where
  nr_running : NrRunningExact s c
  walk : pickNextTask env s c = (pickWalk env s c).2
  wrr_head : (s.rq c).wrr.queue ≠ [] →
    (¬ ∃ q, (s.rq c).stop = some q ∧ (s.task q).onRq = true) → NoEligibleRt env s c →
    (s.rq c).wrr.queue.head? = some (pickNextTask env s c)

theorem NoEligibleRt.offers_none {env : Env} {s : Sched} {c : Cpu} (ready : Ready env s c)
    (none : NoEligibleRt env s c) : pickNextTaskRt env s c = Option.none := by
  by_contra offered
  obtain ⟨p, found⟩ := Option.ne_none_iff_exists'.mp offered
  obtain ⟨⟨on, here, isRt⟩, eligible, -⟩ := ready.rt.pick_queued found
  exact none p ⟨on, here⟩ isRt eligible

theorem Ready.fastPath {env : Env} {s : Sched} {c : Cpu} (goldfish : env.kernel = .goldfish)
    (ready : Ready env s c) : FastPathLaw env s c where
  nr_running := by
    obtain ⟨total, counts, sum⟩ := ready.queues.nr_running c
    rw [goldfish, countedTwice, add_zero] at sum
    rwa [NrRunningExact, sum]
  walk := by rw [pickNextTask, pickNext_walk ready]
  wrr_head filled rests none := pickNextTask_wrr ready rests (none.offers_none ready) filled

/-- In 3.4 `nr_running` counts the queued tasks of a reachable state, and the
short cut returns what the walk over the classes returns. -/
theorem fast_path_agrees {env : Env} {ok : Sched → Op → Prop} {s : Sched}
    (goldfish : env.kernel = .goldfish) (reached : Reachable env ok s) (c : Cpu) :
    FastPathLaw env s c ∧ ∀ preemptActive signalPending,
      FastPathLaw env (pickState env s c preemptActive signalPending) c := by
  have sound := reachable_sound reached
  constructor
  · exact (sound.ready c).fastPath goldfish
  · intro preemptActive signalPending
    exact (pickState_ready sound c preemptActive signalPending).fastPath goldfish

theorem fast_path_agrees_two :
    FastPathLaw (Boot.env .goldfish false)
        ((Boot.after .goldfish false wrrOps).get (by decide)) 0 ∧
      ∀ preemptActive signalPending, FastPathLaw (Boot.env .goldfish false)
        (pickState (Boot.env .goldfish false)
          ((Boot.after .goldfish false wrrOps).get (by decide)) 0 preemptActive signalPending) 0 :=
  fast_path_agrees (by rfl) (Boot.reachable .goldfish false wrrOps (by decide)) 0

end AndroidKernel
