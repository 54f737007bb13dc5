import AndroidKernel.RtSchedulable

/-!
What the admission test keeps true in every order of steps: no group gives its
children more than it has, so groups none of which lies above another never
claim more than the root. The global limit
holds as well, unless a group is set while the sysctl handler tries values it
may still take back.
-/

namespace AndroidKernel.RtSchedulable

open PreOrder TaskGroups TreeWalk

def Bandwidth.ratio (bandwidth : Bandwidth) : Nat :=
  toRatio bandwidth.rtPeriod bandwidth.rtRuntime

def Bandwidth.Fits (bandwidth : Bandwidth) : Prop :=
  bandwidth.rtRuntime ≤ bandwidth.rtPeriod ∨ bandwidth.rtRuntime = runtimeInf

theorem Bandwidth.ratio_le {bandwidth : Bandwidth} (fits : bandwidth.Fits) :
    bandwidth.ratio ≤ 2 ^ 20 := by
  rw [Bandwidth.ratio, toRatio]
  split
  next => exact le_rfl
  next limited =>
    have within := fits.resolve_right limited
    calc bandwidth.rtRuntime * 2 ^ 20 % 2 ^ 64 / bandwidth.rtPeriod % 2 ^ 32
        ≤ bandwidth.rtRuntime * 2 ^ 20 % 2 ^ 64 / bandwidth.rtPeriod := Nat.mod_le _ _
      _ ≤ bandwidth.rtPeriod * 2 ^ 20 / bandwidth.rtPeriod :=
          Nat.div_le_div_right ((Nat.mod_le _ _).trans (Nat.mul_le_mul_right _ within))
      _ ≤ 2 ^ 20 := Nat.div_le_of_le_mul (Nat.le_refl _)

theorem ratio_zero (period : Nat) : (⟨period, 0⟩ : Bandwidth).ratio = 0 := by
  simp [Bandwidth.ratio, toRatio, runtimeInf]

def childrenRatio (links : Links Group) (rtB : Group → Bandwidth) (group : Group) : Nat :=
  ((links.children group).map fun child => (rtB child).ratio).sum

theorem ratio_sum_update (children : List Group) (unique : children.Nodup)
    (rtB : Group → Bandwidth) (group : Group) (bandwidth : Bandwidth) :
    (children.map fun child => (Function.update rtB group bandwidth child).ratio).sum ≤
      (children.map fun child => (rtB child).ratio).sum + bandwidth.ratio := by
  induction children with
  | nil => exact Nat.zero_le _
  | cons child rest ih =>
      obtain ⟨absent, uniqueRest⟩ := List.nodup_cons.mp unique
      have later := ih uniqueRest
      simp only [List.map_cons, List.sum_cons]
      by_cases same : child = group
      · subst same
        have unchanged : (rest.map fun other => (Function.update rtB child bandwidth other).ratio) =
            rest.map fun other => (rtB other).ratio := by
          apply List.map_congr_left
          intro other member
          have differs : other ≠ child := fun same => absent (same ▸ member)
          rw [Function.update_of_ne differs]
        rw [Function.update_self, unchanged]
        omega
      · rw [Function.update_of_ne same]
        omega

/-- What the test of one group says, without the wrap of its sum. -/
structure Passes (s : State) (d : Request) (group : Group) : Prop where
  fits : (bandwidthOf s d group).Fits
  limit : (bandwidthOf s d group).ratio ≤
    toRatio (globalRtPeriod s.sysctlRtPeriod) (globalRtRuntime s.sysctlRtRuntime)
  children : childrenRatio s.tree.links (bandwidthOf s d) group % 2 ^ 32 ≤
    (bandwidthOf s d group).ratio

theorem tgRtSchedulable_passes {s : State} {tasks : Group → Bool} {d : Request} {group : Group}
    (pass : tgRtSchedulable s tasks d group = 0) : Passes s d group := by
  simp only [tgRtSchedulable] at pass
  split at pass
  next => cases pass
  next within =>
    split at pass
    next => cases pass
    next =>
      split at pass
      next => cases pass
      next below =>
        split at pass
        next => cases pass
        next sum =>
          constructor
          · by_cases free : (bandwidthOf s d group).rtRuntime = runtimeInf
            · exact .inr free
            · exact .inl (not_lt.mp fun more => within ⟨more, free⟩)
          · exact not_lt.mp below
          · exact not_lt.mp sum

structure Schedulable (s : State) : Prop where
  rooted : ∃ below, Rooted s.tree below
  period : ∀ group ∈ s.tree.groups, (s.rtB group).rtPeriod ≠ 0
  fits : ∀ group ∈ s.tree.groups, (s.rtB group).Fits
  children : ∀ group ∈ s.tree.groups,
    childrenRatio s.tree.links s.rtB group ≤ (s.rtB group).ratio
  def_period : s.defRtPeriod ≠ 0

theorem childrenRatio_congr {links : Links Group} {before after : Group → Bandwidth}
    {group : Group} (same : ∀ child ∈ links.children group, before child = after child) :
    childrenRatio links before group = childrenRatio links after group := by
  rw [childrenRatio, childrenRatio, List.map_congr_left fun child member => by
    rw [same child member]]

theorem Schedulable.create {s : State} (ok : Schedulable s) {parent group : Group}
    (known : parent ∈ s.tree.groups) (fresh : group ∉ s.tree.groups) :
    Schedulable (createGroup s parent group) := by
  obtain ⟨below, rooted⟩ := ok.rooted
  have old : ∀ other ∈ s.tree.groups, other ≠ group := fun other member same =>
    fresh (same ▸ member)
  have kept : ∀ other ∈ s.tree.groups,
      (createGroup s parent group).rtB other = s.rtB other := fun other member =>
    Function.update_of_ne (old other member) _ _
  have new : (createGroup s parent group).rtB group = ⟨s.defRtPeriod, 0⟩ :=
    Function.update_self _ _ _
  constructor
  case rooted => exact rooted.create known fresh
  case period =>
    intro other member
    rcases List.mem_cons.mp member with rfl | was
    · rw [new]
      exact ok.def_period
    · rw [kept other was]
      exact ok.period other was
  case fits =>
    intro other member
    rcases List.mem_cons.mp member with rfl | was
    · rw [new]
      exact .inl (Nat.zero_le _)
    · rw [kept other was]
      exact ok.fits other was
  case children =>
    intro other member
    rcases List.mem_cons.mp member with rfl | was
    · have leaf : (createGroup s parent other).tree.links.children other = [] :=
        Function.update_self _ _ _
      simp [childrenRatio, leaf]
    · have sum := ok.children other was
      have members := (rooted.children_groups was).1
      have same : childrenRatio s.tree.links (createGroup s parent group).rtB other =
          childrenRatio s.tree.links s.rtB other :=
        childrenRatio_congr fun child inside => kept child (members child inside)
      rw [kept other was]
      by_cases parent' : other = parent
      · subst parent'
        have list : (createGroup s other group).tree.links.children other =
            group :: s.tree.links.children other := addLeaf_above (old other was)
        rw [childrenRatio, list, List.map_cons, List.sum_cons, new, ratio_zero, zero_add]
        exact same.le.trans sum
      · have list : (createGroup s parent group).tree.links.children other =
            s.tree.links.children other := addLeaf_children (old other was) parent'
        rw [childrenRatio, list]
        exact same.le.trans sum
  case def_period => exact ok.def_period

theorem Schedulable.destroy {s : State} (ok : Schedulable s) {group : Group}
    (known : group ∈ s.tree.groups) (other : group ≠ rootTaskGroup)
    (leaf : s.tree.links.children group = []) :
    Schedulable { s with tree := schedDestroyGroup s.tree group } := by
  obtain ⟨below, rooted⟩ := ok.rooted
  have was : ∀ member ∈ (schedDestroyGroup s.tree group).groups, member ∈ s.tree.groups :=
    fun _ member => List.mem_of_mem_erase member
  constructor
  case rooted => exact rooted.destroy other known leaf
  case period => exact fun member inside => ok.period member (was member inside)
  case fits => exact fun member inside => ok.fits member (was member inside)
  case children =>
    intro member inside
    have fewer : ((schedDestroyGroup s.tree group).links.children member).Sublist
        (s.tree.links.children member) := by
      rw [schedDestroyGroup]
      cases s.tree.links.parent group with
      | none => exact List.Sublist.refl _
      | some parent =>
          by_cases same : member = parent
          · subst same
            simp only [removeLeaf, Function.update_self]
            exact List.erase_sublist
          · simp only [removeLeaf, Function.update_of_ne same]
            exact List.Sublist.refl _
    have less := (fewer.map fun child => (s.rtB child).ratio).sum_le_sum fun _ _ => Nat.zero_le _
    exact less.trans (ok.children member (was member inside))
  case def_period => exact ok.def_period

inductive Outcome (s : State) : Op → State → Prop where
  | created {parent group : Group} (known : parent ∈ s.tree.groups)
      (fresh : group ∉ s.tree.groups) :
      Outcome s (.createGroup parent group) (createGroup s parent group)
  | destroyed {group : Group} (known : group ∈ s.tree.groups) (other : group ≠ rootTaskGroup)
      (leaf : s.tree.links.children group = []) :
      Outcome s (.destroyGroup group) { s with tree := schedDestroyGroup s.tree group }
  | refusedRuntime {tg : Group} {us : Int} {tasks : Group → Bool} :
      Outcome s (.setRtRuntime tg us tasks) s
  | refusedPeriod {tg : Group} {us : Int} {tasks : Group → Bool} :
      Outcome s (.setRtPeriod tg us tasks) s
  | setRuntime {tg : Group} {us : Int} {tasks : Group → Bool} {bandwidth : Bandwidth}
      (known : tg ∈ s.tree.groups) (period : bandwidth.rtPeriod = (s.rtB tg).rtPeriod)
      (passes : ∀ group ∈ s.tree.groups, Passes s ⟨some tg, bandwidth⟩ group) :
      Outcome s (.setRtRuntime tg us tasks)
        { s with rtB := Function.update s.rtB tg bandwidth }
  | setPeriod {tg : Group} {us : Int} {tasks : Group → Bool} {bandwidth : Bandwidth}
      (known : tg ∈ s.tree.groups) (period : bandwidth.rtPeriod ≠ 0)
      (passes : ∀ group ∈ s.tree.groups, Passes s ⟨some tg, bandwidth⟩ group) :
      Outcome s (.setRtPeriod tg us tasks)
        { s with rtB := Function.update s.rtB tg bandwidth }
  | written {period : Nat} {runtime : Int} (idle : s.saved = none) :
      Outcome s (.rtHandlerWrite period runtime) (schedRtHandlerWrite s period runtime)
  | restored {tasks : Group → Bool} {old : Nat × Int} (running : s.saved = some old) :
      Outcome s (.rtHandlerFinish tasks)
        { s with sysctlRtPeriod := old.1, sysctlRtRuntime := old.2, saved := none }
  | committed {tasks : Group → Bool} {old : Nat × Int} (running : s.saved = some old)
      (period : s.sysctlRtPeriod ≠ 0)
      (passes : ∀ group ∈ s.tree.groups, Passes s ⟨none, ⟨0, 0⟩⟩ group) :
      Outcome s (.rtHandlerFinish tasks)
        { s with defRtPeriod := globalRtPeriod s.sysctlRtPeriod, saved := none }

section Steps
variable {kernel : Kernel} {s : State} {tasks : Group → Bool} {below : OrderedForest Group}

theorem rtSchedulable_verdict (rooted : Rooted s.tree below) (d : Request) :
    ∃ err, rtSchedulable kernel s tasks d = some err ∧
      (err = 0 → ∀ group ∈ s.tree.groups, Passes s d group) := by
  have walked := rooted.walk kernel (checker (tgRtSchedulable s tasks d)) nop ()
  rw [visit_checker] at walked
  refine ⟨_, by rw [rtSchedulable, walked]; rfl, fun zero group known => ?_⟩
  have pass := (firstError_eq_zero _ _).mp zero group (rooted.mem_iff.mp known)
  exact tgRtSchedulable_passes pass

theorem tgSetRtBandwidth_cases (rooted : Rooted s.tree below) (tg : Group)
    (bandwidth : Bandwidth) :
    ∃ err, (err ≠ 0 ∧ tgSetRtBandwidth kernel s tasks tg bandwidth = some (s, err)) ∨
      (∀ group ∈ s.tree.groups, Passes s ⟨some tg, bandwidth⟩ group) ∧
        tgSetRtBandwidth kernel s tasks tg bandwidth =
          some ({ s with rtB := Function.update s.rtB tg bandwidth }, 0) := by
  obtain ⟨err, verdict, passes⟩ :=
    @rtSchedulable_verdict kernel s tasks below rooted ⟨some tg, bandwidth⟩
  refine ⟨err, ?_⟩
  rw [tgSetRtBandwidth, verdict, Option.map_some]
  by_cases zero : err = 0
  · exact .inr ⟨passes zero, by rw [if_neg (not_not.mpr zero)]⟩
  · exact .inl ⟨zero, by rw [if_pos zero]⟩

/-- No step gets stuck, and each has one of the outcomes. -/
theorem step_outcome (rooted : Rooted s.tree below) {op : Op} (allowed : Allowed s op) :
    ∃ next, step kernel s op = some next ∧ Outcome s op next := by
  rw [step, if_pos allowed]
  cases op with
  | createGroup parent group => exact ⟨_, rfl, .created allowed.1 allowed.2⟩
  | destroyGroup group => exact ⟨_, rfl, .destroyed allowed.1 allowed.2.1 allowed.2.2⟩
  | setRtRuntime tg us tasks =>
      obtain ⟨bandwidth, period, asks⟩ : ∃ bandwidth : Bandwidth,
          bandwidth.rtPeriod = (s.rtB tg).rtPeriod ∧
            schedGroupSetRtRuntime kernel s tasks tg us =
              tgSetRtBandwidth kernel s tasks tg bandwidth :=
        ⟨⟨(s.rtB tg).rtPeriod, if us < 0 then runtimeInf else RtBandwidth.u64 (us * 1000)⟩,
          rfl, rfl⟩
      rw [apply, asks]
      obtain ⟨err, ⟨-, refused⟩ | ⟨passes, granted⟩⟩ :=
        @tgSetRtBandwidth_cases kernel s tasks below rooted tg bandwidth
      · exact ⟨s, by rw [refused]; rfl, .refusedRuntime⟩
      · exact ⟨_, by rw [granted]; rfl, .setRuntime allowed period passes⟩
  | setRtPeriod tg us tasks =>
      simp only [apply, schedGroupSetRtPeriod]
      split
      next => exact ⟨s, rfl, .refusedPeriod⟩
      next period =>
        obtain ⟨err, ⟨-, refused⟩ | ⟨passes, granted⟩⟩ :=
          @tgSetRtBandwidth_cases kernel s tasks below rooted tg _
        · exact ⟨s, by rw [refused]; rfl, .refusedPeriod⟩
        · exact ⟨_, by rw [granted]; rfl, .setPeriod allowed period passes⟩
  | rtHandlerWrite period runtime => exact ⟨_, rfl, .written allowed⟩
  | rtHandlerFinish tasks =>
      obtain ⟨old, running⟩ := Option.ne_none_iff_exists'.mp allowed
      simp only [apply, running, Option.bind_some, schedRtHandlerFinish,
        schedRtGlobalConstraints]
      split
      next => exact ⟨_, rfl, .restored running⟩
      next period =>
        split
        next => exact ⟨_, rfl, .restored running⟩
        next =>
          obtain ⟨err, verdict, passes⟩ :=
            @rtSchedulable_verdict kernel s tasks below rooted ⟨none, ⟨0, 0⟩⟩
          rw [verdict]
          by_cases zero : err = 0
          · subst zero
            exact ⟨_, rfl, .committed running (fun none' => period none'.le) (passes rfl)⟩
          · exact ⟨_, by simp [zero], .restored running⟩

end Steps

section Runs
variable {kernel : Kernel} {s next start : State} {op : Op} {ops : List Op}

theorem bandwidthOf_eq (s : State) (tg : Group) (bandwidth : Bandwidth) :
    bandwidthOf s ⟨some tg, bandwidth⟩ = Function.update s.rtB tg bandwidth := by
  funext group
  by_cases same : group = tg
  · subst same
    simp [bandwidthOf]
  · simp [bandwidthOf, same]

/-- A request that passed everywhere. The sum of a parent's test is small, since
only one of its terms is new, so it did not wrap. -/
theorem Schedulable.set (ok : Schedulable s) {tg : Group} {bandwidth : Bandwidth}
    (known : tg ∈ s.tree.groups) (period : bandwidth.rtPeriod ≠ 0)
    (passes : ∀ group ∈ s.tree.groups, Passes s ⟨some tg, bandwidth⟩ group) :
    Schedulable { s with rtB := Function.update s.rtB tg bandwidth } := by
  obtain ⟨below, rooted⟩ := ok.rooted
  have mine : bandwidth.ratio ≤ 2 ^ 20 := by
    have fits := (passes tg known).fits
    rw [bandwidthOf_eq, Function.update_self] at fits
    exact Bandwidth.ratio_le fits
  constructor
  case rooted => exact ok.rooted
  case period =>
    intro group member
    dsimp only
    by_cases same : group = tg
    · subst same
      rwa [Function.update_self]
    · rw [Function.update_of_ne same]
      exact ok.period group member
  case fits =>
    intro group member
    have pass := passes group member
    exact bandwidthOf_eq s tg bandwidth ▸ pass.fits
  case children =>
    intro group member
    have sum := (passes group member).children
    rw [bandwidthOf_eq] at sum
    have old := (ok.children group member).trans (Bandwidth.ratio_le (ok.fits group member))
    have once := (rooted.children_groups member).2
    have few := ratio_sum_update (s.tree.links.children group) once s.rtB tg bandwidth
    rw [childrenRatio] at old
    have exact : childrenRatio s.tree.links (Function.update s.rtB tg bandwidth) group % 2 ^ 32 =
        childrenRatio s.tree.links (Function.update s.rtB tg bandwidth) group := by
      apply Nat.mod_eq_of_lt
      rw [childrenRatio]
      omega
    rwa [exact] at sum
  case def_period => exact ok.def_period

theorem Schedulable.outcome (ok : Schedulable s) (out : Outcome s op next) :
    Schedulable next := by
  cases out with
  | created known fresh => exact ok.create known fresh
  | destroyed known other leaf => exact ok.destroy known other leaf
  | refusedRuntime => exact ok
  | refusedPeriod => exact ok
  | setRuntime known period passes =>
      exact ok.set known (period ▸ ok.period _ known) passes
  | setPeriod known period passes => exact ok.set known period passes
  | written _ => exact ⟨ok.rooted, ok.period, ok.fits, ok.children, ok.def_period⟩
  | restored _ => exact ⟨ok.rooted, ok.period, ok.fits, ok.children, ok.def_period⟩
  | committed _ period _ =>
      exact ⟨ok.rooted, ok.period, ok.fits, ok.children, Nat.mul_ne_zero period (by decide)⟩

theorem Schedulable.step (ok : Schedulable s) (moved : step kernel s op = some next) :
    Schedulable next ∧ Outcome s op next := by
  obtain ⟨below, rooted⟩ := ok.rooted
  have allowed : Allowed s op := by
    by_contra denied
    rw [RtSchedulable.step, if_neg denied] at moved
    cases moved
  obtain ⟨after, moved', out⟩ := @step_outcome kernel s below rooted op allowed
  obtain rfl := Option.some.inj (moved.symm.trans moved')
  exact ⟨ok.outcome out, out⟩

theorem Schedulable.of_init (init : Init s) : Schedulable s := by
  have only : ∀ group ∈ s.tree.groups, group = rootTaskGroup := by
    intro group member
    rw [init.tree] at member
    exact List.mem_singleton.mp member
  constructor
  case rooted => exact ⟨.nil, init.tree ▸ init_rooted⟩
  case period =>
    intro group member
    rw [only group member, init.root]
    exact Nat.mul_ne_zero init.period (by decide)
  case fits =>
    intro group member
    rw [only group member, init.root]
    rcases init.runtime with free | within
    · exact .inr (if_pos free)
    · by_cases free : s.sysctlRtRuntime < 0
      · exact .inr (if_pos free)
      · left
        simp only [globalRtRuntime, globalRtPeriod, if_neg free]
        omega
  case children =>
    intro group _
    rw [init.tree]
    exact Nat.zero_le _
  case def_period =>
    rw [init.def_period]
    exact Nat.mul_ne_zero init.period (by decide)

theorem reachable_schedulable (init : Init start)
    (run : Transition.Run (RtSchedulable.step kernel) (fun _ _ => True) start ops s) :
    Schedulable s :=
  run.invariant (fun _ _ _ ok _ moved => (ok.step moved).1) (.of_init init)

/-- The claims of groups none of which lies above another add up at the root. -/
theorem Schedulable.sum_le (ok : Schedulable s) (chosen : Finset Group)
    (inside : ∀ group ∈ chosen, group ∈ s.tree.groups)
    (apart : ∀ high ∈ chosen, ∀ low ∈ chosen, Above s.tree.links high low → high = low) :
    ∑ group ∈ chosen, (s.rtB group).ratio ≤ (s.rtB rootTaskGroup).ratio := by
  obtain ⟨below, rooted⟩ := ok.rooted
  have heavier : ∀ group ∈ labels (.cons rootTaskGroup below .nil),
      ((s.tree.links.children group).map fun child => (s.rtB child).ratio).sum ≤
        (s.rtB group).ratio := fun group member =>
    ok.children group (rooted.mem_iff.mpr member)
  have bound := antichain_le (fun group => (s.rtB group).ratio) _ rooted.linked rooted.unique
    heavier chosen apart
  have all : (chosen.filter fun group => group ∈ labels (.cons rootTaskGroup below .nil)) =
      chosen := by
    apply Finset.filter_true_of_mem
    exact fun group member => rooted.mem_iff.mp (inside group member)
  simpa [all, roots] using bound

/-- In whatever order groups are created, destroyed and set, also while the
sysctl handler runs: no period is zero, no limited runtime exceeds its period, a
group's children together have no more than the group, and no more than the
root have groups none of which lies above another. -/
theorem rt_groups_schedulable (init : Init start)
    (run : Transition.Run (RtSchedulable.step kernel) (fun _ _ => True) start ops s) :
    (∀ group ∈ s.tree.groups, (s.rtB group).rtPeriod ≠ 0 ∧
      ((s.rtB group).rtRuntime ≤ (s.rtB group).rtPeriod ∨
        (s.rtB group).rtRuntime = runtimeInf) ∧
      ((s.tree.links.children group).map fun child => (s.rtB child).ratio).sum ≤
        (s.rtB group).ratio) ∧
    ∀ chosen : Finset Group, (∀ group ∈ chosen, group ∈ s.tree.groups) →
      (∀ high ∈ chosen, ∀ low ∈ chosen, Above s.tree.links high low → high = low) →
      ∑ group ∈ chosen, (s.rtB group).ratio ≤ (s.rtB rootTaskGroup).ratio := by
  have ok := reachable_schedulable init run
  exact ⟨fun group known => ⟨ok.period group known, ok.fits group known,
    ok.children group known⟩, ok.sum_le⟩

/-- The global ratio to which the handler may still go back. -/
def settledLimit (s : State) : Nat :=
  match s.saved with
  | none => toRatio (globalRtPeriod s.sysctlRtPeriod) (globalRtRuntime s.sysctlRtRuntime)
  | some old => toRatio (globalRtPeriod old.1) (globalRtRuntime old.2)

def Undisturbed (s : State) : Op → Prop
  | .setRtRuntime _ _ _ | .setRtPeriod _ _ _ => s.saved = none
  | .createGroup _ _ | .destroyGroup _ | .rtHandlerWrite _ _ | .rtHandlerFinish _ => True

instance (s : State) : (op : Op) → Decidable (Undisturbed s op)
  | .setRtRuntime _ _ _ | .setRtPeriod _ _ _ => inferInstanceAs (Decidable (_ = _))
  | .createGroup _ _ | .destroyGroup _ | .rtHandlerWrite _ _ | .rtHandlerFinish _ =>
      inferInstanceAs (Decidable True)

def Limited (s : State) : Prop :=
  ∀ group ∈ s.tree.groups, (s.rtB group).ratio ≤ settledLimit s

theorem Limited.set (idle : s.saved = none) {tg : Group} {bandwidth : Bandwidth}
    (passes : ∀ group ∈ s.tree.groups, Passes s ⟨some tg, bandwidth⟩ group) :
    Limited { s with rtB := Function.update s.rtB tg bandwidth } := by
  intro group member
  have limit := (passes group member).limit
  rw [bandwidthOf_eq] at limit
  simpa [settledLimit, idle] using limit

theorem Limited.outcome (limited : Limited s) (undisturbed : Undisturbed s op)
    (out : Outcome s op next) : Limited next := by
  cases out with
  | @created parent group known fresh =>
      intro other member
      by_cases same : other = group
      · subst same
        simp [createGroup, ratio_zero]
      · have was := (List.mem_cons.mp member).resolve_left same
        have old := limited other was
        simpa [createGroup, same, settledLimit] using old
  | destroyed known other leaf =>
      exact fun group member => limited group (List.mem_of_mem_erase member)
  | refusedRuntime => exact limited
  | refusedPeriod => exact limited
  | setRuntime known period passes => exact Limited.set undisturbed passes
  | setPeriod known period passes => exact Limited.set undisturbed passes
  | written idle =>
      intro group member
      have old := limited group member
      simpa [settledLimit, schedRtHandlerWrite, idle] using old
  | restored running =>
      intro group member
      have old := limited group member
      simpa [settledLimit, running] using old
  | committed running period passes =>
      intro group member
      have limit := (passes group member).limit
      simpa [settledLimit, bandwidthOf] using limit

/-- Unless a group is set while the handler runs, the groups' claims stay within
the global limit that is in force, which includes the one the handler may go
back to. -/
theorem rt_groups_within_global (init : Init start)
    (run : Transition.Run (RtSchedulable.step kernel) Undisturbed start ops s)
    (chosen : Finset Group) (inside : ∀ group ∈ chosen, group ∈ s.tree.groups)
    (apart : ∀ high ∈ chosen, ∀ low ∈ chosen, Above s.tree.links high low → high = low) :
    ∑ group ∈ chosen, (s.rtB group).ratio ≤ settledLimit s := by
  have start' : Schedulable start ∧ Limited start := by
    refine ⟨.of_init init, fun group member => ?_⟩
    rw [init.tree] at member
    rw [List.mem_singleton.mp member, init.root, settledLimit, init.idle]
    exact le_rfl
  have keeps : ∀ before op next, Schedulable before ∧ Limited before → Undisturbed before op →
      RtSchedulable.step kernel before op = some next → Schedulable next ∧ Limited next := by
    intro before op next inv undisturbed moved
    obtain ⟨ok, out⟩ := inv.1.step moved
    exact ⟨ok, inv.2.outcome undisturbed out⟩
  have both := run.invariant keeps start'
  obtain ⟨below, rooted⟩ := both.1.rooted
  have root : rootTaskGroup ∈ s.tree.groups := rooted.mem_iff.mpr List.mem_cons_self
  exact (both.1.sum_le chosen inside apart).trans (both.2 rootTaskGroup root)

end Runs

def defaults : State where
  tree := TaskGroups.init
  rtB := fun _ => ⟨1000000000, 950000000⟩
  sysctlRtPeriod := 1000000
  sysctlRtRuntime := 950000
  defRtPeriod := 1000000000
  saved := none

theorem defaults_init : Init defaults :=
  ⟨rfl, by decide, .inr (by decide), rfl, rfl, rfl⟩

def oneGroup : List Op :=
  [.createGroup 0 1, .setRtRuntime 1 300000 fun _ => false, .setRtRuntime 1 1000001 fun _ => true]

theorem oneGroup_run : ∃ s, Transition.Run (step .goldfish) Undisturbed defaults oneGroup s :=
  ⟨_, (Transition.run_of_isSome defaults oneGroup (by decide)).of_allAllowed (by decide)⟩

theorem rt_groups_schedulable_oneGroup : ∃ s : State,
    (∀ group ∈ s.tree.groups, (s.rtB group).rtPeriod ≠ 0 ∧
      ((s.rtB group).rtRuntime ≤ (s.rtB group).rtPeriod ∨
        (s.rtB group).rtRuntime = runtimeInf) ∧
      ((s.tree.links.children group).map fun child => (s.rtB child).ratio).sum ≤
        (s.rtB group).ratio) ∧
    ∀ chosen : Finset Group, (∀ group ∈ chosen, group ∈ s.tree.groups) →
      (∀ high ∈ chosen, ∀ low ∈ chosen, Above s.tree.links high low → high = low) →
      ∑ group ∈ chosen, (s.rtB group).ratio ≤ (s.rtB rootTaskGroup).ratio :=
  oneGroup_run.imp fun _ run =>
    rt_groups_schedulable defaults_init (run.weaken fun _ _ _ => trivial)

theorem above_child {links : Links Group} {top low high : Group}
    (parent : links.parent low = some top) (root : links.parent top = none)
    (above : Above links high low) : high = low ∨ high = top := by
  rcases above.cases_tail with same | ⟨middle, upper, hangs⟩
  · exact .inl same.symm
  · obtain rfl := Option.some.inj (hangs.symm.trans parent)
    rcases upper.cases_tail with same | ⟨other, -, up⟩
    · exact .inr same.symm
    · rw [root] at up
      cases up

def siblings : List Op :=
  [.createGroup 0 1, .createGroup 0 2, .setRtRuntime 1 300000 fun _ => false,
    .setRtRuntime 2 400000 fun _ => false, .setRtRuntime 0 900000 fun _ => false,
    .rtHandlerWrite 1000000 920000, .rtHandlerFinish fun _ => false,
    .rtHandlerWrite 1000000 500000, .rtHandlerFinish fun _ => false]

def shared : State := (Transition.runActions (step .goldfish) defaults siblings).get (by decide)

theorem shared_run : Transition.Run (step .goldfish) Undisturbed defaults siblings shared :=
  (Transition.run_of_isSome defaults siblings (by decide)).of_allAllowed (by decide)

theorem rt_groups_within_global_siblings :
    ∑ group ∈ {1, 2}, (shared.rtB group).ratio ≤ settledLimit shared := by
  refine rt_groups_within_global defaults_init shared_run {1, 2} (by decide) ?_
  intro high one low two above
  have child : shared.tree.links.parent low = some rootTaskGroup := by
    rcases Finset.mem_insert.mp two with rfl | last
    · rfl
    · rw [Finset.mem_singleton.mp last]
      rfl
  rcases above_child child rfl above with same | top
  · exact same
  · subst top
    exact absurd one (by decide)

/-- The root group gets all the time while the handler tries a value that it
refuses in the end. -/
theorem sysctl_race : ∃ s, Transition.Run (step .goldfish) (fun _ _ => True) defaults
    [.rtHandlerWrite 1000000 2000000, .setRtRuntime 0 1000000 fun _ => false,
      .rtHandlerFinish fun _ => false] s ∧
    s.saved = none ∧ settledLimit s < (s.rtB rootTaskGroup).ratio :=
  ⟨_, Transition.run_of_isSome defaults _ (by decide), by decide, by decide⟩

end AndroidKernel.RtSchedulable
