import AndroidKernel.CfsQuota

/-!
What the test on quotas decides: a quota is granted exactly when the ratio of
every limited group is within those of the limited groups above it, whatever
notes earlier walks have left. A walk that succeeds notes the tightest limit of
each group. The ratio is that of `to_ratio`, cut to 32 bits.
-/

namespace AndroidKernel.CfsQuota

open PreOrder TaskGroups TreeWalk RtBandwidth RtSchedulable

/-- The limit of a group that the walk works with; -1 for none. The root has none. -/
def limitOf (s : State) (d : Request) (group : Group) : Int :=
  if s.tree.links.parent group = none then -1 else s64 (normalizeCfsQuota s d group)

section Limits
variable (links : Links Group) (limit : Group → Int)

def Nested (group : Group) : Prop :=
  ∀ high, Above links high group → limit group ≠ -1 → limit high ≠ -1 → limit group ≤ limit high

/-- The least of the limits at a group and above it, or -1 where there is none. -/
structure Tightest (group : Group) (least : Int) : Prop where
  below : ∀ high, Above links high group → limit high ≠ -1 → least ≠ -1 ∧ least ≤ limit high
  attained : least ≠ -1 → ∃ high, Above links high group ∧ limit high = least

end Limits

theorem s64_inf : s64 runtimeInf = -1 := by decide

section Walk
variable {links : Links Group} {limit : Group → Int} {parent group : Group} {note : Int}

theorem above_cases (hangs : links.parent group = some parent) {high : Group} :
    Above links high group ↔ high = group ∨ Above links high parent := by
  constructor
  · intro above
    rcases Relation.ReflTransGen.cases_tail above with same | ⟨middle, rest, last⟩
    · exact .inl same.symm
    · rw [hangs, Option.some.injEq] at last
      exact .inr (last ▸ rest)
  · rintro (rfl | above)
    · exact .refl
    · exact above.tail hangs

theorem Tightest.inherit (hangs : links.parent group = some parent) (free : limit group = -1)
    (tight : Tightest links limit parent note) : Tightest links limit group note where
  below high above limited := by
    rcases (above_cases hangs).mp above with rfl | higher
    · exact absurd free limited
    · exact tight.below high higher limited
  attained limited := by
    obtain ⟨high, above, same⟩ := tight.attained limited
    exact ⟨high, (above_cases hangs).mpr (.inr above), same⟩

theorem Tightest.own (hangs : links.parent group = some parent) (limited : limit group ≠ -1)
    (tight : Tightest links limit parent note) (within : note = -1 ∨ limit group ≤ note) :
    Tightest links limit group (limit group) where
  below high above limited' := by
    refine ⟨limited, ?_⟩
    rcases (above_cases hangs).mp above with rfl | higher
    · exact le_rfl
    · obtain ⟨some', least⟩ := tight.below high higher limited'
      exact (within.resolve_left some').trans least
  attained _ := ⟨group, .refl, rfl⟩

/-- What a group's limit is compared with decides whether it is nested. -/
theorem Tightest.nested_iff (hangs : links.parent group = some parent)
    (tight : Tightest links limit parent note) :
    Nested links limit group ↔ limit group = -1 ∨ note = -1 ∨ limit group ≤ note := by
  constructor
  · intro nested
    by_contra refused
    rw [not_or, not_or] at refused
    obtain ⟨high, above, same⟩ := tight.attained refused.2.1
    have least := nested high ((above_cases hangs).mpr (.inr above)) refused.1
      (same ▸ refused.2.1)
    exact refused.2.2 (same ▸ least)
  · intro granted high above limited limited'
    rcases (above_cases hangs).mp above with rfl | higher
    · exact le_rfl
    · obtain ⟨some', least⟩ := tight.below high higher limited'
      rcases granted with free | free | within
      · exact absurd free limited
      · exact absurd free some'
      · exact within.trans least

theorem down_eq (s : State) (d : Request) (notes : Group → Int)
    (hangs : s.tree.links.parent group = some parent) :
    tgCfsSchedulableDown s d group notes =
      if limitOf s d group = -1 then (Function.update notes group (notes parent), 0)
      else if notes parent ≠ -1 ∧ limitOf s d group > notes parent then (notes, einval)
      else (Function.update notes group (limitOf s d group), 0) := by
  simp only [tgCfsSchedulableDown, limitOf, hangs, s64_inf, reduceCtorEq, if_false]

/-- One call refuses the group and writes nothing, or notes its tightest limit. -/
theorem down_cases (s : State) (d : Request) (notes : Group → Int)
    (hangs : s.tree.links.parent group = some parent)
    (tight : Tightest s.tree.links (limitOf s d) parent (notes parent)) :
    (¬ Nested s.tree.links (limitOf s d) group ∧
      tgCfsSchedulableDown s d group notes = (notes, einval)) ∨
    (Nested s.tree.links (limitOf s d) group ∧
      ∃ least, Tightest s.tree.links (limitOf s d) group least ∧
        tgCfsSchedulableDown s d group notes = (Function.update notes group least, 0)) := by
  rw [down_eq s d notes hangs, tight.nested_iff hangs]
  by_cases free : limitOf s d group = -1
  · exact .inr ⟨.inl free, notes parent, tight.inherit hangs free, if_pos free⟩
  · rw [if_neg free]
    by_cases clash : notes parent ≠ -1 ∧ limitOf s d group > notes parent
    · refine .inl ⟨?_, if_pos clash⟩
      rw [not_or, not_or]
      exact ⟨free, clash.1, not_le.mpr clash.2⟩
    · have within : notes parent = -1 ∨ limitOf s d group ≤ notes parent := by
        by_cases none' : notes parent = -1
        · exact .inl none'
        · exact .inr (not_lt.mp fun more => clash ⟨none', more⟩)
      exact .inr ⟨.inr within, limitOf s d group, tight.own hangs free within, if_neg clash⟩

end Walk

structure Noted (links : Links Group) (limit : Group → Int) (forest : OrderedForest Group)
    (notes : Group → Int) (out : (Group → Int) × Int) : Prop where
  verdict : out.2 = 0 ↔ ∀ group ∈ labels forest, Nested links limit group
  tightest : out.2 = 0 → ∀ group ∈ labels forest, Tightest links limit group (out.1 group)
  outside : ∀ group, group ∉ labels forest → out.1 group = notes group

/-- The groups below a group whose note is right. Each note is written before
the notes of the children read it, so what stood there does not matter. -/
theorem visit_noted (s : State) (d : Request) (forest : OrderedForest Group) (parent : Group)
    (notes : Group → Int) (linked : Linked s.tree.links (some parent) forest)
    (unique : (labels forest).Nodup) (apart : parent ∉ labels forest)
    (tight : Tightest s.tree.links (limitOf s d) parent (notes parent)) :
    Noted s.tree.links (limitOf s d) forest notes
      (visit (tgCfsSchedulableDown s d) nop forest notes) := by
  induction forest generalizing parent notes with
  | nil => exact ⟨by simp [visit, labels], by simp [labels], fun _ _ => rfl⟩
  | cons label below after ihBelow ihAfter =>
      obtain ⟨hangs, -, linkedBelow, linkedAfter⟩ := linked
      obtain ⟨absent, uniqueRest⟩ := List.nodup_cons.mp unique
      obtain ⟨uniqueBelow, uniqueAfter, disjoint⟩ := List.nodup_append.mp uniqueRest
      simp only [labels, List.mem_cons, List.mem_append, not_or] at apart absent
      have all (P : Group → Prop) : (∀ group ∈ labels (.cons label below after), P group) ↔
          P label ∧ (∀ group ∈ labels below, P group) ∧ ∀ group ∈ labels after, P group := by
        simp only [labels, List.mem_cons, List.mem_append, or_imp, forall_and, forall_eq]
      rw [visit]
      rcases down_cases s d notes hangs tight with ⟨bad, refused⟩ | ⟨good, least, own, passed⟩
      · have failed : einval ≠ 0 := by decide
        rw [refused]
        simp only [if_pos failed]
        exact ⟨⟨fun zero => absurd zero failed, fun nested => absurd ((all _).mp nested).1 bad⟩,
          fun zero => absurd zero failed, fun _ _ => rfl⟩
      · have here : Tightest s.tree.links (limitOf s d) label
            (Function.update notes label least label) := by rwa [Function.update_self]
        have inside := ihBelow label _ linkedBelow uniqueBelow absent.1 here
        rw [passed]
        simp only [ne_eq, not_true_eq_false, if_false]
        generalize visit (tgCfsSchedulableDown s d) nop below (Function.update notes label least) =
          left at inside
        have frame : ∀ group, group ≠ label → group ∉ labels below → left.1 group = notes group :=
          fun group differs outside =>
            (inside.outside group outside).trans (Function.update_of_ne differs _ _)
        by_cases failed : left.2 = 0
        · have above : left.1 parent = notes parent := frame parent apart.1 apart.2.1
          have rest := ihAfter parent left.1 linkedAfter uniqueAfter apart.2.2 (by rwa [above])
          simp only [failed, nop, not_true_eq_false, if_false]
          generalize visit (tgCfsSchedulableDown s d) nop after left.1 = out at rest
          constructor
          case verdict =>
            rw [rest.verdict, all]
            exact ⟨fun later => ⟨good, inside.verdict.mp failed, later⟩, fun both => both.2.2⟩
          case tightest =>
            intro zero
            rw [all]
            refine ⟨?_, fun group member => ?_, rest.tightest zero⟩
            · rw [rest.outside label absent.2, inside.outside label absent.1]
              exact here
            · have notAfter : group ∉ labels after := fun later =>
                disjoint group member group later rfl
              rw [rest.outside group notAfter]
              exact inside.tightest failed group member
          case outside =>
            intro group outside
            simp only [labels, List.mem_cons, List.mem_append, not_or] at outside
            rw [rest.outside group outside.2.2]
            exact frame group outside.1 outside.2.1
        · simp only [failed, not_false_eq_true, if_true]
          constructor
          case verdict =>
            rw [inside.verdict, all]
            have bad := inside.verdict.not.mp failed
            exact ⟨fun nested => absurd nested bad, fun nested => absurd nested.2.1 bad⟩
          case tightest => exact fun zero => absurd zero failed
          case outside =>
            intro group outside
            simp only [labels, List.mem_cons, List.mem_append, not_or] at outside
            exact frame group outside.1 outside.2.1

theorem cfsSchedulable_noted {s : State} {below : OrderedForest Group}
    (rooted : Rooted s.tree below) (tg : Group) (b : CfsBandwidth) :
    ∃ notes ret, cfsSchedulable s tg b = some (notes, ret) ∧
      (ret = 0 ↔ ∀ group ∈ s.tree.groups,
        Nested s.tree.links (limitOf s (request tg b)) group) ∧
      (ret = 0 → ∀ group ∈ s.tree.groups,
        Tightest s.tree.links (limitOf s (request tg b)) group (notes group)) := by
  obtain ⟨top, -, linked, -⟩ := rooted.linked
  have unique := rooted.unique
  simp only [labels, List.append_nil, List.nodup_cons] at unique
  have free : limitOf s (request tg b) rootTaskGroup = -1 := if_pos top
  have root : ∀ high, Above s.tree.links high rootTaskGroup → high = rootTaskGroup := by
    intro high above
    rcases Relation.ReflTransGen.cases_tail above with same | ⟨middle, -, last⟩
    · exact same.symm
    · rw [top] at last
      cases last
  have nested : Nested s.tree.links (limitOf s (request tg b)) rootTaskGroup :=
    fun _ _ limited => absurd free limited
  set notes := Function.update s.hierarchalQuota rootTaskGroup (-1) with noted
  have own : notes rootTaskGroup = -1 := Function.update_self _ _ _
  have tight : Tightest s.tree.links (limitOf s (request tg b)) rootTaskGroup
      (notes rootTaskGroup) := by
    rw [own]
    constructor
    · intro high above limited
      rw [root high above] at limited
      exact absurd free limited
    · exact fun limited => absurd rfl limited
  have walk := visit_noted s (request tg b) below rootTaskGroup notes linked unique.2 unique.1 tight
  have done : cfsSchedulable s tg b =
      some (visit (tgCfsSchedulableDown s (request tg b)) nop below notes) := by
    have entered : tgCfsSchedulableDown s (request tg b) rootTaskGroup s.hierarchalQuota =
        (notes, 0) := by
      simp only [tgCfsSchedulableDown, top, s64_inf, noted]
    rw [cfsSchedulable, rooted.walk, visit_nop, entered]
    rfl
  refine ⟨_, _, done, ?_, fun zero => ?_⟩
  · rw [walk.verdict]
    constructor
    · intro inside group known
      rcases List.mem_cons.mp (rooted.mem_iff.mp known) with rfl | member
      · exact nested
      · exact inside group (by simpa [labels] using member)
    · intro every group member
      exact every group (rooted.mem_iff.mpr (by simp [labels, member]))
  · intro group known
    rcases List.mem_cons.mp (rooted.mem_iff.mp known) with rfl | member
    · rwa [walk.outside rootTaskGroup unique.1]
    · exact walk.tightest zero group (by simpa [labels] using member)

def Limited (s : State) (group : Group) : Prop :=
  group ≠ rootTaskGroup ∧ (s.cfsB group).quota ≠ runtimeInf

/-- `to_ratio` of a group's quota and period, with its 20 fractional bits. -/
def CfsBandwidth.ratio (b : CfsBandwidth) : Nat := toRatio (b.period / 1000) (b.quota / 1000)

def Within (s : State) : Prop :=
  ∀ group ∈ s.tree.groups, ∀ high, Above s.tree.links high group → Limited s group →
    Limited s high → (s.cfsB group).ratio ≤ (s.cfsB high).ratio

/-- The request of nobody: each group with what it has. -/
def stored : Request := ⟨none, 0, 0⟩

theorem ratio_lt (b : CfsBandwidth) : b.ratio < 2 ^ 32 := by
  rw [CfsBandwidth.ratio, toRatio]
  split
  · decide
  · exact Nat.mod_lt _ (by decide)

/-- A share below 4096 is not cut off by `to_ratio`, so ratios compare shares up
to the last bit. -/
theorem share_le_of_ratio_le {b high : CfsBandwidth} (period : b.period ≤ maxCfsQuotaPeriod)
    (small : b.quota / 1000 < 2 ^ 12 * (b.period / 1000)) (word : high.quota ≤ runtimeInf)
    (nested : b.ratio ≤ high.ratio) :
    b.quota / 1000 * 2 ^ 20 * (high.period / 1000) ≤
      (high.quota / 1000 * 2 ^ 20 + high.period / 1000) * (b.period / 1000) := by
  have bounded : b.period / 1000 ≤ 1000000 := Nat.div_le_div_right period
  have ofHigh : high.ratio ≤ high.quota / 1000 * 2 ^ 20 / (high.period / 1000) := by
    have limited : high.quota / 1000 ≠ runtimeInf := by
      simp only [runtimeInf] at word ⊢
      omega
    rw [CfsBandwidth.ratio, toRatio, if_neg limited]
    exact (Nat.mod_le _ _).trans (Nat.div_le_div_right (Nat.mod_le _ _))
  generalize high.period / 1000 = highPeriod at ofHigh ⊢
  generalize high.quota / 1000 = highQuota at ofHigh ⊢
  have ofLow : b.ratio = b.quota / 1000 * 2 ^ 20 / (b.period / 1000) := by
    have limited : b.quota / 1000 ≠ runtimeInf := by
      simp only [runtimeInf]
      omega
    have product : b.quota / 1000 * 2 ^ 20 < 2 ^ 64 := by omega
    have positive : 0 < b.period / 1000 := by omega
    have quotient : b.quota / 1000 * 2 ^ 20 / (b.period / 1000) < 2 ^ 32 := by
      rw [Nat.div_lt_iff_lt_mul positive]
      omega
    rw [CfsBandwidth.ratio, toRatio, if_neg limited, Nat.mod_eq_of_lt product,
      Nat.mod_eq_of_lt quotient]
  rw [ofLow] at nested
  have positive : 0 < b.period / 1000 := by omega
  have below : b.quota / 1000 * 2 ^ 20 ≤
      (highQuota * 2 ^ 20 / highPeriod + 1) * (b.period / 1000) := by
    have first := (@Nat.lt_div_mul_add (b.quota / 1000 * 2 ^ 20) _ positive).le
    calc b.quota / 1000 * 2 ^ 20
        ≤ (b.quota / 1000 * 2 ^ 20 / (b.period / 1000) + 1) * (b.period / 1000) := by
          rw [Nat.add_mul, Nat.one_mul]
          exact first
      _ ≤ (highQuota * 2 ^ 20 / highPeriod + 1) * (b.period / 1000) :=
          Nat.mul_le_mul_right _ (Nat.succ_le_succ (nested.trans ofHigh))
  calc b.quota / 1000 * 2 ^ 20 * highPeriod
      ≤ (highQuota * 2 ^ 20 / highPeriod + 1) * (b.period / 1000) * highPeriod :=
        Nat.mul_le_mul_right _ below
    _ = (highQuota * 2 ^ 20 / highPeriod * highPeriod + highPeriod) * (b.period / 1000) := by
        rw [Nat.mul_right_comm, Nat.add_mul _ 1, Nat.one_mul]
    _ ≤ (highQuota * 2 ^ 20 + highPeriod) * (b.period / 1000) :=
        Nat.mul_le_mul_right _ (Nat.add_le_add_right (Nat.div_mul_le_self _ _) _)

theorem normalize_stored (s : State) (group : Group) (word : (s.cfsB group).quota ≤ runtimeInf) :
    normalizeCfsQuota s stored group =
      if (s.cfsB group).quota = runtimeInf then runtimeInf else (s.cfsB group).ratio := by
  have other : some group ≠ stored.tg := by simp [stored]
  simp only [normalizeCfsQuota, if_neg other, tgGetCfsQuota, tgGetCfsPeriod]
  by_cases free : (s.cfsB group).quota = runtimeInf
  · have all : u64 (-1) = runtimeInf := by decide
    simp only [free, if_true, all]
  · have small : (s.cfsB group).quota / 1000 < runtimeInf := by
      simp only [runtimeInf] at word ⊢
      omega
    have exact : u64 ((s.cfsB group).quota / 1000 : Nat) = (s.cfsB group).quota / 1000 := by
      have value := @RtBandwidth.u64_eq ((s.cfsB group).quota / 1000 : Nat) (by omega)
        (by simp only [runtimeInf] at small; omega)
      exact_mod_cast value
    simp only [if_neg free, exact, if_neg small.ne]
    rfl

section Groups
variable {s : State} {below : OrderedForest Group}

theorem limitOf_stored (rooted : Rooted s.tree below) {group : Group}
    (known : group ∈ s.tree.groups) (word : (s.cfsB group).quota ≤ runtimeInf) :
    (Limited s group → limitOf s stored group = (s.cfsB group).ratio) ∧
      (¬ Limited s group → limitOf s stored group = -1) := by
  have top := rooted.parent_none known
  have value : s64 ((s.cfsB group).ratio) = (s.cfsB group).ratio := by
    have small := ratio_lt (s.cfsB group)
    exact s64_eq (by omega) (by omega)
  constructor
  · rintro ⟨other, limited⟩
    rw [limitOf, if_neg (top.not.mpr other), normalize_stored s group word, if_neg limited, value]
  · intro free
    rw [limitOf]
    split
    next => rfl
    next hangs =>
      have none' : (s.cfsB group).quota = runtimeInf := by
        by_contra limited
        exact free ⟨top.not.mp hangs, limited⟩
      rw [normalize_stored s group word, if_pos none', s64_inf]

theorem nested_iff_within (rooted : Rooted s.tree below)
    (words : ∀ group ∈ s.tree.groups, (s.cfsB group).quota ≤ runtimeInf) :
    (∀ group ∈ s.tree.groups, Nested s.tree.links (limitOf s stored) group) ↔ Within s := by
  have value : ∀ group ∈ s.tree.groups, (Limited s group →
      limitOf s stored group = (s.cfsB group).ratio) ∧
        (¬ Limited s group → limitOf s stored group = -1) := fun group known =>
    limitOf_stored rooted known (words group known)
  constructor
  · intro nested group known high above limited limitedHigh
    have own := (value group known).1 limited
    have up := (value high (rooted.above_groups known above)).1 limitedHigh
    have le := nested group known high above (by omega) (by omega)
    omega
  · intro within group known high above own up
    have limited : Limited s group := by
      by_contra free
      exact own ((value group known).2 free)
    have limitedHigh : Limited s high := by
      by_contra free
      exact up ((value high (rooted.above_groups known above)).2 free)
    have le := within group known high above limited limitedHigh
    rw [(value group known).1 limited, (value high (rooted.above_groups known above)).1 limitedHigh]
    exact_mod_cast le

theorem limitOf_request (s : State) (tg : Group) (b : CfsBandwidth)
    (word : b.quota ≤ runtimeInf) :
    limitOf s (request tg b) = limitOf { s with cfsB := Function.update s.cfsB tg b } stored := by
  funext group
  simp only [limitOf]
  split
  next => rfl
  next =>
    congr 1
    by_cases same : group = tg
    · subst same
      rw [normalize_stored _ group (by simpa using word)]
      simp only [Function.update_self, normalizeCfsQuota, request]
      by_cases free : b.quota = runtimeInf
      · simp [free]
      · have small : b.quota / 1000 ≠ runtimeInf := by
          simp only [runtimeInf] at word ⊢
          omega
        simp only [if_neg free, if_true, if_neg small]
        rfl
    · have other : some group ≠ some tg := fun equal => same (Option.some.inj equal)
      have asked : (request tg b).tg = some tg := by
        rw [request]
        split <;> rfl
      simp only [normalizeCfsQuota, asked, if_neg other, stored, reduceCtorEq, if_false,
        Function.update_of_ne same]

end Groups

structure Nests (s : State) : Prop where
  rooted : ∃ below, Rooted s.tree below
  words : ∀ group ∈ s.tree.groups, (s.cfsB group).quota ≤ runtimeInf
  ranged : ∀ group ∈ s.tree.groups, Limited s group → (s.cfsB group).period ≤ maxCfsQuotaPeriod
  within : Within s

structure InRange (tg : Group) (b : CfsBandwidth) : Prop where
  not_root : tg ≠ rootTaskGroup
  quota : minCfsQuotaPeriod ≤ b.quota ∧ b.quota ≤ runtimeInf
  period : minCfsQuotaPeriod ≤ b.period ∧ b.period ≤ maxCfsQuotaPeriod

section Runs
variable {s next start : State} {op : Op} {ops : List Op}

def granted (s : State) (tg : Group) (b : CfsBandwidth) : State :=
  { s with cfsB := Function.update s.cfsB tg b }

theorem words_granted (words : ∀ group ∈ s.tree.groups, (s.cfsB group).quota ≤ runtimeInf)
    (tg : Group) {b : CfsBandwidth} (word : b.quota ≤ runtimeInf) :
    ∀ group ∈ (granted s tg b).tree.groups, ((granted s tg b).cfsB group).quota ≤ runtimeInf := by
  intro group known
  by_cases same : group = tg
  · subst same
    simpa [granted] using word
  · simpa [granted, same] using words group known

/-- The whole call: a request out of range changes nothing; one in range is
granted exactly when the quotas nest with it, and then the notes are right. -/
theorem tgSetCfsBandwidth_cases (ok : Nests s) (tg : Group) {b : CfsBandwidth}
    (word : b.quota ≤ runtimeInf) :
    (¬ InRange tg b ∧ tgSetCfsBandwidth s tg b = some (s, einval)) ∨
    (InRange tg b ∧ ¬ Within (granted s tg b) ∧ ∃ notes ret, ret ≠ 0 ∧
      tgSetCfsBandwidth s tg b = some ({ s with hierarchalQuota := notes }, ret)) ∨
    (InRange tg b ∧ Within (granted s tg b) ∧ ∃ notes,
      (∀ group ∈ s.tree.groups,
        Tightest s.tree.links (limitOf (granted s tg b) stored) group (notes group)) ∧
      tgSetCfsBandwidth s tg b =
        some ({ granted s tg b with hierarchalQuota := notes }, 0)) := by
  obtain ⟨below, rooted⟩ := ok.rooted
  rw [tgSetCfsBandwidth]
  by_cases root : tg = rootTaskGroup
  · exact .inl ⟨fun range => range.not_root root, if_pos root⟩
  rw [if_neg root]
  by_cases low : b.quota < minCfsQuotaPeriod ∨ b.period < minCfsQuotaPeriod
  · refine .inl ⟨fun range => ?_, if_pos low⟩
    have quota := range.quota.1
    have period := range.period.1
    omega
  rw [if_neg low]
  by_cases high : b.period > maxCfsQuotaPeriod
  · exact .inl ⟨fun range => absurd range.period.2 (not_le.mpr high), if_pos high⟩
  rw [if_neg high]
  have range : InRange tg b := ⟨root, ⟨by omega, word⟩, by omega, by omega⟩
  obtain ⟨notes, ret, walked, verdict, tight⟩ := cfsSchedulable_noted rooted tg b
  rw [limitOf_request s tg b word] at verdict tight
  have rooted' : Rooted (granted s tg b).tree below := rooted
  have nests := nested_iff_within rooted' (words_granted ok.words tg word)
  rw [walked, Option.map_some]
  by_cases zero : ret = 0
  · exact .inr (.inr ⟨range, nests.mp (verdict.mp zero), notes, tight zero,
      by rw [if_neg (not_not.mpr zero)]; rfl⟩)
  · exact .inr (.inl ⟨range, fun within => zero (verdict.mpr (nests.mpr within)), notes, ret, zero,
      by rw [if_pos zero]⟩)

theorem above_created {below : OrderedForest Group} (rooted : Rooted s.tree below)
    {parent group : Group} (fresh : group ∉ s.tree.groups) {low high : Group}
    (known : low ∈ s.tree.groups) :
    Above (schedCreateGroup s.tree parent group).links high low ↔
      Above s.tree.links high low := by
  apply @Above.congr _ _ _ (· ∈ s.tree.groups)
  · exact fun node member high hangs => rooted.parent_groups member high hangs
  · intro node member
    have differs : node ≠ group := fun same => fresh (same ▸ member)
    exact addLeaf_parent differs
  · exact known

theorem Nests.create (ok : Nests s) {parent group : Group} {period : Nat} {note : Int}
    (known : parent ∈ s.tree.groups) (fresh : group ∉ s.tree.groups) :
    Nests (createGroup s parent group period note) := by
  obtain ⟨below, rooted⟩ := ok.rooted
  have old : ∀ other ∈ s.tree.groups, (createGroup s parent group period note).cfsB other =
      s.cfsB other := fun other member =>
    have differs : other ≠ group := fun same => fresh (same ▸ member)
    Function.update_of_ne differs _ _
  have new : ((createGroup s parent group period note).cfsB group).quota = runtimeInf := by
    simp [createGroup]
  refine ⟨rooted.create known fresh, fun other member => ?_, fun other member limited => ?_, ?_⟩
  · rcases List.mem_cons.mp member with rfl | was
    · exact new.le
    · rw [old other was]
      exact ok.words other was
  · rcases List.mem_cons.mp member with rfl | was
    · exact absurd new limited.2
    · rw [Limited, old other was] at limited
      rw [old other was]
      exact ok.ranged other was limited
  · intro low member high above limited limitedHigh
    rcases List.mem_cons.mp member with rfl | was
    · exact absurd new limited.2
    · have above' := (above_created rooted fresh was).mp above
      have wasHigh := rooted.above_groups was above'
      rw [Limited, old low was] at limited
      rw [Limited, old high wasHigh] at limitedHigh
      rw [old low was, old high wasHigh]
      exact ok.within low was high above' limited limitedHigh

theorem Nests.destroy (ok : Nests s) {group : Group} (known : group ∈ s.tree.groups)
    (other : group ≠ rootTaskGroup) (leaf : s.tree.links.children group = []) :
    Nests { s with tree := schedDestroyGroup s.tree group } := by
  obtain ⟨below, rooted⟩ := ok.rooted
  have was : ∀ member ∈ (schedDestroyGroup s.tree group).groups, member ∈ s.tree.groups :=
    fun _ member => List.mem_of_mem_erase member
  have same : (schedDestroyGroup s.tree group).links.parent = s.tree.links.parent := by
    rw [schedDestroyGroup]
    cases s.tree.links.parent group <;> rfl
  refine ⟨rooted.destroy other known leaf, fun member inside => ok.words member (was member inside),
    fun member inside => ok.ranged member (was member inside),
    fun low member high above limited limitedHigh => ?_⟩
  rw [Above, same] at above
  exact ok.within low (was low member) high above limited limitedHigh

theorem Nests.set (ok : Nests s) (tg : Group) {b : CfsBandwidth} (word : b.quota ≤ runtimeInf) :
    ∃ after ret, tgSetCfsBandwidth s tg b = some (after, ret) ∧ Nests after := by
  rcases tgSetCfsBandwidth_cases ok tg word with
    ⟨-, refused⟩ | ⟨-, -, notes, ret, -, refused⟩ | ⟨range, within, notes, -, done⟩
  · exact ⟨_, _, refused, ok⟩
  · exact ⟨_, _, refused, ok.rooted, ok.words, ok.ranged, ok.within⟩
  · refine ⟨_, _, done, ok.rooted, words_granted ok.words tg word, fun group known limited => ?_,
      within⟩
    by_cases same : group = tg
    · subst same
      simpa [granted] using range.period.2
    · have limited' : Limited s group := by simpa [Limited, granted, same] using limited
      simpa [granted, same] using ok.ranged group known limited'

theorem u64_le (value : Int) : u64 value ≤ runtimeInf := by
  rw [u64, runtimeInf]
  omega

theorem Nests.step (ok : Nests s) (allowed : Allowed s op) :
    ∃ after, step s op = some after ∧ Nests after := by
  rw [CfsQuota.step, if_pos allowed]
  cases op with
  | createGroup parent group period note => exact ⟨_, rfl, ok.create allowed.1 allowed.2⟩
  | destroyGroup group => exact ⟨_, rfl, ok.destroy allowed.1 allowed.2.1 allowed.2.2⟩
  | setQuota tg us =>
      have word : (if us < 0 then runtimeInf else u64 (us * 1000)) ≤ runtimeInf := by
        split
        · exact le_rfl
        · exact u64_le _
      obtain ⟨after, ret, done, nests⟩ := @Nests.set s ok tg
        ⟨(s.cfsB tg).period, if us < 0 then runtimeInf else u64 (us * 1000)⟩ word
      exact ⟨after, by rw [apply, tgSetCfsQuota, done]; rfl, nests⟩
  | setPeriod tg us =>
      obtain ⟨after, ret, done, nests⟩ :=
        @Nests.set s ok tg ⟨u64 (us * 1000), (s.cfsB tg).quota⟩ (ok.words tg allowed)
      exact ⟨after, by rw [apply, tgSetCfsPeriod, done]; rfl, nests⟩

theorem Nests.of_init (init : Init s) : Nests s := by
  have only : ∀ group ∈ s.tree.groups, group = rootTaskGroup := by
    intro group member
    rw [init.tree] at member
    exact List.mem_singleton.mp member
  refine ⟨⟨.nil, init.tree ▸ init_rooted⟩, fun group member => ?_, fun group member limited => ?_,
    fun group member _ _ limited => ?_⟩
  · rw [only group member, init.quota]
  · exact absurd (only group member) limited.1
  · exact absurd (only group member) limited.1

theorem reachable_nests (init : Init start)
    (run : Transition.Run CfsQuota.step (fun _ _ => True) start ops s) : Nests s := by
  refine run.invariant (fun before op after ok _ moved => ?_) (.of_init init)
  have allowed : Allowed before op := by
    by_contra denied
    rw [CfsQuota.step, if_neg denied] at moved
    cases moved
  obtain ⟨_, moved', nests⟩ := ok.step allowed
  exact Option.some.inj (moved.symm.trans moved') ▸ nests

/-- In every run a group with a quota has no larger ratio than any group above
it that has one. Where its share is below 4096, which `to_ratio` does not cut
off, it also has no larger share, up to the last bit of the ratio. -/
theorem cfs_limits_nest (init : Init start)
    (run : Transition.Run CfsQuota.step (fun _ _ => True) start ops s) :
    ∀ group ∈ s.tree.groups, ∀ high, Above s.tree.links high group → Limited s group →
      Limited s high → (s.cfsB group).ratio ≤ (s.cfsB high).ratio ∧
        ((s.cfsB group).quota / 1000 < 2 ^ 12 * ((s.cfsB group).period / 1000) →
          (s.cfsB group).quota / 1000 * 2 ^ 20 * ((s.cfsB high).period / 1000) ≤
            ((s.cfsB high).quota / 1000 * 2 ^ 20 + (s.cfsB high).period / 1000) *
              ((s.cfsB group).period / 1000)) := by
  have ok := reachable_nests init run
  obtain ⟨below, rooted⟩ := ok.rooted
  intro group known high above low limited
  have nested := ok.within group known high above low limited
  have word := ok.words high (rooted.above_groups known above)
  have period := ok.ranged group known low
  exact ⟨nested, fun small => share_le_of_ratio_le period small word nested⟩

/-- In every reachable state a quota in range is granted exactly when the ratios
nest with it, whatever notes refused requests have left; then each group's note
is the least of the ratios at it and above it. -/
theorem cfs_quota_verdict (init : Init start)
    (run : Transition.Run CfsQuota.step (fun _ _ => True) start ops s) {tg : Group}
    {b : CfsBandwidth} (range : InRange tg b) :
    ∃ after ret, tgSetCfsBandwidth s tg b = some (after, ret) ∧
      (ret = 0 ↔ Within (granted s tg b)) ∧
      (ret ≠ 0 → after.cfsB = s.cfsB) ∧
      (ret = 0 → after.cfsB = Function.update s.cfsB tg b ∧ ∀ group ∈ s.tree.groups,
        (∀ high, Above s.tree.links high group → Limited after high →
          after.hierarchalQuota group ≠ -1 ∧
            after.hierarchalQuota group ≤ (after.cfsB high).ratio) ∧
        (after.hierarchalQuota group ≠ -1 → ∃ high, Above s.tree.links high group ∧
          Limited after high ∧ (after.cfsB high).ratio = after.hierarchalQuota group)) := by
  have ok := reachable_nests init run
  rcases tgSetCfsBandwidth_cases ok tg range.quota.2 with
    ⟨out, -⟩ | ⟨-, clash, notes, ret, failed, refused⟩ | ⟨-, within, notes, tight, done⟩
  · exact absurd range out
  · exact ⟨_, ret, refused, iff_of_false failed clash, fun _ => rfl, fun zero => absurd zero failed⟩
  · refine ⟨_, 0, done, iff_of_true rfl within, fun failed => absurd rfl failed, fun _ => ⟨rfl, ?_⟩⟩
    obtain ⟨below, rooted⟩ := ok.rooted
    have words := words_granted ok.words tg range.quota.2
    have rooted' : Rooted (granted s tg b).tree below := rooted
    intro group known
    have least := tight group known
    constructor
    · intro high above limited
      have value := limitOf_stored rooted' (rooted.above_groups known above)
        (words high (rooted.above_groups known above))
      have up := least.below high above (by rw [value.1 limited]; omega)
      rwa [value.1 limited] at up
    · intro some'
      obtain ⟨high, above, same⟩ := least.attained some'
      have value := limitOf_stored rooted' (rooted.above_groups known above)
        (words high (rooted.above_groups known above))
      by_cases limited : Limited (granted s tg b) high
      · exact ⟨high, above, limited, (value.1 limited).symm.trans same⟩
      · exact absurd ((value.2 limited).symm.trans same).symm some'

end Runs

def alone : State where
  tree := TaskGroups.init
  cfsB := fun _ => ⟨100000000, runtimeInf⟩
  hierarchalQuota := fun _ => 0

theorem alone_init : Init alone := ⟨rfl, rfl⟩

def parentAndChild : List Op :=
  [.createGroup 0 1 100000000 7, .createGroup 1 2 100000000 7, .setQuota 1 50000,
    .setQuota 2 100000]

theorem parentAndChild_run : ∃ s, Transition.Run step (fun _ _ => True) alone parentAndChild s :=
  ⟨_, Transition.run_of_isSome alone parentAndChild (by decide)⟩

def nested : State :=
  (Transition.runActions step alone (parentAndChild ++ [.setQuota 2 20000])).get (by decide)

theorem cfs_limits_nest_nested :
    (nested.cfsB 2).ratio ≤ (nested.cfsB 1).ratio ∧
      (nested.cfsB 2).quota / 1000 * 2 ^ 20 * ((nested.cfsB 1).period / 1000) ≤
        ((nested.cfsB 1).quota / 1000 * 2 ^ 20 + (nested.cfsB 1).period / 1000) *
          ((nested.cfsB 2).period / 1000) := by
  have run : Transition.Run step (fun _ _ => True) alone _ nested :=
    Transition.run_of_isSome alone (parentAndChild ++ [.setQuota 2 20000]) (by decide)
  have law := cfs_limits_nest alone_init run 2 (by decide) 1 (.single rfl)
    ⟨by decide, by decide⟩ ⟨by decide, by decide⟩
  exact ⟨law.1, law.2 (by decide)⟩

theorem cfs_quota_verdict_parentAndChild : ∃ s after ret,
    tgSetCfsBandwidth s 2 ⟨100000000, 20000000⟩ = some (after, ret) ∧
      (ret = 0 ↔ Within (granted s 2 ⟨100000000, 20000000⟩)) := by
  obtain ⟨s, run⟩ := parentAndChild_run
  obtain ⟨after, ret, done, verdict, -⟩ := cfs_quota_verdict alone_init run
    (⟨by decide, by decide, by decide⟩ : InRange 2 ⟨100000000, 20000000⟩)
  exact ⟨s, after, ret, done, verdict⟩

end AndroidKernel.CfsQuota
