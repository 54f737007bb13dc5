import Mathlib.Data.List.Nodup
import AndroidKernel.WakeList

/-!
The invariant of queued wake-ups. A task in `TASK_WAKING` is in the hands of one
waker, or on the list of its CPU, or on the list that this CPU took; a list that
is not empty has been announced, or will be by the CPU that found it empty.
-/

namespace AndroidKernel.WakeList

def Chain {Node : Type*} (next : Node → Option Node) : Option Node → List Node → Prop
  | head, [] => head = none
  | head, node :: rest => head = some node ∧ Chain next (next node) rest

section Chain
variable {Node : Type*} {next : Node → Option Node} {head : Option Node} {nodes : List Node}

theorem chain_none : Chain next none nodes ↔ nodes = [] := by
  cases nodes with
  | nil => simp [Chain]
  | cons node rest => simp [Chain]

theorem Chain.some {node : Node} (chain : Chain next (some node) nodes) :
    ∃ rest, nodes = node :: rest ∧ Chain next (next node) rest := by
  cases nodes with
  | nil => exact absurd chain (Option.some_ne_none node)
  | cons first rest =>
      obtain ⟨same, tail⟩ := chain
      obtain rfl := Option.some.inj same
      exact ⟨rest, rfl, tail⟩

variable [DecidableEq Node]

theorem Chain.frame (chain : Chain next head nodes) {node : Node} (outside : node ∉ nodes)
    (link : Option Node) : Chain (Function.update next node link) head nodes := by
  induction nodes generalizing head with
  | nil => exact chain
  | cons first rest ih =>
      obtain ⟨same, tail⟩ := chain
      rw [List.mem_cons, not_or] at outside
      refine ⟨same, ?_⟩
      rw [Function.update_of_ne (Ne.symm outside.1)]
      exact ih tail outside.2

theorem Chain.push (chain : Chain next head nodes) {node : Node} (outside : node ∉ nodes) :
    Chain (Function.update next node head) (Option.some node) (node :: nodes) := by
  refine ⟨rfl, ?_⟩
  rw [Function.update_self]
  exact chain.frame outside head

end Chain

/-- What a CPU has, read off where it is, is what the other side records as its. -/
def Hands {Spot : Type*} (part : Pc → Option Pid) (pc : Cpu → Pc) (spot : Cpu → Spot)
    (place : Pid → Spot) : Prop := ∀ w q, part (pc w) = some q ↔ place q = spot w

section Hands
variable {Spot : Type*} {part : Pc → Option Pid} {pc : Cpu → Pc} {spot : Cpu → Spot}
  {place : Pid → Spot} {w : Cpu} {next : Pc}

theorem Hands.keep (hands : Hands part pc spot place) (same : part next = part (pc w)) :
    Hands part (Function.update pc w next) spot place := by
  intro v q
  by_cases this : v = w
  · subst this
    rw [Function.update_self, same]
    exact hands v q
  · rw [Function.update_of_ne this]
    exact hands v q

theorem Hands.move (hands : Hands part pc spot place) (apart : Function.Injective spot)
    {p : Pid} {there : Spot}
    (before : part (pc w) = some p ∨ part (pc w) = none ∧ ∀ v, place p ≠ spot v)
    (after : part next = some p ∧ there = spot w ∨ part next = none ∧ ∀ v, there ≠ spot v) :
    Hands part (Function.update pc w next) spot (Function.update place p there) := by
  intro v q
  have rule := hands v q
  by_cases this : v = w
  · subst this
    rw [Function.update_self]
    by_cases same : q = p
    · subst same
      rw [Function.update_self]
      rcases after with ⟨has, there⟩ | ⟨has, elsewhere⟩
      · exact iff_of_true has there
      · exact iff_of_false (by simp [has]) (elsewhere v)
    · rw [Function.update_of_ne same]
      have only (pc : Pc) (has : part pc = some p ∨ part pc = none) : part pc ≠ some q := by
        rcases has with has | has
        · rw [has]
          exact fun eq => same (Option.some.inj eq).symm
        · rw [has]
          exact (Option.some_ne_none q).symm
      have old := only (pc v) (before.imp_right And.left)
      have new := only next (after.imp And.left And.left)
      exact iff_of_false new fun recorded => old (rule.mpr recorded)
  · rw [Function.update_of_ne this]
    by_cases same : q = p
    · subst same
      rw [Function.update_self]
      have other : place q ≠ spot v := by
        rcases before with mine | ⟨-, elsewhere⟩
        · rw [(hands w q).mp mine]
          exact fun eq => this (apart eq).symm
        · exact elsewhere v
      have still : there ≠ spot v := by
        rcases after with ⟨-, there⟩ | ⟨-, elsewhere⟩
        · rw [there]
          exact fun eq => this (apart eq).symm
        · exact elsewhere v
      exact iff_of_false (fun has => other (rule.mp has)) still
    · rw [Function.update_of_ne same]
      exact rule

end Hands

inductive Place
  | nowhere
  | waker (w : Cpu)
  | listed (c : Cpu)
  | taken (c : Cpu)
deriving DecidableEq

theorem Place.waker_injective : Function.Injective Place.waker := fun _ _ => Place.waker.inj

def held : Pc → Option Pid
  | .placing p | .pushing p _ _ => some p
  | _ => none

def locks : Pc → Option Pid
  | .checked p | .placing p | .pushing p _ _ | .sending p _ => some p
  | _ => none

def localList : Pc → Option Pid
  | .draining list => list
  | _ => none

structure Lists (s : State) (place : Pid → Place) (contents taken : Cpu → List Pid) :
    Prop where
  listed : ∀ c, Chain s.wakeEntry (s.wakeList c) (contents c)
  drained : ∀ c, Chain s.wakeEntry (localList (s.pc c)) (taken c)
  unique : ∀ c, (contents c).Nodup ∧ (taken c).Nodup
  onList : ∀ c p, p ∈ contents c ↔ place p = .listed c
  onTaken : ∀ c p, p ∈ taken c ↔ place p = .taken c
  inHand : Hands held s.pc .waker place

structure Tasks (s : State) (place : Pid → Place) : Prop where
  waking : ∀ p, s.state p = taskWaking ↔ place p ≠ .nowhere
  off : ∀ p, place p ≠ .nowhere → s.onRq p = false
  home : ∀ p c, place p = .listed c ∨ place p = .taken c → s.cpu p = c
  count : ∀ p, s.begun p = s.activated p + if place p = .nowhere then 0 else 1

structure Cpus (nrCpuIds : Nat) (s : State) (place : Pid → Place)
    (contents : Cpu → List Pid) : Prop where
  locked : Hands locks s.pc some s.piLock
  known : ∀ p w, s.piLock p = some w → w < nrCpuIds
  checked : ∀ w p, s.pc w = .checked p → place p = .nowhere
  dest : ∀ w p dest next, s.pc w = .pushing p dest next → s.cpu p = dest ∧ s.online dest = true
  announced : ∀ c, contents c ≠ [] → s.ipi c = true ∨ s.pc c = .entered ∨
    ∃ w p, s.pc w = .sending p c
  down : ∀ c, s.online c = false → contents c = []

structure Sound (nrCpuIds : Nat) (s : State) (place : Pid → Place)
    (contents taken : Cpu → List Pid) : Prop
    extends Lists s place contents taken, Tasks s place, Cpus nrCpuIds s place contents

section Steps
variable {nrCpuIds : Nat} {s next : State} {place : Pid → Place} {contents taken : Cpu → List Pid}

theorem Init.sound (init : Init s) :
    Sound nrCpuIds s (fun _ => .nowhere) (fun _ => []) fun _ => [] where
  listed := init.wakeList
  drained c := by
    rw [init.pc]
    rfl
  unique _ := ⟨List.nodup_nil, List.nodup_nil⟩
  onList c p := by simp
  onTaken c p := by simp
  inHand w p := by simp [init.pc, held]
  waking p := by simp [init.state]
  off p somewhere := absurd rfl somewhere
  home p c spot := by simp at spot
  count p := by simp [init.begun, init.activated]
  locked w p := by simp [init.pc, init.piLock, locks]
  known p w lock := by simp [init.piLock] at lock
  checked w p spot := rfl
  dest w p dest link spot := by simp [init.pc] at spot
  announced _ listed := absurd rfl listed
  down _ _ := rfl

variable {w : Cpu} {p : Pid} {mask : Nat}

/-- An announcement outlives a step of a CPU that is not part of it. -/
theorem announced_update {ipi : Cpu → Bool} {pc : Cpu → Pc} {next : Pc} {c : Cpu}
    (neither : pc w ≠ .entered ∧ ∀ q dest, pc w ≠ .sending q dest)
    (rule : ipi c = true ∨ pc c = .entered ∨ ∃ v q, pc v = .sending q c) :
    ipi c = true ∨ Function.update pc w next c = .entered ∨
      ∃ v q, Function.update pc w next v = .sending q c := by
  rcases rule with pending | inside | ⟨v, q, sends⟩
  · exact .inl pending
  · have other : c ≠ w := by
      rintro rfl
      exact neither.1 inside
    exact .inr (.inl (by rw [Function.update_of_ne other, inside]))
  · have other : v ≠ w := by
      rintro rfl
      exact neither.2 q c sends
    exact .inr (.inr ⟨v, q, by rw [Function.update_of_ne other, sends]⟩)

/-! What is said of each place in the code, after a step of one CPU. -/

theorem Lists.drained_step (lists : Lists s place contents taken) {next : Pc}
    (same : localList next = localList (s.pc w)) (c : Cpu) :
    Chain s.wakeEntry (localList (Function.update s.pc w next c)) (taken c) :=
  (Function.forall_update_iff s.pc fun c pc => Chain s.wakeEntry (localList pc) (taken c)).mpr
    ⟨same ▸ lists.drained w, fun c _ => lists.drained c⟩ c

theorem Cpus.checked_step (cpus : Cpus nrCpuIds s place contents) {next : Pc}
    (here : ∀ q, next = .checked q → place q = .nowhere) :
    ∀ v q, Function.update s.pc w next v = .checked q → place q = .nowhere :=
  (Function.forall_update_iff s.pc fun _ pc => ∀ q, pc = .checked q → place q = .nowhere).mpr
    ⟨here, fun v _ => cpus.checked v⟩

theorem Cpus.dest_step (cpus : Cpus nrCpuIds s place contents) {next : Pc}
    (here : ∀ q dest link, next = .pushing q dest link → s.cpu q = dest ∧ s.online dest = true) :
    ∀ v q dest link, Function.update s.pc w next v = .pushing q dest link →
      s.cpu q = dest ∧ s.online dest = true :=
  (Function.forall_update_iff s.pc fun _ pc =>
    ∀ q dest link, pc = .pushing q dest link → s.cpu q = dest ∧ s.online dest = true).mpr
    ⟨here, fun v _ => cpus.dest v⟩

theorem Cpus.known_step (cpus : Cpus nrCpuIds s place contents) {owner : Option Cpu}
    (here : ∀ v, owner = some v → v < nrCpuIds) :
    ∀ q v, Function.update s.piLock p owner q = some v → v < nrCpuIds :=
  (Function.forall_update_iff s.piLock fun _ owner => ∀ v, owner = some v → v < nrCpuIds).mpr
    ⟨here, fun q _ => cpus.known q⟩

/-! What changes with the place of one task. -/

theorem member_step {spot : Cpu → Place} {nodes : Cpu → List Pid} {there : Place}
    (member : ∀ c q, q ∈ nodes c ↔ place q = spot c) (before : ∀ c, place p ≠ spot c)
    (after : ∀ c, there ≠ spot c) (c : Cpu) (q : Pid) :
    q ∈ nodes c ↔ Function.update place p there q = spot c := by
  rw [member c q]
  by_cases same : q = p
  · subst same
    rw [Function.update_self]
    exact iff_of_false (before c) (after c)
  · rw [Function.update_of_ne same]

theorem Cpus.other (cpus : Cpus nrCpuIds s place contents) (mine : locks (s.pc w) = some p)
    {v : Cpu} {q : Pid} (theirs : locks (s.pc v) = some q) (differs : v ≠ w) : q ≠ p := by
  rintro rfl
  have here := (cpus.locked w q).mp mine
  have there := (cpus.locked v q).mp theirs
  exact differs (Option.some.inj (there.symm.trans here))

theorem Cpus.checked_move (cpus : Cpus nrCpuIds s place contents)
    (mine : locks (s.pc w) = some p) {next : Pc} (moved : ∀ q, next ≠ .checked q)
    (there : Place) (v : Cpu) (q : Pid) (at_ : Function.update s.pc w next v = .checked q) :
    Function.update place p there q = .nowhere := by
  by_cases this : v = w
  · subst this
    rw [Function.update_self] at at_
    exact absurd at_ (moved q)
  · rw [Function.update_of_ne this] at at_
    have theirs : locks (s.pc v) = some q := by rw [at_]; rfl
    rw [Function.update_of_ne (cpus.other mine theirs this)]
    exact cpus.checked v q at_

theorem Cpus.dest_move (cpus : Cpus nrCpuIds s place contents)
    (mine : locks (s.pc w) = some p) {next : Pc} {place : Cpu}
    (here : ∀ q dest link, next = .pushing q dest link →
      q = p ∧ place = dest ∧ s.online dest = true) (v : Cpu) (q : Pid) (dest : Cpu)
    (link : Option Pid) (at_ : Function.update s.pc w next v = .pushing q dest link) :
    Function.update s.cpu p place q = dest ∧ s.online dest = true := by
  by_cases this : v = w
  · subst this
    rw [Function.update_self] at at_
    obtain ⟨rfl, there, up⟩ := here q dest link at_
    rw [Function.update_self]
    exact ⟨there, up⟩
  · rw [Function.update_of_ne this] at at_
    have theirs : locks (s.pc v) = some q := by rw [at_]; rfl
    rw [Function.update_of_ne (cpus.other mine theirs this)]
    exact cpus.dest v q dest link at_

theorem Sound.wake (sound : Sound nrCpuIds s place contents taken) (idle : s.pc w = .free)
    (unlocked : s.piLock p = none) (proper : mask &&& taskWaking = 0) (known : w < nrCpuIds)
    (found : s.state p &&& mask ≠ 0) :
    Sound nrCpuIds (setPc { s with piLock := Function.update s.piLock p (some w) } w (.checked p))
      place contents taken := by
  have apart : place p = .nowhere := by
    by_contra somewhere
    rw [(sound.waking p).mpr somewhere, Nat.and_comm, proper] at found
    exact found rfl
  exact
    { sound with
      drained := sound.drained_step (by rw [idle]; rfl)
      inHand := sound.inHand.keep (by rw [idle]; rfl)
      locked := sound.locked.move (Option.some_injective _)
        (.inr ⟨by rw [idle]; rfl, by simp [unlocked]⟩) (.inl ⟨rfl, rfl⟩)
      known := sound.known_step (by rintro v ⟨⟩; exact known)
      checked := sound.checked_step (by rintro q ⟨⟩; exact apart)
      dest := sound.dest_step (by rintro _ _ _ ⟨⟩)
      announced := fun c listed => announced_update (by simp [idle]) (sound.announced c listed) }

theorem Sound.still (sound : Sound nrCpuIds s place contents taken)
    (at_ : s.pc w = .checked p) :
    Sound nrCpuIds (setPc (unlock { s with state := Function.update s.state p 0 } p) w .free)
      place contents taken := by
  have apart := sound.checked w p at_
  exact
    { sound with
      drained := sound.drained_step (by rw [at_]; rfl)
      inHand := sound.inHand.keep (by rw [at_]; rfl)
      waking := by
        intro q
        by_cases same : q = p
        · subst same
          simp [setPc, unlock, apart, taskWaking]
        · simpa [setPc, unlock, Function.update_of_ne same] using sound.waking q
      locked := sound.locked.move (Option.some_injective _)
        (.inl (by rw [at_]; rfl)) (.inr ⟨rfl, by simp⟩)
      known := sound.known_step (by rintro v ⟨⟩)
      checked := sound.checked_step (by rintro q ⟨⟩)
      dest := sound.dest_step (by rintro _ _ _ ⟨⟩)
      announced := fun c listed =>
        announced_update (by simp [unlock, at_]) (sound.announced c listed) }

theorem Sound.mark (sound : Sound nrCpuIds s place contents taken)
    (at_ : s.pc w = .checked p) (off : s.onRq p = false) :
    Sound nrCpuIds
      (setPc
        { s with
          state := Function.update s.state p taskWaking
          begun := Function.update s.begun p (s.begun p + 1) }
        w (.placing p))
      (Function.update place p (.waker w)) contents taken := by
  have apart := sound.checked w p at_
  have mine : locks (s.pc w) = some p := by rw [at_]; rfl
  exact
    { sound with
      drained := sound.drained_step (by rw [at_]; rfl)
      onList := member_step sound.onList (by simp [apart]) (by simp)
      onTaken := member_step sound.onTaken (by simp [apart]) (by simp)
      inHand := sound.inHand.move Place.waker_injective
        (.inr ⟨by rw [at_]; rfl, by simp [apart]⟩) (.inl ⟨rfl, rfl⟩)
      waking := by
        intro q
        by_cases same : q = p
        · subst same
          simp [setPc]
        · simpa [setPc, Function.update_of_ne same] using sound.waking q
      off := by
        intro q somewhere
        by_cases same : q = p
        · subst same
          exact off
        · exact sound.off q (by rwa [Function.update_of_ne same] at somewhere)
      home := by
        intro q c spot
        by_cases same : q = p
        · subst same
          simp at spot
        · exact sound.home q c (by rwa [Function.update_of_ne same] at spot)
      count := by
        intro q
        have rule := sound.count q
        by_cases same : q = p
        · subst same
          simp [setPc, apart] at rule ⊢
          exact rule
        · simpa [setPc, Function.update_of_ne same] using rule
      locked := sound.locked.keep (by rw [at_]; rfl)
      checked := sound.checked_move mine (by simp) _
      dest := sound.dest_step (by rintro _ _ _ ⟨⟩)
      announced := fun c listed => announced_update (by simp [at_]) (sound.announced c listed) }

variable {dest : Cpu} {link : Option Pid}

theorem Tasks.setCpu (tasks : Tasks s place) (mine : place p = .waker w) (dest : Cpu) :
    Tasks { s with cpu := Function.update s.cpu p dest } place where
  waking := tasks.waking
  off := tasks.off
  home q c spot := by
    have other : q ≠ p := by
      rintro rfl
      simp [mine] at spot
    exact (Function.update_of_ne other _ _).trans (tasks.home q c spot)
  count := tasks.count

theorem Tasks.activate (tasks : Tasks s place) (somewhere : place p ≠ .nowhere) :
    Tasks (ttwuDoActivate s p) (Function.update place p .nowhere) where
  waking q := by
    by_cases same : q = p
    · subst same
      simp [ttwuDoActivate, taskWaking]
    · simpa [ttwuDoActivate, Function.update_of_ne same] using tasks.waking q
  off q spot := by
    by_cases same : q = p
    · subst same
      simp at spot
    · rw [Function.update_of_ne same] at spot
      exact (Function.update_of_ne same _ _).trans (tasks.off q spot)
  home q c spot := by
    by_cases same : q = p
    · subst same
      simp at spot
    · exact tasks.home q c (by rwa [Function.update_of_ne same] at spot)
  count q := by
    have rule := tasks.count q
    by_cases same : q = p
    · subst same
      rw [if_neg somewhere] at rule
      simpa [ttwuDoActivate] using rule
    · simpa [ttwuDoActivate, Function.update_of_ne same] using rule

theorem Tasks.pass (tasks : Tasks s place) (before : place p ≠ .nowhere) (there : Place)
    (after : there ≠ .nowhere) (home : ∀ c, there = .listed c ∨ there = .taken c → s.cpu p = c) :
    Tasks s (Function.update place p there) where
  waking q := by
    by_cases same : q = p
    · subst same
      simpa [after, before] using tasks.waking q
    · rw [Function.update_of_ne same]
      exact tasks.waking q
  off q spot := by
    by_cases same : q = p
    · subst same
      exact tasks.off q before
    · exact tasks.off q (by rwa [Function.update_of_ne same] at spot)
  home q c spot := by
    by_cases same : q = p
    · subst same
      exact home c (by rwa [Function.update_self] at spot)
    · exact tasks.home q c (by rwa [Function.update_of_ne same] at spot)
  count q := by
    have rule := tasks.count q
    by_cases same : q = p
    · subst same
      rw [Function.update_self, if_neg after]
      rwa [if_neg before] at rule
    · rwa [Function.update_of_ne same]

theorem Sound.queueLocal (sound : Sound nrCpuIds s place contents taken)
    (at_ : s.pc w = .placing p) :
    Sound nrCpuIds
      (setPc
        (unlock (ttwuDoActivate { s with cpu := Function.update s.cpu p dest } p) p) w .free)
      (Function.update place p .nowhere) contents taken := by
  have mine : locks (s.pc w) = some p := by rw [at_]; rfl
  have inHand : place p = .waker w := (sound.inHand w p).mp (by rw [at_]; rfl)
  have tasks := (sound.toTasks.setCpu inHand dest).activate (p := p) (by simp [inHand])
  exact
    { tasks, sound with
      drained := sound.drained_step (by rw [at_]; rfl)
      onList := member_step sound.onList (by simp [inHand]) (by simp)
      onTaken := member_step sound.onTaken (by simp [inHand]) (by simp)
      inHand := sound.inHand.move Place.waker_injective (.inl (by rw [at_]; rfl))
        (.inr ⟨rfl, by simp⟩)
      locked := sound.locked.move (Option.some_injective _) (.inl mine) (.inr ⟨rfl, by simp⟩)
      known := sound.known_step (by rintro v ⟨⟩)
      checked := sound.checked_move mine (by simp) _
      dest := sound.dest_move mine (by rintro _ _ _ ⟨⟩)
      announced := fun c listed =>
        announced_update (by simp [unlock, ttwuDoActivate, at_]) (sound.announced c listed) }

theorem Sound.queueRemote (sound : Sound nrCpuIds s place contents taken)
    (at_ : s.pc w = .placing p) (up : s.online dest = true) (link : Option Pid) :
    Sound nrCpuIds
      (setPc { s with cpu := Function.update s.cpu p dest } w (.pushing p dest link))
      place contents taken := by
  have mine : locks (s.pc w) = some p := by rw [at_]; rfl
  have inHand : place p = .waker w := (sound.inHand w p).mp (by rw [at_]; rfl)
  exact
    { sound with
      drained := sound.drained_step (by rw [at_]; rfl)
      inHand := sound.inHand.keep (by rw [at_]; rfl)
      home := (sound.toTasks.setCpu inHand dest).home
      locked := sound.locked.keep (by rw [at_]; rfl)
      checked := sound.checked_step (by rintro _ ⟨⟩)
      dest := sound.dest_move mine (by rintro _ _ _ ⟨⟩; exact ⟨rfl, rfl, up⟩)
      announced := fun c listed => announced_update (by simp [at_]) (sound.announced c listed) }

theorem Lists.relink (lists : Lists s place contents taken)
    (apart : ∀ c, place p ≠ .listed c ∧ place p ≠ .taken c) (link : Option Pid) :
    Lists { s with wakeEntry := Function.update s.wakeEntry p link } place contents taken :=
  { lists with
    listed := fun c =>
      (lists.listed c).frame (fun inside => (apart c).1 ((lists.onList c p).mp inside)) link
    drained := fun c =>
      (lists.drained c).frame (fun inside => (apart c).2 ((lists.onTaken c p).mp inside)) link }

theorem Sound.pushAgain (sound : Sound nrCpuIds s place contents taken)
    (at_ : s.pc w = .pushing p dest link) (head : Option Pid) :
    Sound nrCpuIds
      (setPc { s with wakeEntry := Function.update s.wakeEntry p link } w (.pushing p dest head))
      place contents taken := by
  have inHand : place p = .waker w := (sound.inHand w p).mp (by rw [at_]; rfl)
  have lists := sound.toLists.relink (p := p) (by simp [inHand]) link
  exact
    { sound with
      listed := lists.listed
      drained := lists.drained_step (by rw [at_]; rfl)
      inHand := sound.inHand.keep (by rw [at_]; rfl)
      locked := sound.locked.keep (by rw [at_]; rfl)
      checked := sound.checked_step (by rintro _ ⟨⟩)
      dest := sound.dest_step (by
        rintro _ _ _ ⟨⟩
        exact sound.dest w p dest link at_)
      announced := fun c listed => announced_update (by simp [at_]) (sound.announced c listed) }

/-- The `cmpxchg` that finds the head it expects puts the task in front. -/
theorem Lists.push (lists : Lists s place contents taken) (inHand : place p = .waker w)
    (mine : held (s.pc w) = some p) (expected : s.wakeList dest = link) (next : Pc)
    (freed : held next = none) (same : localList next = localList (s.pc w)) :
    Lists
      { s with
        wakeEntry := Function.update s.wakeEntry p link
        wakeList := Function.update s.wakeList dest (some p)
        pc := Function.update s.pc w next }
      (Function.update place p (.listed dest))
      (Function.update contents dest (p :: contents dest)) taken := by
  have apart : p ∉ contents dest := by
    rw [lists.onList dest p, inHand]
    exact Place.noConfusion
  have relinked := lists.relink (p := p) (by simp [inHand]) link
  exact
    { listed := by
        intro c
        by_cases here : c = dest
        · subst here
          have pushed := (lists.listed c).push apart
          rw [expected] at pushed
          simpa using pushed
        · simpa [Function.update_of_ne here] using relinked.listed c
      drained := relinked.drained_step same
      unique := by
        intro c
        by_cases here : c = dest
        · subst here
          rw [Function.update_self]
          exact ⟨List.nodup_cons.mpr ⟨apart, (lists.unique c).1⟩, (lists.unique c).2⟩
        · rw [Function.update_of_ne here]
          exact lists.unique c
      onList := by
        intro c q
        have rule := lists.onList c q
        by_cases this : q = p
        · subst this
          by_cases here : c = dest
          · subst here
            simp
          · have away : q ∉ contents c := by simp [rule, inHand]
            simp [Function.update_of_ne here, away, Ne.symm here]
        · rw [Function.update_of_ne this, ← rule]
          by_cases here : c = dest
          · subst here
            simp [this]
          · rw [Function.update_of_ne here]
      onTaken := member_step lists.onTaken (by simp [inHand]) (by simp)
      inHand := lists.inHand.move Place.waker_injective (.inl mine) (.inr ⟨freed, by simp⟩) }

/-- Its list, which was not announced by this CPU, is so by another. -/
theorem Sound.pushLast (sound : Sound nrCpuIds s place contents taken)
    (at_ : s.pc w = .pushing p dest link) (expected : s.wakeList dest = link)
    (first : link ≠ none) :
    Sound nrCpuIds
      (setPc
        (unlock
          { s with
            wakeEntry := Function.update s.wakeEntry p link
            wakeList := Function.update s.wakeList dest (some p) } p) w .free)
      (Function.update place p (.listed dest))
      (Function.update contents dest (p :: contents dest)) taken := by
  have mine : locks (s.pc w) = some p := by rw [at_]; rfl
  have hand : held (s.pc w) = some p := by rw [at_]; rfl
  have inHand : place p = .waker w := (sound.inHand w p).mp hand
  obtain ⟨home, up⟩ := sound.dest w p dest link at_
  have lists := sound.toLists.push inHand hand expected .free rfl (by rw [at_]; rfl)
  have tasks := sound.toTasks.pass (p := p) (by simp [inHand]) (.listed dest) (by simp)
    (by simp [home])
  have listed : contents dest ≠ [] := by
    intro none_
    have chain := sound.listed dest
    rw [none_, expected] at chain
    exact first chain
  exact
    { lists, tasks, sound with
      locked := sound.locked.move (Option.some_injective _) (.inl mine) (.inr ⟨rfl, by simp⟩)
      known := sound.known_step (by rintro v ⟨⟩)
      checked := sound.checked_move mine (by simp) _
      dest := sound.dest_step (by rintro _ _ _ ⟨⟩)
      announced := by
        intro c some_
        refine announced_update (by simp [unlock, at_]) (sound.announced c ?_)
        by_cases here : c = dest
        · rwa [here]
        · rwa [Function.update_of_ne here] at some_
      down := by
        intro c off
        have other : c ≠ dest := by
          rintro rfl
          exact absurd up (by simpa [setPc, unlock] using off)
        rw [Function.update_of_ne other]
        exact sound.down c off }

theorem Sound.pushFirst (sound : Sound nrCpuIds s place contents taken)
    (at_ : s.pc w = .pushing p dest none) (expected : s.wakeList dest = none) :
    Sound nrCpuIds
      (setPc
        { s with
          wakeEntry := Function.update s.wakeEntry p none
          wakeList := Function.update s.wakeList dest (some p) } w (.sending p dest))
      (Function.update place p (.listed dest))
      (Function.update contents dest (p :: contents dest)) taken := by
  have mine : locks (s.pc w) = some p := by rw [at_]; rfl
  have hand : held (s.pc w) = some p := by rw [at_]; rfl
  have inHand : place p = .waker w := (sound.inHand w p).mp hand
  obtain ⟨home, up⟩ := sound.dest w p dest none at_
  have lists := sound.toLists.push inHand hand expected (.sending p dest) rfl
    (by rw [at_]; rfl)
  have tasks := sound.toTasks.pass (p := p) (by simp [inHand]) (.listed dest) (by simp)
    (by simp [home])
  exact
    { lists, tasks, sound with
      locked := sound.locked.keep (by rw [at_]; rfl)
      checked := sound.checked_move mine (by simp) _
      dest := sound.dest_step (by rintro _ _ _ ⟨⟩)
      announced := by
        intro c some_
        by_cases here : c = dest
        · subst here
          exact .inr (.inr ⟨w, p, by simp [setPc]⟩)
        · rw [Function.update_of_ne here] at some_
          exact announced_update (by simp [at_]) (sound.announced c some_)
      down := by
        intro c off
        have other : c ≠ dest := by
          rintro rfl
          exact absurd up (by simpa [setPc] using off)
        rw [Function.update_of_ne other]
        exact sound.down c off }

theorem Sound.send (sound : Sound nrCpuIds s place contents taken)
    (at_ : s.pc w = .sending p dest) :
    Sound nrCpuIds (smpSendReschedule s w p dest) place contents taken := by
  have mine : locks (s.pc w) = some p := by rw [at_]; rfl
  exact
    { sound with
      drained := sound.drained_step (by rw [at_]; rfl)
      inHand := sound.inHand.keep (by rw [at_]; rfl)
      locked := sound.locked.move (Option.some_injective _) (.inl mine) (.inr ⟨rfl, by simp⟩)
      known := sound.known_step (by rintro v ⟨⟩)
      checked := sound.checked_step (by rintro _ ⟨⟩)
      dest := sound.dest_step (by rintro _ _ _ ⟨⟩)
      announced := by
        intro c some_
        by_cases here : c = dest
        · subst here
          exact .inl (Function.update_self ..)
        · rcases sound.announced c some_ with pending | inside | ⟨v, q, sends⟩
          · exact .inl ((Function.update_of_ne here _ _).trans pending)
          · have other : c ≠ w := by
              rintro rfl
              simp [at_] at inside
            exact .inr (.inl ((Function.update_of_ne other _ _).trans inside))
          · have other : v ≠ w := by
              rintro rfl
              rw [at_] at sends
              exact here (Pc.sending.inj sends).2.symm
            exact .inr (.inr ⟨v, q, (Function.update_of_ne other _ _).trans sends⟩) }

end Steps

end AndroidKernel.WakeList
