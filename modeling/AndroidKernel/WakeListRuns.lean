import AndroidKernel.WakeListInvariant

/-!
The other half of queued wake-ups: the interrupt, which takes a whole list and
activates it one by one, CPUs that go down, and what tasks on a runqueue do to
themselves. The invariant then holds in every run.
-/

namespace AndroidKernel.WakeList

variable {nrCpuIds : Nat} {s next : State} {place : Pid → Place} {contents taken : Cpu → List Pid}
  {c : Cpu} {p : Pid}

theorem Sound.interrupt (sound : Sound nrCpuIds s place contents taken)
    (idle : s.pc c = .free) :
    Sound nrCpuIds (setPc { s with ipi := Function.update s.ipi c false } c .entered)
      place contents taken :=
  { sound with
    drained := sound.drained_step (by rw [idle]; rfl)
    inHand := sound.inHand.keep (by rw [idle]; rfl)
    locked := sound.locked.keep (by rw [idle]; rfl)
    checked := sound.checked_step (by rintro _ ⟨⟩)
    dest := sound.dest_step (by rintro _ _ _ ⟨⟩)
    announced := by
      intro d some_
      by_cases here : d = c
      · subst here
        exact .inr (.inl (Function.update_self ..))
      · have neither : s.pc c ≠ .entered ∧ ∀ q dest, s.pc c ≠ .sending q dest := by simp [idle]
        exact (announced_update neither (sound.announced d some_)).imp_left
          (Function.update_of_ne here _ _).trans }

def takenBy (place : Pid → Place) (c : Cpu) (q : Pid) : Place :=
  if place q = .listed c then .taken c else place q

theorem takenBy_other {there : Place} (other : there ≠ .listed c ∧ there ≠ .taken c) (q : Pid) :
    takenBy place c q = there ↔ place q = there := by
  unfold takenBy
  split_ifs with moved
  · rw [moved]
    exact iff_of_false other.2.symm other.1.symm
  · rfl

theorem Lists.take (lists : Lists s place contents taken) (none_ : localList (s.pc c) = none)
    (free : held (s.pc c) = none) :
    Lists (takeList s c) (takenBy place c) (Function.update contents c [])
      (Function.update taken c (contents c)) := by
  have before : taken c = [] := chain_none.mp (none_ ▸ lists.drained c)
  have notTaken (q : Pid) : place q ≠ .taken c := by
    rw [Ne, ← lists.onTaken, before]
    exact List.not_mem_nil
  exact
    { listed := by
        intro d
        by_cases here : d = c
        · subst here
          simp [takeList, setPc, Chain]
        · simpa [takeList, setPc, Function.update_of_ne here] using lists.listed d
      drained := by
        intro d
        by_cases here : d = c
        · subst here
          simpa [takeList, setPc, localList] using lists.listed d
        · simpa [takeList, setPc, Function.update_of_ne here] using lists.drained d
      unique := by
        intro d
        by_cases here : d = c
        · subst here
          simpa using (lists.unique d).1
        · simpa [Function.update_of_ne here] using lists.unique d
      onList := by
        intro d q
        by_cases here : d = c
        · subst here
          unfold takenBy
          split_ifs with moved <;> simp [moved]
        · rw [Function.update_of_ne here, takenBy_other (by simp [here])]
          exact lists.onList d q
      onTaken := by
        intro d q
        by_cases here : d = c
        · subst here
          rw [Function.update_self, lists.onList d q]
          unfold takenBy
          split_ifs with moved
          · exact iff_of_true moved rfl
          · exact iff_of_false moved (notTaken q)
        · rw [Function.update_of_ne here, takenBy_other (by simp [here])]
          exact lists.onTaken d q
      inHand := by
        intro v q
        have kept : Hands held (takeList s c).pc .waker place := lists.inHand.keep free.symm
        rw [takenBy_other (by simp)]
        exact kept v q }

theorem Tasks.take (tasks : Tasks s place) : Tasks s (takenBy place c) where
  waking q := by
    rw [tasks.waking q, Ne, Ne, takenBy_other (by simp)]
  off q spot := tasks.off q (by rwa [Ne, takenBy_other (by simp)] at spot)
  home q d spot := by
    unfold takenBy at spot
    split_ifs at spot with moved
    · obtain rfl : c = d := by simpa using spot
      exact tasks.home q c (.inl moved)
    · exact tasks.home q d spot
  count q := by
    have rule : takenBy place c q = .nowhere ↔ place q = .nowhere := takenBy_other (by simp) q
    rw [tasks.count q]
    simp only [rule]

theorem Sound.take (sound : Sound nrCpuIds s place contents taken)
    (at_ : s.pc c = .entered ∨ s.pc c = .free) :
    Sound nrCpuIds (takeList s c) (takenBy place c) (Function.update contents c [])
      (Function.update taken c (contents c)) := by
  have empty : localList (s.pc c) = none := by rcases at_ with at_ | at_ <;> rw [at_] <;> rfl
  have free : held (s.pc c) = none := by rcases at_ with at_ | at_ <;> rw [at_] <;> rfl
  have unlocked : locks (s.pc c) = none := by rcases at_ with at_ | at_ <;> rw [at_] <;> rfl
  have lists := sound.toLists.take empty free
  have tasks := sound.toTasks.take (c := c)
  exact
    { lists, tasks, sound with
      locked := sound.locked.keep unlocked.symm
      checked := by
        intro v q spot
        rw [takenBy_other (by simp)]
        exact sound.checked_step (by rintro _ ⟨⟩) v q spot
      dest := sound.dest_step (by rintro _ _ _ ⟨⟩)
      announced := by
        intro d some_
        have other : d ≠ c := by
          rintro rfl
          simp at some_
        rw [Function.update_of_ne other] at some_
        rcases sound.announced d some_ with pending | inside | ⟨v, q, sends⟩
        · exact .inl pending
        · exact .inr (.inl ((Function.update_of_ne other _ _).trans inside))
        · have sender : v ≠ c := by
            rintro rfl
            simp [sends] at at_
          exact .inr (.inr ⟨v, q, (Function.update_of_ne sender _ _).trans sends⟩)
      down := by
        intro d off
        by_cases here : d = c
        · subst here
          simp
        · rw [Function.update_of_ne here]
          exact sound.down d off }

theorem Sound.head (sound : Sound nrCpuIds s place contents taken)
    (at_ : s.pc c = .draining (some p)) : p ∈ taken c ∧ place p = .taken c := by
  have chain := sound.drained c
  rw [at_] at chain
  obtain ⟨rest, split, -⟩ := Chain.some chain
  have inside : p ∈ taken c := split ▸ List.mem_cons_self
  exact ⟨inside, (sound.onTaken c p).mp inside⟩

theorem Sound.drain (sound : Sound nrCpuIds s place contents taken)
    (at_ : s.pc c = .draining (some p)) :
    ∃ rest, Sound nrCpuIds (drainOne s c p) (Function.update place p .nowhere) contents
      (Function.update taken c rest) := by
  obtain ⟨-, spot⟩ := sound.head at_
  have chain := sound.drained c
  rw [at_] at chain
  obtain ⟨rest, split, tail⟩ := Chain.some chain
  obtain ⟨apart, unique⟩ := List.nodup_cons.mp (split ▸ (sound.unique c).2)
  have tasks := sound.toTasks.activate (p := p) (by simp [spot])
  refine ⟨rest, ?_⟩
  exact
    { tasks, sound with
      drained := by
        intro d
        by_cases here : d = c
        · subst here
          simpa [drainOne, ttwuDoActivate, setPc, localList] using tail
        · simpa [drainOne, ttwuDoActivate, setPc, Function.update_of_ne here] using
            sound.drained d
      unique := by
        intro d
        by_cases here : d = c
        · subst here
          rw [Function.update_self]
          exact ⟨(sound.unique d).1, unique⟩
        · rw [Function.update_of_ne here]
          exact sound.unique d
      onList := member_step sound.onList (by simp [spot]) (by simp)
      onTaken := by
        intro d q
        have rule := sound.onTaken d q
        by_cases this : q = p
        · subst this
          by_cases here : d = c
          · subst here
            simpa using apart
          · have away : q ∉ taken d := by simp [rule, spot, Ne.symm here]
            simpa [Function.update_of_ne here] using away
        · rw [Function.update_of_ne this, ← rule]
          by_cases here : d = c
          · subst here
            rw [Function.update_self, split, List.mem_cons]
            exact (or_iff_right this).symm
          · rw [Function.update_of_ne here]
      inHand := sound.inHand.move Place.waker_injective
        (.inr ⟨by rw [at_]; rfl, by simp [spot]⟩) (.inr ⟨rfl, by simp⟩)
      locked := sound.locked.keep (by rw [at_]; rfl)
      checked := by
        intro v q at'
        have before := sound.checked_step (by rintro _ ⟨⟩) v q at'
        have other : q ≠ p := by
          rintro rfl
          simp [spot] at before
        rwa [Function.update_of_ne other]
      dest := sound.dest_step (by rintro _ _ _ ⟨⟩)
      announced := fun d some_ => announced_update (by simp [at_]) (sound.announced d some_) }

theorem Sound.drained_all (sound : Sound nrCpuIds s place contents taken)
    (at_ : s.pc c = .draining none) : Sound nrCpuIds (setPc s c .free) place contents taken :=
  { sound with
    drained := sound.drained_step (by rw [at_]; rfl)
    inHand := sound.inHand.keep (by rw [at_]; rfl)
    locked := sound.locked.keep (by rw [at_]; rfl)
    checked := sound.checked_step (by rintro _ ⟨⟩)
    dest := sound.dest_step (by rintro _ _ _ ⟨⟩)
    announced := fun d some_ => announced_update (by simp [at_]) (sound.announced d some_) }

/-- No CPU is about to queue a task on the one that goes. -/
theorem Sound.offline (sound : Sound nrCpuIds s place contents taken) (empty : contents c = [])
    (nobody : ∀ w p link, s.pc w ≠ .pushing p c link) :
    Sound nrCpuIds { s with online := Function.update s.online c false } place contents taken :=
  { sound with
    dest := by
      rintro v q dest link at_
      obtain ⟨home, up⟩ := sound.dest v q dest link at_
      have other : dest ≠ c := by
        rintro rfl
        exact nobody v q link at_
      exact ⟨home, (Function.update_of_ne other _ _).trans up⟩
    down := by
      intro d off
      by_cases here : d = c
      · rw [here, empty]
      · exact sound.down d (by simpa [Function.update_of_ne here] using off) }

theorem Sound.dying (sound : Sound nrCpuIds s place contents taken)
    (stopped : ∀ w < nrCpuIds, s.pc w = .free) (idle : s.pc c = .free) :
    Sound nrCpuIds (takeList { s with online := Function.update s.online c false } c)
      (takenBy place c) (Function.update contents c []) (Function.update taken c (contents c)) := by
  refine (sound.take (.inr idle)).offline (Function.update_self ..) ?_
  intro v q link at_
  by_cases here : v = c
  · subst here
    simp [takeList, setPc] at at_
  · have before : s.pc v = .pushing q c link := by
      simpa [takeList, setPc, Function.update_of_ne here] using at_
    have known := sound.known q v ((sound.locked v q).mp (by rw [before]; rfl))
    simp [stopped v known] at before

theorem Sound.rise (sound : Sound nrCpuIds s place contents taken) :
    Sound nrCpuIds { s with online := Function.update s.online c true } place contents taken :=
  { sound with
    dest := by
      intro v q dest link at_
      obtain ⟨home, up⟩ := sound.dest v q dest link at_
      refine ⟨home, ?_⟩
      by_cases here : dest = c
      · rw [here]
        exact Function.update_self ..
      · exact (Function.update_of_ne here _ _).trans up
    down := by
      intro d off
      by_cases here : d = c
      · subst here
        simp at off
      · exact sound.down d (by simpa [Function.update_of_ne here] using off) }

theorem Sound.others (sound : Sound nrCpuIds s place contents taken) {col : Pid → Nat}
    {queued : Pid → Bool} {cpu : Pid → Cpu}
    (state : ∀ p, col p = taskWaking ↔ s.state p = taskWaking)
    (still : ∀ p, s.onRq p = false → queued p = false ∧ cpu p = s.cpu p) :
    Sound nrCpuIds { s with state := col, onRq := queued, cpu := cpu } place contents taken :=
  { sound with
    waking := fun p => (state p).trans (sound.waking p)
    off := fun p somewhere => (still p (sound.off p somewhere)).1
    home := by
      intro p c spot
      have somewhere : place p ≠ .nowhere := by rcases spot with spot | spot <;> simp [spot]
      exact (still p (sound.off p somewhere)).2.trans (sound.home p c spot)
    dest := by
      intro w p dest link at_
      obtain ⟨home, up⟩ := sound.dest w p dest link at_
      have inHand : place p = .waker w := (sound.inHand w p).mp (by rw [at_]; rfl)
      exact ⟨(still p (sound.off p (by simp [inHand]))).2.trans home, up⟩ }

theorem Sound.not_waking (sound : Sound nrCpuIds s place contents taken)
    (queued : s.onRq p = true) : s.state p ≠ taskWaking := by
  intro waking
  have off := sound.off p ((sound.waking p).mp waking)
  rw [queued] at off
  exact Bool.noConfusion off

theorem Sound.setState (sound : Sound nrCpuIds s place contents taken)
    (queued : s.onRq p = true) {state : Nat} (proper : state &&& taskWaking = 0) :
    Sound nrCpuIds { s with state := Function.update s.state p state } place contents taken := by
  refine sound.others ?_ fun q off => ⟨off, rfl⟩
  intro q
  by_cases same : q = p
  · subst same
    rw [Function.update_self]
    refine iff_of_false ?_ (sound.not_waking queued)
    rintro rfl
    simp [taskWaking] at proper
  · rw [Function.update_of_ne same]

theorem Sound.step {op : Op} (sound : Sound nrCpuIds s place contents taken)
    (moved : WakeList.step nrCpuIds s op = some next) :
    ∃ place contents taken, Sound nrCpuIds next place contents taken := by
  cases op with
  | wake w p mask =>
      simp only [WakeList.step] at moved
      split at moved
      next guard =>
        obtain ⟨idle, unlocked, proper, known⟩ := guard
        cases moved
        unfold tryToWakeUp
        split_ifs with other
        · exact ⟨_, _, _, sound⟩
        · exact ⟨_, _, _, sound.wake idle unlocked proper known other⟩
      next => cases moved
  | remote w =>
      simp only [WakeList.step] at moved
      split at moved
      next p at_ =>
        cases moved
        unfold ttwuRemote
        split_ifs with queued
        · exact ⟨_, _, _, sound.still at_⟩
        · exact ⟨_, _, _, sound.mark at_ (Bool.eq_false_iff.mpr queued)⟩
      next => cases moved
  | queue w dest remote =>
      simp only [WakeList.step] at moved
      split at moved
      next p at_ =>
        split at moved
        next up =>
          cases moved
          unfold ttwuQueue
          cases remote with
          | true => exact ⟨_, _, _, sound.queueRemote at_ up _⟩
          | false => exact ⟨_, _, _, sound.queueLocal at_⟩
        next => cases moved
      next => cases moved
  | push w =>
      simp only [WakeList.step] at moved
      split at moved
      next p dest link at_ =>
        cases moved
        simp only [cmpxchg]
        split_ifs with expected first
        · subst first
          exact ⟨_, _, _, sound.pushFirst at_ expected⟩
        · exact ⟨_, _, _, sound.pushLast at_ expected first⟩
        · exact ⟨_, _, _, sound.pushAgain at_ _⟩
      next => cases moved
  | send w =>
      simp only [WakeList.step] at moved
      split at moved
      next p dest at_ =>
        cases moved
        exact ⟨_, _, _, sound.send at_⟩
      next => cases moved
  | interrupt c =>
      simp only [WakeList.step] at moved
      split at moved
      next guard =>
        cases moved
        exact ⟨_, _, _, sound.interrupt guard.2.1⟩
      next => cases moved
  | take c =>
      simp only [WakeList.step] at moved
      split at moved
      next at_ =>
        cases moved
        exact ⟨_, _, _, sound.take (.inl at_)⟩
      next => cases moved
  | drain c =>
      simp only [WakeList.step] at moved
      split at moved
      next p at_ =>
        cases moved
        obtain ⟨rest, drained⟩ := sound.drain at_
        exact ⟨_, _, _, drained⟩
      next at_ =>
        cases moved
        exact ⟨_, _, _, sound.drained_all at_⟩
      next => cases moved
  | setState p state =>
      simp only [WakeList.step] at moved
      split at moved
      next guard =>
        cases moved
        exact ⟨_, _, _, sound.setState guard.1 guard.2⟩
      next => cases moved
  | deschedule p =>
      simp only [WakeList.step] at moved
      split at moved
      next guard =>
        cases moved
        refine ⟨_, _, _, sound.others (fun _ => Iff.rfl) fun q off => ⟨?_, rfl⟩⟩
        by_cases same : q = p
        · rw [same, Function.update_self]
        · rw [Function.update_of_ne same, off]
      next => cases moved
  | migrate p dest =>
      simp only [WakeList.step] at moved
      split at moved
      next queued =>
        cases moved
        refine ⟨_, _, _, sound.others (fun _ => Iff.rfl) fun q off => ⟨off, ?_⟩⟩
        have other : q ≠ p := by
          rintro rfl
          simp [queued] at off
        exact Function.update_of_ne other _ _
      next => cases moved
  | dying c =>
      simp only [WakeList.step] at moved
      split at moved
      next guard =>
        cases moved
        exact ⟨_, _, _, sound.dying guard.1 guard.2⟩
      next => cases moved
  | online c =>
      cases moved
      exact ⟨_, _, _, sound.rise⟩

theorem reachable_sound {start : State} {ops : List Op} (init : Init start)
    (run : Transition.Run (WakeList.step nrCpuIds) (fun _ _ => True) start ops s) :
    ∃ place contents taken, Sound nrCpuIds s place contents taken := by
  apply run.invariant
  · rintro before op after ⟨place, contents, taken, sound⟩ - moved
    exact sound.step moved
  · exact ⟨_, _, _, init.sound⟩

end AndroidKernel.WakeList
