import Mathlib.Data.List.TakeWhile
import AndroidKernel.Transition
import AndroidKernel.ServerSlots

/-!
What an admitted thread sends back, whatever the other threads do meanwhile. The
thread takes each result of `recv` for a message, so its replies are the shifted
bytes of the results, and it leaves at the first result that is `:q`. The results
are cut out of a byte stream, and a `:q` of the client is seen if and only if it
comes alone.
-/

namespace AndroidKernel.Server

def lowerCase : List Byte := (List.range 26).map fun i => 97 + UInt8.ofNat i

def upperCase : List Byte := (List.range 26).map fun i => 65 + UInt8.ofNat i

def caesar (b : Byte) : Byte :=
  if b ∈ lowerCase then lowerCase.getD ((lowerCase.idxOf b + 3) % 26) b
  else if b ∈ upperCase then upperCase.getD ((upperCase.idxOf b + 3) % 26) b
  else b

theorem encryptByte_eq_caesar (b : Byte) : encryptByte b = caesar b := by
  have all : ∀ n : Fin 256, encryptByte (UInt8.ofFin n) = caesar (UInt8.ofFin n) := by
    decide +kernel
  exact all b.toFin

theorem encryptByte_eq_zero (b : Byte) : encryptByte b = 0 ↔ b = 0 := by
  have all : ∀ n : Fin 256, encryptByte (UInt8.ofFin n) = 0 ↔ UInt8.ofFin n = 0 := by
    decide +kernel
  exact all b.toFin

theorem cString_of_noNul {bytes : List Byte} (noNul : 0 ∉ bytes) : cString bytes = bytes := by
  rw [cString, List.takeWhile_eq_self_iff]
  intro b inside
  exact decide_eq_true fun zero => noNul (zero ▸ inside)

theorem cString_encrypt {bytes : List Byte} (noNul : 0 ∉ bytes) :
    cString (bytes.map encryptByte) = bytes.map caesar := by
  have same : bytes.map encryptByte = bytes.map caesar :=
    List.map_congr_left fun b _ => encryptByte_eq_caesar b
  rw [cString_of_noNul, same]
  intro inside
  obtain ⟨b, isIn, zero⟩ := List.mem_map.mp inside
  exact noNul ((encryptByte_eq_zero b).mp zero ▸ isIn)

def Connected (t : Nat) (_ : Process) (action : Action) : Prop :=
  action ≠ .thread t (.recv none) ∧ action ≠ .thread t (.send false)

instance (t : Nat) (p : Process) (action : Action) : Decidable (Connected t p action) :=
  inferInstanceAs (Decidable (_ ∧ _))

def received (t : Nat) : List Action → List (List Byte)
  | [] => []
  | .thread u (.recv (some data)) :: rest =>
      if u = t then data :: received t rest else received t rest
  | _ :: rest => received t rest

def Going (chunks : List (List Byte)) : Prop := ∀ chunk ∈ chunks, cString chunk ≠ quit

def sent (chunks : List (List Byte)) : List Byte :=
  chunks.flatMap fun chunk => cString (chunk.map encryptByte)

def Thread.Left (th : Thread) : Prop :=
  th.pc = .close ∨ th.pc = .lockRelease ∨ th.pc = .release ∨ th.pc = .unlockRelease ∨
    th.pc = .exited

instance (th : Thread) : Decidable th.Left := by
  unfold Thread.Left
  infer_instance

inductive Answers (before : List Byte) : List (List Byte) → Thread → Prop where
  | waiting {chunks th} (pc : th.pc = .receive) (going : Going chunks)
      (replies : th.replies = before ++ sent chunks) : Answers before chunks th
  | testing {chunks th last} (pc : th.pc = .testQuit) (going : Going chunks)
      (buffer : th.buffer = last) (replies : th.replies = before ++ sent chunks) :
      Answers before (chunks ++ [last]) th
  | deciding {chunks th last} (pc : th.pc = .lockAdmission ∨ th.pc = .admission ∨
        th.pc = .unlockAdmission ∨ th.pc = .encrypt)
      (going : Going chunks) (other : cString last ≠ quit) (buffer : th.buffer = last)
      (replies : th.replies = before ++ sent chunks) : Answers before (chunks ++ [last]) th
  | sending {chunks th last} (pc : th.pc = .send) (going : Going chunks)
      (other : cString last ≠ quit) (encrypted : th.buffer = last.map encryptByte)
      (replies : th.replies = before ++ sent chunks) : Answers before (chunks ++ [last]) th
  | left {chunks th last} (pc : th.Left) (going : Going chunks) (told : cString last = quit)
      (replies : th.replies = before ++ sent chunks) : Answers before (chunks ++ [last]) th

theorem Going.append {chunks : List (List Byte)} {last : List Byte} (going : Going chunks)
    (other : cString last ≠ quit) : Going (chunks ++ [last]) := by
  intro chunk inside
  rcases List.mem_append.mp inside with old | new
  · exact going chunk old
  · exact List.mem_singleton.mp new ▸ other

theorem Going.nil : Going [] := fun _ inside => absurd inside List.not_mem_nil

theorem Answers.moves {t : Nat} {before : List Byte} {chunks : List (List Byte)} {th th' : Thread}
    {sh sh' : Shared} {answer : Answer} {p : Process} (answers : Answers before chunks th)
    (admitted : th.block = false) (ok : Connected t p (.thread t answer))
    (steps : th.Moves t sh answer th' sh') :
    Answers before (chunks ++ received t [.thread t answer]) th' := by
  -- by what the thread has in hand: nothing, a result it tests, one it answers, or the last one
  cases answers with
  | waiting pc going replies =>
      cases steps with
      | recvFails => exact absurd rfl ok.1
      | receives =>
          simp only [received, if_true]
          exact .testing rfl going rfl replies
      | _ => simp_all
  | testing pc going buffer replies =>
      cases steps with
      | quits _ told =>
          simp only [received, List.append_nil]
          exact .left (Or.inl rfl) going (buffer ▸ told) replies
      | goesOn _ other =>
          simp only [received, List.append_nil]
          exact .deciding (Or.inl rfl) going (buffer ▸ other) buffer replies
      | _ => simp_all
  | deciding pc going other buffer replies =>
      cases steps with
      | locksAdmission =>
          simp only [received, List.append_nil]
          exact .deciding (Or.inr (Or.inl rfl)) going other buffer replies
      | passes =>
          simp only [received, List.append_nil]
          exact .deciding (Or.inr (Or.inr (Or.inl rfl))) going other buffer replies
      | unlocksToEncrypt =>
          simp only [received, List.append_nil]
          exact .deciding (Or.inr (Or.inr (Or.inr rfl))) going other buffer replies
      | encrypts =>
          simp only [received, List.append_nil]
          exact .sending rfl going other (by rw [buffer]) replies
      | sendFails => exact absurd rfl ok.2
      | _ => simp_all
  | sending pc going other encrypted replies =>
      cases steps with
      | sends =>
          simp only [received, List.append_nil]
          refine .waiting rfl (going.append other) ?_
          simp [replies, encrypted, sent]
      | sendFails => exact absurd rfl ok.2
      | _ => simp_all
  | left pc going told replies =>
      cases steps with
      | closes | locksRelease | keepsNothing | givesBack | unlocksRelease =>
          simp only [received, List.append_nil]
          exact .left (by simp [Thread.Left]) going told replies
      | sendFails => exact absurd rfl ok.2
      | _ => simp_all [Thread.Left]

theorem received_cons (t : Nat) (action : Action) (rest : List Action) :
    received t (action :: rest) = received t [action] ++ received t rest := by
  cases action with
  | thread u answer =>
      cases answer with
      | recv data =>
          cases data with
          | none => rfl
          | some data =>
              simp only [received]
              split <;> rfl
      | none | send => rfl
  | accept | create => rfl

theorem received_append (t : Nat) (one two : List Action) :
    received t (one ++ two) = received t one ++ received t two := by
  induction one with
  | nil => rfl
  | cons action rest ih =>
      rw [List.cons_append, received_cons t action (rest ++ two), received_cons t action rest, ih,
        List.append_assoc]

theorem received_other {t : Nat} {action : Action} (other : ∀ answer, action ≠ .thread t answer) :
    received t [action] = [] := by
  cases action with
  | thread u answer =>
      have differs : u ≠ t := fun same => other answer (same ▸ rfl)
      cases answer with
      | recv data => cases data <;> simp [received, differs]
      | none | send => rfl
  | accept | create => rfl

theorem run_answers {p q : Process} {actions : List Action} {t : Nat} {before : List Byte}
    (run : Transition.Run step (Connected t) p actions q) :
    ∀ {chunks : List (List Byte)} {th : Thread}, p.threads[t]? = some th → th.block = false →
      Answers before chunks th →
      ∃ th', q.threads[t]? = some th' ∧ Answers before (chunks ++ received t actions) th' := by
  induction run with
  | refl state =>
      intro chunks th found _ answers
      exact ⟨th, found, by simpa [received] using answers⟩
  | next ok moved _ ih =>
      intro chunks th found admitted answers
      rw [received_cons, ← List.append_assoc]
      rcases step_thread found moved with ⟨answer, th', rfl, found', steps⟩ | ⟨other, same⟩
      · exact ih found' (steps.stays_admitted admitted) (answers.moves admitted ok steps)
      · rw [received_other other, List.append_nil]
        exact ih same admitted answers

structure Typed (messages : List (List Byte)) : Prop where
  sizes : ∀ message ∈ messages, 1 ≤ message.length ∧ message.length ≤ 255
  noNul : ∀ message ∈ messages, 0 ∉ message
  noQuit : quit ∉ messages

/-- Results of `recv` that cut the stream of the messages and the `:q`. -/
structure Cut (messages chunks : List (List Byte)) : Prop where
  whole : chunks.flatten = messages.flatten ++ quit
  sizes : ∀ chunk ∈ chunks, 1 ≤ chunk.length ∧ chunk.length ≤ 255

theorem Cut.noNul {messages chunks : List (List Byte)} (cut : Cut messages chunks)
    (typed : Typed messages) : ∀ chunk ∈ chunks, 0 ∉ chunk := by
  intro chunk inside zero
  have among : (0 : Byte) ∈ messages.flatten ++ quit :=
    cut.whole ▸ List.mem_flatten.mpr ⟨chunk, inside, zero⟩
  rcases List.mem_append.mp among with message | told
  · obtain ⟨message, isIn, zero⟩ := List.mem_flatten.mp message
    exact typed.noNul message isIn zero
  · exact absurd told (by decide)

theorem sent_noNul {chunks : List (List Byte)} (noNul : ∀ chunk ∈ chunks, 0 ∉ chunk) :
    sent chunks = chunks.flatten.map caesar := by
  induction chunks with
  | nil => rfl
  | cons chunk rest ih =>
      have first := cString_encrypt (noNul chunk List.mem_cons_self)
      have others := ih fun other inside => noNul other (List.mem_cons_of_mem _ inside)
      rw [sent] at others
      simp only [sent, List.flatMap_cons, List.flatten_cons, List.map_append, first, others]

/-- The client's last word comes alone, and no result before it looks like it. -/
def QuitAlone (chunks : List (List Byte)) : Prop :=
  ∃ earlier, chunks = earlier ++ [quit] ∧ quit ∉ earlier

/-- What a run owes the client: the thread `th` left its loop when all of the
stream was received, having sent the image of what came before the `:q`. -/
structure Replied (messages chunks got : List (List Byte)) (before : List Byte) (th : Thread) :
    Prop where
  left : th.Left
  consumed : got = chunks
  image : th.replies = before ++ messages.flatten.map caesar

/-- A run of a thread that is already admitted, up to the point where it has left
its loop or has no more to receive, sends the image of the stream and leaves
exactly at the final `:q` if and only if this `:q` is a result of `recv` of its
own and no earlier result is `:q`. -/
theorem reply_stream_iff {messages chunks rest : List (List Byte)} (typed : Typed messages)
    (cut : Cut messages chunks) {p q : Process} {actions : List Action} {t : Nat} {th th' : Thread}
    (found : p.threads[t]? = some th) (waits : th.pc = .receive) (admitted : th.block = false)
    (run : Transition.Run step (Connected t) p actions q) (found' : q.threads[t]? = some th')
    (sofar : received t actions ++ rest = chunks)
    (ended : th'.Left ∨ th'.pc = .receive ∧ rest = []) :
    Replied messages chunks (received t actions) th.replies th' ↔ QuitAlone chunks := by
  have noNul := cut.noNul typed
  have got : ∀ chunk ∈ received t actions, 0 ∉ chunk := fun chunk inside =>
    noNul chunk (sofar ▸ List.mem_append_left _ inside)
  have start : Answers th.replies [] th := .waiting waits .nil (by simp [sent])
  obtain ⟨final, foundFinal, answers⟩ := run_answers run found admitted start
  rw [found', Option.some.injEq] at foundFinal
  subst foundFinal
  rw [List.nil_append] at answers
  rcases ended with gone | ⟨pc, nothing⟩
  · -- the thread left at its last result, which is the first that is `:q`
    generalize received t actions = all at answers sofar got
    cases answers with
    | @left earlier _ last _ going told replies =>
        have last_eq : last = quit := by
          rw [← told, cString_of_noNul (got last (by simp))]
        subst last_eq
        have fresh : quit ∉ earlier := fun inside => going quit inside
          (cString_of_noNul (by decide))
        constructor
        · intro replied
          exact ⟨earlier, replied.consumed.symm, fresh⟩
        · rintro ⟨front, split, before⟩
          have nothing : rest = [] := by
            rcases List.eq_nil_or_concat rest with none | ⟨others, final, some⟩
            · exact none
            · rw [split, some, List.concat_eq_append, ← List.append_assoc] at sofar
              have same := (List.append_inj' sofar rfl).1
              exact absurd (same ▸ by simp) before
          have consumed : earlier ++ [quit] = chunks := by simpa [nothing] using sofar
          have flat : earlier.flatten = messages.flatten := by
            have whole := cut.whole
            rw [← consumed, List.flatten_append] at whole
            exact (List.append_inj' whole rfl).1
          refine ⟨gone, consumed, ?_⟩
          rw [replies, sent_noNul (fun chunk inside => got chunk (List.mem_append_left _ inside)),
            flat]
    | waiting pc | testing pc | sending pc => simp [Thread.Left, pc] at gone
    | deciding pc => rcases pc with pc | pc | pc | pc <;> simp [Thread.Left, pc] at gone
  · -- it still waits, so no result was `:q`
    subst nothing
    rw [List.append_nil] at sofar
    generalize received t actions = all at answers sofar got
    subst sofar
    constructor
    · intro replied
      have gone := replied.left
      simp [Thread.Left, pc] at gone
    · rintro ⟨front, split, -⟩
      cases answers with
      | waiting _ going =>
          exact absurd (cString_of_noNul (by decide)) (going quit (by simp [split]))
      | testing other | sending other => simp [pc] at other
      | deciding other => simp [pc] at other
      | left gone => simp [Thread.Left, pc] at gone

def admittedThread : Thread where
  pc := .receive
  newsockfd := 4
  block := false
  buffer := [107, 108]
  replies := [107, 108]
  call := 1
  obtained := some 1

def hiThenQuit : List Action :=
  [.recv (some [104, 105]), .none, .none, .none, .none, .none, .send true,
    .recv (some quit), .none].map (.thread 0)

theorem hiThenQuit_done : (Transition.runActions step afterServed hiThenQuit).isSome := by decide

theorem reply_stream_iff_hi :
    ∃ th', ((Transition.runActions step afterServed hiThenQuit).get
        hiThenQuit_done).threads[0]? = some th' ∧
      (Replied [[104, 105]] [[104, 105], quit] (received 0 hiThenQuit) [107, 108] th' ↔
        QuitAlone [[104, 105], quit]) := by
  refine ⟨{ admittedThread with pc := .close, buffer := quit, replies := [107, 108, 107, 108] },
    rfl, ?_⟩
  exact reply_stream_iff ⟨by decide, by decide, by decide⟩ ⟨by decide, by decide⟩
    (show afterServed.threads[0]? = some admittedThread from rfl) rfl rfl
    ((Transition.run_of_isSome _ _ hiThenQuit_done).of_allAllowed (by decide)) rfl
    (List.append_nil _) (Or.inl (Or.inl rfl))

def glued : List Action :=
  [.recv (some [104, 105, 58, 113]), .none, .none, .none, .none, .none, .send true].map (.thread 0)

theorem glued_done : (Transition.runActions step afterServed glued).isSome := by decide

/-- The thread encrypts the client's `:q` and waits for more. -/
theorem glued_quit_missed :
    ¬ ∀ (messages chunks rest : List (List Byte)) (p q : Process) (actions : List Action) (t : Nat)
        (th th' : Thread), Typed messages → Cut messages chunks → p.threads[t]? = some th →
      th.pc = .receive → th.block = false → Transition.Run step (Connected t) p actions q →
      q.threads[t]? = some th' → received t actions ++ rest = chunks →
      th'.Left ∨ th'.pc = .receive ∧ rest = [] →
      Replied messages chunks (received t actions) th.replies th' := by
  intro all
  have replied := all [[104, 105]] [[104, 105, 58, 113]] [] _ _ glued 0 admittedThread
    { admittedThread with buffer := [107, 108, 58, 116], replies := [107, 108, 107, 108, 58, 116] }
    ⟨by decide, by decide, by decide⟩ ⟨by decide, by decide⟩ rfl rfl rfl
    ((Transition.run_of_isSome _ _ glued_done).of_allAllowed (by decide)) rfl rfl
    (Or.inr ⟨rfl, rfl⟩)
  exact absurd replied.left (by decide)

def Thread.steps (t : Nat) : List Answer → Thread → Shared → Option (Thread × Shared)
  | [], th, sh => some (th, sh)
  | answer :: rest, th, sh =>
      match th.step t sh answer with
      | none => none
      | some (th, sh) => Thread.steps t rest th sh

def Process.moved (p : Process) (t : Nat) (th : Thread) (sh : Shared) : Process :=
  { p with shared := sh, threads := p.threads.set t th }

theorem step_moved {p : Process} {t : Nat} {th th' : Thread} {sh : Shared} {answer : Answer}
    (running : p.main ≠ .exited) (found : p.threads[t]? = some th)
    (steps : th.step t p.shared answer = some (th', sh)) :
    step p (.thread t answer) = some (p.moved t th' sh) := by
  cases main : p.main with
  | exited => exact absurd main running
  | accept | create => simp [step, main, found, steps, Process.moved]

theorem moved_found {p : Process} {t : Nat} {th : Thread} (found : p.threads[t]? = some th)
    (th' : Thread) (sh : Shared) : (p.moved t th' sh).threads[t]? = some th' := by
  have inside : t < p.threads.length := (List.getElem?_eq_some_iff.mp found).1
  simp [Process.moved, inside]

theorem moved_twice (p : Process) (t : Nat) (th th' : Thread) (sh sh' : Shared) :
    (p.moved t th sh).moved t th' sh' = p.moved t th' sh' := by
  simp [Process.moved]

theorem moved_self {p : Process} {t : Nat} {th : Thread} (found : p.threads[t]? = some th) :
    p.moved t th p.shared = p := by
  obtain ⟨inside, rfl⟩ := List.getElem?_eq_some_iff.mp found
  simp [Process.moved]

theorem run_alone {t : Nat} {answers : List Answer} {th' : Thread} {sh' : Shared}
    (fine : ∀ answer ∈ answers, answer ≠ .recv none ∧ answer ≠ .send false) :
    ∀ {p : Process} {th : Thread}, p.main ≠ .exited → p.threads[t]? = some th →
      th.steps t answers p.shared = some (th', sh') →
      Transition.Run step (Connected t) p (answers.map (.thread t)) (p.moved t th' sh') := by
  induction answers with
  | nil =>
      intro p th _ found steps
      simp only [Thread.steps, Option.some.injEq, Prod.mk.injEq] at steps
      obtain ⟨rfl, rfl⟩ := steps
      rw [moved_self found]
      exact .refl p
  | cons answer rest ih =>
      intro p th running found steps
      rw [Thread.steps] at steps
      split at steps
      · cases steps
      · rename_i middle sh first
        have ok := fine answer List.mem_cons_self
        have later := ih (fun other inside => fine other (List.mem_cons_of_mem _ inside))
          (show (p.moved t middle sh).main ≠ .exited from running) (moved_found found middle sh)
          steps
        rw [moved_twice] at later
        refine .next ⟨?_, ?_⟩ (step_moved running found first) later
        · exact fun same => ok.1 (Action.thread.inj same).2
        · exact fun same => ok.2 (Action.thread.inj same).2

structure Idle (p : Process) (t : Nat) (th : Thread) : Prop where
  running : p.main ≠ .exited
  found : p.threads[t]? = some th
  waits : th.pc = .receive
  admitted : th.block = false
  free : p.shared.mutex = none

theorem round_alone {p : Process} {t : Nat} {th : Thread} (idle : Idle p t th)
    {chunk : List Byte} (fits : chunk.length ≤ bufferSize) :
    ∃ actions q th', Transition.Run step (Connected t) p actions q ∧
      received t actions = [chunk] ∧ q.threads[t]? = some th' ∧ (th'.Left ∨ Idle q t th') := by
  obtain ⟨running, found, waits, admitted, free⟩ := idle
  by_cases told : cString chunk = quit
  · have leaves : th.steps t [.recv (some chunk), .none] p.shared =
        some ({ th with buffer := chunk, pc := .close }, p.shared) := by
      simp [Thread.steps, Thread.step, waits, fits, told]
    exact ⟨_, _, _, run_alone (by simp) running found leaves, by simp [received],
      moved_found found _ _, Or.inl (Or.inl rfl)⟩
  · have answers : th.steps t [.recv (some chunk), .none, .none, .none, .none, .none, .send true]
        p.shared = some ({ th with
          buffer := chunk.map encryptByte
          replies := th.replies ++ cString (chunk.map encryptByte)
          pc := .receive }, { p.shared with mutex := none }) := by
      simp [Thread.steps, Thread.step, waits, fits, told, free, admitted]
    exact ⟨_, _, _, run_alone (by simp) running found answers, by simp [received],
      moved_found found _ _, Or.inr ⟨running, moved_found found _ _, rfl, admitted, rfl⟩⟩

/-- Results that fit the buffer are received until the thread has left its loop
or there are no more, if nothing else happens. -/
theorem stream_received {t : Nat} {chunks : List (List Byte)}
    (fits : ∀ chunk ∈ chunks, chunk.length ≤ bufferSize) :
    ∀ {p : Process} {th : Thread}, Idle p t th →
      ∃ actions q th' rest, Transition.Run step (Connected t) p actions q ∧
        q.threads[t]? = some th' ∧ received t actions ++ rest = chunks ∧
        (th'.Left ∨ th'.pc = .receive ∧ rest = []) := by
  induction chunks with
  | nil =>
      intro p th idle
      exact ⟨[], p, th, [], .refl p, idle.found, rfl, Or.inr ⟨idle.waits, rfl⟩⟩
  | cons chunk others ih =>
      intro p th idle
      obtain ⟨actions, q, th', run, got, found, outcome⟩ :=
        round_alone idle (fits chunk List.mem_cons_self)
      rcases outcome with gone | idle'
      · exact ⟨actions, q, th', others, run, found, by simp [got], Or.inl gone⟩
      · obtain ⟨later, final, last, rest, run', found', sofar, ended⟩ :=
          ih (fun other inside => fits other (List.mem_cons_of_mem _ inside)) idle'
        exact ⟨actions ++ later, final, last, rest, run.append run', found',
          by rw [received_append, got, List.append_assoc, sofar]; rfl, ended⟩

end AndroidKernel.Server
