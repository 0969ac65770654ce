import K1K.Ipc.Registration

/-!
# Delivery

The log records, endpoint by endpoint, which sends were accepted, to whom messages were handed
out, and what came back from `recv` and `try_recv`. At every endpoint the accepted messages are
those handed out followed by those queued; for every task the messages handed to it are those it
returned followed by its inbox. Stamps are unique, so each message has exactly one place.
-/

namespace K1K.Ipc

variable {Ep Task Call Msg : Type*}

/-! ## Reading the log -/

namespace Log

def acceptances (log : List (Event Ep Task Msg)) : List (Ep × Msg) :=
  log.filterMap fun
    | .accepted e msg => some (e, msg)
    | _ => none

def handouts (log : List (Event Ep Task Msg)) : List (Ep × Task × Msg) :=
  log.filterMap fun
    | .handed e task msg => some (e, task, msg)
    | _ => none

def returns (log : List (Event Ep Task Msg)) : List (Task × Msg) :=
  log.filterMap fun
    | .returned task msg => some (task, msg)
    | _ => none

section Reading

variable (log : List (Event Ep Task Msg)) (e : Ep) (task : Task) (msg : Msg)

@[simp] theorem acceptances_nil : acceptances ([] : List (Event Ep Task Msg)) = [] := rfl

@[simp] theorem acceptances_accepted :
    acceptances (.accepted e msg :: log) = (e, msg) :: acceptances log := rfl

@[simp] theorem acceptances_handed :
    acceptances (.handed e task msg :: log) = acceptances log := rfl

@[simp] theorem acceptances_returned :
    acceptances (.returned task msg :: log) = acceptances log := rfl

@[simp] theorem handouts_nil : handouts ([] : List (Event Ep Task Msg)) = [] := rfl

@[simp] theorem handouts_accepted : handouts (.accepted e msg :: log) = handouts log := rfl

@[simp] theorem handouts_handed :
    handouts (.handed e task msg :: log) = (e, task, msg) :: handouts log := rfl

@[simp] theorem handouts_returned : handouts (.returned task msg :: log) = handouts log := rfl

@[simp] theorem returns_nil : returns ([] : List (Event Ep Task Msg)) = [] := rfl

@[simp] theorem returns_accepted : returns (.accepted e msg :: log) = returns log := rfl

@[simp] theorem returns_handed : returns (.handed e task msg :: log) = returns log := rfl

@[simp] theorem returns_returned :
    returns (.returned task msg :: log) = (task, msg) :: returns log := rfl

end Reading

variable (log more : List (Event Ep Task Msg))

@[simp]
theorem acceptances_append : acceptances (log ++ more) = acceptances log ++ acceptances more :=
  List.filterMap_append

@[simp]
theorem handouts_append : handouts (log ++ more) = handouts log ++ handouts more :=
  List.filterMap_append

@[simp]
theorem returns_append : returns (log ++ more) = returns log ++ returns more :=
  List.filterMap_append

def acceptedAt [DecidableEq Ep] (e : Ep) (log : List (Event Ep Task Msg)) : List Msg :=
  ((acceptances log).filter (·.1 = e)).map Prod.snd

def handedAt [DecidableEq Ep] (e : Ep) (log : List (Event Ep Task Msg)) : List (Task × Msg) :=
  ((handouts log).filter (·.1 = e)).map Prod.snd

def handedTo [DecidableEq Task] (task : Task) (log : List (Event Ep Task Msg)) : List Msg :=
  ((handouts log).filter (·.2.1 = task)).map (·.2.2)

def returnedBy [DecidableEq Task] (task : Task) (log : List (Event Ep Task Msg)) : List Msg :=
  ((returns log).filter (·.1 = task)).map Prod.snd

@[simp]
theorem acceptedAt_append [DecidableEq Ep] (e : Ep) :
    acceptedAt e (log ++ more) = acceptedAt e log ++ acceptedAt e more := by
  simp [acceptedAt]

@[simp]
theorem handedAt_append [DecidableEq Ep] (e : Ep) :
    handedAt e (log ++ more) = handedAt e log ++ handedAt e more := by
  simp [handedAt]

@[simp]
theorem handedTo_append [DecidableEq Task] (task : Task) :
    handedTo task (log ++ more) = handedTo task log ++ handedTo task more := by
  simp [handedTo]

@[simp]
theorem returnedBy_append [DecidableEq Task] (task : Task) :
    returnedBy task (log ++ more) = returnedBy task log ++ returnedBy task more := by
  simp [returnedBy]

variable {log} {e : Ep} {task : Task} {msg : Msg}

theorem mem_acceptedAt [DecidableEq Ep] :
    msg ∈ acceptedAt e log ↔ (e, msg) ∈ acceptances log := by
  simp [acceptedAt]

theorem mem_handedAt [DecidableEq Ep] :
    (task, msg) ∈ handedAt e log ↔ (e, task, msg) ∈ handouts log := by
  simp [handedAt]

theorem mem_handedTo [DecidableEq Task] :
    msg ∈ handedTo task log ↔ ∃ e, (e, task, msg) ∈ handouts log := by
  simp [handedTo]

theorem mem_returnedBy [DecidableEq Task] :
    msg ∈ returnedBy task log ↔ (task, msg) ∈ returns log := by
  simp [returnedBy]

end Log

namespace System

open Log
open Function (update)

variable [DecidableEq Ep] [DecidableEq Task] {s t : System Ep Task Call Msg} {peer : Ep → Option Ep}

/-! ## What a step can do -/

section Moves

variable [DecidableEq Call]

inductive Move (s : System Ep Task Call Msg) : System Ep Task Call Msg → Prop where
  | idle : Move s s
  | handed (call : Call) (e : Ep) (rx : Task) (rest : List Task) (msg : Stamped Msg)
      (receivers : s.state.receivers e = rx :: rest) (stamp : msg.serial = s.log.length) :
      Move s ⟨{ s.state.handTo e rx rest msg with
          waking := update s.state.waking call (some rx) },
        s.log ++ [.accepted e msg, .handed e rx msg]⟩
  | queued (e : Ep) (msg : Stamped Msg) (receivers : s.state.receivers e = [])
      (room : (s.state.queue e).length < QUEUE_LIMIT) (stamp : msg.serial = s.log.length) :
      Move s ⟨s.state.enqueue e msg, s.log ++ [.accepted e msg]⟩
  | woke (call : Call) (rx : Task) (waking : s.state.waking call = some rx) :
      Move s { s with state := { s.state with
        status := update s.state.status rx .runnable
        waking := update s.state.waking call none } }
  | took (task : Task) (e : Ep) (msg : Stamped Msg) (rest : List (Stamped Msg))
      (queue : s.state.queue e = msg :: rest) (awake : ∀ e, s.state.receiving task ≠ .asleep e) :
      Move s ⟨s.state.dequeue e rest task, s.log ++ [.handed e task msg, .returned task msg]⟩
  | entered (task : Task) (e : Ep) (awake : ∀ e, s.state.receiving task ≠ .asleep e) :
      Move s { s with state := { s.state with
        receiving := update s.state.receiving task (.entering e) } }
  | registered (task : Task) (e : Ep) (queue : s.state.queue e = [])
      (awake : ∀ e, s.state.receiving task ≠ .asleep e) :
      Move s { s with state := s.state.register e task }
  | resumed (task : Task) (e : Ep) (woken : s.state.status task ≠ .blocked) :
      Move s ⟨(s.state.resume task e).2, s.log ++ resumedEvents task (s.state.inbox task)⟩
  | exited (task : Task) (outside : s.state.receiving task = .out) :
      Move s { s with state := { s.state with
        status := update s.state.status task .gone } }

theorem move_of_send (inv : s.state.Inv) (call : Call) (e : Ep) (msg : Stamped Msg)
    (stamp : msg.serial = s.log.length) : Move s ⟨(s.state.send peer call e msg).2,
      s.log ++ deliveryEvents (State.target peer e) msg (s.state.send peer call e msg).1⟩ := by
  rcases inv.deliver_cases (State.target peer e) msg with
    ⟨rx, rest, receivers, delivered⟩ | delivered | ⟨receivers, room, delivered⟩
  · simp only [State.send, delivered, deliveryEvents]
    exact .handed call _ rx rest msg receivers stamp
  · simp only [State.send, delivered, deliveryEvents, List.append_nil]
    exact .idle
  · simp only [State.send, delivered, deliveryEvents]
    exact .queued _ msg receivers room stamp

theorem move_of_step (inv : s.state.Inv) {action : Action Ep Task Call Msg}
    (ran : step peer s action = some t) : Move s t := by
  cases action with
  | send call e msg =>
    cases waking : s.state.waking call with
    | some rx => simp [step, waking] at ran
    | none =>
      simp only [step, waking, Option.some.injEq] at ran
      exact ran ▸ move_of_send inv call e ⟨s.log.length, msg⟩ rfl
  | wake call =>
    cases waking : s.state.waking call with
    | none => simp [step, waking] at ran
    | some rx =>
      have blocked := (inv.waking call rx waking).2.1
      simp only [step, waking, State.wake, blocked, if_true, Option.some.injEq] at ran
      exact ran ▸ .woke call rx waking
  | tryRecv task e =>
    simp only [step] at ran
    split at ran
    next idle =>
      cases queue : s.state.queue e with
      | nil =>
        simp only [State.tryRecv, queue, takenEvents, List.append_nil, Option.some.injEq] at ran
        exact ran ▸ .idle
      | cons msg rest =>
        simp only [State.tryRecv, queue, takenEvents, Option.some.injEq] at ran
        have kept : s.state.receiving = update s.state.receiving task .out :=
          Function.eq_update_iff.mpr ⟨idle.1, fun _ _ => rfl⟩
        have moved : Move s ⟨s.state.dequeue e rest task, _⟩ :=
          .took task e msg rest queue (by simp [idle.1])
        rw [State.dequeue, ← kept] at moved
        exact ran ▸ moved
    next => simp at ran
  | recv task e =>
    simp only [step] at ran
    split at ran
    next idle =>
      cases ran
      exact .entered task e (by simp [idle.1])
    next => simp at ran
  | look task =>
    cases pos : s.state.receiving task with
    | out | asleep => simp [step, pos] at ran
    | entering e =>
      cases queue : s.state.queue e with
      | nil =>
        simp only [step, pos, State.look, queue, takenEvents, List.append_nil,
          Option.some.injEq] at ran
        exact ran ▸ .registered task e queue (by simp [pos])
      | cons msg rest =>
        simp only [step, pos, State.look, queue, takenEvents, Option.some.injEq] at ran
        exact ran ▸ .took task e msg rest queue (by simp [pos])
  | resume task =>
    cases pos : s.state.receiving task with
    | out | entering => simp [step, pos] at ran
    | asleep e =>
      by_cases blocked : s.state.status task = .blocked
      · simp [step, pos, blocked] at ran
      · simp only [step, pos, blocked, if_false, Option.some.injEq] at ran
        exact ran ▸ .resumed task e blocked
  | exit task =>
    simp only [step] at ran
    split at ran
    next idle =>
      cases ran
      exact .exited task idle.1
    next => simp at ran

theorem state_inv_of_move (inv : s.state.Inv) (move : Move s t) : t.state.Inv := by
  cases move with
  | idle => exact inv
  | handed call e rx rest msg receivers _ => exact inv.handTo receivers call msg
  | queued e msg receivers room _ => exact inv.enqueue receivers room msg
  | woke call rx waking => exact inv.wake waking
  | took task e msg rest queue awake => exact inv.dequeue queue awake
  | entered task e awake => exact inv.reposition awake _ (by simp)
  | registered task e queue awake => exact inv.register queue awake
  | resumed task e woken => exact inv.resume woken
  | exited task out => exact inv.exit out

end Moves

/-! ## The log agrees with the state -/

structure Inv (s : System Ep Task Call Msg) : Prop where
  state : s.state.Inv
  order : ∀ e, acceptedAt e s.log = (handedAt e s.log).map Prod.snd ++ s.state.queue e
  given : ∀ task, handedTo task s.log = returnedBy task s.log ++ (s.state.inbox task).toList
  stamps : ∀ a ∈ acceptances s.log, a.2.serial < s.log.length
  accepted_once : ((acceptances s.log).map Prod.snd).Nodup
  handed_once : ((handouts s.log).map (·.2.2)).Nodup
  returned_once : ((returns s.log).map Prod.snd).Nodup

namespace Inv

variable (inv : s.Inv) {e other : Ep} {task who : Task} {msg : Stamped Msg}
include inv

theorem accepted_of_handed (handed : (e, task, msg) ∈ handouts s.log) :
    (e, msg) ∈ acceptances s.log := by
  rw [← mem_acceptedAt, inv.order e]
  exact List.mem_append_left _ (List.mem_map.mpr ⟨(task, msg), mem_handedAt.mpr handed, rfl⟩)

theorem accepted_of_queued (queued : msg ∈ s.state.queue e) : (e, msg) ∈ acceptances s.log := by
  rw [← mem_acceptedAt, inv.order e]
  exact List.mem_append_right _ queued

theorem handed_of_returned (gave : (task, msg) ∈ returns s.log) :
    ∃ e, (e, task, msg) ∈ handouts s.log := by
  rw [← mem_handedTo, inv.given task]
  exact List.mem_append_left _ (mem_returnedBy.mpr gave)

theorem handed_of_inbox (inbox : s.state.inbox task = some msg) :
    ∃ e, (e, task, msg) ∈ handouts s.log := by
  rw [← mem_handedTo, inv.given task]
  exact List.mem_append_right _ (by simp [inbox])

theorem endpoint_unique (one : (e, msg) ∈ acceptances s.log)
    (two : (other, msg) ∈ acceptances s.log) : e = other :=
  congrArg Prod.fst (List.inj_on_of_nodup_map inv.accepted_once one two rfl)

theorem receiver_unique (one : (e, task, msg) ∈ handouts s.log)
    (two : (other, who, msg) ∈ handouts s.log) : task = who :=
  congrArg (·.2.1) (List.inj_on_of_nodup_map inv.handed_once one two rfl)

theorem acceptedAt_nodup (e : Ep) : (acceptedAt e s.log).Nodup :=
  inv.accepted_once.sublist (List.filter_sublist.map Prod.snd)

theorem handedTo_nodup (task : Task) : (handedTo task s.log).Nodup :=
  inv.handed_once.sublist
    (List.filter_sublist.map fun handout : Ep × Task × Stamped Msg => handout.2.2)

theorem not_handed_of_queued (queued : msg ∈ s.state.queue e) :
    (other, task, msg) ∉ handouts s.log := by
  intro handed
  have eq : e = other :=
    inv.endpoint_unique (inv.accepted_of_queued queued) (inv.accepted_of_handed handed)
  subst eq
  have nodup := inv.acceptedAt_nodup e
  rw [inv.order e, List.nodup_append] at nodup
  exact nodup.2.2 msg (List.mem_map.mpr ⟨(task, msg), mem_handedAt.mpr handed, rfl⟩) msg queued rfl

theorem not_returned_of_inbox (inbox : s.state.inbox task = some msg) :
    (who, msg) ∉ returns s.log := by
  intro gave
  obtain ⟨e, handed⟩ := inv.handed_of_inbox inbox
  obtain ⟨other, handed'⟩ := inv.handed_of_returned gave
  have eq := inv.receiver_unique handed handed'
  subst eq
  have nodup := inv.handedTo_nodup task
  rw [inv.given task, List.nodup_append] at nodup
  exact nodup.2.2 msg (mem_returnedBy.mpr gave) msg (by simp [inbox]) rfl

end Inv

theorem inv_new : (new : System Ep Task Call Msg).Inv where
  state := State.inv_new
  order := by simp [new, State.new, acceptedAt, handedAt]
  given := by simp [new, State.new, handedTo, returnedBy]
  stamps := by simp [new]
  accepted_once := by simp [new]
  handed_once := by simp [new]
  returned_once := by simp [new]

theorem Inv.of_same (inv : s.Inv) (state : t.state.Inv) (log : t.log = s.log)
    (queue : t.state.queue = s.state.queue) (inbox : t.state.inbox = s.state.inbox) : t.Inv where
  state := state
  order := by simpa [log, queue] using inv.order
  given := by simpa [log, inbox] using inv.given
  stamps := by simpa [log] using inv.stamps
  accepted_once := by simpa [log] using inv.accepted_once
  handed_once := by simpa [log] using inv.handed_once
  returned_once := by simpa [log] using inv.returned_once

theorem nodup_snoc {Entry : Type*} {entries : List Entry} {entry : Entry}
    (nodup : entries.Nodup) (absent : entry ∉ entries) : (entries ++ [entry]).Nodup := by
  rw [List.nodup_append]
  refine ⟨nodup, List.nodup_singleton entry, fun first one second two eq => ?_⟩
  rw [List.mem_singleton.mp two] at eq
  exact absent (eq ▸ one)

variable {msg : Stamped Msg} {e : Ep}

theorem Inv.unaccepted (inv : s.Inv) (stamp : msg.serial = s.log.length)
    (e : Ep) : (e, msg) ∉ acceptances s.log := fun accepted =>
  absurd stamp (Nat.ne_of_lt (inv.stamps _ accepted))

theorem Inv.accept (inv : s.Inv) (stamp : msg.serial = s.log.length)
    {more : List (Event Ep Task (Stamped Msg))} (only : acceptances more = [(e, msg)]) :
    (∀ a ∈ acceptances (s.log ++ more), a.2.serial < (s.log ++ more).length) ∧
      ((acceptances (s.log ++ more)).map Prod.snd).Nodup := by
  have longer : 0 < more.length := List.length_pos_iff.mpr fun none => by simp [none] at only
  rw [acceptances_append, only, List.length_append]
  refine ⟨fun a accepted => ?_, ?_⟩
  · rcases List.mem_append.mp accepted with was | now
    · exact Nat.lt_add_right _ (inv.stamps a was)
    · rw [List.mem_singleton.mp now, stamp]
      exact Nat.lt_add_of_pos_right longer
  · rw [List.map_append]
    refine nodup_snoc inv.accepted_once fun mem => ?_
    obtain ⟨⟨other, _⟩, accepted, rfl⟩ := List.mem_map.mp mem
    exact inv.unaccepted stamp other accepted

theorem Inv.enqueue (inv : s.Inv)
    (receivers : s.state.receivers e = []) (room : (s.state.queue e).length < QUEUE_LIMIT)
    (stamp : msg.serial = s.log.length) :
    Inv ⟨s.state.enqueue e msg, s.log ++ [.accepted e msg]⟩ where
  state := inv.state.enqueue receivers room msg
  order other := by
    have was := inv.order other
    by_cases eq : other = e
    · subst eq
      simp only [acceptedAt_append, handedAt_append, was]
      simp [State.enqueue, acceptedAt, handedAt]
    · simpa [State.enqueue, acceptedAt, handedAt, eq, Ne.symm eq] using was
  given task := by
    simpa [State.enqueue, handedTo, returnedBy] using inv.given task
  stamps := (inv.accept stamp rfl).1
  accepted_once := (inv.accept stamp rfl).2
  handed_once := by simpa using inv.handed_once
  returned_once := by simpa using inv.returned_once

theorem Inv.handTo [DecidableEq Call] (inv : s.Inv) {call : Call} {rx : Task} {rest : List Task}
    (receivers : s.state.receivers e = rx :: rest) (stamp : msg.serial = s.log.length) :
    Inv ⟨{ s.state.handTo e rx rest msg with
        waking := update s.state.waking call (some rx) },
      s.log ++ [.accepted e msg, .handed e rx msg]⟩ where
  state := inv.state.handTo receivers call msg
  order other := by
    have was := inv.order other
    by_cases eq : other = e
    · subst eq
      have empty : s.state.queue other = [] := by
        by_contra nonempty
        simpa [receivers] using inv.state.exclusive other nonempty
      rw [empty] at was
      simp only [acceptedAt_append, handedAt_append, was]
      simp [State.handTo, empty, acceptedAt, handedAt]
    · simpa [State.handTo, acceptedAt, handedAt, eq, Ne.symm eq] using was
  given task := by
    have was := inv.given task
    by_cases same : task = rx
    · subst same
      have empty := ((inv.state.registered e task).mp (by simp [receivers])).2.2
      rw [empty] at was
      simp only [handedTo_append, returnedBy_append, was]
      simp [State.handTo, handedTo, returnedBy]
    · simpa [State.handTo, handedTo, returnedBy, same, Ne.symm same] using was
  stamps := (inv.accept stamp rfl).1
  accepted_once := (inv.accept stamp rfl).2
  handed_once := by
    rw [handouts_append, List.map_append]
    refine nodup_snoc inv.handed_once fun mem => ?_
    obtain ⟨⟨other, who, _⟩, handed, rfl⟩ := List.mem_map.mp mem
    exact inv.unaccepted stamp other (inv.accepted_of_handed handed)
  returned_once := by simpa using inv.returned_once

theorem Inv.dequeue (inv : s.Inv) {task : Task}
    {rest : List (Stamped Msg)} (queue : s.state.queue e = msg :: rest)
    (awake : ∀ e, s.state.receiving task ≠ .asleep e) :
    Inv ⟨s.state.dequeue e rest task, s.log ++ [.handed e task msg, .returned task msg]⟩ where
  state := inv.state.dequeue queue awake
  order other := by
    have was := inv.order other
    by_cases eq : other = e
    · subst eq
      rw [queue] at was
      simp only [acceptedAt_append, handedAt_append, was]
      simp [State.dequeue, acceptedAt, handedAt]
    · simpa [State.dequeue, acceptedAt, handedAt, eq, Ne.symm eq] using was
  given who := by
    have was := inv.given who
    by_cases same : who = task
    · subst same
      have empty := inv.state.idle who awake
      rw [empty] at was
      simp only [handedTo_append, returnedBy_append, was]
      simp [State.dequeue, empty, handedTo, returnedBy]
    · simpa [State.dequeue, handedTo, returnedBy, same, Ne.symm same] using was
  stamps := by
    intro a accepted
    have was : a ∈ acceptances s.log := by simpa using accepted
    exact Nat.lt_trans (inv.stamps a was) (by simp)
  accepted_once := by simpa using inv.accepted_once
  handed_once := by
    rw [handouts_append, List.map_append]
    refine nodup_snoc inv.handed_once fun mem => ?_
    obtain ⟨⟨other, who, found⟩, handed, same⟩ := List.mem_map.mp mem
    have queued : found ∈ s.state.queue e := queue ▸ List.mem_cons.mpr (.inl same)
    exact inv.not_handed_of_queued queued handed
  returned_once := by
    rw [returns_append, List.map_append]
    refine nodup_snoc inv.returned_once fun mem => ?_
    obtain ⟨⟨who, found⟩, gave, same⟩ := List.mem_map.mp mem
    have queued : found ∈ s.state.queue e := queue ▸ List.mem_cons.mpr (.inl same)
    obtain ⟨other, handed⟩ := inv.handed_of_returned gave
    exact inv.not_handed_of_queued queued handed

theorem Inv.resume (inv : s.Inv) {task : Task} (woken : s.state.status task ≠ .blocked) :
    Inv ⟨(s.state.resume task e).2, s.log ++ resumedEvents task (s.state.inbox task)⟩ := by
  cases inbox : s.state.inbox task with
  | none =>
    have unchanged : update s.state.inbox task none = s.state.inbox :=
      Function.update_eq_iff.mpr ⟨inbox.symm, fun _ _ => rfl⟩
    exact inv.of_same (inv.state.resume woken) (List.append_nil _) rfl unchanged
  | some msg =>
    refine ⟨inv.state.resume woken, ?_, ?_, ?_, ?_, ?_, ?_⟩
    · intro other
      simpa [State.resume, resumedEvents, acceptedAt, handedAt] using inv.order other
    · intro who
      have was := inv.given who
      by_cases eq : who = task
      · subst eq
        rw [inbox] at was
        simp only [handedTo_append, returnedBy_append, was]
        simp [State.resume, resumedEvents, handedTo, returnedBy]
      · simpa [State.resume, resumedEvents, handedTo, returnedBy, eq, Ne.symm eq] using was
    · intro a accepted
      have was : a ∈ acceptances s.log := by
        simpa [resumedEvents] using accepted
      exact Nat.lt_trans (inv.stamps a was) (by simp [resumedEvents])
    · simpa [resumedEvents] using inv.accepted_once
    · simpa [resumedEvents] using inv.handed_once
    · rw [returns_append, List.map_append]
      refine nodup_snoc inv.returned_once fun mem => ?_
      obtain ⟨⟨who, _⟩, gave, rfl⟩ := List.mem_map.mp mem
      exact inv.not_returned_of_inbox inbox gave

theorem Inv.move [DecidableEq Call] (inv : s.Inv) (move : Move s t) : t.Inv := by
  have state := state_inv_of_move inv.state move
  cases move with
  | idle => exact inv
  | handed call e rx rest msg receivers stamp => exact inv.handTo receivers stamp
  | queued e msg receivers room stamp => exact inv.enqueue receivers room stamp
  | took task e msg rest queue awake => exact inv.dequeue queue awake
  | resumed task e woken => exact inv.resume woken
  | registered task e queue awake =>
    have unchanged : update s.state.inbox task none = s.state.inbox :=
      Function.update_eq_iff.mpr ⟨(inv.state.idle task awake).symm, fun _ _ => rfl⟩
    exact inv.of_same state rfl rfl unchanged
  | woke | entered | exited => exact inv.of_same state rfl rfl rfl

theorem inv_of_reaches [DecidableEq Call] {actions : List (Action Ep Task Call Msg)}
    (reached : Reaches peer actions s) : s.Inv :=
  reached.invariant Inv inv_new fun _ _ _ inv ran => inv.move (move_of_step inv.state ran)

/-! ## One place for every message -/

inductive Place (Ep Task : Type*) where
  | queue (e : Ep)
  | inbox (task : Task)
  | returned (task : Task)

def At (s : System Ep Task Call Msg) (msg : Stamped Msg) : Place Ep Task → Prop
  | .queue e => msg ∈ s.state.queue e
  | .inbox task => s.state.inbox task = some msg
  | .returned task => (task, msg) ∈ returns s.log

theorem Inv.exists_place (inv : s.Inv)
    (accepted : msg ∈ acceptedAt e s.log) : ∃ place, s.At msg place := by
  rw [inv.order e] at accepted
  rcases List.mem_append.mp accepted with handed | queued
  · obtain ⟨⟨task, _⟩, mem, rfl⟩ := List.mem_map.mp handed
    have given := mem_handedTo.mpr ⟨e, mem_handedAt.mp mem⟩
    rw [inv.given task] at given
    rcases List.mem_append.mp given with gave | kept
    · exact ⟨.returned task, mem_returnedBy.mp gave⟩
    · exact ⟨.inbox task, by simpa [At] using kept⟩
  · exact ⟨.queue e, queued⟩

theorem Inv.place_unique (inv : s.Inv) {first second : Place Ep Task}
    (one : s.At msg first) (two : s.At msg second) : first = second := by
  -- An inbox or a return names the task the message was handed to; a queue excludes both.
  cases first with
  | queue e =>
    cases second with
    | queue other =>
      rw [inv.endpoint_unique (inv.accepted_of_queued one) (inv.accepted_of_queued two)]
    | inbox task =>
      obtain ⟨other, handed⟩ := inv.handed_of_inbox two
      exact absurd handed (inv.not_handed_of_queued one)
    | returned task =>
      obtain ⟨other, handed⟩ := inv.handed_of_returned two
      exact absurd handed (inv.not_handed_of_queued one)
  | inbox task =>
    obtain ⟨e, handed⟩ := inv.handed_of_inbox one
    cases second with
    | queue other => exact absurd handed (inv.not_handed_of_queued two)
    | inbox who =>
      obtain ⟨other, handed'⟩ := inv.handed_of_inbox two
      rw [inv.receiver_unique handed handed']
    | returned who => exact absurd two (inv.not_returned_of_inbox one)
  | returned task =>
    obtain ⟨e, handed⟩ := inv.handed_of_returned one
    cases second with
    | queue other => exact absurd handed (inv.not_handed_of_queued two)
    | inbox who => exact absurd one (inv.not_returned_of_inbox two)
    | returned who =>
      obtain ⟨other, handed'⟩ := inv.handed_of_returned two
      rw [inv.receiver_unique handed handed']

theorem Inv.handed_here (inv : s.Inv) {task : Task} (accepted : msg ∈ acceptedAt e s.log)
    (held : s.At msg (.inbox task) ∨ s.At msg (.returned task)) :
    (task, msg) ∈ handedAt e s.log := by
  have handed : ∃ other, (other, task, msg) ∈ handouts s.log := by
    rcases held with inbox | returned
    · exact inv.handed_of_inbox inbox
    · exact inv.handed_of_returned returned
  obtain ⟨other, mem⟩ := handed
  have eq :=
    inv.endpoint_unique (mem_acceptedAt.mp accepted) (inv.accepted_of_handed mem)
  exact mem_handedAt.mpr (eq ▸ mem)

theorem Inv.queue_nodup (inv : s.Inv) (e : Ep) : (s.state.queue e).Nodup := by
  have nodup := inv.acceptedAt_nodup e
  rw [inv.order e, List.nodup_append] at nodup
  exact nodup.2.1

variable [DecidableEq Call]

/-- After every run: queues and receiver lists exclude each other and queues stay bounded; a
registered receiver is registered once, blocked in `recv` with an empty inbox; every accepted
message is in exactly one place and messages leave in order; and a send to a full queue changes
nothing. -/
theorem ipc_delivery (peer : Ep → Option Ep) {actions : List (Action Ep Task Call Msg)}
    (reached : Reaches peer actions s) :
    (∀ e, (s.state.queue e ≠ [] → s.state.receivers e = []) ∧
      (s.state.queue e).length ≤ QUEUE_LIMIT) ∧
    (∀ e, (s.state.receivers e).Nodup ∧ ∀ task ∈ s.state.receivers e,
      (∀ other, other ≠ e → task ∉ s.state.receivers other) ∧
      s.state.status task = .blocked ∧ s.state.receiving task = .asleep e ∧
      s.state.inbox task = none) ∧
    (∀ e, acceptedAt e s.log = (handedAt e s.log).map Prod.snd ++ s.state.queue e) ∧
    (∀ e, ∀ msg ∈ acceptedAt e s.log, (∃! place, s.At msg place) ∧
      (∀ other, s.At msg (.queue other) → other = e) ∧
      ∀ task, s.At msg (.inbox task) ∨ s.At msg (.returned task) → (task, msg) ∈ handedAt e s.log) ∧
    (∀ e, (s.state.queue e).Nodup) ∧ ((returns s.log).map Prod.snd).Nodup ∧
    ∀ call e msg, (s.state.send peer call e msg).1.result = .error .queueFull →
      (s.state.send peer call e msg).2 = s.state := by
  have inv := inv_of_reaches reached
  refine ⟨fun e => ⟨inv.state.exclusive e, inv.state.bounded e⟩, fun e => ⟨inv.state.nodup e, ?_⟩,
    inv.order, ?_, inv.queue_nodup, inv.returned_once, ?_⟩
  · intro task mem
    obtain ⟨asleep, blocked, empty⟩ := (inv.state.registered e task).mp mem
    refine ⟨fun other ne elsewhere => ne ?_, blocked, asleep, empty⟩
    have there := ((inv.state.registered other task).mp elsewhere).1
    simpa [asleep] using there.symm
  · intro e msg accepted
    refine ⟨?_, ?_, fun task => inv.handed_here accepted⟩
    · obtain ⟨place, here⟩ := inv.exists_place accepted
      exact ⟨place, here, fun other there => inv.place_unique there here⟩
    · intro other queued
      exact inv.endpoint_unique (inv.accepted_of_queued queued) (mem_acceptedAt.mp accepted)
  · intro call e msg refused
    rcases inv.state.deliver_cases (State.target peer e) msg with
      ⟨rx, rest, -, delivered⟩ | delivered | ⟨-, -, delivered⟩
    · simp [State.send, delivered, Delivery.result] at refused
    · simp [State.send, delivered]
    · simp [State.send, delivered, Delivery.result] at refused

theorem ipc_delivery_through_a_pair : ∃ s : System (Fin 2) (Fin 1) (Fin 1) Nat,
    Reaches (fun e => some (1 - e))
      [.recv 0 1, .look 0, .send 0 0 7, .wake 0, .resume 0, .send 0 0 8] s ∧
    s.state.queue 1 = [⟨3, 8⟩] ∧
    acceptedAt 1 s.log = (handedAt 1 s.log).map Prod.snd ++ s.state.queue 1 ∧
    ∃! place, s.At ⟨0, 7⟩ place := by
  have reached : Reaches (fun e => some (1 - e))
      ([.recv 0 1, .look 0, .send 0 0 7, .wake 0, .resume 0, .send 0 0 8] :
        List (Action (Fin 2) (Fin 1) (Fin 1) Nat)) _ := Lib.run_of_replay rfl
  obtain ⟨-, -, order, place, -⟩ := ipc_delivery _ reached
  exact ⟨_, reached, rfl, order 1, (place 1 ⟨0, 7⟩ (by decide)).1⟩

end System

end K1K.Ipc
