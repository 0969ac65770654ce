import K1K.Ipc.Endpoint

/-!
# Queues, receivers and inboxes

What each locked section does in a state with the invariant: a registered receiver is a task
blocked in `recv` with an empty inbox, and conversely; one with a message and a wake-up under
way is registered nowhere.
-/

namespace K1K.Ipc.State

open Function (update update_self)

variable {Ep Task Call Msg : Type*}

structure Inv (s : State Ep Task Call Msg) : Prop where
  nodup : ∀ e, (s.receivers e).Nodup
  registered : ∀ e task, task ∈ s.receivers e ↔
    s.receiving task = .asleep e ∧ s.status task = .blocked ∧ s.inbox task = none
  idle : ∀ task, (∀ e, s.receiving task ≠ .asleep e) → s.inbox task = none
  waking : ∀ call rx, s.waking call = some rx →
    (∃ e, s.receiving rx = .asleep e) ∧ s.status rx = .blocked ∧ s.inbox rx ≠ none
  distinct : ∀ call other rx, s.waking call = some rx → s.waking other = some rx → call = other
  exclusive : ∀ e, s.queue e ≠ [] → s.receivers e = []
  bounded : ∀ e, (s.queue e).length ≤ QUEUE_LIMIT

variable {s : State Ep Task Call Msg}

theorem inv_new : (new : State Ep Task Call Msg).Inv := by
  constructor <;> simp [new]

variable [DecidableEq Ep] [DecidableEq Task]

def handTo (s : State Ep Task Call Msg) (e : Ep) (rx : Task) (rest : List Task) (msg : Msg) :
    State Ep Task Call Msg :=
  { s with
    receivers := update s.receivers e rest
    inbox := update s.inbox rx (some msg) }

def enqueue (s : State Ep Task Call Msg) (e : Ep) (msg : Msg) : State Ep Task Call Msg :=
  { s with queue := update s.queue e (s.queue e ++ [msg]) }

/-- With the invariant, `deliver` hands the message to the first receiver, or
finds the queue full and changes nothing, or queues the message. -/
theorem Inv.deliver_cases (inv : s.Inv) (e : Ep) (msg : Msg) :
    (∃ rx rest, s.receivers e = rx :: rest ∧
      s.deliver e msg = (.handed rx, s.handTo e rx rest msg)) ∨ s.deliver e msg = (.full, s) ∨
    s.receivers e = [] ∧ (s.queue e).length < QUEUE_LIMIT ∧
      s.deliver e msg = (.queued, s.enqueue e msg) := by
  cases receivers : s.receivers e with
  | cons rx rest =>
    left
    have blocked := ((inv.registered e rx).mp (by simp [receivers])).2.1
    exact ⟨rx, rest, rfl, by simp [deliver, receivers, pickReceiver, blocked, handTo]⟩
  | nil =>
    have unchanged : update s.receivers e [] = s.receivers :=
      Function.update_eq_iff.mpr ⟨receivers.symm, fun _ _ => rfl⟩
    by_cases full : (s.queue e).length ≥ QUEUE_LIMIT
    · exact .inr (.inl (by simp [deliver, receivers, pickReceiver, full, unchanged]))
    · exact .inr (.inr ⟨rfl, Nat.lt_of_not_ge full,
        by simp [deliver, receivers, pickReceiver, full, unchanged, enqueue]⟩)

theorem Inv.handTo [DecidableEq Call] (inv : s.Inv) {e : Ep} {rx : Task} {rest : List Task}
    (receivers : s.receivers e = rx :: rest) (call : Call) (msg : Msg) :
    Inv { s.handTo e rx rest msg with waking := update s.waking call (some rx) } := by
  have rxFacts := (inv.registered e rx).mp (by simp [receivers])
  have parts := List.nodup_cons.mp (receivers ▸ inv.nodup e)
  have empty : s.queue e = [] := by
    by_contra nonempty
    simpa [receivers] using inv.exclusive e nonempty
  -- A wake-up under way belongs to a task with a full inbox, so never to `rx`.
  have fresh : ∀ other, s.waking other ≠ some rx := fun other waking =>
    (inv.waking other rx waking).2.2 rxFacts.2.2
  constructor
  · intro other
    by_cases eq : other = e
    · subst eq; simpa [State.handTo] using parts.2
    · simpa [State.handTo, eq] using inv.nodup other
  · intro other task
    have was := inv.registered other task
    by_cases same : task = rx
    · subst same
      by_cases eq : other = e
      · subst eq; simp [State.handTo, parts.1]
      · have elsewhere : task ∉ s.receivers other := fun mem => eq (by
          simpa [rxFacts.1] using (was.mp mem).1.symm)
        simp [State.handTo, eq, elsewhere]
    · by_cases eq : other = e
      · subst eq
        rw [receivers] at was
        simpa [State.handTo, same] using was
      · simpa [State.handTo, eq, same] using was
  · intro task awake
    have ne : task ≠ rx := fun eq => awake e (eq ▸ rxFacts.1)
    simpa [State.handTo, ne] using inv.idle task awake
  · intro other task waking
    by_cases eq : other = call
    · subst eq
      have same : rx = task := by simpa using waking
      subst same
      exact ⟨⟨e, rxFacts.1⟩, rxFacts.2.1, by simp [State.handTo]⟩
    · have was : s.waking other = some task := by simpa [eq] using waking
      have ne : task ≠ rx := fun same => fresh other (same ▸ was)
      simpa [State.handTo, ne] using inv.waking other task was
  · intro first second task one two
    by_cases eq : first = call <;> by_cases eq' : second = call
    · exact eq.trans eq'.symm
    · subst eq
      have same : rx = task := by simpa using one
      subst same
      exact absurd (by simpa [eq'] using two) (fresh second)
    · subst eq'
      have same : rx = task := by simpa using two
      subst same
      exact absurd (by simpa [eq] using one) (fresh first)
    · exact inv.distinct first second task (by simpa [eq] using one) (by simpa [eq'] using two)
  · intro other nonempty
    have ne : other ≠ e := fun eq => nonempty (eq ▸ empty)
    simpa [State.handTo, ne] using inv.exclusive other nonempty
  · exact inv.bounded

omit [DecidableEq Task] in
theorem Inv.enqueue (inv : s.Inv) {e : Ep} (receivers : s.receivers e = [])
    (room : (s.queue e).length < QUEUE_LIMIT) (msg : Msg) : (s.enqueue e msg).Inv := by
  refine ⟨inv.nodup, inv.registered, inv.idle, inv.waking, inv.distinct, ?_, ?_⟩
  · intro other nonempty
    by_cases eq : other = e
    · subst eq; exact receivers
    · exact inv.exclusive other (by simpa [State.enqueue, eq] using nonempty)
  · intro other
    by_cases eq : other = e
    · subst eq; simpa [State.enqueue, Nat.succ_le_iff] using room
    · simpa [State.enqueue, eq] using inv.bounded other

/-- The state after a message has left the front of a queue for a task that is
not asleep. -/
def dequeue (s : State Ep Task Call Msg) (e : Ep) (rest : List Msg) (task : Task) :
    State Ep Task Call Msg :=
  { s with
    queue := update s.queue e rest
    receiving := update s.receiving task .out }

omit [DecidableEq Ep] in
theorem Inv.reposition (inv : s.Inv) {task : Task} (awake : ∀ e, s.receiving task ≠ .asleep e)
    (pos : Receiving Ep) (stays : ∀ e, pos ≠ .asleep e) :
    Inv { s with receiving := update s.receiving task pos } := by
  refine ⟨inv.nodup, ?_, ?_, ?_, inv.distinct, inv.exclusive, inv.bounded⟩
  · intro e other
    refine (inv.registered e other).trans ?_
    by_cases eq : other = task
    · subst eq; simp [awake e, stays e]
    · simp [eq]
  · intro other sleepless
    by_cases eq : other = task
    · subst eq; exact inv.idle other awake
    · exact inv.idle other (by simpa [eq] using sleepless)
  · intro call rx waking
    obtain ⟨⟨e, asleep⟩, facts⟩ := inv.waking call rx waking
    have ne : rx ≠ task := fun eq => awake e (eq ▸ asleep)
    exact ⟨⟨e, by simpa [ne] using asleep⟩, facts⟩

theorem Inv.dequeue (inv : s.Inv) {e : Ep} {msg : Msg} {rest : List Msg} {task : Task}
    (queue : s.queue e = msg :: rest) (awake : ∀ e, s.receiving task ≠ .asleep e) :
    (s.dequeue e rest task).Inv := by
  have moved := inv.reposition awake .out (by simp)
  refine ⟨moved.nodup, moved.registered, moved.idle, moved.waking, moved.distinct, ?_, ?_⟩
  · intro other nonempty
    by_cases eq : other = e
    · subst eq; exact inv.exclusive other (by simp [queue])
    · exact inv.exclusive other (by simpa [State.dequeue, eq] using nonempty)
  · intro other
    by_cases eq : other = e
    · subst eq
      have was := inv.bounded other
      rw [queue] at was
      simpa [State.dequeue] using Nat.le_of_succ_le was
    · simpa [State.dequeue, eq] using inv.bounded other

/-- The state after a task has found nothing at `e`, registered and blocked. -/
def register (s : State Ep Task Call Msg) (e : Ep) (task : Task) : State Ep Task Call Msg :=
  { s with
    receivers := update s.receivers e (s.receivers e ++ [task])
    inbox := update s.inbox task none
    status := update s.status task .blocked
    receiving := update s.receiving task (.asleep e) }

theorem Inv.register (inv : s.Inv) {e : Ep} {task : Task} (queue : s.queue e = [])
    (awake : ∀ e, s.receiving task ≠ .asleep e) : (s.register e task).Inv := by
  have absent : ∀ other, task ∉ s.receivers other := fun other mem =>
    awake other ((inv.registered other task).mp mem).1
  have unwoken : ∀ call, s.waking call ≠ some task := fun call waking => by
    obtain ⟨other, asleep⟩ := (inv.waking call task waking).1
    exact awake other asleep
  constructor
  · intro other
    by_cases eq : other = e
    · subst eq
      simp only [State.register, update_self]
      rw [List.nodup_append]
      refine ⟨inv.nodup other, List.nodup_singleton task, fun first one second two same => ?_⟩
      rw [List.mem_singleton.mp two] at same
      exact absent other (same ▸ one)
    · simpa [State.register, eq] using inv.nodup other
  · intro other who
    have was := inv.registered other who
    by_cases same : who = task
    · subst same
      by_cases eq : other = e
      · subst eq; simp [State.register]
      · simpa [State.register, eq, absent other] using Ne.symm eq
    · by_cases eq : other = e
      · subst eq; simpa [State.register, same] using was
      · simpa [State.register, eq, same] using was
  · intro who sleepless
    by_cases same : who = task
    · subst same; simp [State.register]
    · simpa [State.register, same] using inv.idle who (by
        simpa [State.register, same] using sleepless)
  · intro call rx waking
    have ne : rx ≠ task := fun same => unwoken call (same ▸ waking)
    simpa [State.register, ne] using inv.waking call rx waking
  · exact inv.distinct
  · intro other nonempty
    have ne : other ≠ e := fun eq => nonempty (eq ▸ queue)
    simpa [State.register, ne] using inv.exclusive other nonempty
  · exact inv.bounded

omit [DecidableEq Ep] in
theorem Inv.resume (inv : s.Inv) {e : Ep} {task : Task} (woken : s.status task ≠ .blocked) :
    (s.resume task e).2.Inv := by
  refine ⟨inv.nodup, ?_, ?_, ?_, inv.distinct, inv.exclusive, inv.bounded⟩
  · intro other who
    refine (inv.registered other who).trans ?_
    by_cases eq : who = task
    · subst eq; simp [State.resume, woken]
    · simp [State.resume, eq]
  · intro who sleepless
    by_cases eq : who = task
    · subst eq; simp [State.resume]
    · simpa [State.resume, eq] using inv.idle who (by
        simpa [State.resume, eq] using sleepless)
  · intro call rx waking
    have facts := inv.waking call rx waking
    have ne : rx ≠ task := fun eq => woken (eq ▸ facts.2.1)
    simpa [State.resume, ne] using facts

omit [DecidableEq Ep] in
theorem Inv.wake [DecidableEq Call] (inv : s.Inv) {call : Call} {rx : Task}
    (waking : s.waking call = some rx) :
    Inv { s with
      status := update s.status rx .runnable
      waking := update s.waking call none } := by
  have facts := inv.waking call rx waking
  refine ⟨inv.nodup, ?_, inv.idle, ?_, ?_, inv.exclusive, inv.bounded⟩
  · intro e who
    refine (inv.registered e who).trans ?_
    by_cases same : who = rx
    · subst same; simp [facts.2.2]
    · simp [same]
  · intro other who pending
    have ne : other ≠ call := fun eq => by simp [eq] at pending
    have was : s.waking other = some who := by simpa [ne] using pending
    have apart : who ≠ rx := fun same => ne (inv.distinct other call rx (same ▸ was) waking)
    simpa [apart] using inv.waking other who was
  · intro first second who one two
    have ne : first ≠ call := fun eq => by simp [eq] at one
    have ne' : second ≠ call := fun eq => by simp [eq] at two
    exact inv.distinct first second who (by simpa [ne] using one) (by simpa [ne'] using two)

omit [DecidableEq Ep] in
theorem Inv.exit (inv : s.Inv) {task : Task} (out : s.receiving task = .out) :
    Inv { s with status := update s.status task .gone } := by
  refine ⟨inv.nodup, ?_, inv.idle, ?_, inv.distinct, inv.exclusive, inv.bounded⟩
  · intro e who
    refine (inv.registered e who).trans ?_
    by_cases eq : who = task
    · subst eq; simp [out]
    · simp [eq]
  · intro call rx waking
    obtain ⟨⟨e, asleep⟩, blocked, full⟩ := inv.waking call rx waking
    have ne : rx ≠ task := fun eq => by simp [eq, out] at asleep
    exact ⟨⟨e, asleep⟩, by simpa [ne] using blocked, full⟩

end K1K.Ipc.State
