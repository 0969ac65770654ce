import K1K.Lib.Run

/-!
# Notifications

`kernel/src/notify.rs` as a transition system. One step is one locked section, one atomic
counter update, or one call of `sched::wake`. Calls of `signal` are named apart from tasks, as
interrupt handlers signal too. A task that is `asleep` looks again once it is runnable. The
counters are 64-bit words that wrap; `pending` has 32 bits and saturates.
-/

namespace K1K.Notify

inductive Wait where
  | one
  | poll
  | all
  deriving DecidableEq, Repr

inductive Waiting where
  | out
  | entering (mode : Wait)
  | asleep (mode : Wait)
  | took (n : Nat)
  deriving DecidableEq, Repr

/-- Where a call is inside `signal`: the `signals` counter has been raised, or
the locked section is over and these tasks are still to be woken. -/
inductive Signalling (Task : Type*) where
  | out
  | counted (n : Nat)
  | waking (wake : List Task)
  deriving DecidableEq, Repr

namespace Waiting

def isAsleep : Waiting → Bool
  | .asleep _ => true
  | _ => false

def uncounted : Waiting → Nat
  | .took n => n
  | _ => 0

@[simp] theorem isAsleep_out : Waiting.out.isAsleep = false := rfl
@[simp] theorem isAsleep_entering (mode : Wait) : (entering mode).isAsleep = false := rfl
@[simp] theorem isAsleep_asleep (mode : Wait) : (asleep mode).isAsleep = true := rfl
@[simp] theorem isAsleep_took (n : Nat) : (took n).isAsleep = false := rfl
@[simp] theorem uncounted_out : Waiting.out.uncounted = 0 := rfl
@[simp] theorem uncounted_entering (mode : Wait) : (entering mode).uncounted = 0 := rfl
@[simp] theorem uncounted_asleep (mode : Wait) : (asleep mode).uncounted = 0 := rfl
@[simp] theorem uncounted_took (n : Nat) : (took n).uncounted = n := rfl

end Waiting

namespace Signalling

variable {Task : Type*}

def wakeList : Signalling Task → List Task
  | .waking wake => wake
  | _ => []

def unrecorded : Signalling Task → Nat
  | .counted n => n
  | _ => 0

@[simp] theorem wakeList_out : (out : Signalling Task).wakeList = [] := rfl
@[simp] theorem wakeList_counted (n : Nat) : (counted n : Signalling Task).wakeList = [] := rfl
@[simp] theorem wakeList_waking (wake : List Task) : (waking wake).wakeList = wake := rfl
@[simp] theorem unrecorded_out : (out : Signalling Task).unrecorded = 0 := rfl
@[simp] theorem unrecorded_counted (n : Nat) : (counted n : Signalling Task).unrecorded = n := rfl
@[simp] theorem unrecorded_waking (wake : List Task) : (waking wake).unrecorded = 0 := rfl

end Signalling

def U32_MAX : Nat := 4294967295

structure State (Task Call : Type*) where
  pending : Nat
  waiters : List Task
  signals : BitVec 64
  waits : BitVec 64
  saturated : BitVec 64
  blocked : Task → Bool
  waiting : Task → Waiting
  signalling : Call → Signalling Task

inductive Action (Task Call : Type*) where
  | signal (call : Call) (count : Nat)
  | lock (call : Call)
  | wake (call : Call)
  | wait (task : Task) (mode : Wait)
  | look (task : Task)
  | count (task : Task)

variable {Task Call : Type*}

def State.new : State Task Call where
  pending := 0
  waiters := []
  signals := 0
  waits := 0
  saturated := 0
  blocked _ := false
  waiting _ := .out
  signalling _ := .out

/-- The loop of `signal` under the lock: at most `count` waiters, skipping those no longer
blocked. Returns the tasks to wake and the waiters that stay. -/
def pickWaiters (blocked : Task → Bool) (count : Nat) :
    List Task → List Task → List Task × List Task
  | [], wake => (wake, [])
  | id :: rest, wake =>
    if wake.length < count then
      if blocked id then pickWaiters blocked count rest (wake ++ [id])
      else pickWaiters blocked count rest wake
    else (wake, id :: rest)

namespace State

variable [DecidableEq Task] [DecidableEq Call]

def lockedSignal (s : State Task Call) (call : Call) (count : Nat) : State Task Call :=
  let room := U32_MAX - s.pending
  let picked := pickWaiters s.blocked count s.waiters []
  { s with
    saturated :=
      if count > room then s.saturated + BitVec.ofNat 64 (count - room) else s.saturated
    pending := min (s.pending + count) U32_MAX
    waiters := picked.2
    signalling := Function.update s.signalling call (.waking picked.1) }

/-- The locked section of `wait`: take signals, give up, or register and
block. -/
def lockedWait (s : State Task Call) (task : Task) (mode : Wait) : State Task Call :=
  if s.pending > 0 then
    let taken := match mode with
      | .all => s.pending
      | .one | .poll => 1
    { s with
      pending := s.pending - taken
      waiting := Function.update s.waiting task (.took taken) }
  else if mode = .poll then
    { s with waiting := Function.update s.waiting task .out }
  else
    { s with
      waiters := s.waiters ++ [task]
      blocked := Function.update s.blocked task true
      waiting := Function.update s.waiting task (.asleep mode) }

/-- One step. `none` where the action does not apply in this state. -/
def step (s : State Task Call) : Action Task Call → Option (State Task Call)
  | .signal call count =>
    match s.signalling call with
    | .out =>
      if count ≤ U32_MAX then
        let count := max count 1
        some { s with
          signals := s.signals + BitVec.ofNat 64 count
          signalling := Function.update s.signalling call (.counted count) }
      else none
    | _ => none
  | .lock call =>
    match s.signalling call with
    | .counted count => some (s.lockedSignal call count)
    | _ => none
  | .wake call =>
    match s.signalling call with
    | .waking (id :: rest) =>
      some { s with
        blocked := Function.update s.blocked id false
        signalling := Function.update s.signalling call (.waking rest) }
    | .waking [] => some { s with signalling := Function.update s.signalling call .out }
    | _ => none
  | .wait task mode =>
    match s.waiting task with
    | .out =>
      if s.blocked task then none
      else some { s with waiting := Function.update s.waiting task (.entering mode) }
    | _ => none
  | .look task =>
    match s.waiting task with
    | .entering mode => some (s.lockedWait task mode)
    | .asleep mode => if s.blocked task then none else some (s.lockedWait task mode)
    | _ => none
  | .count task =>
    match s.waiting task with
    | .took n =>
      some { s with
        waits := s.waits + BitVec.ofNat 64 n
        waiting := Function.update s.waiting task .out }
    | _ => none

def Reaches (actions : List (Action Task Call)) (s : State Task Call) : Prop :=
  Lib.Run (fun s a t => s.step a = some t) new actions s

/-- No call is between its locked section and its counter update: no signal is
counted and not yet recorded, or taken and not yet counted. -/
def Settled (s : State Task Call) : Prop :=
  (∀ call, (s.signalling call).unrecorded = 0) ∧ ∀ task, (s.waiting task).uncounted = 0

def BlockedInWait (s : State Task Call) (task : Task) : Prop :=
  (s.waiting task).isAsleep = true ∧ s.blocked task = true

def Picked (s : State Task Call) (task : Task) : Prop :=
  ∃ call, task ∈ (s.signalling call).wakeList

def Woken (s : State Task Call) (task : Task) : Prop :=
  s.Picked task ∨ (s.waiting task).isAsleep = true ∧ s.blocked task = false

end State

/-! ## Picking waiters -/

/-- With every waiter blocked, `pickWaiters` takes a front of the list, all of
it or exactly as much as was asked for. -/
theorem pickWaiters_spec {blocked : Task → Bool} {count : Nat} (waiters wake : List Task)
    (allBlocked : ∀ t ∈ waiters, blocked t = true) (room : wake.length ≤ count) :
    ∃ front back, waiters = front ++ back ∧
      pickWaiters blocked count waiters wake = (wake ++ front, back) ∧
      (back ≠ [] → wake.length + front.length = count) := by
  induction waiters generalizing wake with
  | nil => exact ⟨[], [], rfl, by simp [pickWaiters], by simp⟩
  | cons id rest ih =>
    by_cases more : wake.length < count
    · rcases ih (wake ++ [id])
          (fun t mem => allBlocked t (List.mem_cons_of_mem _ mem))
          (by simpa [Nat.succ_le_iff] using more) with ⟨front, back, split, picked, full⟩
      refine ⟨id :: front, back, by simp [split], ?_, ?_⟩
      · simp [pickWaiters, more, allBlocked id (by simp), picked]
      intro left
      have counted := full left
      simp only [List.length_append, List.length_singleton] at counted
      simp only [List.length_cons]
      omega
    · exact ⟨[], id :: rest, rfl, by simp [pickWaiters, more], fun _ => by simp; omega⟩

end K1K.Notify
