import K1K.Lib.Run
import K1K.Obj.CapTable

/-!
# Endpoints

`kernel/src/ipc/mod.rs` as a transition system, generic in what is sent. One step is one section
under an endpoint's lock, or one call of `sched::wake`.

Sends are named by their call, as interrupt handlers send too. A task in `recv` is `entering`
before its locked section and `asleep` once registered. `peer` gives the other half of a
connected pair.
-/

namespace K1K.Ipc

open Function (update)

def MSG_WORDS : Nat := 4

def QUEUE_LIMIT : Nat := 64

structure Message (Task : Type*) where
  sender : Task
  words : Fin MSG_WORDS → BitVec 64
  cap : Option Obj.Capability

inductive IpcError where
  | queueFull
  deriving DecidableEq, Repr

/-- What the endpoint code can see of a task: it runs or can run, it is blocked,
or the task table does not have it any more. -/
inductive Status where
  | runnable
  | blocked
  | gone
  deriving DecidableEq, Repr

inductive Receiving (Ep : Type*) where
  | out
  | entering (e : Ep)
  | asleep (e : Ep)
  deriving DecidableEq, Repr

structure State (Ep Task Call Msg : Type*) where
  queue : Ep → List Msg
  receivers : Ep → List Task
  status : Task → Status
  inbox : Task → Option Msg
  receiving : Task → Receiving Ep
  waking : Call → Option Task

inductive Delivery (Task : Type*) where
  | handed (rx : Task)
  | queued
  | full
  deriving DecidableEq, Repr

def Delivery.result {Task : Type*} : Delivery Task → Except IpcError Unit
  | .handed _ => .ok ()
  | .queued => .ok ()
  | .full => .error .queueFull

/-- The loop of `deliver`: the first registered receiver that is still blocked takes the message.
One that the task table no longer has ends the loop, as `with_task` then reports nothing left
over. -/
def pickReceiver {Task : Type*} (status : Task → Status) :
    List Task → Option (Task × List Task)
  | [] => none
  | rx :: rest =>
    match status rx with
    | .blocked => some (rx, rest)
    | .gone => some (rx, rest)
    | .runnable => pickReceiver status rest

namespace State

variable {Ep Task Call Msg : Type*}

def new : State Ep Task Call Msg where
  queue _ := []
  receivers _ := []
  status _ := .runnable
  inbox _ := none
  receiving _ := .out
  waking _ := none

variable [DecidableEq Ep] [DecidableEq Task] [DecidableEq Call]

def deliver (s : State Ep Task Call Msg) (e : Ep) (msg : Msg) :
    Delivery Task × State Ep Task Call Msg :=
  match pickReceiver s.status (s.receivers e) with
  | some (rx, rest) =>
    (.handed rx, { s with
      receivers := update s.receivers e rest
      inbox :=
        if s.status rx = .blocked then update s.inbox rx (some msg) else s.inbox })
  | none =>
    let s := { s with receivers := update s.receivers e [] }
    if (s.queue e).length ≥ QUEUE_LIMIT then (.full, s)
    else (.queued, { s with queue := update s.queue e (s.queue e ++ [msg]) })

def target (peer : Ep → Option Ep) (e : Ep) : Ep := (peer e).getD e

def send (peer : Ep → Option Ep) (s : State Ep Task Call Msg) (call : Call) (e : Ep)
    (msg : Msg) : Delivery Task × State Ep Task Call Msg :=
  match s.deliver (target peer e) msg with
  | (.handed rx, s) => (.handed rx, { s with waking := update s.waking call (some rx) })
  | (.queued, s) => (.queued, s)
  | (.full, s) => (.full, s)

def wake (s : State Ep Task Call Msg) (id : Task) : State Ep Task Call Msg :=
  if s.status id = .blocked then
    { s with status := update s.status id .runnable }
  else s

def tryRecv (s : State Ep Task Call Msg) (e : Ep) : Option Msg × State Ep Task Call Msg :=
  match s.queue e with
  | msg :: rest => (some msg, { s with queue := update s.queue e rest })
  | [] => (none, s)

/-- The locked section of `recv`: take a message, or register and block. -/
def look (s : State Ep Task Call Msg) (task : Task) (e : Ep) :
    Option Msg × State Ep Task Call Msg :=
  match s.queue e with
  | msg :: rest =>
    (some msg, { s with
      queue := update s.queue e rest
      receiving := update s.receiving task .out })
  | [] =>
    (none, { s with
      receivers := update s.receivers e (s.receivers e ++ [task])
      inbox := update s.inbox task none
      status := update s.status task .blocked
      receiving := update s.receiving task (.asleep e) })

/-- `recv` after `schedule` has come back: take the inbox, or go round again. -/
def resume (s : State Ep Task Call Msg) (task : Task) (e : Ep) :
    Option Msg × State Ep Task Call Msg :=
  (s.inbox task, { s with
    inbox := update s.inbox task none
    receiving := update s.receiving task
      (if (s.inbox task).isSome then .out else .entering e) })

end State

/-! ## Runs

A run is recorded as a log. Messages are stamped with their place in it when
their send is accepted, so that two sends of equal contents stay apart. -/

structure Stamped (Msg : Type*) where
  serial : Nat
  msg : Msg
  deriving DecidableEq

inductive Event (Ep Task Msg : Type*) where
  | accepted (e : Ep) (msg : Msg)
  | handed (e : Ep) (task : Task) (msg : Msg)
  | returned (task : Task) (msg : Msg)

inductive Action (Ep Task Call Msg : Type*) where
  | send (call : Call) (e : Ep) (msg : Msg)
  | wake (call : Call)
  | tryRecv (task : Task) (e : Ep)
  | recv (task : Task) (e : Ep)
  | look (task : Task)
  | resume (task : Task)
  | exit (task : Task)

structure System (Ep Task Call Msg : Type*) where
  state : State Ep Task Call (Stamped Msg)
  log : List (Event Ep Task (Stamped Msg))

namespace System

variable {Ep Task Call Msg : Type*} [DecidableEq Ep] [DecidableEq Task] [DecidableEq Call]

def new : System Ep Task Call Msg := ⟨.new, []⟩

def deliveryEvents (e : Ep) (msg : Stamped Msg) : Delivery Task → List (Event Ep Task (Stamped Msg))
  | .handed rx => [.accepted e msg, .handed e rx msg]
  | .queued => [.accepted e msg]
  | .full => []

def takenEvents (e : Ep) (task : Task) : Option (Stamped Msg) → List (Event Ep Task (Stamped Msg))
  | some msg => [.handed e task msg, .returned task msg]
  | none => []

def resumedEvents (task : Task) : Option (Stamped Msg) → List (Event Ep Task (Stamped Msg))
  | some msg => [.returned task msg]
  | none => []

/-- One step. `none` where the action does not apply in this state. -/
def step (peer : Ep → Option Ep) (s : System Ep Task Call Msg) :
    Action Ep Task Call Msg → Option (System Ep Task Call Msg)
  | .send call e msg =>
    match s.state.waking call with
    | some _ => none
    | none =>
      let msg := ⟨s.log.length, msg⟩
      let (delivery, state) := s.state.send peer call e msg
      some ⟨state, s.log ++ deliveryEvents (State.target peer e) msg delivery⟩
  | .wake call =>
    match s.state.waking call with
    | some rx =>
      let state := s.state.wake rx
      some { s with state := { state with waking := update state.waking call none } }
    | none => none
  | .tryRecv task e =>
    if s.state.receiving task = .out ∧ s.state.status task = .runnable then
      let (msg, state) := s.state.tryRecv e
      some ⟨state, s.log ++ takenEvents e task msg⟩
    else none
  | .recv task e =>
    if s.state.receiving task = .out ∧ s.state.status task = .runnable then
      some { s with state := { s.state with
        receiving := update s.state.receiving task (.entering e) } }
    else none
  | .look task =>
    match s.state.receiving task with
    | .entering e =>
      let (msg, state) := s.state.look task e
      some ⟨state, s.log ++ takenEvents e task msg⟩
    | _ => none
  | .resume task =>
    match s.state.receiving task with
    | .asleep e =>
      if s.state.status task = .blocked then none
      else
        let (msg, state) := s.state.resume task e
        some ⟨state, s.log ++ resumedEvents task msg⟩
    | _ => none
  | .exit task =>
    if s.state.receiving task = .out ∧ s.state.status task = .runnable then
      some { s with state := { s.state with
        status := update s.state.status task .gone } }
    else none

def Reaches (peer : Ep → Option Ep) (actions : List (Action Ep Task Call Msg))
    (s : System Ep Task Call Msg) : Prop :=
  Lib.Run (fun s a t => step peer s a = some t) new actions s

end System

end K1K.Ipc
