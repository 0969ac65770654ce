import K1K.Lib.Run
import K1K.Lib.Holdings

/-!
# Starting services and restarting them

`service::spawn`, its callers and `supervisor_main`, one section under the lock of the service
table or of the task table at a time. `spawn` is called at boot for the embedded services, by
system calls and by the supervisor; between making the new task runnable and writing its id into
the service table, the task runs, ends and may be reaped.

A dead task can be reaped some time after its end. How long the supervisor sleeps is left open.
-/

namespace K1K.Supervisor

def MAX_SERVICES : Nat := 64
def MAX_RESTARTS_BEFORE_BACKOFF : Nat := 3

structure ServiceState where
  task : Option Nat
  restarts : Nat
  lastExit : Option Int
  deriving DecidableEq, Repr

namespace ServiceState

def new : ServiceState := ⟨none, 0, none⟩

def backoff (restarts : Nat) : Nat :=
  if restarts > MAX_RESTARTS_BEFORE_BACKOFF then
    min (200 * (restarts - MAX_RESTARTS_BEFORE_BACKOFF)) 3000
  else 0

def finished (st : ServiceState) : ServiceState := { st with task := none, lastExit := some 0 }

/-- The section for a service that is to be restarted, with the delay; the count of
restarts is a `u32`, and adding to the largest one panics. -/
def failed (st : ServiceState) (code : Int) : Option (ServiceState × Nat) :=
  if st.restarts + 1 < 2 ^ 32 then
    some (⟨none, st.restarts + 1, some code⟩, backoff (st.restarts + 1))
  else none

end ServiceState

structure Task where
  service : Option Nat
  exitCode : Option Int
  /-- Off every CPU, run queue and sleeper list. -/
  away : Bool
  deriving DecidableEq, Repr

inductive Phase where
  | entered (idx : Nat)
  | read (idx : Nat)
  | building (idx id : Nat)
  | published (idx id : Nat)
  deriving DecidableEq, Repr

/-- A thread of control other than the supervisor that calls `spawn`, with the
services that `start_all` has still to start after this one. -/
structure Caller where
  phase : Option Phase
  rest : List Nat
  deriving DecidableEq, Repr

inductive Place where
  | polling
  | reaped (service : Option Nat) (code : Int)
  | delaying (idx ms : Nat)
  | spawning (phase : Phase)
  | resting
  deriving DecidableEq, Repr

structure State where
  tasks : Nat → Option Task
  reap : List Nat
  nextId : Nat
  services : List ServiceState
  callers : List Caller
  place : Place
  /-- The task that was last made for a service. -/
  last : Nat → Option Nat
  /-- The codes that tasks have ended with. -/
  codes : Nat → Option Int

inductive Action where
  /-- `spawn_from_image` up to `register`. -/
  | register
  /-- The next section of a caller's `spawn`. -/
  | spawn (call : Nat)
  /-- A caller's `spawn` returns `None`. -/
  | abandon (call : Nat)
  | thread
  | exit (id : Nat) (code : Int)
  /-- A dead task has left everything that could still point to it. -/
  | leave (id : Nat)
  | takeDead
  | update
  | proceed
  /-- The next section of the supervisor's `spawn`. -/
  | respawn
  /-- The supervisor's `spawn` returns `None`. -/
  | fail
  /-- The supervisor's idle sleep is over. -/
  | wake
  deriving DecidableEq, Repr

/-- The call of `spawn` is over; `start_all` goes on with the next service. -/
def Caller.next (c : Caller) : Caller :=
  match c.rest with
  | [] => ⟨none, []⟩
  | idx :: rest => ⟨some (.entered idx), rest⟩

namespace State

/-- The embedded services are registered, and `start_all` is about to start the
first. -/
def start (embedded : Nat) : State where
  tasks _ := none
  reap := []
  nextId := 1
  services := List.replicate embedded .new
  callers := [Caller.next ⟨none, List.range embedded⟩]
  place := .polling
  last _ := none
  codes _ := none

variable (s : State)

def setTask (id : Nat) (task : Option Task) : State :=
  { s with tasks := Function.update s.tasks id task }

def setService (idx : Nat) (st : ServiceState) : State :=
  { s with services := s.services.set idx st }

def setCaller (call : Nat) (c : Caller) : State := { s with callers := s.callers.set call c }

/-- One section of `spawn`, and where the call is afterwards; `none` when it has
returned. -/
def advance : Phase → Option (State × Option Phase)
  | .entered idx =>
    if idx < s.services.length then some (s, some (.read idx)) else some (s, none)
  | .read idx => some ({ s with nextId := s.nextId + 1 }, some (.building idx s.nextId))
  | .building idx id =>
    some ({ s.setTask id (some ⟨some idx, none, false⟩) with
      last := Function.update s.last idx (some id) }, some (.published idx id))
  | .published idx id =>
    match s.services[idx]? with
    | none => none
    | some st => some (s.setService idx { st with task := some id }, none)

def register : State :=
  if s.services.length ≥ MAX_SERVICES then s
  else { s with
    services := s.services ++ [.new]
    callers := s.callers ++ [⟨some (.entered s.services.length), []⟩] }

def firstDead : Option Nat := s.reap.find? fun id => (s.tasks id).any (·.away)

def takeDead : State :=
  match s.firstDead with
  | none => { s with place := .resting }
  | some id =>
    match s.tasks id with
    | none => { s with place := .resting }
    | some task => { s.setTask id none with
        reap := s.reap.erase id
        place := .reaped task.service (task.exitCode.getD 0) }

def update (service : Option Nat) (code : Int) : Option State :=
  match service with
  | none => some { s with place := .polling }
  | some idx =>
    match s.services[idx]? with
    | none => none
    | some st =>
      if code = 0 then some { s.setService idx st.finished with place := .polling }
      else
        (st.failed code).map fun result =>
          { s.setService idx result.1 with place := .delaying idx result.2 }

def step (s : State) : Action → Option State
  | .register => some s.register
  | .spawn call =>
    match s.callers[call]? with
    | none => none
    | some c =>
      match c.phase with
      | none => none
      | some phase =>
        (s.advance phase).map fun result =>
          match result.2 with
          | some after => result.1.setCaller call { c with phase := some after }
          | none => result.1.setCaller call c.next
  | .abandon call =>
    match s.callers[call]? with
    | none => none
    | some c =>
      match c.phase with
      | some (.building _ _) => some (s.setCaller call c.next)
      | _ => none
  | .thread => some { s.setTask s.nextId (some ⟨none, none, false⟩) with nextId := s.nextId + 1 }
  | .exit id code =>
    match s.tasks id with
    | none => none
    | some task =>
      if task.exitCode.isSome then none
      else some { s.setTask id (some { task with exitCode := some code }) with
        reap := s.reap ++ [id]
        codes := Function.update s.codes id (some code) }
  | .leave id =>
    match s.tasks id with
    | none => none
    | some task =>
      if task.exitCode.isSome then some (s.setTask id (some { task with away := true })) else none
  | .takeDead => if s.place = .polling then some s.takeDead else none
  | .update =>
    match s.place with
    | .reaped service code => s.update service code
    | _ => none
  | .proceed =>
    match s.place with
    | .delaying idx _ => some { s with place := .spawning (.entered idx) }
    | _ => none
  | .respawn =>
    match s.place with
    | .spawning phase =>
      (s.advance phase).map fun result =>
        { result.1 with place := (result.2.map Place.spawning).getD .polling }
    | _ => none
  | .fail =>
    match s.place with
    | .spawning (.building _ _) => some { s with place := .polling }
    | _ => none
  | .wake => if s.place = .resting then some { s with place := .polling } else none

def called (call : Nat) (c : Caller) (after : Option Phase) : State :=
  match after with
  | some next => s.setCaller call { c with phase := some next }
  | none => s.setCaller call c.next

def respawned (after : Option Phase) : State :=
  { s with place := (after.map Place.spawning).getD .polling }

def reaped (id : Nat) (task : Task) : State :=
  { s.setTask id none with
    reap := s.reap.erase id
    place := .reaped task.service (task.exitCode.getD 0) }

inductive Moves : Action → State → Prop where
  | full : Moves .register s
  | register : Moves .register { s with
      services := s.services ++ [.new]
      callers := s.callers ++ [⟨some (.entered s.services.length), []⟩] }
  | spawn {call : Nat} {c : Caller} {phase : Phase} {r : State} {after : Option Phase}
      (found : s.callers[call]? = some c) (position : c.phase = some phase)
      (advanced : s.advance phase = some (r, after)) : Moves (.spawn call) (r.called call c after)
  | abandon {call idx id : Nat} {c : Caller} (found : s.callers[call]? = some c)
      (position : c.phase = some (.building idx id)) :
      Moves (.abandon call) (s.setCaller call c.next)
  | thread : Moves .thread
      { s.setTask s.nextId (some ⟨none, none, false⟩) with nextId := s.nextId + 1 }
  | exit {id : Nat} {code : Int} {task : Task} (found : s.tasks id = some task)
      (alive : task.exitCode = none) : Moves (.exit id code)
        { s.setTask id (some { task with exitCode := some code }) with
          reap := s.reap ++ [id]
          codes := Function.update s.codes id (some code) }
  | leave {id : Nat} {task : Task} (found : s.tasks id = some task)
      (dead : task.exitCode.isSome = true) :
      Moves (.leave id) (s.setTask id (some { task with away := true }))
  | rest (place : s.place = .polling) : Moves .takeDead { s with place := .resting }
  | reap {id : Nat} {task : Task} (place : s.place = .polling) (dead : s.firstDead = some id)
      (found : s.tasks id = some task) (away : task.away = true) :
      Moves .takeDead (s.reaped id task)
  | skip {code : Int} (place : s.place = .reaped none code) :
      Moves .update { s with place := .polling }
  | finish {idx : Nat} {st : ServiceState} (place : s.place = .reaped (some idx) 0)
      (found : s.services[idx]? = some st) :
      Moves .update { s.setService idx st.finished with place := .polling }
  | restart {idx ms : Nat} {code : Int} {st st' : ServiceState}
      (place : s.place = .reaped (some idx) code) (found : s.services[idx]? = some st)
      (nonzero : code ≠ 0) (failed : st.failed code = some (st', ms)) :
      Moves .update { s.setService idx st' with place := .delaying idx ms }
  | proceed {idx ms : Nat} (place : s.place = .delaying idx ms) :
      Moves .proceed { s with place := .spawning (.entered idx) }
  | respawn {phase : Phase} {r : State} {after : Option Phase} (place : s.place = .spawning phase)
      (advanced : s.advance phase = some (r, after)) : Moves .respawn (r.respawned after)
  | fail {idx id : Nat} (place : s.place = .spawning (.building idx id)) :
      Moves .fail { s with place := .polling }
  | wake (place : s.place = .resting) : Moves .wake { s with place := .polling }

variable {s} {s' : State}

theorem moves_of_takeDead (place : s.place = .polling) : s.Moves .takeDead s.takeDead := by
  unfold takeDead
  split
  next => exact .rest place
  next id dead =>
    split
    next => exact .rest place
    next task found =>
      have away := List.find?_some dead
      rw [found, Option.any_some] at away
      exact .reap place dead found away

theorem moves_of_update {service : Option Nat} {code : Int} (place : s.place = .reaped service code)
    (updated : s.update service code = some s') : s.Moves .update s' := by
  unfold update at updated
  split at updated
  next =>
    cases updated
    exact .skip place
  next idx =>
    split at updated
    next => simp at updated
    next st found =>
      split at updated
      next zero =>
        cases updated
        exact .finish (zero ▸ place) found
      next nonzero =>
        obtain ⟨⟨st', ms⟩, failed, rfl⟩ := Option.map_eq_some_iff.mp updated
        exact .restart place found nonzero failed

inductive Advances (s : State) : Phase → State → Option Phase → Prop where
  | known {idx : Nat} : idx < s.services.length →
      Advances s (.entered idx) s (some (.read idx))
  | unknown {idx : Nat} : ¬idx < s.services.length → Advances s (.entered idx) s none
  | reserve {idx : Nat} :
      Advances s (.read idx) { s with nextId := s.nextId + 1 } (some (.building idx s.nextId))
  | publish {idx id : Nat} :
      Advances s (.building idx id) { s.setTask id (some ⟨some idx, none, false⟩) with
        last := Function.update s.last idx (some id) } (some (.published idx id))
  | record {idx id : Nat} {st : ServiceState} : s.services[idx]? = some st →
      Advances s (.published idx id) (s.setService idx { st with task := some id }) none

theorem advances_of_advance {phase : Phase} {r : State} {after : Option Phase}
    (moved : s.advance phase = some (r, after)) : s.Advances phase r after := by
  cases phase with
  | entered idx =>
    simp only [advance] at moved
    split at moved
    next inRange =>
      cases moved
      exact .known inRange
    next out =>
      cases moved
      exact .unknown out
  | read idx =>
    cases moved
    exact .reserve
  | building idx id =>
    cases moved
    exact .publish
  | published idx id =>
    simp only [advance] at moved
    split at moved
    next => simp at moved
    next st found =>
      cases moved
      exact .record found

theorem moves_of_step {action : Action} (ran : s.step action = some s') : s.Moves action s' := by
  cases action with
  | register =>
    simp only [step, register, Option.some.injEq] at ran
    subst ran
    split
    · exact .full
    · exact .register
  | spawn call =>
    simp only [step] at ran
    split at ran
    next => simp at ran
    next c found =>
      split at ran
      next => simp at ran
      next phase pos =>
        obtain ⟨⟨r, after⟩, moved, rfl⟩ := Option.map_eq_some_iff.mp ran
        exact .spawn found pos moved
  | abandon call =>
    simp only [step] at ran
    split at ran
    next => simp at ran
    next c found =>
      split at ran
      next pos =>
        cases ran
        exact .abandon found pos
      next => simp at ran
  | thread =>
    cases ran
    exact .thread
  | exit id code =>
    simp only [step] at ran
    split at ran
    next => simp at ran
    next task found =>
      split at ran
      next => simp at ran
      next alive =>
        cases ran
        exact .exit found (by simpa using alive)
  | leave id =>
    simp only [step] at ran
    split at ran
    next => simp at ran
    next task found =>
      split at ran
      next dead =>
        cases ran
        exact .leave found dead
      next => simp at ran
  | takeDead =>
    simp only [step] at ran
    split at ran
    next place =>
      cases ran
      exact moves_of_takeDead place
    next => simp at ran
  | update =>
    simp only [step] at ran
    split at ran
    next place => exact moves_of_update place ran
    next => simp at ran
  | proceed =>
    simp only [step] at ran
    split at ran
    next place =>
      cases ran
      exact .proceed place
    next => simp at ran
  | respawn =>
    simp only [step] at ran
    split at ran
    next phase place =>
      obtain ⟨⟨r, after⟩, moved, rfl⟩ := Option.map_eq_some_iff.mp ran
      exact .respawn place moved
    next => simp at ran
  | fail =>
    simp only [step] at ran
    split at ran
    next place =>
      cases ran
      exact .fail place
    next => simp at ran
  | wake =>
    simp only [step] at ran
    split at ran
    next place =>
      cases ran
      exact .wake place
    next => simp at ran

end State

end K1K.Supervisor
