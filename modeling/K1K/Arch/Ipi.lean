import K1K.Lib.Run
import K1K.Mm.Pmm

/-!
# Inter-processor interrupts

`kernel/src/arch/x86_64/ipi.rs` as a transition system of CPUs and sending tasks. One step is
one `invlpg` or CR3 reload, one atomic access, or one section under a lock. A sender may be
moved to another CPU between any two steps; `place` says where it is.

A CPU may run `on_ipi` at any time, which covers the broadcast, a kick for somebody else and a
late delivery; giving up after `ACK_SPINS` rounds may happen at any time too.

`since` and `onlineAt` record what has been invalidated since a call began, and which CPUs were
online then.
-/

namespace K1K.Arch

open K1K.Mm (FRAME_SIZE)
open Function (update)

def MAX_CPUS : Nat := 512

def U32 : Nat := 4294967296

inductive Request where
  | tlbAll (cr3 : Nat)
  | sharedRange (start stop : Nat)
  | ping
  deriving DecidableEq, Repr

inductive Part where
  | page (addr : Nat)
  | space (cr3 : Nat)
  deriving DecidableEq, Repr

def pagesFrom (addr stop : Nat) : List Nat :=
  if addr < stop then addr :: pagesFrom (addr + FRAME_SIZE) stop else []
termination_by stop - addr
decreasing_by
  simp only [FRAME_SIZE]
  omega

def flushPages (start stop : Nat) : List Part :=
  (pagesFrom (start - start % FRAME_SIZE) stop).map .page

def Request.parts : Request → List Part
  | .tlbAll cr3 => [.space cr3]
  | .sharedRange start stop => flushPages start stop
  | .ping => []

structure Pending where
  seq : Nat
  req : Request
  deriving DecidableEq, Repr

inductive Handler where
  | idle
  | taken (pending : Pending)
  | flushed (pending : Pending)
  deriving DecidableEq, Repr

/-- Where a task is inside `flush_shared_range` or `shootdown_all`. The lock is held from
`reading` to the return; `targets` pairs each CPU that was asked with its number, and `counted`
are those seen to have acknowledged. -/
inductive Sending where
  | idle
  | flushing (req : Request) (rest : List Part)
  | locking (req : Request)
  | reading (req : Request)
  | counting (req : Request) (me : Nat)
  | publishing (req : Request) (me next bound : Nat) (targets : List (Nat × Nat))
  | storing (req : Request) (me next bound : Nat) (targets : List (Nat × Nat)) (seq : Nat)
  | waiting (req : Request) (counted rest : List (Nat × Nat))
  | returned (req : Request) (answered : Bool)
  deriving DecidableEq, Repr

inductive Event where
  | performed (cpu : Nat) (part : Part)
  | executed (cpu : Nat) (pending : Pending)
  deriving DecidableEq, Repr

structure State (Call : Type*) where
  online : List Nat
  seq : Nat → Nat
  done : Nat → Nat
  slot : Nat → Option Pending
  handler : Nat → Handler
  lock : Option Call
  place : Call → Nat
  pos : Call → Sending
  since : Call → List Event
  onlineAt : Call → List Nat

inductive Action (Call : Type*) where
  | boot (cpu : Nat)
  | migrate (call : Call) (cpu : Nat)
  | begin (call : Call) (req : Request)
  | flush (call : Call)
  | acquire (call : Call)
  | read (call : Call)
  | count (call : Call)
  | publish (call : Call)
  | store (call : Call)
  | load (call : Call)
  | giveUp (call : Call)
  | leave (call : Call)
  | take (cpu : Nat)
  | handle (cpu : Nat)
  | ack (cpu : Nat)

namespace State

variable {Call : Type*} [DecidableEq Call]

def new : State Call where
  online := [0]
  seq _ := 0
  done _ := 0
  slot _ := none
  handler _ := .idle
  lock := none
  place _ := 0
  pos _ := .idle
  since _ := []
  onlineAt _ := []

def goto (s : State Call) (call : Call) (position : Sending) : State Call :=
  { s with pos := update s.pos call position }

def unlock (s : State Call) : State Call := { s with lock := none }

def record (s : State Call) (events : List Event) : State Call :=
  { s with since := fun call => s.since call ++ events }

/-- One step. `none` where the action does not apply in this state. -/
def step (s : State Call) : Action Call → Option (State Call)
  | .boot cpu =>
    if cpu ∈ s.online ∨ cpu ≥ MAX_CPUS then none else some { s with online := s.online ++ [cpu] }
  | .migrate call cpu =>
    if cpu ∈ s.online then some { s with place := update s.place call cpu } else none
  | .begin call req =>
    match s.pos call with
    | .idle =>
      some { s.goto call (.flushing req req.parts) with
        since := update s.since call []
        onlineAt := update s.onlineAt call s.online }
    | _ => none
  | .flush call =>
    match s.pos call with
    | .flushing req (part :: rest) =>
      some ((s.record [.performed (s.place call) part]).goto call (.flushing req rest))
    | .flushing req [] => some (s.goto call (.locking req))
    | _ => none
  | .acquire call =>
    match s.pos call, s.lock with
    | .locking req, none => some { s.goto call (.reading req) with lock := some call }
    | _, _ => none
  | .read call =>
    match s.pos call with
    | .reading req => some (s.goto call (.counting req (s.place call)))
    | _ => none
  | .count call =>
    match s.pos call with
    | .counting req me => some (s.goto call (.publishing req me 0 s.online.length []))
    | _ => none
  | .publish call =>
    match s.pos call with
    | .publishing req me next bound targets =>
      if next < bound then
        if next = me ∨ next ∉ s.online then
          some (s.goto call (.publishing req me (next + 1) bound targets))
        else
          let seq := (s.seq next + 1) % U32
          some { s.goto call (.storing req me next bound targets seq) with
            seq := update s.seq next seq }
      else if targets = [] then some ((s.goto call (.returned req true)).unlock)
      else some (s.goto call (.waiting req [] targets))
    | _ => none
  | .store call =>
    match s.pos call with
    | .storing req me next bound targets seq =>
      some { s.goto call (.publishing req me (next + 1) bound (targets ++ [(next, seq)])) with
        slot := update s.slot next (some ⟨seq, req⟩) }
    | _ => none
  | .load call =>
    match s.pos call with
    | .waiting req counted ((cpu, seq) :: rest) =>
      if s.done cpu ≥ seq then some (s.goto call (.waiting req (counted ++ [(cpu, seq)]) rest))
      else some (s.goto call (.waiting req [] (counted ++ (cpu, seq) :: rest)))
    | .waiting req _ [] => some ((s.goto call (.returned req true)).unlock)
    | _ => none
  | .giveUp call =>
    match s.pos call with
    | .waiting req _ _ => some ((s.goto call (.returned req false)).unlock)
    | _ => none
  | .leave call =>
    match s.pos call with
    | .returned _ _ => some (s.goto call .idle)
    | _ => none
  | .take cpu =>
    match s.handler cpu, s.slot cpu with
    | .idle, some pending =>
      some { s with
        slot := update s.slot cpu none
        handler := update s.handler cpu (.taken pending) }
    | _, _ => none
  | .handle cpu =>
    match s.handler cpu with
    | .taken pending =>
      some { s.record (pending.req.parts.map (.performed cpu) ++ [.executed cpu pending]) with
        handler := update s.handler cpu (.flushed pending) }
    | _ => none
  | .ack cpu =>
    match s.handler cpu with
    | .flushed pending =>
      some { s with
        done := update s.done cpu pending.seq
        handler := update s.handler cpu .idle }
    | _ => none

def Reaches (actions : List (Action Call)) (s : State Call) : Prop :=
  Lib.Run (fun s a t => s.step a = some t) new actions s

/-! ## What the protocol promises -/

/-- A call that has returned with every answer: each CPU that was online all the
while has performed the invalidation since the call began. -/
def Complete (s : State Call) : Prop :=
  ∀ call req, s.pos call = .returned req true →
    ∀ cpu ∈ s.onlineAt call, ∀ part ∈ req.parts, .performed cpu part ∈ s.since call

/-- An acknowledgement that has been counted comes from a CPU that took this
very request from its slot and executed it. -/
def Honest (s : State Call) : Prop :=
  ∀ call req counted rest, s.pos call = .waiting req counted rest →
    ∀ cpu seq, (cpu, seq) ∈ counted → .executed cpu ⟨seq, req⟩ ∈ s.since call

/-- The window between the start of the local flush and the read of `cpu_id`. -/
def InWindow : Sending → Bool
  | .flushing _ _ => true
  | .locking _ => true
  | .reading _ => true
  | _ => false

/-- No sender is moved to another CPU inside the window, the CPUs online when they are counted
have the ids below their number, and no CPU's requests are numbered past the last 32-bit number.
-/
def Sound (s : State Call) : Action Call → Prop
  | .migrate call cpu => InWindow (s.pos call) → cpu = s.place call
  | .count _ => ∀ cpu ∈ s.online, cpu < s.online.length
  | .publish call =>
    match s.pos call with
    | .publishing _ me next bound _ =>
      next < bound → next ≠ me → next ∈ s.online → s.seq next + 1 < U32
    | _ => True
  | _ => True

instance (s : State Call) (action : Action Call) : Decidable (s.Sound action) := by
  unfold Sound
  split <;> (try split) <;> infer_instance

end State

end K1K.Arch
