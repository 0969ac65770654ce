import K1K.Lib.Provenance
import K1K.Syscall.Machine

/-!
# Moving capabilities

The calls that move capabilities between tasks, with the endpoints they travel over and the
services that keep them for a restart. One step is one access to a capability table or one step
of an endpoint, and others interleave; `sendCap`, `devIrq` and `register` make theirs at once.

Between two steps a call keeps capabilities on the kernel stack: `hand` came with a message and
is not in the table yet, `pending` are the grants that `spawn_desc` has derived so far. A call
that fails without touching a capability is no step. New objects are named by a counter.
-/

namespace K1K.Authority

open K1K.Lib K1K.Obj K1K.Syscall

def MAX_SERVICES : Nat := 64
def MAX_SPAWN_GRANTS : Nat := 8

structure Task where
  caps : CapTable
  service : Option Nat
  hand : Option Capability
  pending : List Capability
  dead : Bool

abbrev Endpoints : Type := Ipc.State Nat Nat Nat (Ipc.Message Nat)

structure Kernel where
  tasks : Nat → Option Task
  ipc : Endpoints
  services : List (List Capability)
  nextObject : Nat
  nextId : Nat

inductive Action where
  | send (task epSlot : Nat) (words : Fin 3 → BitVec 64) (call : Nat)
  | sendCap (task epSlot capSlot : Nat) (mask : Rights) (word : BitVec 64) (call : Nat)
  | post (call ep : Nat) (words : Fin Ipc.MSG_WORDS → BitVec 64)
  | wake (call : Nat)
  | tryRecv (task slot : Nat)
  | recv (task slot : Nat)
  | look (task : Nat)
  | resume (task : Nat)
  | install (task : Nat)
  | capDrop (task slot : Nat)
  | capRevoke (task victim slot : Nat)
  | epCreate (task : Nat)
  | memCreate (task : Nat) (dma : Bool)
  | notifyCreate (task : Nat)
  | devIrq (task slot : Nat)
  | derive (task slot : Nat) (mask : Rights)
  | register (task ctlSlot memSlot : Nat)
  | spawn (service : Nat)
  | exit (task : Nat)
  | reap (task : Nat)

/-- The number an object is named by; port ranges, control and the console have
none. -/
def objectName : Object → Option Nat
  | .endpoint id => some id
  | .notify id => some id
  | .memory id => some id
  | .device id => some id
  | .irq id => some id
  | .port _ => none
  | .control => none
  | .console => none

/-- `CapTable::insert` for each capability in turn, as a started task is given
its service's grants. -/
def fill (grants : List Capability) : CapTable :=
  grants.foldl (fun table cap => (table.insert cap).2) .new

namespace Kernel

def start (boot : List (List Capability)) : Kernel where
  tasks _ := none
  ipc := .new
  services := boot
  nextObject := (boot.flatten.filterMap fun cap => objectName cap.object).foldr max 0 + 1
  nextId := 1

variable (s : Kernel)

/-- A task that is not dead, not asleep in `recv` and not about to put a received
capability away. -/
def ready (t : Nat) : Option Task :=
  if s.ipc.receiving t = .out ∧ s.ipc.status t = .runnable then
    (s.tasks t).filter fun task => !task.dead && task.hand.isNone
  else none

def update (t : Nat) (task : Task) (ipc : Endpoints) : Kernel :=
  { s with tasks := Function.update s.tasks t (some task), ipc := ipc }

def setTask (t : Nat) (task : Task) : Kernel := s.update t task s.ipc

def lookupEndpoint (task : Task) (slot : Nat) (rights : Rights) : Option Nat :=
  (task.caps.lookup (Machine.slotOf slot) rights).bind Capability.endpoint

def sendMessage (peer : Nat → Option Nat) (call ep : Nat) (msg : Ipc.Message Nat) : Option Kernel :=
  match s.ipc.waking call with
  | some _ => none
  | none => some { s with ipc := (s.ipc.send peer call ep msg).2 }

def wordsOf (words : List (BitVec 64)) : Fin Ipc.MSG_WORDS → BitVec 64 :=
  fun i => words.getD i.val 0

def sysSend (peer : Nat → Option Nat) (t epSlot : Nat) (words : Fin 3 → BitVec 64) (call : Nat) :
    Option Kernel :=
  match s.ready t with
  | none => none
  | some task =>
    match lookupEndpoint task epSlot .SEND with
    | none => some s
    | some ep => s.sendMessage peer call ep ⟨t, wordsOf (List.ofFn words ++ [NO_CAP]), none⟩

def sysSendCap (peer : Nat → Option Nat) (t epSlot capSlot : Nat) (mask : Rights)
    (word : BitVec 64) (call : Nat) : Option Kernel :=
  match s.ready t with
  | none => none
  | some task =>
    match lookupEndpoint task epSlot .SEND with
    | none => some s
    | some ep =>
      match task.caps.derive (Machine.slotOf capSlot) mask with
      | none => some s
      | some cap => s.sendMessage peer call ep ⟨t, wordsOf [word, 0, 0, NO_CAP], some cap⟩

/-- A message has come out of an endpoint; its capability is in the task's hand. -/
def received (t : Nat) (task : Task) (taken : Option (Ipc.Message Nat) × Endpoints) : Kernel :=
  s.update t { task with hand := taken.1.bind (·.cap) } taken.2

def receive (t : Nat) (taken : Option (Ipc.Message Nat) × Endpoints) : Option Kernel :=
  match s.tasks t with
  | none => none
  | some task => some (s.received t task taken)

def sysTryRecv (t slot : Nat) : Option Kernel :=
  match s.ready t with
  | none => none
  | some task =>
    match lookupEndpoint task slot .RECV with
    | none => some s
    | some ep => s.receive t (s.ipc.tryRecv ep)

def sysRecv (t slot : Nat) : Option Kernel :=
  match s.ready t with
  | none => none
  | some task =>
    match lookupEndpoint task slot .RECV with
    | none => some s
    | some ep =>
      some { s with ipc := { s.ipc with
        receiving := Function.update s.ipc.receiving t (.entering ep) } }

def look (t : Nat) : Option Kernel :=
  match s.ipc.receiving t with
  | .entering ep => s.receive t (s.ipc.look t ep)
  | _ => none

def resume (t : Nat) : Option Kernel :=
  match s.ipc.receiving t with
  | .asleep ep => if s.ipc.status t = .blocked then none else s.receive t (s.ipc.resume t ep)
  | _ => none

/-- The end of `sys_recv`: the received capability goes into the table, or is
dropped when the table is full. -/
def install (t : Nat) : Option Kernel :=
  match s.tasks t with
  | none => none
  | some task =>
    match task.hand with
    | none => none
    | some cap =>
      some (s.setTask t { task with caps := (task.caps.insert cap).2, hand := none })

def sysCapDrop (t slot : Nat) : Option Kernel :=
  match s.ready t with
  | none => none
  | some task => some (s.setTask t { task with caps := (task.caps.remove (Machine.slotOf slot)).2 })

def sysCapRevoke (t victim slot : Nat) : Option Kernel :=
  match s.ready t with
  | none => none
  | some task =>
    if victim ≠ t ∧ !task.caps.hasControl then some s
    else
      match s.tasks victim with
      | none => some s
      | some other =>
        some (s.setTask victim { other with
          caps := (other.caps.revoke (Machine.slotOf slot)).2 })

def mint (t : Nat) (task : Task) (cap : Capability) : Kernel :=
  { s.setTask t { task with caps := (task.caps.insert cap).2 } with
    nextObject := s.nextObject + 1 }

def endpointCap : Capability :=
  ⟨.endpoint s.nextObject, (Rights.SEND.union .RECV).union .GRANT⟩

def memoryCap (dma : Bool) : Capability := ⟨.memory s.nextObject, Machine.creatorRights dma⟩

def notifyCap : Capability := ⟨.notify s.nextObject, (Rights.SIGNAL.union .WAIT).union .GRANT⟩

def irqCap : Capability := ⟨.irq s.nextObject, Rights.RECV.union .GRANT⟩

def sysDevIrq (t slot : Nat) : Option Kernel :=
  match s.ready t with
  | none => none
  | some task =>
    let need := Rights.MAP_READ.union .MAP_WRITE
    match (task.caps.lookup (Machine.slotOf slot) need).bind Capability.device with
    | none => some s
    | some _ => some (s.mint t task s.irqCap)

/-- One grant of `spawn_desc`; without `GRANT` the call ends and the grants
derived so far are dropped. -/
def sysDerive (t slot : Nat) (mask : Rights) : Option Kernel :=
  match s.ready t with
  | none => none
  | some task =>
    if task.pending.length ≥ MAX_SPAWN_GRANTS then none
    else
      match task.caps.derive (Machine.slotOf slot) mask with
      | none => some (s.setTask t { task with pending := [] })
      | some cap => some (s.setTask t { task with pending := task.pending ++ [cap] })

/-- `start_service` and `register`: check the spawn authority and the image, then keep the grants
with a new service. `spawn` makes the task. -/
def sysRegister (t ctlSlot memSlot : Nat) : Option Kernel :=
  match s.ready t with
  | none => none
  | some task =>
    let ended := s.setTask t { task with pending := [] }
    let allowed := (task.caps.lookup (Machine.slotOf ctlSlot) .SPAWN).any Capability.isControl
    let image := (task.caps.lookup (Machine.slotOf memSlot) .MAP_READ).bind Capability.memory
    if !allowed || image.isNone || decide (s.services.length ≥ MAX_SERVICES) then some ended
    else some { ended with services := s.services ++ [task.pending] }

def spawn (idx : Nat) : Option Kernel :=
  match s.services[idx]? with
  | none => none
  | some grants =>
    some { s.setTask s.nextId ⟨fill grants, some idx, none, [], false⟩ with
      nextId := s.nextId + 1 }

def step (peer : Nat → Option Nat) (s : Kernel) : Action → Option Kernel
  | .send t epSlot words call => s.sysSend peer t epSlot words call
  | .sendCap t epSlot capSlot mask word call => s.sysSendCap peer t epSlot capSlot mask word call
  | .post call ep words => s.sendMessage peer call ep ⟨0, words, none⟩
  | .wake call =>
    match s.ipc.waking call with
    | none => none
    | some rx =>
      let ipc := s.ipc.wake rx
      some { s with ipc := { ipc with waking := Function.update ipc.waking call none } }
  | .tryRecv t slot => s.sysTryRecv t slot
  | .recv t slot => s.sysRecv t slot
  | .look t => s.look t
  | .resume t => s.resume t
  | .install t => s.install t
  | .capDrop t slot => s.sysCapDrop t slot
  | .capRevoke t victim slot => s.sysCapRevoke t victim slot
  | .epCreate t => (s.ready t).map fun task => s.mint t task s.endpointCap
  | .memCreate t dma => (s.ready t).map fun task => s.mint t task (s.memoryCap dma)
  | .notifyCreate t => (s.ready t).map fun task => s.mint t task s.notifyCap
  | .devIrq t slot => s.sysDevIrq t slot
  | .derive t slot mask => s.sysDerive t slot mask
  | .register t ctlSlot memSlot => s.sysRegister t ctlSlot memSlot
  | .spawn idx => s.spawn idx
  | .exit t => (s.ready t).map fun task => s.setTask t { task with dead := true }
  | .reap t =>
    match s.tasks t with
    | none => none
    | some task =>
      if task.dead then
        some { s with
          tasks := Function.update s.tasks t none
          ipc := { s.ipc with
            status := Function.update s.ipc.status t .gone
            inbox := Function.update s.ipc.inbox t none } }
      else none

end Kernel

/-! ## Places and flows -/

inductive Part where
  | table
  | hand
  | pending
  deriving DecidableEq, Repr

inductive Place where
  | task (t : Nat) (part : Part)
  | queue (ep : Nat)
  | inbox (t : Nat)
  | grants (service : Nat)
  deriving DecidableEq, Repr

def Task.Has (task : Task) : Part → Capability → Prop
  | .table, cap => cap ∈ task.caps.iter
  | .hand, cap => task.hand = some cap
  | .pending, cap => cap ∈ task.pending

def Kernel.At (s : Kernel) : Place → Capability → Prop
  | .task t part, cap => ∃ task, s.tasks t = some task ∧ task.Has part cap
  | .queue ep, cap => ∃ msg ∈ s.ipc.queue ep, msg.cap = some cap
  | .inbox t, cap => ∃ msg, s.ipc.inbox t = some msg ∧ msg.cap = some cap
  | .grants idx, cap => ∃ grants, s.services[idx]? = some grants ∧ cap ∈ grants

inductive Mints (s : Kernel) : Action → Place → Capability → Prop where
  | endpoint {t : Nat} : Mints s (.epCreate t) (.task t .table) s.endpointCap
  | memory {t : Nat} {dma : Bool} : Mints s (.memCreate t dma) (.task t .table) (s.memoryCap dma)
  | notify {t : Nat} : Mints s (.notifyCreate t) (.task t .table) s.notifyCap
  | irq {t slot : Nat} : Mints s (.devIrq t slot) (.task t .table) s.irqCap

def allRights : Rights := ⟨BitVec.allOnes 32⟩

/-- The ways a capability can go, with the mask applied. The first three are a task's own doing;
in the others the kernel hands a message to its receiver, keeps the grants of a service and gives
them to its tasks. -/
inductive Route (s : Kernel) : Action → Place → Place → Rights → Prop where
  | queued {t epSlot capSlot call ep : Nat} {mask : Rights} {word : BitVec 64} :
      Route s (.sendCap t epSlot capSlot mask word call) (.task t .table) (.queue ep) mask
  | handed {t epSlot capSlot call rx : Nat} {mask : Rights} {word : BitVec 64} :
      Route s (.sendCap t epSlot capSlot mask word call) (.task t .table) (.inbox rx) mask
  | derived {t slot : Nat} {mask : Rights} :
      Route s (.derive t slot mask) (.task t .table) (.task t .pending) mask
  | polled {t slot ep : Nat} : Route s (.tryRecv t slot) (.queue ep) (.task t .hand) allRights
  | taken {t ep : Nat} : Route s (.look t) (.queue ep) (.task t .hand) allRights
  | resumed {t : Nat} : Route s (.resume t) (.inbox t) (.task t .hand) allRights
  | installed {t : Nat} : Route s (.install t) (.task t .hand) (.task t .table) allRights
  | kept {t ctlSlot memSlot : Nat} :
      Route s (.register t ctlSlot memSlot) (.task t .pending) (.grants s.services.length) allRights
  | started {idx : Nat} :
      Route s (.spawn idx) (.grants idx) (.task s.nextId .table) allRights

/-- One copy: the same object, the source's rights cut down by a mask, and
`GRANT` on the source when it leaves a task's table. -/
def Copies (s : Kernel) (action : Action) (source : Place) (original : Capability) (place : Place)
    (cap : Capability) : Prop :=
  ∃ mask, Route s action source place mask ∧
    cap = ⟨original.object, original.rights.intersect mask⟩ ∧
    ∀ t, source = .task t .table → original.rights.contains .GRANT = true

def authority (peer : Nat → Option Nat) : Flow Kernel Action Place Capability where
  step s action t := s.step peer action = some t
  holds := Kernel.At
  mints := Mints
  copies := Copies

end K1K.Authority
