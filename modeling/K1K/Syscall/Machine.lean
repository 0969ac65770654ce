import K1K.Ipc.Endpoint
import K1K.Syscall.UserCopy

/-!
# System calls of one task

The calls of `kernel/src/syscall/mod.rs` that reach user memory or change what the task has
mapped. A call is named with what it gets from outside: the message that `recv` finds, the
clock, words from a device.

Physical memory is what frames hold that are not page tables; frames are zeroed when handed out.
Memory objects are named while they live; `owners` lists those that recorded mappings of the
task keep alive. `opened` are the objects for which `mem_map` has passed the check for
`MAP_WRITE`, `touched` the user addresses that the last call wrote through.
-/

namespace K1K.Syscall

open K1K.Lib K1K.Mm K1K.Obj

def MAX_MEM_PAGES : Nat := 1024
def MAX_DMA_PAGES : Nat := 64

def NO_CAP : BitVec 64 := BitVec.allOnes 64

structure Bar where
  base : Nat
  size : Nat
  io : Bool

structure PciDevice where
  bus : BitVec 8
  slot : BitVec 8
  func : BitVec 8
  vendor : BitVec 16
  device : BitVec 16
  classCode : BitVec 8
  subclass : BitVec 8
  bars : Fin 6 → Bar

structure Machine where
  mem : Memory
  frames : Frames
  space : AddressSpace
  caps : CapTable
  objects : Nat → Option (List Nat)
  owners : List Nat
  opened : List Nat
  touched : List Nat

inductive Call where
  | memCreate (pages : Nat) (dma : Bool) (id : Nat)
  | memMap (slot writable : Nat)
  | devMap (slot bar : Nat)
  | recv (slot buf nonblock : Nat) (found : Option (Ipc.Message (BitVec 32)))
  | info (buf : Nat) (uptime : BitVec 64)
  | devInfo (slot buf : Nat)
  | devConfig (slot buf : Nat) (config : Fin 64 → BitVec 32)
  | spawnDesc (receipt pages : Nat) (image : Memory) (words : Fin 9 → BitVec 64)
  | epCreate (id : Nat)
  | notifyCreate (id : Nat)
  | devIrq (slot id : Nat)
  | capDrop (slot : Nat)
  | capRevoke (slot : Nat)
  | other

def toLeBytes {width : Nat} (count : Nat) (word : BitVec width) : List Byte :=
  (List.range count).map fun i => word.extractLsb' (8 * i) 8

def wordsToBytes (words : List (BitVec 64)) : List Byte := words.flatMap (toLeBytes 8)

theorem length_flatMap_toLeBytes {width : Nat} (count : Nat) (words : List (BitVec width)) :
    (words.flatMap (toLeBytes count)).length = count * words.length := by
  induction words with
  | nil => rfl
  | cons word rest ih =>
    rw [List.flatMap_cons, List.length_append, ih, List.length_cons, Nat.mul_succ, Nat.add_comm]
    simp [toLeBytes]

theorem length_wordsToBytes (words : List (BitVec 64)) :
    (wordsToBytes words).length = 8 * words.length := length_flatMap_toLeBytes 8 words

def deviceWords (p : PciDevice) : List (BitVec 64) :=
  [p.vendor.setWidth 64 ||| p.device.setWidth 64 <<< 16 ||| p.classCode.setWidth 64 <<< 32 |||
      p.subclass.setWidth 64 <<< 40,
    p.bus.setWidth 64 <<< 16 ||| p.slot.setWidth 64 <<< 8 ||| p.func.setWidth 64] ++
  (List.ofFn p.bars).flatMap fun bar =>
    [BitVec.ofNat 64 bar.base, BitVec.ofNat 64 bar.size ||| if bar.io then 1#64 <<< 63 else 0]

namespace Machine

variable (m : Machine)

def alive (cap : Capability) : Bool :=
  match cap.memory with
  | some id => (m.objects id).isSome
  | none => true

def zeroed (frames : List Nat) : Memory := fun a =>
  if a / FRAME_SIZE ∈ frames then 0 else m.mem a

/-- The task's tables have changed, and the frames taken for that are zeroed. -/
def withSpace (s : AddressSpace) (fr : Frames) : Machine :=
  { m with
    space := s
    frames := fr
    mem := m.zeroed (fr.taken.drop m.frames.taken.length) }

def withMap (map : Bitmap) : Machine := { m with frames := { m.frames with map := map } }

def withObject (id : Nat) (frames : Option (List Nat)) : Machine :=
  { m with objects := fun other => if other = id then frames else m.objects other }

def copyOut (ptr : Nat) (data : List Byte) : Except Errno Unit × Machine :=
  let copied := copyToUser m.space m.mem ptr data
  (copied.1, { m with mem := copied.2.mem, touched := copied.2.touched })

def insertCap (cap : Capability) : Except Errno (BitVec 64) × Machine :=
  match m.caps.insert cap with
  | (some slot, caps) => (.ok (BitVec.ofNat 64 slot), { m with caps := caps })
  | (none, _) => (.error .ENOMEM, m)

def slotOf (slot : Nat) : Nat := slot % 2 ^ 32

def pageLimit (dma : Bool) : Nat := if dma then MAX_DMA_PAGES else MAX_MEM_PAGES

def makeObject (pages : Nat) (dma : Bool) : Option (List Nat) × Bitmap :=
  if dma then MemoryObject.newContiguous pages m.frames.map
  else MemoryObject.new pages [] m.frames.map

def creatorRights (dma : Bool) : Rights :=
  let rights := (Rights.MAP_READ.union .MAP_WRITE).union .GRANT
  if dma then rights.union .DMA else rights

def sysMemCreate (pages : Nat) (dma : Bool) (id : Nat) :
    Option (Except Errno (BitVec 64) × Machine) :=
  if pages = 0 ∨ pages > pageLimit dma then some (.error .EINVAL, m)
  else if (m.objects id).isSome then none
  else
    match m.makeObject pages dma with
    | (none, map) => some (.error .ENOMEM, m.withMap map)
    | (some frames, map) =>
      match m.caps.insert ⟨.memory id, creatorRights dma⟩ with
      | (some slot, caps) =>
        some (.ok (BitVec.ofNat 64 slot),
          { (m.withMap map).withObject id (some frames) with mem := m.zeroed frames, caps := caps })
      -- The object has no owner left and gives its frames back.
      | (none, _) => some (.error .ENOMEM, { m.withMap (frames.foldl Bitmap.release map) with
          mem := m.zeroed frames })

def sysMemMap (slot writable : Nat) : Option (Except Errno (BitVec 64) × Machine) :=
  let writable := writable != 0
  let need := if writable then Rights.MAP_READ.union .MAP_WRITE else Rights.MAP_READ
  match (m.caps.lookup (slotOf slot) need).bind Capability.memory with
  | none => some (.error .EPERM, m)
  | some id =>
    match m.objects id with
    | none => none
    | some frames =>
      let opened := if writable then id :: m.opened else m.opened
      match m.space.mapShared frames writable m.frames with
      | none => none
      | some (some va, s, fr) =>
        some (.ok (BitVec.ofNat 64 va),
          { m.withSpace s fr with owners := id :: m.owners, opened := opened })
      | some (none, s, fr) => some (.error .ENOMEM, { m.withSpace s fr with opened := opened })

def sysDevMap (devices : Nat → PciDevice) (mmio : Nat → Bool) (slot bar : Nat) :
    Option (Except Errno (BitVec 64) × Machine) :=
  let need := Rights.MAP_READ.union .MAP_WRITE
  match (m.caps.lookup (slotOf slot) need).bind Capability.device with
  | none => some (.error .EPERM, m)
  | some id =>
    match (List.ofFn (devices id).bars)[bar]? with
    | none => some (.error .EINVAL, m)
    | some b =>
      if b.size = 0 ∨ b.io then some (.error .EINVAL, m)
      else if (AddressSpace.deviceFrames b.base b.size).all mmio then
        match m.space.mapDevice b.base b.size m.frames with
        | none => none
        | some (some va, s, fr) => some (.ok (BitVec.ofNat 64 va), m.withSpace s fr)
        | some (none, s, fr) => some (.error .ENOMEM, m.withSpace s fr)
      else none

def copyResult (ptr : Nat) (data : List Byte) (value : BitVec 64) :
    Except Errno (BitVec 64) × Machine :=
  let copied := m.copyOut ptr data
  (copied.1.map fun _ => value, copied.2)

/-- Moving a message's capability into the receiver's table; the slot goes into
the last word. -/
def takeCap (cap : Option Capability) : BitVec 64 × CapTable :=
  match cap with
  | none => (NO_CAP, m.caps)
  | some cap =>
    match m.caps.insert cap with
    | (some slot, caps) => (BitVec.ofNat 64 slot, caps)
    | (none, caps) => (NO_CAP, caps)

def sysRecv (slot buf nonblock : Nat) (found : Option (Ipc.Message (BitVec 32))) :
    Option (Except Errno (BitVec 64) × Machine) :=
  match (m.caps.lookup (slotOf slot) .RECV).bind Capability.endpoint with
  | none => some (.error .EPERM, m)
  | some _ =>
    if !userRangeOk buf 32 then some (.error .EFAULT, m)
    else
      match found with
      | none => if nonblock ≠ 0 then some (.error .EAGAIN, m) else none
      | some msg =>
        if msg.cap.all m.alive then
          let taken := m.takeCap msg.cap
          some (copyResult { m with caps := taken.2 } buf
            (wordsToBytes (List.ofFn (Function.update msg.words ⟨3, by decide⟩ taken.1)))
            (msg.sender.setWidth 64))
        else none

def sysDevInfo (devices : Nat → PciDevice) (slot buf : Nat) :
    Except Errno (BitVec 64) × Machine :=
  match (m.caps.lookup (slotOf slot) .MAP_READ).bind Capability.device with
  | none => (.error .EPERM, m)
  | some id => m.copyResult buf (wordsToBytes (deviceWords (devices id))) 0

def sysDevConfig (slot buf : Nat) (config : Fin 64 → BitVec 32) :
    Except Errno (BitVec 64) × Machine :=
  match (m.caps.lookup (slotOf slot) .MAP_READ).bind Capability.device with
  | none => (.error .EPERM, m)
  | some _ => m.copyResult buf ((List.ofFn config).flatMap (toLeBytes 4)) 0

def sysInfo (me : BitVec 32) (buf : Nat) (uptime : BitVec 64) :
    Except Errno (BitVec 64) × Machine :=
  m.copyResult buf (wordsToBytes [uptime, me.setWidth 64]) 0

/-- `sys_spawn_desc` from where the new service is started. Its image goes into fresh frames;
nothing is left of a start that fails. -/
def sysSpawnDesc (receipt pages : Nat) (image : Memory) (words : Fin 9 → BitVec 64) :
    Except Errno (BitVec 64) × Machine :=
  match MemoryObject.new pages [] m.frames.map with
  | (none, map) => (.error .EINVAL, m.withMap map)
  | (some frames, map) =>
    let m := { m.withMap map with
      mem := fun a => if a / FRAME_SIZE ∈ frames then image a else m.mem a }
    if receipt ≠ 0 then m.copyResult receipt (wordsToBytes (List.ofFn words)) (words 0)
    else (.ok (words 0), m)

def sysDevIrq (slot id : Nat) : Except Errno (BitVec 64) × Machine :=
  let need := Rights.MAP_READ.union .MAP_WRITE
  match (m.caps.lookup (slotOf slot) need).bind Capability.device with
  | none => (.error .EPERM, m)
  | some _ => m.insertCap ⟨.irq id, Rights.RECV.union .GRANT⟩

def sysCapDrop (slot : Nat) : Except Errno (BitVec 64) × Machine :=
  match m.caps.remove (slotOf slot) with
  | (some _, caps) => (.ok 0, { m with caps := caps })
  | (none, caps) => (.error .EINVAL, { m with caps := caps })

def sysCapRevoke (slot : Nat) : Except Errno (BitVec 64) × Machine :=
  match m.caps.revoke (slotOf slot) with
  | (some _, caps) => (.ok 0, { m with caps := caps })
  | (none, caps) => (.error .EINVAL, { m with caps := caps })

/-- One call. `none` where the kernel panics, where `recv` stays asleep, or where
the call's name for something new is taken. -/
def dispatch (devices : Nat → PciDevice) (mmio : Nat → Bool) (me : BitVec 32) (m : Machine)
    (call : Call) : Option (Except Errno (BitVec 64) × Machine) :=
  let m := { m with touched := [] }
  match call with
  | .memCreate pages dma id => m.sysMemCreate pages dma id
  | .memMap slot writable => m.sysMemMap slot writable
  | .devMap slot bar => m.sysDevMap devices mmio slot bar
  | .recv slot buf nonblock found => m.sysRecv slot buf nonblock found
  | .info buf uptime => some (m.sysInfo me buf uptime)
  | .devInfo slot buf => some (m.sysDevInfo devices slot buf)
  | .devConfig slot buf config => some (m.sysDevConfig slot buf config)
  | .spawnDesc receipt pages image words => some (m.sysSpawnDesc receipt pages image words)
  | .epCreate id => some (m.insertCap ⟨.endpoint id, (Rights.SEND.union .RECV).union .GRANT⟩)
  | .notifyCreate id => some (m.insertCap ⟨.notify id, (Rights.SIGNAL.union .WAIT).union .GRANT⟩)
  | .devIrq slot id => some (m.sysDevIrq slot id)
  | .capDrop slot => some (m.sysCapDrop slot)
  | .capRevoke slot => some (m.sysCapRevoke slot)
  | .other => some (.ok 0, m)

end Machine

def Machine.start (mem : Memory) (s : AddressSpace) (fr : Frames) : Machine where
  mem := mem
  frames := fr
  space := s
  caps := .new
  objects _ := none
  owners := []
  opened := []
  touched := []

/-! ## The task among others -/

inductive Holder where
  | space
  | device
  | object (id : Nat)
  deriving DecidableEq, Repr

def Machine.Holds (mmio : Nat → Bool) (m : Machine) : Holder → Nat → Prop
  | .space, frame => frame ∈ m.frames.taken
  | .device, frame => mmio frame = true
  | .object id, frame => ∃ frames, m.objects id = some frames ∧ frame ∈ frames

inductive Event where
  | call (call : Call)
  | load (start count : Nat) (flags : Flags)
  | grant (cap : Capability)
  | create (id : Nat)
  | release (id : Nat)
  | other

/-- The task's calls, the loader that maps its image, capabilities it is started with, and the
rest of the system, which makes and drops memory objects, takes and frees frames and writes
wherever it likes. -/
inductive Step (devices : Nat → PciDevice) (mmio : Nat → Bool) (me : BitVec 32) :
    Machine → Event → Machine → Prop where
  | call {m m' : Machine} {call : Call} {result : Except Errno (BitVec 64)} :
      m.dispatch devices mmio me call = some (result, m') → Step devices mmio me m (.call call) m'
  | load {m : Machine} {start count : Nat} {flags : Flags} {s : AddressSpace} {fr : Frames} :
      m.space.mapUserRange start count flags m.frames = some (s, fr) →
      Step devices mmio me m (.load start count flags) (m.withSpace s fr)
  | grant {m : Machine} {cap : Capability} : m.alive cap = true →
      Step devices mmio me m (.grant cap) (m.insertCap cap).2
  | create {m : Machine} {id : Nat} {frames : List Nat} {map : Bitmap} : m.objects id = none →
      m.frames.map.Gives frames map →
      Step devices mmio me m (.create id) ((m.withMap map).withObject id (some frames))
  | release {m : Machine} {id : Nat} {frames : List Nat} : m.objects id = some frames →
      (∀ cap ∈ m.caps.iter, cap.memory ≠ some id) → id ∉ m.owners →
      Step devices mmio me m (.release id)
        { (m.withMap (frames.foldl Bitmap.release m.frames.map)).withObject id none with
          opened := m.opened.filter (· ≠ id) }
  | other {m : Machine} {map : Bitmap} {mem : Memory} : map.Valid →
      map.frames = m.frames.map.frames →
      (∀ holder frame, m.Holds mmio holder frame → ¬map.Free frame) →
      Step devices mmio me m .other { m.withMap map with mem := mem }

end K1K.Syscall
