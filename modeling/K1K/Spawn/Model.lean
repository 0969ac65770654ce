import K1K.Authority.Model
import K1K.Lib.Utf8
import K1K.Loader.Elf
import K1K.Supervisor.Model

/-!
# Spawning a service

`spawn` and `spawn_desc` of `kernel/src/syscall/mod.rs` with `register`, `spawn_from_image`,
`spawn` and `write_boot_info` of `kernel/src/service/mod.rs`, carried out without interruption.
A start that fails drops its address space, and the frames go back; the registration of the
service is not undone. `none` is a panic.
-/

namespace K1K.Spawn

open K1K.Lib K1K.Mm K1K.Obj K1K.Loader K1K.Syscall

def USER_STACK_TOP : Nat := 0x7fffffff0000
def USER_STACK_PAGES : Nat := 16
def USER_INFO_BASE : Nat := USER_STACK_TOP - 0x20000
def USER_HEAP_BASE : Nat := 0x700000000000
def USER_HEAP_PAGES : Nat := 1024
def BOOT_INFO_MAGIC : BitVec 64 := 0x31484f4f425a314b
def BOOT_INFO_LAYOUT : BitVec 64 := 1
def MAX_BOOT_ARGS : Nat := 1024
def MAX_SPAWN_GRANTS : Nat := 8

structure ServiceSpec where
  name : List Byte
  image : List Byte
  grants : List Capability
  args : List Byte
  deriving DecidableEq

structure ServiceState where
  spec : ServiceSpec
  task : Option (BitVec 32)
  deriving DecidableEq

structure Task where
  name : List Byte
  space : AddressSpace
  entry : BitVec 64
  service : Nat
  caps : CapTable

structure Kernel where
  services : List ServiceState
  tasks : BitVec 32 → Option Task
  nextId : BitVec 32
  frames : Frames
  mem : Memory
  objects : Nat → Option (List Nat)
  space : AddressSpace
  caps : CapTable

/-! ## Building the address space -/

def mapRange (start count : Nat) (flags : Flags) (st : Loading) : Option (Bool × Loading) :=
  match AddressSpace.mapUserPages flags count (start / FRAME_SIZE) st.space.pml4 st.frames with
  | none => none
  | some (.ok (), pml4, fr) => some (true, st.grow pml4 fr)
  | some (.error _, pml4, fr) => some (false, st.grow pml4 fr)

def andThen {α : Type} (step : Option (Bool × Loading))
    (rest : Loading → Option (Option α × Loading)) : Option (Option α × Loading) :=
  match step with
  | none => none
  | some (false, st) => some (none, st)
  | some (true, st) => rest st

def dataFlags : Flags := ⟨true, true, false, false, false⟩

def bootInfoHead (task : BitVec 32) (argLen : Nat) : List Byte :=
  toLeBytes 8 BOOT_INFO_MAGIC ++ toLeBytes 8 BOOT_INFO_LAYOUT ++ toLeBytes 4 task ++
    toLeBytes 4 (0 : BitVec 32) ++ toLeBytes 8 (BitVec.ofNat 64 USER_HEAP_BASE) ++
    toLeBytes 8 (BitVec.ofNat 64 (USER_HEAP_PAGES * 4096)) ++
    toLeBytes 8 (BitVec.ofNat 64 USER_STACK_TOP) ++ toLeBytes 8 (BitVec.ofNat 64 argLen)

def writeBootInfo (task : BitVec 32) (args : List Byte) (st : Loading) :
    Option (Bool × Loading) :=
  let n := min args.length MAX_BOOT_ARGS
  match writeUser st.space st.mem USER_INFO_BASE (bootInfoHead task n ++ args.take n ++ [0]) with
  | none => none
  | some mem =>
    some ((translate st.space.pml4 (USER_INFO_BASE / FRAME_SIZE)).isSome, { st with mem := mem })

/-- The part of `spawn` between the new address space and the new task; it ends
with the entry point. -/
def buildSpace (profile : Overflow) (task : BitVec 32) (spec : ServiceSpec) (st : Loading) :
    Option (Option (BitVec 64) × Loading) :=
  match load profile spec.image st with
  | none => none
  | some (.error _, st) => some (none, st)
  | some (.ok entry, st) =>
    andThen (mapRange (USER_STACK_TOP - USER_STACK_PAGES * 4096) USER_STACK_PAGES dataFlags st)
      fun st => andThen (mapRange USER_HEAP_BASE USER_HEAP_PAGES dataFlags st)
      fun st => andThen (mapRange USER_INFO_BASE 1 dataFlags st)
      fun st => andThen (writeBootInfo task spec.args st)
      fun st => some (some entry, st)

def Loading.abandon (st : Loading) : Frames :=
  { st.frames with map := st.space.drop.foldl Bitmap.release st.frames.map }

/-! ## The supervisor's part -/

namespace Kernel

variable (profile : Overflow) (half : Fin 512 → Table 3) (k : Kernel)

def register (spec : ServiceSpec) : Option (Nat × Kernel) :=
  if k.services.length ≥ Supervisor.MAX_SERVICES then none
  else some (k.services.length, { k with services := k.services ++ [⟨spec, none⟩] })

def publish (idx : Nat) (id : BitVec 32) (spec : ServiceSpec) (entry : BitVec 64)
    (st : Loading) : Kernel :=
  { k with
    tasks := Function.update k.tasks id
      (some ⟨spec.name, st.space, entry, idx, Authority.fill spec.grants⟩)
    services := k.services.modify idx fun service => { service with task := some id }
    frames := st.frames
    mem := st.mem }

def spawn (idx : Nat) : Option (Option (BitVec 32) × Kernel) :=
  match k.services[idx]? with
  | none => some (none, k)
  | some service =>
    match profile.add k.nextId 1 with
    | none => none
    | some nextId =>
      match AddressSpace.new half k.frames with
      | (none, fr) => some (none, { k with nextId := nextId, frames := fr })
      | (some space, fr) =>
        match buildSpace profile k.nextId service.spec ⟨space, fr, k.mem⟩ with
        | none => none
        | some (none, st) =>
          some (none, { k with nextId := nextId, frames := Loading.abandon st, mem := st.mem })
        | some (some entry, st) =>
          some (some k.nextId,
            publish { k with nextId := nextId } idx k.nextId service.spec entry st)

def isAsciiGraphic (byte : Byte) : Bool := decide (0x21 ≤ byte.toNat) && decide (byte.toNat ≤ 0x7e)

def spawnFromImage (spec : ServiceSpec) : Option (Option (BitVec 32) × Kernel) :=
  if spec.name = [] ∨ spec.name.all isAsciiGraphic = false then some (none, k)
  else
    match k.register spec with
    | none => some (none, k)
    | some (idx, k) => k.spawn profile half idx

end Kernel

/-! ## The system calls -/

/-- The loop of `start_service` that copies the image out of a memory object. -/
def copyImage (mem : Memory) : List Nat → Nat → List Byte
  | [], _ => []
  | frame :: rest, left =>
    let take := min left FRAME_SIZE
    if take = 0 then []
    else mem.read (frame * FRAME_SIZE) take ++ copyImage mem rest (left - take)

def wordOf (bytes : List Byte) (i : Nat) : BitVec 64 :=
  fromLeBytes 64 ((bytes.drop (8 * i)).take 8)

namespace Kernel

variable (profile : Overflow) (half : Fin 512 → Table 3) (k : Kernel)

def copyIn (ptr len : BitVec 64) : Except Errno (List Byte) :=
  copyFromUser k.space k.mem ptr.toNat len.toNat

def slotOf (slot : BitVec 64) : Nat := (slot.setWidth 32).toNat

def startService (ctl mem size : BitVec 64) (name : List Byte) (grants : List Capability)
    (args : List Byte) : Except Errno ServiceSpec :=
  if (k.caps.lookup (slotOf ctl) .SPAWN).any Capability.isControl then
    match ((k.caps.lookup (slotOf mem) .MAP_READ).bind Capability.memory).bind k.objects with
    | none => .error .EPERM
    | some frames =>
      if size = 0 ∨ size.toNat > frames.length * FRAME_SIZE then .error .EINVAL
      else .ok ⟨name, copyImage k.mem frames size.toNat, grants, args⟩
  else .error .EPERM

def readName (ptr len : BitVec 64) : Except Errno (List Byte) := do
  let name ← k.copyIn ptr (if len.toNat < 32 then len else 32) |>.mapError fun _ => Errno.EFAULT
  if (decodeUtf8 name).isSome then return name else throw .EINVAL

def readGrants (raw : List Byte) (count : Nat) : Except Errno (List Capability) :=
  (List.range count).mapM fun i =>
    match k.caps.derive (slotOf (wordOf raw (2 * i))) ⟨(wordOf raw (2 * i + 1)).setWidth 32⟩ with
    | some cap => .ok cap
    | none => .error .EPERM

def spawnRequest (ctl mem size name : BitVec 64) : Except Errno ServiceSpec := do
  let bytes ← k.readName (name &&& 0xffffffffffff) (name >>> 48)
  k.startService ctl mem size bytes [] []

def checkCounts (count argLen : BitVec 64) : Except Errno Unit :=
  if count.toNat > MAX_SPAWN_GRANTS ∨ argLen.toNat > MAX_BOOT_ARGS then .error .EINVAL else .ok ()

def readTable (desc count : BitVec 64) : Except Errno (List Byte) :=
  if count.toNat > 0 then k.copyIn (desc + 64) (count * 16) |>.mapError fun _ => .EFAULT
  else .ok []

def readArgs (ptr len : BitVec 64) : Except Errno (List Byte) :=
  if len = 0 then .ok [] else k.copyIn ptr len

def spawnDescRequest (desc : BitVec 64) : Except Errno ServiceSpec := do
  let head ← k.copyIn desc 64 |>.mapError fun _ => Errno.EFAULT
  checkCounts (wordOf head 5) (wordOf head 7)
  let name ← k.readName (wordOf head 3) (wordOf head 4)
  let raw ← k.readTable desc (wordOf head 5)
  let grants ← k.readGrants raw (wordOf head 5).toNat
  let args ← k.readArgs (wordOf head 6) (wordOf head 7)
  k.startService (wordOf head 0) (wordOf head 1) (wordOf head 2) name grants args

def receiptWords (task : BitVec 32) (grants : Nat) : List (BitVec 64) :=
  task.setWidth 64 :: (List.range MAX_SPAWN_GRANTS).map fun i =>
    if i < grants then
      (((k.tasks task).bind fun t => t.caps.slotAt i).map (BitVec.ofNat 64)).getD
        (BitVec.allOnes 64)
    else 0

def writeReceipt (ptr : BitVec 64) (task : BitVec 32) (grants : Nat) : Bool × Kernel :=
  let copied := copyToUser k.space k.mem ptr.toNat (wordsToBytes (k.receiptWords task grants))
  (copied.1.isOk, { k with mem := copied.2.mem })

def sysSpawn (ctl mem size name : BitVec 64) : Option (Except Errno (BitVec 64) × Kernel) :=
  match k.spawnRequest ctl mem size name with
  | .error e => some (.error e, k)
  | .ok spec =>
    match k.spawnFromImage profile half spec with
    | none => none
    | some (none, k) => some (.error .EINVAL, k)
    | some (some id, k) => some (.ok (id.setWidth 64), k)

def sysSpawnDesc (desc receipt : BitVec 64) : Option (Except Errno (BitVec 64) × Kernel) :=
  match k.spawnDescRequest desc with
  | .error e => some (.error e, k)
  | .ok spec =>
    match k.spawnFromImage profile half spec with
    | none => none
    | some (none, k) => some (.error .EINVAL, k)
    | some (some id, k) =>
      if receipt = 0 then some (.ok (id.setWidth 64), k)
      else
        let written := k.writeReceipt receipt id spec.grants.length
        if written.1 then some (.ok (id.setWidth 64), written.2)
        else some (.error .EFAULT, written.2)

end Kernel

end K1K.Spawn
