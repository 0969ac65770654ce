import K1K.Service.Server

/-!
# The file service

The request loop of `user/svc/fs/src/serve.rs` with the accessors of `user/rt/src/fsproto.rs`.
One step takes one message. A handler records what it reads and writes in the client's buffer;
`view` is the memory of the service meanwhile. Each word of the request is read once, so it does
not matter that the client can write the buffer.

The volume answers as it likes; of `read_at` only the bytes it hands over are kept.
-/

namespace K1K.Service

open K1K.Lib K1K.Mm K1K.Obj K1K.Syscall

namespace Files

def REQ_OFF : Nat := 0
def REQ_MAX : Nat := 64
def DATA_OFF : Nat := 128
def DIR_REC : Nat := 16
def MAX_PATH : Nat := 255
def MAX_READ : Nat := 32 * 1024
def MAX_OPEN : Nat := 32

def OPEN : BitVec 64 := 3
def READ : BitVec 64 := 4
def STAT : BitVec 64 := 5
def LIST : BitVec 64 := 6
def CLOSE : BitVec 64 := 7

inductive Status where
  | ok
  | noent
  | isdir
  | notdir
  | badf
  | io
  | inval
  | nospc
  | toobig
  | noconn
  deriving DecidableEq, Repr

structure Reply where
  status : Status
  arg0 : Nat
  arg1 : Nat
  deriving DecidableEq, Repr

def Reply.error (status : Status) : Reply := ⟨status, 0, 0⟩

structure DirEntry where
  attr : BitVec 8
  size : Nat
  cluster : Nat
  deriving DecidableEq, Repr

def DirEntry.isDir (e : DirEntry) : Bool := e.attr &&& 0x10 != 0

/-- The answers of the volume, of `core::str::from_utf8` and of `split_parent`
during one request. -/
structure Volume where
  utf8 : List Byte → Bool
  splitParent : List Byte → Option Nat
  lookup : Nat → List Byte → Except Unit (Option DirEntry)
  entries : Nat → List DirEntry × Bool
  stopsAfter : DirEntry → Nat → Nat → Option Nat

/-! ## Accessors -/

def reqU64 (view : Memory) (buf : Span) (index : Nat) : Traced Nat :=
  let off := REQ_OFF + index * 8
  if off + 8 > buf.len then pure 0
  else do
    Traced.touch ⟨buf.start + off, 8⟩
    pure (view.load64 (buf.start + off))

def reqBytes (buf : Span) (off len : Nat) : Option Span :=
  if off + len ≥ 2 ^ 64 then none
  else if off + len > buf.len then none
  else some ⟨buf.start + off, len⟩

def putDirRec (buf : Span) (off : Nat) : Traced Bool :=
  match reqBytes buf off DIR_REC with
  | none => pure false
  | some dst => do
    Traced.touch dst
    pure true

def takePath (vol : Volume) (view : Memory) (buf : Span) : Traced (Except Status (List Byte)) := do
  let off ← reqU64 view buf 0
  let len ← reqU64 view buf 1
  if len = 0 ∨ len > MAX_PATH then pure (.error .inval)
  else
    match reqBytes buf off len with
    | none => pure (.error .inval)
    | some bytes => do
      Traced.touch bytes
      let path := view.read bytes.start bytes.len
      pure (if vol.utf8 path then .ok path else .error .inval)

/-! ## Requests -/

def slash : Byte := 0x2F

def leafName (path : List Byte) : List Byte :=
  (path.reverse.takeWhile (· != slash)).reverse

abbrev Handles : Type := List (Option DirEntry)

def handleOf (files : Handles) (handle : Nat) : Option DirEntry :=
  if handle = 0 then none else files[handle - 1]?.join

def openSlot (files : Handles) (entry : DirEntry) : Reply × Handles :=
  match files.findIdx? Option.isNone with
  | some i => (⟨.ok, i + 1, 0⟩, files.set i (some entry))
  | none => (.error .nospc, files)

def opOpen (vol : Volume) (view : Memory) (files : Handles) (buf : Span) :
    Traced (Reply × Handles) := do
  match ← takePath vol view buf with
  | .error e => pure (.error e, files)
  | .ok path =>
    match vol.splitParent path with
    | none => pure (.error .noent, files)
    | some dir =>
      match vol.lookup dir (leafName path) with
      | .ok (some entry) =>
        pure (if entry.isDir then (.error .isdir, files) else openSlot files entry)
      | .ok none => pure (.error .noent, files)
      | .error () => pure (.error .io, files)

/-- `read_at`: the bytes from `offset` on, as many as `out` holds or the file has. -/
def readAt (vol : Volume) (entry : DirEntry) (offset : Nat) (out : Span) :
    Traced (Except Unit Nat) :=
  if offset ≥ entry.size ∨ out.len = 0 then pure (.ok 0)
  else
    let want := min out.len (entry.size - offset)
    match vol.stopsAfter entry offset want with
    | none => do
      Traced.touch ⟨out.start, want⟩
      pure (.ok want)
    | some done => do
      Traced.touch ⟨out.start, min done want⟩
      pure (.error ())

def opRead (vol : Volume) (view : Memory) (files : Handles) (buf : Span) : Traced Reply := do
  let handle ← reqU64 view buf 0
  let offset ← reqU64 view buf 1
  let dest ← reqU64 view buf 2
  let count ← reqU64 view buf 3
  if count = 0 then pure ⟨.ok, 0, 0⟩
  else if count > MAX_READ then pure (.error .toobig)
  else
    match handleOf files handle with
    | none => pure (.error .badf)
    | some entry =>
      match reqBytes buf dest count with
      | none => pure (.error .nospc)
      | some dst => do
        match ← readAt vol entry offset dst with
        | .ok n => pure ⟨.ok, n, 0⟩
        | .error () => pure (.error .io)

def opStat (vol : Volume) (view : Memory) (buf : Span) : Traced Reply := do
  match ← takePath vol view buf with
  | .error e => pure (.error e)
  | .ok path =>
    if path = [slash] then pure ⟨.ok, 0, 1⟩
    else
      match vol.splitParent path with
      | none => pure (.error .noent)
      | some dir =>
        match vol.lookup dir (leafName path) with
        | .ok (some e) => pure ⟨.ok, e.size, if e.isDir then 1 else 0⟩
        | .ok none => pure (.error .noent)
        | .error () => pure (.error .io)

def listCluster (vol : Volume) (path : List Byte) : Except Status Nat :=
  if path = [slash] then .ok 0
  else
    match vol.splitParent path with
    | none => .error .noent
    | some dir =>
      match vol.lookup dir (leafName path) with
      | .ok (some e) => if e.isDir then .ok e.cluster else .error .notdir
      | .ok none => .error .noent
      | .error () => .error .io

def putRecords (buf : Span) (max recOff : Nat) :
    List DirEntry → Nat → Bool → Traced (Nat × Bool)
  | [], count, full => pure (count, full)
  | _ :: rest, count, full =>
    if count < max then do
      let written ← putDirRec buf ((recOff + count * DIR_REC) % 2 ^ 64)
      putRecords buf max recOff rest (count + 1) (full || !written)
    else putRecords buf max recOff rest count full

def opList (vol : Volume) (view : Memory) (buf : Span) : Traced Reply := do
  match ← takePath vol view buf with
  | .error e => pure (.error e)
  | .ok path => do
    let max ← reqU64 view buf 2
    let recOff ← reqU64 view buf 3
    if max = 0 ∨ max > MAX_READ / DIR_REC then pure (.error .inval)
    else if (reqBytes buf recOff (max * DIR_REC)).isNone then pure (.error .nospc)
    else
      match listCluster vol path with
      | .error e => pure (.error e)
      | .ok cluster => do
        let (count, full) ← putRecords buf max recOff (vol.entries cluster).1 0 false
        pure (if !(vol.entries cluster).2 then .error .io
          else if full then .error .nospc
          else ⟨.ok, count, 0⟩)

def opClose (view : Memory) (files : Handles) (buf : Span) : Traced (Reply × Handles) := do
  let handle ← reqU64 view buf 0
  -- `wrapping_sub` takes the handle zero past the end of the table.
  match handleOf files handle with
  | some _ => pure (⟨.ok, 0, 0⟩, files.set (handle - 1) none)
  | none => pure (.error .badf, files)

def runOp (vol : Volume) (view : Memory) (files : Handles) (op : BitVec 64) (buf : Span) :
    Traced (Reply × Handles) :=
  if op = OPEN then opOpen vol view files buf
  else if op = READ then do
    let reply ← opRead vol view files buf
    pure (reply, files)
  else if op = STAT then do
    let reply ← opStat vol view buf
    pure (reply, files)
  else if op = LIST then do
    let reply ← opList vol view buf
    pure (reply, files)
  else if op = CLOSE then opClose view files buf
  else pure (.error .inval, files)

def dispatch (vol : Volume) (view : Memory) (srv : Server) (files : Handles) (req : Request) :
    Traced (Reply × Handles) :=
  if req.reqLen = 0 ∨ req.reqLen > REQ_MAX then pure (.error .inval, files)
  else
    match srv.clientBuffer req.client with
    | none => pure (.error .noconn, files)
    | some buf =>
      if buf.len < DATA_OFF then pure (.error .nospc, files)
      else do
        let result ← runOp vol view files req.op buf
        if result.1.status ≠ .ok then do
          -- The log line shows the first two words of the request block.
          let _ ← reqU64 view buf 0
          let _ ← reqU64 view buf 1
          pure result
        else pure result

end Files

/-! ## The service -/

/-- `registered` gives the object behind each task's last registration that was
mapped, and `accesses` what the last step touched on behalf of whom. -/
structure Fs where
  server : Server
  files : Files.Handles
  host : Host
  registered : Nat → Option Nat
  accesses : List (Nat × Span)

namespace Fs

inductive Action where
  | message (m : Message) (view : Memory) (vol : Files.Volume)
  | elsewhere (fr : Frames)

/-- Take one message: the handshakes of `Server::recv`, or a request. -/
def handle (objects : Nat → MemoryObject) (s : Fs) (m : Message) (view : Memory)
    (vol : Files.Volume) : Option Fs :=
  let s := { s with accesses := [] }
  let op := m.word 0 &&& 0xFFFF
  if op = CONNECT then
    match m.cap with
    | none => some s
    | some reply => some { s with server := s.server.connect m.sender reply }
  else if op = REGISTER_BUF then
    match m.cap with
    | none => some s
    | some buf =>
      match s.server.register objects s.host m.sender buf m.claimed with
      | none => none
      | some (none, server, host) => some { s with server := server, host := host }
      | some (some id, server, host) =>
        some { s with
          server := server
          host := host
          registered := Function.update s.registered m.sender (some id) }
  else if op = BYE then some { s with server := s.server.dropClient m.sender }
  else
    let done := Files.dispatch vol view s.server s.files m.request
    some { s with
      files := done.value.2
      accesses := done.spans.map fun sp => (m.sender, sp) }

inductive Step (objects : Nat → MemoryObject) : Fs → Action → Fs → Prop where
  | message {s s' : Fs} {m : Message} {view : Memory} {vol : Files.Volume} :
      s.handle objects m view vol = some s' → Step objects s (.message m view vol) s'
  | elsewhere {s : Fs} {fr : Frames} : fr.map.Valid →
      Step objects s (.elsewhere fr) { s with host := { s.host with frames := fr }, accesses := [] }

def start (h : Host) : Fs where
  server := .new
  files := List.replicate Files.MAX_OPEN none
  host := h
  registered _ := none
  accesses := []

end Fs

end K1K.Service
