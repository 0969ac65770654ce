import K1K.Lib.Text
import K1K.Spawn.Started

/-!
# The service manifest

`parse`, `caps_arg`, `named_grant` and `start_one` of `user/svc/fs`, `spawn_with` of `user/rt`,
and `args`, `arg` and `granted`, with which a started task reads back. Finding and reading the
image are parameters of `startOne`.
-/

namespace K1K.Manifest

open K1K.Lib K1K.Obj K1K.Syscall K1K.Loader K1K.Spawn

/-! ## Reading the manifest -/

structure Entry where
  name : Text
  image : Text
  caps : List Text
  line : Nat
  deriving DecidableEq, Repr

structure Parsed where
  entries : List Entry
  errors : List (Nat × Text)
  deriving DecidableEq, Repr

def parseCaps (list : Text) : Except Text (List Text) :=
  (list.splitOn ',').mapM fun cap =>
    if (Text.trim cap).isEmpty then .error "empty capability name".toList else .ok (Text.trim cap)

def validName (name : Text) : Bool :=
  !name.isEmpty && decide ((encodeUtf8 name).length ≤ 32) &&
    (encodeUtf8 name).all Kernel.isAsciiGraphic

def parseLine (raw : Text) (line : Nat) : Option (Except Text Entry) :=
  let text := raw.takeWhile (· != '#')
  match Text.splitWhitespace text with
  | name :: image :: rest =>
    some <|
      if rest.length > 1 then .error "too many fields".toList
      else if !validName name then .error "invalid service name".toList
      else if image.isEmpty then .error "empty image path".toList
      else
        match rest.head? with
        | none => .ok ⟨name, image, [], line⟩
        | some list => (parseCaps list).map fun caps => ⟨name, image, caps, line⟩
  | _ =>
    if (Text.trim text).isEmpty then none
    else some (.error "expected: name image [caps]".toList)

def Parsed.record (parsed : Parsed) (line : Nat) : Option (Except Text Entry) → Parsed
  | none => parsed
  | some (.ok entry) => { parsed with entries := parsed.entries ++ [entry] }
  | some (.error why) => { parsed with errors := parsed.errors ++ [(line, why)] }

def parse (text : Text) : Parsed :=
  ((Text.lines text).zipIdx 1).foldl
    (fun parsed row => parsed.record row.2 (parseLine row.1 row.2)) ⟨[], []⟩

/-- The slots in the list are not looked at: the items are numbered in order. -/
def capsArg (granted : List (Text × BitVec 32)) : Text :=
  "caps=".toList ++
    [','].intercalate (granted.mapIdx fun i pair => pair.1 ++ '=' :: Text.decimal i)

/-! ## Starting a service -/

/-- A capability to hand on: a slot of the file service, and the rights to keep. -/
structure Grant where
  cap : BitVec 32
  rights : Rights
  deriving DecidableEq, Repr

def CONTROL : BitVec 32 := 1
def CALL : BitVec 32 := 3
def TTY : BitVec 32 := 4
def CONSOLE : BitVec 32 := 5
def NET : BitVec 32 := 6

def namedGrant (name : Text) : Option Grant :=
  if name = "fs".toList then some ⟨CALL, .SEND⟩
  else if name = "tty".toList then some ⟨TTY, .RECV⟩
  else if name = "console".toList then some ⟨CONSOLE, .MAP_WRITE⟩
  else if name = "net".toList then some ⟨NET, .SEND⟩
  else if name = "control".toList then some ⟨CONTROL, ⟨BitVec.allOnes 32⟩⟩
  else none

structure Meta where
  isDir : Bool
  size : Nat

structure Request where
  image : BitVec 32
  size : BitVec 64
  name : Text
  grants : List Grant
  args : Text

def imagePath (entry : Entry) : Text :=
  if entry.image.head? = some '/' then entry.image else "/SVC/".toList ++ entry.image

def checkImage (image : Text) (file : Meta) : Except Text Unit :=
  if file.isDir || decide (file.size = 0) then .error (image ++ ": not an ELF image".toList)
  else .ok ()

def resolve (cap : Text) : Except Text Grant :=
  match namedGrant cap with
  | some grant => .ok grant
  | none => .error ("unknown capability '".toList ++ cap ++ "'".toList)

/-- `start_one` up to the call of `spawn_with`. `find` looks the image up, and
`stage` reads it into a memory object. -/
def startOne (find : Text → Except Text Meta) (stage : Meta → Except Text (BitVec 32 × BitVec 64))
    (entry : Entry) : Except Text Request := do
  let file ← find (imagePath entry)
  checkImage (imagePath entry) file
  let grants ← entry.caps.mapM resolve
  let names := entry.caps.mapIdx fun i cap => (cap, BitVec.ofNat 32 i)
  let args := "name=".toList ++ entry.name ++ '\n' :: capsArg names
  let staged ← stage file
  return ⟨staged.1, staged.2, entry.name, grants, args⟩

namespace Request

variable (r : Request)

def nameBytes : List Byte := (encodeUtf8 r.name).take 32

def argBytes : List Byte := encodeUtf8 r.args

def descriptor (name args : BitVec 64) : List (BitVec 64) :=
  [CONTROL.setWidth 64, r.image.setWidth 64, r.size, name, BitVec.ofNat 64 r.nameBytes.length,
    BitVec.ofNat 64 r.grants.length, args, BitVec.ofNat 64 r.argBytes.length] ++
  (r.grants.flatMap fun g => [g.cap.setWidth 64, g.rights.bits.setWidth 64]) ++
  List.replicate (2 * (MAX_SPAWN_GRANTS - r.grants.length)) 0

end Request

/-- `spawn_with`, from the state in which it makes the call: the descriptor, the
name and the arguments lie somewhere in the caller's memory. -/
inductive SpawnWith (profile : Overflow) (half : Fin 512 → Mm.Table 3) (k : Kernel) (r : Request) :
    Except Errno (BitVec 32) → Kernel → Prop where
  | refused (large : r.grants.length > MAX_SPAWN_GRANTS ∨ r.argBytes.length > MAX_BOOT_ARGS) :
      SpawnWith profile half k r (.error .EINVAL) k
  | called {desc name args : BitVec 64} {result : Except Errno (BitVec 64)} {k' : Kernel}
      (grants : r.grants.length ≤ MAX_SPAWN_GRANTS) (short : r.argBytes.length ≤ MAX_BOOT_ARGS)
      (descAt : k.Stores desc (wordsToBytes (r.descriptor name args)))
      (nameAt : k.Stores name r.nameBytes) (argsAt : k.Stores args r.argBytes)
      (returned : k.sysSpawnDesc profile half desc 0 = some (result, k')) :
      SpawnWith profile half k r (result.map (BitVec.setWidth 32)) k'

/-! ## In the started task -/

/-- What a task sees of its memory; reading at an address without a page is a
fault. -/
abbrev View : Type := Nat → Option Byte

def View.read (view : View) (start count : Nat) : Option (List Byte) :=
  (List.range' start count).mapM view

def args (view : View) : Option Text := do
  let head ← view.read USER_INFO_BASE 56
  if wordOf head 0 = BOOT_INFO_MAGIC ∧ wordOf head 1 = BOOT_INFO_LAYOUT then
    let bytes ← view.read (USER_INFO_BASE + 56) (min (wordOf head 6).toNat MAX_BOOT_ARGS)
    return ((decodeUtf8 bytes).getD []).rdropWhile (· == '\x00')
  else return []

def findArg (key text : Text) : Option Text :=
  (Text.lines text).findSome? fun line =>
    match Text.splitOnce '=' line with
    | none => none
    | some pair => if Text.trim pair.1 = key then some (Text.trim pair.2) else none

def arg (view : View) (key : Text) : Option (Option Text) := (args view).map (findArg key)

/-- The loop of `granted` through the items: the first one with the name decides. -/
def findSlot (name : Text) : List Text → Option (BitVec 32)
  | [] => none
  | item :: rest =>
    match Text.splitOnce '=' item with
    | none => findSlot name rest
    | some pair =>
      if Text.trim pair.1 = name then Text.parseU32 (Text.trim pair.2) else findSlot name rest

def granted (view : View) (name : Text) : Option (Option (BitVec 32)) :=
  (arg view "caps".toList).map fun found => found.bind fun caps => findSlot name (caps.splitOn ',')

end K1K.Manifest
