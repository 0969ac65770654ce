import K1K.Service.Server

/-!
# The network service

The request loop `serve` of `user/svc/net/src/main.rs`. The service has one buffer for
everybody: the one registered last. Of the network only the number of bytes that `Tcp::send`,
`Tcp::recv` or `dns::resolve` got through matters here.
-/

namespace K1K.Service

open K1K.Lib K1K.Mm K1K.Obj K1K.Syscall

namespace Net

def SET_REPLY : BitVec 64 := 2
def CONNECT : BitVec 64 := 3
def SEND : BitVec 64 := 4
def RECV : BitVec 64 := 5
def CLOSE : BitVec 64 := 6
def RESOLVE : BitVec 64 := 7

def fits (off len size : Nat) : Bool := decide (min (off + len) (2 ^ 64 - 1) ≤ size)

end Net

/-- `registered` gives the object behind each task's last mapped registration, `holder` the task
and the object that `buf` belongs to, `accesses` what the last step touched for whom. -/
structure Net where
  buf : Option Span
  replyTo : Option Capability
  host : Host
  registered : Nat → Option Nat
  holder : Option (Nat × Nat)
  accesses : List (Nat × Span)

namespace Net

inductive Action where
  | message (m : Message) (progress : Nat)
  | elsewhere (fr : Frames)

def area (s : Net) (m : Message) : Option Span :=
  let off := (m.word 1).toNat
  let len := (m.word 2).toNat
  (s.buf.filter fun buf => fits off len buf.len).map fun buf => ⟨buf.start + off, len⟩

def transfer (s : Net) (m : Message) (progress : Nat) (area : Option Span) : Net :=
  match area with
  | none => s
  | some sp => { s with accesses := [(m.sender, ⟨sp.start, min progress sp.len⟩)] }

def handle (objects : Nat → MemoryObject) (s : Net) (m : Message) (progress : Nat) :
    Option Net :=
  let s := { s with accesses := [] }
  let op := m.word 0 &&& 0xFFFFFFFF
  if op = REGISTER_BUF then
    match m.cap with
    | none => some s
    | some cap =>
      match s.host.memMap objects cap true with
      | none => none
      | some (.ok ptr, host) =>
        some { s with
          buf := some ⟨ptr, m.claimed * 4096⟩
          host := host
          registered := Function.update s.registered m.sender cap.memory
          holder := cap.memory.map fun id => (m.sender, id) }
      | some (.error _, host) => some { s with host := host }
  else if op = SET_REPLY then some { s with replyTo := m.cap }
  else if op = CONNECT then some s
  else if op = SEND ∨ op = RECV then some (s.transfer m progress (s.area m))
  else if op = RESOLVE then
    some (s.transfer m progress ((s.area m).filter fun sp => sp.len ≤ 253))
  else if op = CLOSE then some s
  else some s

inductive Step (objects : Nat → MemoryObject) : Net → Action → Net → Prop where
  | message {s s' : Net} {m : Message} {progress : Nat} :
      s.handle objects m progress = some s' → Step objects s (.message m progress) s'
  | elsewhere {s : Net} {fr : Frames} : fr.map.Valid →
      Step objects s (.elsewhere fr) { s with host := { s.host with frames := fr }, accesses := [] }

def start (h : Host) : Net where
  buf := none
  replyTo := none
  host := h
  registered _ := none
  holder := none
  accesses := []

end Net

end K1K.Service
