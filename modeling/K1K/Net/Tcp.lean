import K1K.Lib.Memory
import K1K.Lib.Ring
import K1K.Lib.Run

/-!
# The TCP client

`user/svc/net/src/tcp.rs` as a machine. One step is one turn of a loop that waits: the stack is
polled once and the call goes on if that was what it waited for; or the time is over. Between
calls the service polls as well. The bytes of a packet are in `K1K.Net.Frames`.
-/

namespace K1K.Net

open K1K.Lib

def MSS : Nat := 1360
def RX : Nat := 16384

def FIN : BitVec 8 := 1
def SYN : BitVec 8 := 2
def RST : BitVec 8 := 4
def PSH : BitVec 8 := 8
def ACK : BitVec 8 := 16

inductive State where
  | closed
  | synSent
  | established
  | reset
  deriving DecidableEq, Repr

inductive Fail where
  | timeout
  | refused
  | closed
  deriving DecidableEq, Repr

abbrev Ip : Type := BitVec 32

structure Tcp where
  state : State
  lport : BitVec 16
  rip : Ip
  rport : BitVec 16
  sndUna : BitVec 32
  sndNxt : BitVec 32
  rcvNxt : BitVec 32
  rx : Nat → Byte
  head : Nat
  len : Nat
  fin : Bool
  nextPort : BitVec 16

def geq (a b : BitVec 32) : Bool := decide (a - b < 0x80000000)

/-- `Event::Tcp`, with the bytes of the frame it points to. -/
structure Segment where
  src : Ip
  sport : BitVec 16
  dport : BitVec 16
  flags : BitVec 8
  seq : BitVec 32
  ack : BitVec 32
  data : List Byte
  deriving DecidableEq, Repr

structure Packet where
  rip : Ip
  lport : BitVec 16
  rport : BitVec 16
  flags : BitVec 8
  seq : BitVec 32
  ack : BitVec 32
  win : Nat
  data : List Byte
  deriving DecidableEq, Repr

namespace Tcp

def new : Tcp where
  state := .closed
  lport := 0
  rip := 0
  rport := 0
  sndUna := 0
  sndNxt := 0
  rcvNxt := 0
  rx _ := 0
  head := 0
  len := 0
  fin := false
  nextPort := 49152

variable (t : Tcp)

def segment (flags : BitVec 8) (seq : BitVec 32) (data : List Byte) : Packet where
  rip := t.rip
  lport := t.lport
  rport := t.rport
  flags := flags
  seq := seq
  ack := t.rcvNxt
  win := min (RX - t.len) 0xFFFF
  data := data

def ack : Packet := t.segment ACK t.sndNxt []

def push : List Byte → Tcp → Tcp
  | [], t => t
  | b :: rest, t =>
    push rest { t with rx := Function.update t.rx ((t.head + t.len) % RX) b, len := t.len + 1 }

def takeAck (flags : BitVec 8) (ack : BitVec 32) : Tcp :=
  if flags &&& ACK ≠ 0 ∧ geq ack t.sndUna ∧ geq t.sndNxt ack then { t with sndUna := ack } else t

def takeData (seq : BitVec 32) (data : List Byte) : Bool × Tcp :=
  if data = [] then (false, t)
  else if seq = t.rcvNxt then
    let n := min data.length (RX - t.len)
    let t := push (data.take n) t
    (true, { t with rcvNxt := t.rcvNxt + BitVec.ofNat 32 n })
  else (true, t)

def takeFin (flags : BitVec 8) (seq : BitVec 32) (data : List Byte) : Bool × Tcp :=
  if flags &&& FIN ≠ 0 ∧ seq + BitVec.ofNat 32 data.length = t.rcvNxt ∧ t.fin = false then
    (true, { t with rcvNxt := t.rcvNxt + 1, fin := true })
  else (false, t)

def onSegment (flags : BitVec 8) (seq ack : BitVec 32) (data : List Byte) : Bool × Tcp :=
  if flags &&& RST ≠ 0 then (false, { t with state := .reset })
  else
    match t.state with
    | .synSent =>
      if flags &&& (SYN ||| ACK) = SYN ||| ACK ∧ ack = t.sndNxt then
        (true, { t with rcvNxt := seq + 1, sndUna := ack, state := .established })
      else (false, t)
    | .established =>
      let (need, t) := (t.takeAck flags ack).takeData seq data
      let (last, t) := t.takeFin flags seq data
      (need || last, t)
    | _ => (false, t)

def Matches (seg : Segment) : Prop :=
  t.state ≠ .closed ∧ seg.src = t.rip ∧ seg.sport = t.rport ∧ seg.dport = t.lport

instance (seg : Segment) : Decidable (t.Matches seg) := inferInstanceAs (Decidable (_ ∧ _))

def pump (event : Option Segment) : Tcp × List Packet :=
  match event with
  | none => (t, [])
  | some seg =>
    if t.Matches seg then
      let (need, t) := t.onSegment seg.flags seg.seq seg.ack seg.data
      (t, if need then [t.ack] else [])
    else (t, [])

def drain : Nat → Tcp → List Byte × Tcp
  | 0, t => ([], t)
  | n + 1, t =>
    let b := t.rx t.head
    let (rest, t) := drain n { t with head := (t.head + 1) % RX, len := t.len - 1 }
    (b :: rest, t)

end Tcp

/-! ## Calls -/

/-- Where the service is: between calls, or in one of the waits of a call.
`tries` counts the attempts that are left. -/
inductive Point where
  | idle
  | connecting (iss : BitVec 32) (tries : Nat)
  | sending (total : Nat) (chunk rest : List Byte) (seq stop : BitVec 32) (tries : Nat)
  | receiving (room : Nat)
  | closing (stop : BitVec 32)
  | lingering
  deriving DecidableEq

inductive Outcome where
  | connected (result : Except Fail Unit)
  | sent (result : Except Fail Nat)
  | received (result : Except Fail (List Byte))
  | closed

structure Conn where
  tcp : Tcp
  point : Point

structure Effect where
  conn : Conn
  packets : List Packet
  outcome : Option Outcome

namespace Conn

inductive Action where
  | connect (ip : Ip) (port : BitVec 16) (iss : BitVec 32)
  | send (data : List Byte)
  | recv (room : Nat)
  | close
  | poll (event : Option Segment)
  | expire

def ret (t : Tcp) (packets : List Packet) (outcome : Outcome) : Effect :=
  ⟨⟨t, .idle⟩, packets, some outcome⟩

def continueAt (t : Tcp) (packets : List Packet) (point : Point) : Effect :=
  ⟨⟨t, point⟩, packets, none⟩

def connectResult (t : Tcp) (packets : List Packet) : Effect :=
  match t.state with
  | .established => ret t packets (.connected (.ok ()))
  | .reset => ret { t with state := .closed } packets (.connected (.error .refused))
  | _ => ret { t with state := .closed } packets (.connected (.error .timeout))

def sendChunk (t : Tcp) (packets : List Packet) (total : Nat) (rest : List Byte) : Effect :=
  if rest = [] then ret t packets (.sent (.ok total))
  else if t.state ≠ .established then ret t packets (.sent (.error .closed))
  else
    let chunk := rest.take MSS
    let seq := t.sndNxt
    let stop := seq + BitVec.ofNat 32 chunk.length
    let t := { t with sndNxt := stop }
    continueAt t (packets ++ [t.segment (PSH ||| ACK) seq chunk])
      (.sending total chunk (rest.drop MSS) seq stop 4)

def chunkResult (t : Tcp) (packets : List Packet) (total : Nat) (rest : List Byte) (acked : Bool) :
    Effect :=
  if acked then sendChunk t packets total rest
  else ret t packets (.sent (.error (if t.state = .reset then .closed else .timeout)))

def recvResult (t : Tcp) (packets : List Packet) (room : Nat) (ready : Bool) : Effect :=
  if !ready then ret t packets (.received (.error .timeout))
  else if t.len = 0 then
    ret t packets (.received (if t.fin then .ok [] else .error .closed))
  else
    let (bytes, t) := Tcp.drain (min room t.len) t
    ret t (packets ++ [t.ack]) (.received (.ok bytes))

def closeResult (t : Tcp) (packets : List Packet) : Effect :=
  ret { t with state := .closed } packets .closed

def done (t : Tcp) : Point → Bool
  | .idle => false
  | .connecting _ _ => decide (t.state ≠ .synSent)
  | .sending _ _ _ _ stop _ => decide (t.state ≠ .established) || geq t.sndUna stop
  | .receiving _ => decide (t.len > 0) || t.fin || decide (t.state ≠ .established)
  | .closing stop => geq t.sndUna stop || decide (t.state ≠ .established)
  | .lingering => t.fin || decide (t.state ≠ .established)

def resume (t : Tcp) (packets : List Packet) (ready : Bool) : Point → Effect
  | .idle => continueAt t packets .idle
  | .connecting iss tries =>
    if ready then connectResult t packets
    else
      match tries with
      | 0 => connectResult t packets
      | tries + 1 =>
        continueAt t (packets ++ [t.segment SYN iss []]) (.connecting iss tries)
  | .sending total chunk rest seq stop tries =>
    if ready then chunkResult t packets total rest (geq t.sndUna stop)
    else
      match tries with
      | 0 => chunkResult t packets total rest false
      | tries + 1 =>
        continueAt t (packets ++ [t.segment (PSH ||| ACK) seq chunk])
          (.sending total chunk rest seq stop tries)
  | .receiving room => recvResult t packets room ready
  | .closing _ => if t.fin then closeResult t packets else continueAt t packets .lingering
  | .lingering => closeResult t packets

section Resume

variable (t : Tcp) (packets : List Packet) (total : Nat) (chunk rest : List Byte)
  (seq stop : BitVec 32) (tries : Nat)

theorem resume_sending_ready : resume t packets true (.sending total chunk rest seq stop tries) =
      chunkResult t packets total rest (geq t.sndUna stop) := by
  simp [resume]

theorem resume_sending_over : resume t packets false (.sending total chunk rest seq stop 0) =
      chunkResult t packets total rest false := by
  simp [resume]

theorem resume_sending_again :
    resume t packets false (.sending total chunk rest seq stop (tries + 1)) =
      continueAt t (packets ++ [t.segment (PSH ||| ACK) seq chunk])
        (.sending total chunk rest seq stop tries) := by
  simp [resume]

end Resume

def startConnect (t : Tcp) (ip : Ip) (port : BitVec 16) (iss : BitVec 32) : Effect :=
  let t := { t with
    lport := t.nextPort
    nextPort := if t.nextPort = 65000 then 49152 else t.nextPort + 1
    rip := ip
    rport := port
    sndUna := iss
    sndNxt := iss + 1
    head := 0
    len := 0
    fin := false
    rcvNxt := 0
    state := .synSent }
  continueAt t [t.segment SYN iss []] (.connecting iss 4)

def startClose (t : Tcp) : Effect :=
  if t.state = .established then
    let seq := t.sndNxt
    let t := { t with sndNxt := seq + 1 }
    continueAt t [t.segment (FIN ||| ACK) seq []] (.closing t.sndNxt)
  else closeResult t []

/-- One step. A call starts only when no other is going on, and only a wait can run
out of time. -/
def step (c : Conn) (action : Action) : Option Effect :=
  match action with
  | .poll event =>
    let (t, packets) := c.tcp.pump event
    some (if done t c.point then resume t packets true c.point
      else continueAt t packets c.point)
  | .expire =>
    if c.point = .idle then none else some (resume c.tcp [] (done c.tcp c.point) c.point)
  | .connect ip port iss => if c.point = .idle then some (startConnect c.tcp ip port iss) else none
  | .send data =>
    if c.point = .idle then some (sendChunk c.tcp [] data.length data) else none
  | .recv room => if c.point = .idle then some (continueAt c.tcp [] (.receiving room)) else none
  | .close => if c.point = .idle then some (startClose c.tcp) else none

end Conn

/-! ## An open connection -/

structure Tcp.Opened (iss irs : BitVec 32) (t : Tcp) : Prop where
  state : t.state = .established
  sndUna : t.sndUna = iss + 1
  sndNxt : t.sndNxt = iss + 1
  rcvNxt : t.rcvNxt = irs + 1
  head : t.head = 0
  len : t.len = 0
  fin : t.fin = false

end K1K.Net
