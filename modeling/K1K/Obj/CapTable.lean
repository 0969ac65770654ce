import Mathlib

/-!
# Kernel objects and capability tables

The data of `kernel/src/obj/mod.rs`. An object is named by the identity of its `Arc`. Slot
numbers are natural numbers: a table has at most 256.
-/

namespace K1K.Obj

structure Rights where
  bits : BitVec 32
  deriving DecidableEq, Repr

namespace Rights

def SEND : Rights := ⟨1#32 <<< 0⟩
def RECV : Rights := ⟨1#32 <<< 1⟩
def GRANT : Rights := ⟨1#32 <<< 2⟩
def MAP_READ : Rights := ⟨1#32 <<< 3⟩
def MAP_WRITE : Rights := ⟨1#32 <<< 4⟩
def DMA : Rights := ⟨1#32 <<< 5⟩
def SPAWN : Rights := ⟨1#32 <<< 6⟩
def SIGNAL : Rights := ⟨1#32 <<< 7⟩
def WAIT : Rights := ⟨1#32 <<< 8⟩

def contains (r other : Rights) : Bool := r.bits &&& other.bits == other.bits

def intersect (r other : Rights) : Rights := ⟨r.bits &&& other.bits⟩

def union (r other : Rights) : Rights := ⟨r.bits ||| other.bits⟩

end Rights

structure PortRange where
  base : BitVec 16
  len : BitVec 16
  deriving DecidableEq, Repr

inductive Object where
  | endpoint (id : Nat)
  | notify (id : Nat)
  | memory (id : Nat)
  | device (id : Nat)
  | irq (id : Nat)
  | port (range : PortRange)
  | control
  | console
  deriving DecidableEq, Repr

structure Capability where
  object : Object
  rights : Rights
  deriving DecidableEq, Repr

namespace Capability

def endpoint (cap : Capability) : Option Nat :=
  match cap.object with
  | .endpoint id => some id
  | _ => none

def memory (cap : Capability) : Option Nat :=
  match cap.object with
  | .memory id => some id
  | _ => none

def device (cap : Capability) : Option Nat :=
  match cap.object with
  | .device id => some id
  | _ => none

def port (cap : Capability) : Option PortRange :=
  match cap.object with
  | .port range => some range
  | _ => none

def isControl (cap : Capability) : Bool :=
  match cap.object with
  | .control => true
  | _ => false

end Capability

def MAX_SLOTS : Nat := 256

structure CapTable where
  slots : List (Option Capability)
  revoked : List Bool
  deriving DecidableEq, Repr

namespace CapTable

def new : CapTable := ⟨[], []⟩

def firstUsable (t : CapTable) : Option Nat :=
  (List.range t.slots.length).find? fun i =>
    decide (t.slots[i]? = some none) && !t.revoked.getD i false

def insert (t : CapTable) (cap : Capability) : Option Nat × CapTable :=
  match t.firstUsable with
  | some i => (some i, { t with slots := t.slots.set i (some cap) })
  | none =>
    if t.slots.length ≥ MAX_SLOTS then (none, t)
    else (some t.slots.length, ⟨t.slots ++ [some cap], t.revoked ++ [false]⟩)

def get (t : CapTable) (slot : Nat) : Option Capability :=
  t.slots[slot]?.join

def lookup (t : CapTable) (slot : Nat) (rights : Rights) : Option Capability :=
  (t.get slot).filter fun cap => cap.rights.contains rights

def derive (t : CapTable) (slot : Nat) (mask : Rights) : Option Capability :=
  (t.lookup slot .GRANT).map fun cap => ⟨cap.object, cap.rights.intersect mask⟩

def iter (t : CapTable) : List Capability := t.slots.reduceOption

def hasControl (t : CapTable) : Bool := t.iter.any Capability.isControl

def revoke (t : CapTable) (slot : Nat) : Option Capability × CapTable :=
  if t.revoked.getD slot false then (none, t)
  else
    match t.slots[slot]? with
    | some (some cap) =>
      (some cap, { slots := t.slots.set slot none, revoked := t.revoked.set slot true })
    | _ => (none, t)

def slotAt (t : CapTable) (n : Nat) : Option Nat :=
  ((List.range t.slots.length).filter fun i => (t.get i).isSome)[n]?

def slotCount (t : CapTable) : Nat := t.slots.length

def liveSlots (t : CapTable) : Nat := t.slots.countP Option.isSome

def revokedSlots (t : CapTable) : Nat := t.revoked.countP id

def freeSlots (t : CapTable) : Nat :=
  (MAX_SLOTS - t.slots.length) +
    (t.slots.zip t.revoked).countP fun entry => entry.1.isNone && !entry.2

def remove (t : CapTable) (slot : Nat) : Option Capability × CapTable :=
  (t.get slot, { t with slots := t.slots.set slot none })

/-- The strip loop of `take_dead`: revoke the first live slot until none is left, counting. `none`
means that `fuel` turns did not finish. -/
def strip : Nat → CapTable → Nat → Option (CapTable × Nat)
  | 0, _, _ => none
  | fuel + 1, t, taken =>
    match (List.range t.slotCount).find? fun s => (t.get s).isSome with
    | none => some (t, taken)
    | some slot =>
      let result := t.revoke slot
      strip fuel result.2 (if result.1.isSome then taken + 1 else taken)

end CapTable

end K1K.Obj
