import K1K.Obj.Slots
import K1K.Service.Host

/-!
# The client side of the file service

`FileClient` of `user/rt/src/file.rs`, as far as its connection goes. Its calls succeed or fail
as the kernel has it.
-/

namespace K1K.Service

open K1K.Lib K1K.Obj

structure FileClient where
  listen : Nat
  reply : Nat
  buf : Nat
  base : Nat
  len : Nat
  deriving DecidableEq

/-- How the calls in `new` come out: the memory object, where it is mapped, the
endpoint, and whether the two handshakes can be sent. -/
structure Outcome where
  memory : Option Nat
  base : Option Nat
  endpoint : Nat
  connect : Bool
  register : Bool

namespace FileClient

def memoryRights : Rights := (Rights.MAP_READ.union .MAP_WRITE).union .GRANT

def endpointRights : Rights := (Rights.SEND.union .RECV).union .GRANT

def new (caps : CapTable) (listen pages : Nat) (k : Outcome) : Option FileClient × CapTable :=
  match k.memory with
  | none => (none, caps)
  | some id =>
    match caps.insert ⟨.memory id, memoryRights⟩ with
    | (none, caps) => (none, caps)
    | (some buf, caps) =>
      match k.base with
      | none => (none, caps)
      | some base =>
        match caps.insert ⟨.endpoint k.endpoint, endpointRights⟩ with
        | (none, caps) => (none, caps)
        | (some reply, caps) =>
          if k.connect ∧ k.register then
            (some ⟨listen, reply, buf, base, max 2 (min pages 64) * 4096⟩, caps)
          else (none, caps)

theorem new_get {caps caps' : CapTable} {listen pages : Nat} {k : Outcome} {fc : FileClient}
    (made : new caps listen pages k = (some fc, caps')) {slot : Nat} (reply : slot ≠ fc.reply)
    (buf : slot ≠ fc.buf) : caps'.get slot = caps.get slot := by
  rw [new] at made
  split at made
  next => cases made
  next id _ =>
    split at made
    next => cases made
    next first middle inserted =>
      split at made
      next => cases made
      split at made
      next => cases made
      next second last inserted' =>
        split at made
        next =>
          cases made
          rw [CapTable.get_of_insert inserted' reply, CapTable.get_of_insert inserted buf]
        next => cases made

end FileClient

end K1K.Service
