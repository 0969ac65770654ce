import K1K.Ipc.Endpoint
import K1K.Service.Host

/-!
# The server side of a capability service

`Server` of `user/rt/src/server.rs`: a table of clients, each with the buffer it registered,
whose length comes from the message. A reply endpoint is kept as the capability it was sent as.
-/

namespace K1K.Service

open K1K.Lib K1K.Mm K1K.Obj K1K.Syscall
open Function (update update_of_ne update_self)

abbrev MAX_CLIENTS : Nat := 16

def REGISTER_BUF : BitVec 64 := 1
def CONNECT : BitVec 64 := 2
def BYE : BitVec 64 := 8

abbrev Message : Type := Ipc.Message Nat

namespace Message

variable (m : Message)

instance words_neZero : NeZero 4 := ⟨by decide⟩

/-- A word of the message; the kernel puts the slot of a capability into the last. -/
def word (i : Fin 4) : BitVec 64 := m.words i

def claimed : Nat := (m.word 0 >>> 32).toNat

theorem claimed_lt : m.claimed < 2 ^ 32 := by
  rw [claimed, BitVec.toNat_ushiftRight, Nat.shiftRight_eq_div_pow]
  have := (m.word 0).isLt
  omega

end Message

structure Client where
  task : Nat
  reply : Option Capability
  buf : Option Capability
  map : Option Nat
  mapLen : Nat
  deriving DecidableEq

def Client.new (task : Nat) : Client := ⟨task, none, none, none, 0⟩

structure Request where
  op : BitVec 64
  reqLen : Nat
  want : Nat
  client : Nat
  cap : Option Capability
  deriving DecidableEq

def Message.request (m : Message) : Request :=
  ⟨m.word 0 &&& 0xFFFF, (m.word 1).toNat, (m.word 2).toNat, m.sender, m.cap⟩

structure Server where
  clients : Fin MAX_CLIENTS → Option Client
  cursor : Fin MAX_CLIENTS

namespace Server

def new : Server := ⟨fun _ => none, 0⟩

variable (srv : Server)

def setClient (i : Fin MAX_CLIENTS) (c : Option Client) : Server :=
  { srv with clients := update srv.clients i c }

def slotOf (task : Nat) : Option (Fin MAX_CLIENTS) :=
  (List.finRange MAX_CLIENTS).find? fun i => (srv.clients i).any (·.task == task)

def placeClient (task : Nat) : Nat → Server → Server
  | 0, srv => srv
  | turns + 1, srv =>
    let cursor := srv.cursor + 1
    let srv := { srv with cursor := cursor }
    if (srv.clients cursor).isNone then srv.setClient cursor (some (.new task))
    else placeClient task turns srv

def slotOfOrNew (task : Nat) : Option (Fin MAX_CLIENTS) × Server :=
  let srv := if (srv.slotOf task).isNone then placeClient task MAX_CLIENTS srv else srv
  (srv.slotOf task, srv)

def client (task : Nat) : Option Client := (srv.slotOf task).bind srv.clients

def modify (i : Fin MAX_CLIENTS) (f : Client → Client) : Server :=
  srv.setClient i ((srv.clients i).map f)

def connect (task : Nat) (reply : Capability) : Server :=
  match srv.slotOfOrNew task with
  | (some i, srv) => srv.modify i fun c => { c with reply := some reply }
  | (none, srv) => srv

def clampPages (pages : Nat) : Nat := max 1 (min pages 4096)

def register (objects : Nat → MemoryObject) (h : Host) (task : Nat) (buf : Capability)
    (pages : Nat) : Option (Option Nat × Server × Host) :=
  match srv.slotOfOrNew task with
  | (none, srv) => some (none, srv, h)
  | (some i, srv) =>
    match h.memMap objects buf true with
    | none => none
    | some (.ok p, h) =>
      some (buf.memory, srv.modify i fun c =>
        { c with buf := some buf, map := some p, mapLen := clampPages pages * 4096 }, h)
    | some (.error _, h) =>
      some (none, srv.modify i fun c => { c with buf := none, map := none, mapLen := 0 }, h)

def dropClient (task : Nat) : Server :=
  match srv.slotOf task with
  | some i => srv.setClient i none
  | none => srv

def clientBuffer (task : Nat) : Option Span :=
  match srv.client task with
  | none => none
  | some c =>
    match c.map with
    | some p => if c.mapLen > 0 then some ⟨p, c.mapLen⟩ else none
    | none => none

/-! ## Slots -/

def Distinct : Prop := ∀ i j c d, srv.clients i = some c → srv.clients j = some d →
  c.task = d.task → i = j

variable {srv} {srv' : Server} {task : Nat} {i : Fin MAX_CLIENTS}

@[simp]
theorem setClient_self (c : Option Client) : (srv.setClient i c).clients i = c :=
  update_self ..

@[simp]
theorem setClient_other {j : Fin MAX_CLIENTS} (ne : j ≠ i) (c : Option Client) :
    (srv.setClient i c).clients j = srv.clients j :=
  update_of_ne ne ..

theorem slotOf_some (found : srv.slotOf task = some i) :
    ∃ c, srv.clients i = some c ∧ c.task = task := by
  have chosen := List.find?_some found
  obtain ⟨c, held, eq⟩ := (Option.any_eq_true _ _).mp chosen
  exact ⟨c, held, by simpa using eq⟩

theorem slotOf_none (missing : srv.slotOf task = none) {c : Client}
    (held : srv.clients i = some c) : c.task ≠ task := by
  intro eq
  have refused := List.find?_eq_none.mp missing i (List.mem_finRange i)
  simp [held, eq] at refused

/-- What can become of the slots while a task gets one: they stay, or one that was
free is now a new client's. -/
inductive Seated (srv : Server) (task : Nat) (srv' : Server) : Prop where
  | same (clients : srv'.clients = srv.clients)
  | placed (i : Fin MAX_CLIENTS) (free : srv.clients i = none)
      (clients : srv'.clients = update srv.clients i (some (.new task)))

theorem placeClient_seated (task turns : Nat) (srv : Server) :
    Seated srv task (placeClient task turns srv) := by
  induction turns generalizing srv with
  | zero => exact .same rfl
  | succ turns ih =>
    simp only [placeClient]
    split
    next free => exact .placed (srv.cursor + 1) (by simpa using free) rfl
    cases ih { srv with cursor := srv.cursor + 1 } with
    | same clients => exact .same clients
    | placed i free clients => exact .placed i free clients

variable (srv task) in
theorem slotOfOrNew_spec (nodup : srv.Distinct) : (srv.slotOfOrNew task).2.Distinct ∧
      ∀ j c, (srv.slotOfOrNew task).2.clients j = some c →
        srv.clients j = some c ∨ c = .new task := by
  rw [slotOfOrNew]
  split
  next missing =>
    have absent : ∀ j c, srv.clients j = some c → c.task ≠ task := fun j c held =>
      slotOf_none (by simpa using missing) held
    cases placeClient_seated task MAX_CLIENTS srv with
    | same clients =>
      simp only [Distinct, clients]
      exact ⟨nodup, fun _ _ held => .inl held⟩
    | placed i free clients =>
      simp only [Distinct, clients]
      have either : ∀ j c, update srv.clients i (some (Client.new task)) j = some c →
          (j ≠ i ∧ srv.clients j = some c) ∨ (j = i ∧ c = .new task) := by
        intro j c held
        by_cases same : j = i
        · rw [same, update_self] at held
          exact .inr ⟨same, (Option.some.inj held).symm⟩
        · rw [update_of_ne same] at held
          exact .inl ⟨same, held⟩
      constructor
      · intro j k c d first second tasks
        rcases either j c first with ⟨-, old⟩ | ⟨rfl, rfl⟩ <;>
          rcases either k d second with ⟨-, old'⟩ | ⟨rfl, rfl⟩
        · exact nodup j k c d old old' tasks
        · exact absurd tasks (absent j c old)
        · exact absurd tasks.symm (absent k d old')
        · rfl
      · intro j c held
        rcases either j c held with ⟨-, old⟩ | ⟨-, new⟩
        · exact .inl old
        · exact .inr new
  next => exact ⟨nodup, fun _ _ held => .inl held⟩

theorem modify_clients {f : Client → Client} {j : Fin MAX_CLIENTS} {c : Client}
    (held : (srv.modify i f).clients j = some c) :
    (j ≠ i ∧ srv.clients j = some c) ∨ (j = i ∧ ∃ d, srv.clients i = some d ∧ c = f d) := by
  by_cases eq : j = i
  · rw [eq, modify, setClient_self] at held
    obtain ⟨d, was, rfl⟩ := Option.map_eq_some_iff.mp held
    exact .inr ⟨eq, d, was, rfl⟩
  · rw [modify, setClient_other eq] at held
    exact .inl ⟨eq, held⟩

theorem Distinct.modify (nodup : srv.Distinct) {f : Client → Client}
    (task : ∀ c, (f c).task = c.task) : (srv.modify i f).Distinct := by
  -- Every client there has a counterpart in the same slot before, with the same task.
  have before : ∀ j c, (srv.modify i f).clients j = some c →
      ∃ d, srv.clients j = some d ∧ c.task = d.task := by
    intro j c held
    rcases modify_clients held with ⟨-, old⟩ | ⟨rfl, d, old, rfl⟩
    · exact ⟨c, old, rfl⟩
    · exact ⟨d, old, task d⟩
  intro j k c d first second tasks
  obtain ⟨c', old, same⟩ := before j c first
  obtain ⟨d', old', same'⟩ := before k d second
  exact nodup j k c' d' old old' (by rw [← same, ← same', tasks])

theorem dropClient_clients {j : Fin MAX_CLIENTS} {c : Client}
    (held : (srv.dropClient task).clients j = some c) : srv.clients j = some c := by
  rw [dropClient] at held
  split at held
  next i found =>
    by_cases eq : j = i
    · simp [eq] at held
    · simpa [setClient_other eq] using held
  next => exact held

theorem slotOf_eq (nodup : srv.Distinct) {c : Client} (held : srv.clients i = some c) :
    srv.slotOf c.task = some i := by
  rcases found : srv.slotOf c.task with _ | j
  · exact absurd rfl (slotOf_none found held)
  · obtain ⟨d, held', eq⟩ := slotOf_some found
    rw [nodup i j c d held held' eq.symm]

theorem placeClient_free (task turns : Nat) (srv : Server) : (∃ i, srv.clients i = none ∧
      (placeClient task turns srv).clients = update srv.clients i (some (.new task))) ∨
    ((placeClient task turns srv).clients = srv.clients ∧
      ∀ k < turns, (srv.clients (srv.cursor + 1 + Fin.ofNat _ k)).isSome) := by
  induction turns generalizing srv with
  | zero => exact .inr ⟨rfl, by simp⟩
  | succ turns ih =>
    simp only [placeClient]
    split
    next free => exact .inl ⟨srv.cursor + 1, by simpa using free, rfl⟩
    next ran =>
      rcases ih { srv with cursor := srv.cursor + 1 } with placed | ⟨eq, seen⟩
      · exact .inl placed
      refine .inr ⟨eq, fun k small => ?_⟩
      cases k with
      | zero => simpa [Option.isSome_iff_ne_none] using ran
      | succ k =>
        have next := seen k (by omega)
        have pos : srv.cursor + 1 + Fin.ofNat MAX_CLIENTS (k + 1) =
            srv.cursor + 1 + 1 + Fin.ofNat MAX_CLIENTS k := by
          rw [add_assoc (srv.cursor + 1)]
          congr 1
          apply Fin.ext
          change (k + 1) % 16 = (1 + k % 16) % 16
          omega
        rwa [pos]

/-- How a task gets a slot: it has one, there is a free one, or all are taken. -/
inductive Seating (srv : Server) (task : Nat) : Option (Fin MAX_CLIENTS) → Server → Prop where
  | known {i : Fin MAX_CLIENTS} {c : Client} : srv.clients i = some c → c.task = task →
      Seating srv task (some i) srv
  | placed {i : Fin MAX_CLIENTS} {srv' : Server} : (∀ j c, srv.clients j = some c → c.task ≠ task) →
      srv.clients i = none → srv'.clients = update srv.clients i (some (.new task)) →
      Seating srv task (some i) srv'
  | full {srv' : Server} : (∀ j c, srv.clients j = some c → c.task ≠ task) →
      (∀ j, (srv.clients j).isSome) → srv'.clients = srv.clients → Seating srv task none srv'

variable (srv task) in
theorem slotOfOrNew_seating (nodup : srv.Distinct) :
    Seating srv task (srv.slotOfOrNew task).1 (srv.slotOfOrNew task).2 := by
  have kept := (srv.slotOfOrNew_spec task nodup).1
  rw [slotOfOrNew] at kept ⊢
  rcases found : srv.slotOf task with _ | i
  · have absent : ∀ j c, srv.clients j = some c → c.task ≠ task := fun j c held =>
      slotOf_none found held
    simp only [found, Option.isNone_none, if_true] at kept ⊢
    rcases placeClient_free task MAX_CLIENTS srv with ⟨i, free, clients⟩ | ⟨clients, seen⟩
    · have held : (placeClient task MAX_CLIENTS srv).clients i = some (.new task) := by
        rw [clients, update_self]
      have slot := slotOf_eq kept held
      simp only [Client.new] at slot
      rw [slot]
      exact .placed absent free clients
    · have full : ∀ j, (srv.clients j).isSome := by
        intro j
        have reached := seen (j - (srv.cursor + 1)).val (j - (srv.cursor + 1)).isLt
        have pos : srv.cursor + 1 + Fin.ofNat MAX_CLIENTS (j - (srv.cursor + 1)).val = j := by
          rw [Fin.ofNat_val_eq_self]
          exact add_sub_cancel _ _
        rwa [pos] at reached
      have missing : (placeClient task MAX_CLIENTS srv).slotOf task = none := by
        rw [slotOf, clients]
        exact found
      rw [missing]
      exact .full absent full clients
  · obtain ⟨c, held, eq⟩ := slotOf_some found
    simp only [found, Option.isNone_some, Bool.false_eq_true, if_false]
    exact .known held eq

end Server

end K1K.Service
