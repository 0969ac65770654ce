import K1K.Lib.Serial
import K1K.Net.Tcp

/-!
# The receive stream

A peer sends the bytes of one stream, in segments that may be lost, repeated, reordered and cut,
with calls of `recv` in between. What `recv` has returned, followed by the ring, is always a
prefix of the stream, of the length `count` that `rcv_nxt` says.
-/

namespace K1K.Net

open K1K.Lib

namespace Tcp

def ring (t : Tcp) : List Byte := ringContents t.rx RX t.head t.len

@[simp]
theorem length_ring (t : Tcp) : t.ring.length = t.len := length_ringContents

theorem push_eq (bytes : List Byte) (t : Tcp) :
    push bytes t = { t with rx := (push bytes t).rx, len := t.len + bytes.length } := by
  induction bytes generalizing t with
  | nil => rfl
  | cons b rest ih =>
    rw [push, ih]
    simp only [List.length_cons]
    congr 1
    omega

section Push

variable (bytes : List Byte) (t : Tcp)

@[simp]
theorem push_len : (push bytes t).len = t.len + bytes.length := by
  rw [push_eq]

@[simp]
theorem push_head : (push bytes t).head = t.head := by
  rw [push_eq]

@[simp]
theorem push_fin : (push bytes t).fin = t.fin := by
  rw [push_eq]

@[simp]
theorem push_rcvNxt : (push bytes t).rcvNxt = t.rcvNxt := by
  rw [push_eq]

@[simp]
theorem push_sndUna : (push bytes t).sndUna = t.sndUna := by
  rw [push_eq]

@[simp]
theorem push_sndNxt : (push bytes t).sndNxt = t.sndNxt := by
  rw [push_eq]

@[simp]
theorem push_state : (push bytes t).state = t.state := by
  rw [push_eq]

end Push

theorem ring_push (bytes : List Byte) {t : Tcp} (room : t.len + bytes.length ≤ RX) :
    (push bytes t).ring = t.ring ++ bytes := by
  induction bytes generalizing t with
  | nil => simp [push]
  | cons b rest ih =>
    rw [List.length_cons] at room
    have pushed : ring { t with
        rx := Function.update t.rx ((t.head + t.len) % RX) b, len := t.len + 1 } = t.ring ++ [b] :=
      ringContents_push b (by omega)
    rw [push, ih (by simp only; omega), pushed, List.append_assoc]
    rfl

theorem drain_eq (n : Nat) (t : Tcp) :
    (drain n t).2 = { t with head := (drain n t).2.head, len := t.len - n } := by
  induction n generalizing t with
  | zero => rfl
  | succ n ih =>
    have length : t.len - (n + 1) = t.len - 1 - n := by omega
    rw [length]
    exact ih _

@[simp]
theorem drain_sndUna (n : Nat) (t : Tcp) : (drain n t).2.sndUna = t.sndUna := by
  rw [drain_eq]

@[simp]
theorem drain_sndNxt (n : Nat) (t : Tcp) : (drain n t).2.sndNxt = t.sndNxt := by
  rw [drain_eq]

@[simp]
theorem drain_state (n : Nat) (t : Tcp) : (drain n t).2.state = t.state := by
  rw [drain_eq]

theorem drain_spec (n : Nat) {t : Tcp} (enough : n ≤ t.len) (lt : t.head < RX) :
    (drain n t).1 = t.ring.take n ∧ (drain n t).2.ring = t.ring.drop n ∧
      (drain n t).2.head < RX := by
  induction n generalizing t with
  | zero => simp [drain, lt]
  | succ n ih =>
    have some : t.len - 1 + 1 = t.len := by omega
    have popped : t.ring = t.rx t.head ::
        ring { t with head := (t.head + 1) % RX, len := t.len - 1 } := by
      have split := ringContents_pop t.rx RX t.head (t.len - 1)
      rw [some, Nat.mod_eq_of_lt lt] at split
      exact split
    rcases ih (t := { t with head := (t.head + 1) % RX, len := t.len - 1 })
      (by simp only; omega) (Nat.mod_lt _ (by decide)) with ⟨bytes, left, within⟩
    refine ⟨?_, ?_, within⟩
    · rw [popped, List.take_succ_cons, ← bytes]
      rfl
    · rw [popped, List.drop_succ_cons, ← left]
      rfl

end Tcp

/-! ## The peer -/

section Peer

variable (S : List Byte) (irs : BitVec 32)

/-- The data of a segment is a part of the stream, at its place; the end of the
stream is announced only there. -/
structure Carries (flags : BitVec 8) (seq : BitVec 32) (data : List Byte) : Prop where
  part : data ≠ [] → ∃ k, seq = serial (irs + 1) k ∧ k + data.length ≤ S.length ∧
    data = (S.drop k).take data.length
  last : flags &&& FIN ≠ 0 → seq + BitVec.ofNat 32 data.length = serial (irs + 1) S.length

/-- The first `count` bytes of the stream have come, and `delivered` of them have
been read. -/
structure Received (delivered : List Byte) (t : Tcp) (count : Nat) : Prop where
  stream : delivered ++ t.ring = S.take count
  bound : count ≤ S.length
  next : t.rcvNxt = serial (irs + 1) (count + t.fin.toNat)
  ended : t.fin = true → count = S.length
  room : t.len ≤ RX
  inside : t.head < RX

end Peer

section Segments

variable {S : List Byte} {irs : BitVec 32} {delivered : List Byte} {t : Tcp} {count : Nat}
  {flags : BitVec 8} {seq ack : BitVec 32} {data : List Byte}

variable (flags ack) in
theorem Received.takeAck (got : Received S irs delivered t count) :
    Received S irs delivered (t.takeAck flags ack) count := by
  rw [Tcp.takeAck]
  split
  next => exact ⟨got.stream, got.bound, got.next, got.ended, got.room, got.inside⟩
  next => exact got

/-- A part of the stream that is next in order begins where the bytes so far end,
and the end of the stream has not come. -/
theorem Received.place (got : Received S irs delivered t count) (short : S.length < 2 ^ 31)
    {k : Nat} (next : serial (irs + 1) k = t.rcvNxt) (within : k < S.length) :
    k = count ∧ t.fin = false := by
  have bound := got.bound
  have flag : t.fin.toNat ≤ 1 := Bool.toNat_le t.fin
  have eq : k = count + t.fin.toNat :=
    serial_injective (by omega) (by omega) (next.trans got.next)
  cases ended : t.fin with
  | false => exact ⟨by simpa [ended] using eq, rfl⟩
  | true =>
    have := got.ended ended
    omega

theorem Received.takeData (got : Received S irs delivered t count) (short : S.length < 2 ^ 31)
    (carries : Carries S irs flags seq data) :
    ∃ count', Received S irs delivered (t.takeData seq data).2 count' := by
  rw [Tcp.takeData]
  split
  next => exact ⟨count, got⟩
  next filled =>
    split
    next inOrder =>
      obtain ⟨k, place, within, bytes⟩ := carries.part filled
      have pos : 0 < data.length := List.length_pos_of_ne_nil filled
      obtain ⟨rfl, unfinished⟩ := got.place short (place.symm.trans inOrder) (by omega)
      have room := got.room
      generalize ran : min data.length (RX - t.len) = n
      have length : (data.take n).length = n := by
        rw [List.length_take]
        omega
      have fits : t.len + (data.take n).length ≤ RX := by omega
      have front : data.take n = (S.drop k).take n := by
        rw [bytes, List.take_take]
        congr 1
        omega
      have ring : (Tcp.push (data.take n) t).ring = t.ring ++ data.take n := Tcp.ring_push _ fits
      refine ⟨k + n, ?_, by omega, ?_, ?_, ?_, ?_⟩
      · have whole : Tcp.ring { Tcp.push (data.take n) t with
            rcvNxt := (Tcp.push (data.take n) t).rcvNxt + BitVec.ofNat 32 n } =
            t.ring ++ data.take n := ring
        rw [whole, ← List.append_assoc, got.stream, front, List.take_add]
      · simp only [Tcp.push_rcvNxt, Tcp.push_fin, unfinished, got.next, Bool.toNat_false,
          Nat.add_zero, serial_add]
      · simp [unfinished]
      · simpa using fits
      · simpa using got.inside
    next => exact ⟨count, got⟩

theorem Received.drain (got : Received S irs delivered t count) {n : Nat} (enough : n ≤ t.len) :
    Received S irs (delivered ++ (Tcp.drain n t).1) (Tcp.drain n t).2 count ∧
      (Tcp.drain n t).2.state = t.state ∧ (Tcp.drain n t).1 = t.ring.take n := by
  obtain ⟨bytes, left, within⟩ := Tcp.drain_spec n enough got.inside
  have fields := Tcp.drain_eq n t
  have room := got.room
  refine ⟨⟨?_, got.bound, ?_, ?_, ?_, within⟩, Tcp.drain_state n t, bytes⟩
  · rw [bytes, left, List.append_assoc, List.take_append_drop, got.stream]
  · rw [fields]
    exact got.next
  · rw [fields]
    exact got.ended
  · rw [fields]
    simp only
    omega

theorem Received.takeFin (got : Received S irs delivered t count) (short : S.length < 2 ^ 31)
    (carries : Carries S irs flags seq data) :
    Received S irs delivered (t.takeFin flags seq data).2 count := by
  rw [Tcp.takeFin]
  split
  next finished =>
    obtain ⟨flag, place, unfinished⟩ := finished
    have bound := got.bound
    have all : S.length = count := by
      have eq := (carries.last flag).symm.trans (place.trans got.next)
      rw [unfinished] at eq
      simpa using serial_injective (by omega) (by simp; omega) eq
    refine ⟨got.stream, bound, ?_, fun _ => all.symm, got.room, got.inside⟩
    simp only [got.next, unfinished, Bool.toNat_false, Nat.add_zero, Bool.toNat_true]
    exact serial_add (irs + 1) count 1
  next => exact got

theorem Received.onSegment (got : Received S irs delivered t count) (short : S.length < 2 ^ 31)
    (open_ : t.state ≠ .synSent) (carries : Carries S irs flags seq data) :
    ∃ count', Received S irs delivered (t.onSegment flags seq ack data).2 count' := by
  rw [Tcp.onSegment]
  split
  next => exact ⟨count, got.stream, got.bound, got.next, got.ended, got.room, got.inside⟩
  split
  next opening => exact absurd opening open_
  next =>
    obtain ⟨count', later⟩ := (got.takeAck flags ack).takeData short carries
    exact ⟨count', later.takeFin short carries⟩
  next => exact ⟨count, got⟩

theorem onSegment_state (opened : t.state ≠ .synSent) :
    (t.onSegment flags seq ack data).2.state ≠ .synSent := by
  rw [Tcp.onSegment]
  split
  next => simp
  split
  next opening => exact absurd opening opened
  next established =>
    have kept : ((t.takeAck flags ack).takeData seq data).2.state = t.state := by
      simp only [Tcp.takeData, Tcp.takeAck]
      split_ifs <;> simp
    simp only [Tcp.takeFin]
    split
    next => simpa [kept] using opened
    next => simpa [kept] using opened
  next => exact opened

theorem pump_state (event : Option Segment) (opened : t.state ≠ .synSent) :
    (t.pump event).1.state ≠ .synSent := by
  cases event with
  | none => exact opened
  | some seg =>
    simp only [Tcp.pump]
    split
    next => exact onSegment_state opened
    next => exact opened

theorem Received.pump (got : Received S irs delivered t count) (short : S.length < 2 ^ 31)
    (opened : t.state ≠ .synSent) {event : Option Segment}
    (carries : ∀ seg, event = some seg → t.Matches seg → Carries S irs seg.flags seg.seq seg.data) :
    ∃ count', Received S irs delivered (t.pump event).1 count' := by
  cases event with
  | none => exact ⟨count, got⟩
  | some seg =>
    simp only [Tcp.pump]
    split
    next matching => exact got.onSegment short opened (carries seg rfl matching)
    next => exact ⟨count, got⟩

end Segments

/-! ## Sessions -/

def Effect.received (e : Effect) : Option (List Byte) :=
  match e.outcome with
  | some (.received (.ok bytes)) => some bytes
  | _ => none

def Point.room : Point → Nat
  | .receiving room => room
  | _ => 0

/-- A connection, all that `recv` has returned on it, and the last step's return of
`recv` with the room it had. -/
structure Session where
  conn : Conn
  delivered : List Byte
  returned : Option (Nat × List Byte)

def Effect.session (e : Effect) (delivered : List Byte) (room : Nat) : Session where
  conn := e.conn
  delivered := delivered ++ e.received.getD []
  returned := e.received.map fun bytes => (room, bytes)

namespace Session

def start (t : Tcp) : Session := ⟨⟨t, .idle⟩, [], none⟩

def step (s : Session) (action : Conn.Action) : Option Session :=
  (s.conn.step action).map fun e => e.session s.delivered s.conn.point.room

/-- Whatever arrives for the connection is the peer's stream, and the connection is
not given up for a new one. -/
def Conforms (S : List Byte) (irs : BitVec 32) (s : Session) : Conn.Action → Prop
  | .poll (some seg) => s.conn.tcp.Matches seg → Carries S irs seg.flags seg.seq seg.data
  | .connect _ _ _ => False
  | _ => True

structure Inv (S : List Byte) (irs : BitVec 32) (s : Session) : Prop where
  received : ∃ count, Received S irs s.delivered s.conn.tcp count
  opened : s.conn.tcp.state ≠ .synSent
  point : ∀ iss tries, s.conn.point ≠ .connecting iss tries
  ended : ∀ room bytes, s.returned = some (room, bytes) → 0 < room → bytes = [] → s.delivered = S

section Effects

variable {S : List Byte} {irs : BitVec 32} {delivered : List Byte} {t : Tcp} {count : Nat}
  {packets : List Packet}

theorem inv_silent {e : Effect} {room : Nat} (silent : e.received = none)
    (got : Received S irs delivered e.conn.tcp count) (opened : e.conn.tcp.state ≠ .synSent)
    (point : ∀ iss tries, e.conn.point ≠ .connecting iss tries) :
    (e.session delivered room).Inv S irs where
  received := ⟨count, by simpa [Effect.session, silent] using got⟩
  opened := opened
  point := point
  ended := by simp [Effect.session, silent]

theorem inv_recvResult (got : Received S irs delivered t count) (opened : t.state ≠ .synSent)
    (room : Nat) (ready : Bool) :
    ((Conn.recvResult t packets room ready).session delivered room).Inv S irs := by
  rw [Conn.recvResult]
  split
  next => exact inv_silent rfl got opened (by simp [Conn.ret])
  split
  next empty =>
    cases ended : t.fin with
    | false => exact inv_silent rfl got opened (by simp [Conn.ret])
    | true =>
      have nothing : t.ring = [] := List.eq_nil_of_length_eq_zero (by simpa using empty)
      refine ⟨⟨count, by simpa [Effect.session, Effect.received, Conn.ret] using got⟩, opened,
        by simp [Effect.session, Conn.ret], fun _ _ _ _ _ => ?_⟩
      have all := got.stream
      rw [nothing, got.ended ended, List.take_length, List.append_nil] at all
      simpa [Effect.session, Effect.received, Conn.ret] using all
  next filled =>
    obtain ⟨later, state, bytes⟩ := got.drain (Nat.min_le_right room t.len)
    refine ⟨⟨count, later⟩, by simpa [Effect.session, Conn.ret, state] using opened,
      by simp [Effect.session, Conn.ret], ?_⟩
    rintro _ _ ⟨⟩ pos nothing
    have length := congrArg List.length (bytes.symm.trans nothing)
    rw [List.length_take, Tcp.length_ring, List.length_nil] at length
    omega

theorem inv_sendChunk (got : Received S irs delivered t count) (opened : t.state ≠ .synSent)
    (total : Nat) (rest : List Byte) (room : Nat) :
    ((Conn.sendChunk t packets total rest).session delivered room).Inv S irs := by
  rw [Conn.sendChunk]
  split
  next => exact inv_silent rfl got opened (by simp [Conn.ret])
  split
  next => exact inv_silent rfl got opened (by simp [Conn.ret])
  exact inv_silent rfl ⟨got.stream, got.bound, got.next, got.ended, got.room, got.inside⟩ opened
    (by simp [Conn.continueAt])

theorem inv_chunkResult (got : Received S irs delivered t count) (opened : t.state ≠ .synSent)
    (total : Nat) (rest : List Byte) (acked : Bool) (room : Nat) :
    ((Conn.chunkResult t packets total rest acked).session delivered room).Inv S irs := by
  rw [Conn.chunkResult]
  split
  next => exact inv_sendChunk got opened total rest room
  next => exact inv_silent rfl got opened (by simp [Conn.ret])

theorem inv_closeResult (got : Received S irs delivered t count) (room : Nat) :
    ((Conn.closeResult t packets).session delivered room).Inv S irs :=
  inv_silent rfl ⟨got.stream, got.bound, got.next, got.ended, got.room, got.inside⟩
    (by simp [Conn.closeResult, Conn.ret]) (by simp [Conn.closeResult, Conn.ret])

theorem inv_resume (got : Received S irs delivered t count) (opened : t.state ≠ .synSent)
    (ready : Bool) {point : Point} (talking : ∀ iss tries, point ≠ .connecting iss tries) :
    ((Conn.resume t packets ready point).session delivered point.room).Inv S irs := by
  cases point with
  | idle => exact inv_silent rfl got opened talking
  | connecting iss tries => exact absurd rfl (talking iss tries)
  | sending total chunk rest seq stop tries =>
    cases ready with
    | true =>
      rw [Conn.resume_sending_ready]
      exact inv_chunkResult got opened total rest _ _
    | false =>
      cases tries with
      | zero =>
        rw [Conn.resume_sending_over]
        exact inv_chunkResult got opened total rest _ _
      | succ tries =>
        rw [Conn.resume_sending_again]
        exact inv_silent rfl got opened (by simp [Conn.continueAt])
  | receiving room => exact inv_recvResult got opened room ready
  | closing stop =>
    rw [Conn.resume]
    split
    next => exact inv_closeResult got _
    next => exact inv_silent rfl got opened (by simp [Conn.continueAt])
  | lingering => exact inv_closeResult got _

end Effects

theorem Inv.step {S : List Byte} {irs : BitVec 32} {s s' : Session} {action : Conn.Action}
    (inv : s.Inv S irs) (short : S.length < 2 ^ 31) (conforms : s.Conforms S irs action)
    (taken : s.step action = some s') : s'.Inv S irs := by
  obtain ⟨e, ran, rfl⟩ := Option.map_eq_some_iff.mp taken
  obtain ⟨count, got⟩ := inv.received
  cases action with
  | poll event =>
    simp only [Conn.step, Option.some.injEq] at ran
    subst ran
    have carries : ∀ seg, event = some seg → s.conn.tcp.Matches seg →
        Carries S irs seg.flags seg.seq seg.data := by
      rintro seg rfl
      exact conforms
    obtain ⟨count', later⟩ := got.pump short inv.opened carries
    have opened := pump_state event inv.opened
    split
    next => exact inv_resume later opened true inv.point
    next => exact inv_silent rfl later opened inv.point
  | expire =>
    simp only [Conn.step] at ran
    split at ran
    next => simp at ran
    cases ran
    exact inv_resume got inv.opened _ inv.point
  | connect _ _ _ => exact conforms.elim
  | send data =>
    simp only [Conn.step] at ran
    split at ran
    next =>
      cases ran
      exact inv_sendChunk got inv.opened _ _ _
    next => simp at ran
  | recv room =>
    simp only [Conn.step] at ran
    split at ran
    next =>
      cases ran
      exact inv_silent rfl got inv.opened (by simp [Conn.continueAt])
    next => simp at ran
  | close =>
    simp only [Conn.step, Conn.startClose] at ran
    split at ran
    next =>
      cases ran
      split
      next =>
        exact inv_silent rfl ⟨got.stream, got.bound, got.next, got.ended, got.room, got.inside⟩
          inv.opened (by simp [Conn.continueAt])
      next => exact inv_closeResult got _
    next => simp at ran

theorem inv_start {S : List Byte} {iss irs : BitVec 32} {t : Tcp} (opened : t.Opened iss irs) :
    (start t).Inv S irs where
  received := by
    refine ⟨0, ?_, Nat.zero_le _, ?_, ?_, ?_, ?_⟩
    · simp [start, Tcp.ring, ringContents, opened.len]
    · simp [start, opened.rcvNxt, opened.fin]
    · simp [start, opened.fin]
    · simp [start, opened.len]
    · simp [start, opened.head, RX]
  opened := by simp [start, opened.state]
  point := by simp [start]
  ended := by simp [start]

/-- What has been read and what waits is a prefix of the stream as long as `rcv_nxt` says, the
ring is not overfull, and `recv` reports the end only at the end. -/
theorem received_in_order {S : List Byte} (short : S.length < 2 ^ 31) {iss irs : BitVec 32}
    {t : Tcp} (opened : t.Opened iss irs) {actions : List Conn.Action} {s : Session}
    (run : Run (Guarded (Conforms S irs) fun s action s' => s.step action = some s') (start t)
      actions s) :
    s.delivered ++ s.conn.tcp.ring <+: S ∧
    (s.delivered ++ s.conn.tcp.ring).length + s.conn.tcp.fin.toNat =
      (s.conn.tcp.rcvNxt - irs - 1).toNat ∧
    s.conn.tcp.ring.length ≤ 16384 ∧
    ∀ room bytes, s.returned = some (room, bytes) → 0 < room → bytes = [] → s.delivered = S := by
  have inv : s.Inv S irs := run.invariant (Inv S irs) (inv_start opened)
    fun _ _ _ inv ran => inv.step short ran.1 ran.2
  obtain ⟨count, got⟩ := inv.received
  refine ⟨?_, ?_, ?_, inv.ended⟩
  · rw [got.stream]
    exact List.take_prefix count S
  · have bound := got.bound
    have flag := Bool.toNat_le s.conn.tcp.fin
    have length : (s.delivered ++ s.conn.tcp.ring).length = count := by
      rw [got.stream, List.length_take]
      omega
    have distance : s.conn.tcp.rcvNxt - irs - 1 =
        serial (irs + 1) (count + s.conn.tcp.fin.toNat) - (irs + 1) := by
      rw [got.next, BitVec.sub_sub]
    rw [length, distance, serial_sub_base (by omega)]
  · rw [Tcp.length_ring]
    exact got.room

/-! ## Three bytes, around the end of the sequence space -/

def fresh : Tcp :=
  { Tcp.new with state := .established, sndUna := 1, sndNxt := 1, rcvNxt := 0xFFFFFFFF }

def arriving (flags : BitVec 8) (seq : BitVec 32) (data : List Byte) : Conn.Action :=
  .poll (some ⟨0, 0, 0, flags, seq, 1, data⟩)

/-- The middle and the end come too early, the start comes twice, and then the rest
with the end of the stream. -/
def shuffled : List Conn.Action :=
  [arriving ACK 0 [2, 3], arriving ACK 0xFFFFFFFF [1, 2], arriving ACK 0xFFFFFFFF [1],
    .recv 8, .poll none, arriving (FIN ||| ACK) 1 [3], .recv 8, .poll none, .recv 8, .poll none]

theorem shuffled_conforms : ∀ action ∈ shuffled, ∀ s, Conforms [1, 2, 3] 0xFFFFFFFE s action := by
  have quiet : ∀ s, Conforms [1, 2, 3] 0xFFFFFFFE s (.poll none) := fun _ => trivial
  have reads : ∀ s, Conforms [1, 2, 3] 0xFFFFFFFE s (.recv 8) := fun _ => trivial
  simp only [shuffled, List.forall_mem_cons]
  refine ⟨fun _ _ => ⟨fun _ => ⟨1, by decide, by decide, by decide⟩, by decide⟩,
    fun _ _ => ⟨fun _ => ⟨0, by decide, by decide, by decide⟩, by decide⟩,
    fun _ _ => ⟨fun _ => ⟨0, by decide, by decide, by decide⟩, by decide⟩, reads, quiet,
    fun _ _ => ⟨fun _ => ⟨2, by decide, by decide, by decide⟩, by decide⟩, reads, quiet, reads,
    quiet, by simp⟩

theorem shuffled_in_order :
    ∃ s, Run (Guarded (Conforms [1, 2, 3] 0xFFFFFFFE) fun s action s' => s.step action = some s')
        (start fresh) shuffled s ∧
      s.returned = some (8, []) ∧ s.delivered = [1, 2, 3] ∧ s.conn.tcp.rcvNxt = 3 ∧
      (s.delivered ++ s.conn.tcp.ring).length + s.conn.tcp.fin.toNat =
        (s.conn.tcp.rcvNxt - 0xFFFFFFFE - 1).toNat := by
  have eval : (shuffled.foldlM Session.step (start fresh)).any fun s =>
      decide (s.returned = some (8, []) ∧ s.conn.tcp.rcvNxt = 3) := by
    decide +kernel
  obtain ⟨s, replayed, gave, next⟩ := exists_of_any eval
  have run := guarded_of_forall shuffled_conforms replayed
  have opened : fresh.Opened 0 0xFFFFFFFE := ⟨rfl, rfl, rfl, by decide, rfl, rfl, rfl⟩
  have ordered := received_in_order (by decide) opened run
  exact ⟨s, run, gave, ordered.2.2.2 8 [] gave (by decide) rfl, next, ordered.2.1⟩

end Session

end K1K.Net
