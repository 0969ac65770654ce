import K1K.Net.Receive

/-!
# Sender, network and peer

Whatever has been sent can reach the peer at any later time, any number of times or never; the
peer takes the bytes that are next and says how many it has, and that can reach the sender as
long as the peer has gone on by less than 2³¹ bytes. The peer is given the position of a
segment; that its number stands for it is part of the invariant.

`stream` is what the sender has put on the wire, each byte once, and `got` what the peer has.
The number of position `n` is `serial (iss + 1) n`. `offered` is all that was passed to `send`,
and `asked` the length of the last call's data. `close` is not a step here.
-/

namespace K1K.Net

open K1K.Lib

/-! ## What a step sends -/

def Effect.sent (e : Effect) : Option (Except Fail Nat) :=
  match e.outcome with
  | some (.sent result) => some result
  | _ => none

def Point.Sending (point : Point) : Prop :=
  ∃ total chunk rest seq stop tries, point = .sending total chunk rest seq stop tries

structure Tcp.Kept (t t' : Tcp) : Prop where
  una : t'.sndUna = t.sndUna
  state : t'.state = t.state

/-- What an effect is to the sender, when the segment that came, if any, has left the connection
at `t`; with `due total rest` the loop of `send` may go on. -/
inductive Sends (t : Tcp) (due : Nat → List Byte → Prop) (point : Point) (e : Effect) : Prop where
  | still (kept : t.Kept e.conn.tcp) (nxt : e.conn.tcp.sndNxt = t.sndNxt)
      (quiet : ∀ p ∈ e.packets, p.data = []) (silent : e.sent = none)
      (place : e.conn.point = point ∨ e.conn.point = .idle ∨ ∃ room, e.conn.point = .receiving room)
  | failed (fail : Fail) (kept : t.Kept e.conn.tcp) (nxt : e.conn.tcp.sndNxt = t.sndNxt)
      (quiet : ∀ p ∈ e.packets, p.data = []) (returned : e.sent = some (.error fail))
      (place : e.conn.point = .idle)
  | finished (total : Nat) (loop : due total []) (kept : t.Kept e.conn.tcp)
      (nxt : e.conn.tcp.sndNxt = t.sndNxt) (quiet : ∀ p ∈ e.packets, p.data = [])
      (returned : e.sent = some (.ok total)) (place : e.conn.point = .idle)
  | fresh (total : Nat) (rest : List Byte) (loop : due total rest) (filled : rest ≠ [])
      (acks : List Packet) (p : Packet) (quiet : ∀ p ∈ acks, p.data = [])
      (packets : e.packets = acks ++ [p]) (data : p.data = rest.take MSS) (seq : p.seq = t.sndNxt)
      (kept : t.Kept e.conn.tcp)
      (nxt : e.conn.tcp.sndNxt = t.sndNxt + BitVec.ofNat 32 (rest.take MSS).length)
      (silent : e.sent = none)
      (place : e.conn.point = .sending total (rest.take MSS) (rest.drop MSS) t.sndNxt
        (t.sndNxt + BitVec.ofNat 32 (rest.take MSS).length) 4)
  | again (total : Nat) (chunk rest : List Byte) (seq stop : BitVec 32) (tries : Nat)
      (before : point = .sending total chunk rest seq stop (tries + 1))
      (acks : List Packet) (p : Packet) (quiet : ∀ p ∈ acks, p.data = [])
      (packets : e.packets = acks ++ [p]) (data : p.data = chunk) (number : p.seq = seq)
      (kept : t.Kept e.conn.tcp) (nxt : e.conn.tcp.sndNxt = t.sndNxt) (silent : e.sent = none)
      (place : e.conn.point = .sending total chunk rest seq stop tries)

theorem Sends.kept {t : Tcp} {due : Nat → List Byte → Prop} {point : Point} {e : Effect}
    (sends : Sends t due point e) : t.Kept e.conn.tcp := by
  cases sends with
  | still kept | failed _ kept | finished _ _ kept | fresh _ _ _ _ _ _ _ _ _ _ kept
  | again _ _ _ _ _ _ _ _ _ _ _ _ _ kept => exact kept

section Effects

variable {t : Tcp} {packets : List Packet} {due : Nat → List Byte → Prop} {point : Point}

theorem sends_sendChunk (quiet : ∀ p ∈ packets, p.data = []) {total : Nat} {rest : List Byte}
    (loop : due total rest) : Sends t due point (Conn.sendChunk t packets total rest) := by
  rw [Conn.sendChunk]
  split
  next empty =>
    subst empty
    exact .finished total loop ⟨rfl, rfl⟩ rfl quiet rfl rfl
  next filled =>
    split
    next => exact .failed .closed ⟨rfl, rfl⟩ rfl quiet rfl rfl
    exact .fresh total rest loop filled packets _ quiet rfl rfl rfl ⟨rfl, rfl⟩ rfl rfl rfl

/-- The loop of `send` goes on once the number that ends the chunk is acknowledged. -/
def Due (t : Tcp) (point : Point) (total : Nat) (rest : List Byte) : Prop :=
  ∃ chunk seq stop tries, point = .sending total chunk rest seq stop tries ∧
    geq t.sndUna stop = true

theorem sends_resume (quiet : ∀ p ∈ packets, p.data = []) (ready : Bool)
    (talking : point = .idle ∨ point.Sending ∨ ∃ room, point = .receiving room) :
    Sends t (Due t point) point (Conn.resume t packets ready point) := by
  rcases talking with rfl | ⟨total, chunk, rest, seq, stop, tries, rfl⟩ | ⟨room, rfl⟩
  · exact .still ⟨rfl, rfl⟩ rfl quiet rfl (.inl rfl)
  · cases ready with
    | true =>
      rw [Conn.resume_sending_ready, Conn.chunkResult]
      split
      next acked => exact sends_sendChunk quiet ⟨chunk, seq, stop, tries, rfl, acked⟩
      next => exact .failed _ ⟨rfl, rfl⟩ rfl quiet rfl rfl
    | false =>
      cases tries with
      | zero =>
        rw [Conn.resume_sending_over]
        exact .failed _ ⟨rfl, rfl⟩ rfl quiet rfl rfl
      | succ tries =>
        rw [Conn.resume_sending_again]
        exact .again total chunk rest seq stop tries rfl packets _ quiet rfl rfl rfl ⟨rfl, rfl⟩ rfl
          rfl rfl
  · simp only [Conn.resume, Conn.recvResult]
    split
    next => exact .still ⟨rfl, rfl⟩ rfl quiet rfl (.inr (.inl rfl))
    split
    next => exact .still ⟨rfl, rfl⟩ rfl quiet (by cases t.fin <;> rfl) (.inr (.inl rfl))
    refine .still ⟨Tcp.drain_sndUna .., Tcp.drain_state ..⟩ (Tcp.drain_sndNxt ..)
      (fun p mem => ?_) rfl (.inr (.inl rfl))
    rcases List.mem_append.mp mem with early | late
    · exact quiet p early
    · rw [List.mem_singleton.mp late]
      rfl

end Effects

theorem takeData_sender (t : Tcp) (seq : BitVec 32) (data : List Byte) :
    (t.takeData seq data).2.sndNxt = t.sndNxt ∧ (t.takeData seq data).2.sndUna = t.sndUna := by
  rw [Tcp.takeData]
  split_ifs <;> simp

theorem takeFin_sender (t : Tcp) (flags : BitVec 8) (seq : BitVec 32) (data : List Byte) :
    (t.takeFin flags seq data).2.sndNxt = t.sndNxt ∧
      (t.takeFin flags seq data).2.sndUna = t.sndUna := by
  rw [Tcp.takeFin]
  split_ifs <;> simp

theorem onSegment_sender (t : Tcp) (opened : t.state ≠ .synSent) (flags : BitVec 8)
    (seq ack : BitVec 32) (data : List Byte) :
    (t.onSegment flags seq ack data).2.sndNxt = t.sndNxt ∧
      ((t.onSegment flags seq ack data).2.sndUna = t.sndUna ∨
        flags &&& ACK ≠ 0 ∧ geq ack t.sndUna = true ∧
          (t.onSegment flags seq ack data).2.sndUna = ack) := by
  rw [Tcp.onSegment]
  split
  next => exact ⟨rfl, .inl rfl⟩
  split
  next opening => exact absurd opening opened
  next =>
    simp only [takeFin_sender, takeData_sender, Tcp.takeAck]
    split
    next accepted => exact ⟨rfl, .inr ⟨accepted.1, accepted.2.1, rfl⟩⟩
    next => exact ⟨rfl, .inl rfl⟩
  next => exact ⟨rfl, .inl rfl⟩

theorem pump_sender (t : Tcp) (event : Option Segment) (opened : t.state ≠ .synSent) :
    (∀ p ∈ (t.pump event).2, p.data = []) ∧ (t.pump event).1.sndNxt = t.sndNxt ∧
      ((t.pump event).1.sndUna = t.sndUna ∨ ∃ seg, event = some seg ∧ t.Matches seg ∧
        seg.flags &&& ACK ≠ 0 ∧ geq seg.ack t.sndUna = true ∧
        (t.pump event).1.sndUna = seg.ack) := by
  cases event with
  | none => simp [Tcp.pump]
  | some seg =>
    simp only [Tcp.pump]
    split
    next matching =>
      refine ⟨?_, ?_⟩
      · intro p mem
        split at mem
        next =>
          rw [List.mem_singleton.mp mem]
          rfl
        next => cases mem
      · obtain ⟨nxt, una⟩ := onSegment_sender t opened seg.flags seg.seq seg.ack seg.data
        exact ⟨nxt, una.imp id fun moves => ⟨seg, rfl, matching, moves⟩⟩
    next => simp

/-! ## Sender, network and peer -/

structure Link where
  conn : Conn
  wire : List (Nat × Packet)
  stream : List Byte
  got : List Byte
  acks : List Nat
  offered : List Byte
  asked : Nat
  una : Nat
  result : Option (Except Fail Nat)

namespace Link

/-- Steps of the sender, of the peer, and arrivals. A segment arrives together with
the position that its acknowledgement number stands for. -/
inductive Action where
  | call (data : List Byte)
  | read (room : Nat)
  | quiet
  | expire
  | arrive (seg : Segment) (position : Nat)
  | accept (index most : Nat)
  | acknowledge

/-- The sender has made a step. New bytes are those that `snd_nxt` moved over; a
segment with data always ends where the stream ends. -/
def after (l : Link) (e : Effect) (una : Nat) : Link :=
  let stream := if e.conn.tcp.sndNxt = l.conn.tcp.sndNxt then l.stream
    else l.stream ++ e.packets.flatMap Packet.data
  { l with
    conn := e.conn
    stream := stream
    wire := l.wire ++ (e.packets.filter fun p => p.data ≠ []).map fun p => (stream.length, p)
    una := una
    result := e.sent }

/-- The position that `snd_una` stands for after a step in which the number of
`position` arrived. -/
def unaAfter (l : Link) (e : Effect) (position : Nat) : Nat :=
  if e.conn.tcp.sndUna = l.conn.tcp.sndUna then l.una else position

/-- The peer takes what is next for it out of a segment, at most `most` bytes. -/
def taken (got : List Byte) (stop most : Nat) (p : Packet) : List Byte :=
  let start := stop - p.data.length
  if start ≤ got.length ∧ got.length < stop then
    got ++ (p.data.drop (got.length - start)).take most
  else got

def step (l : Link) : Action → Option Link
  | .call data => (l.conn.step (.send data)).map fun e =>
      { l.after e l.una with offered := l.offered ++ data, asked := data.length }
  | .read room => (l.conn.step (.recv room)).map fun e => l.after e l.una
  | .quiet => (l.conn.step (.poll none)).map fun e => l.after e l.una
  | .expire => (l.conn.step .expire).map fun e => l.after e l.una
  | .arrive seg position => (l.conn.step (.poll (some seg))).map fun e =>
      l.after e (l.unaAfter e position)
  | .accept index most =>
    match l.wire[index]? with
    | none => none
    | some (stop, p) => some { l with got := taken l.got stop most p, result := none }
  | .acknowledge => some { l with acks := l.acks ++ [l.got.length], result := none }

/-- An acknowledgement that arrives is one that the peer sent, and the peer has
received less than 2³¹ bytes since. -/
def Lawful (iss : BitVec 32) (l : Link) : Action → Prop
  | .arrive seg position => l.conn.tcp.Matches seg → seg.flags &&& ACK ≠ 0 →
      position ∈ l.acks ∧ seg.ack = serial (iss + 1) position ∧ l.got.length < position + 2 ^ 31
  | _ => True

instance (iss : BitVec 32) (l : Link) (action : Action) : Decidable (l.Lawful iss action) :=
  match action with
  | .arrive _ _ => inferInstanceAs (Decidable (_ → _ → _ ∧ _ ∧ _))
  | .call _ => .isTrue trivial
  | .read _ => .isTrue trivial
  | .quiet => .isTrue trivial
  | .expire => .isTrue trivial
  | .accept _ _ => .isTrue trivial
  | .acknowledge => .isTrue trivial

def start (t : Tcp) : Link where
  conn := ⟨t, .idle⟩
  wire := []
  stream := []
  got := []
  acks := [0]
  offered := []
  asked := 0
  una := 0
  result := none

/-! ## What holds in every run -/

structure Piece (iss : BitVec 32) (stream : List Byte) (stop : Nat) (p : Packet) : Prop where
  short : p.data.length ≤ stop
  within : stop ≤ stream.length
  seq : p.seq = serial (iss + 1) (stop - p.data.length)
  bytes : p.data = (stream.take stop).drop (stop - p.data.length)

structure Tail (iss : BitVec 32) (stream chunk : List Byte) (seq stop : BitVec 32) : Prop where
  filled : chunk ≠ []
  bytes : chunk <:+ stream
  seq : seq = serial (iss + 1) (stream.length - chunk.length)
  stop : stop = serial (iss + 1) stream.length

structure Inv (iss : BitVec 32) (l : Link) : Prop where
  opened : l.conn.tcp.state ≠ .synSent
  talking : l.conn.point = .idle ∨ l.conn.point.Sending ∨ ∃ room, l.conn.point = .receiving room
  nxt : l.conn.tcp.sndNxt = serial (iss + 1) l.stream.length
  una : l.conn.tcp.sndUna = serial (iss + 1) l.una
  acked : l.una ≤ l.got.length
  got : l.got <+: l.stream
  acks : ∀ a ∈ l.acks, a ≤ l.got.length
  wire : ∀ entry ∈ l.wire, Piece iss l.stream entry.1 entry.2
  chunk : ∀ total chunk rest seq stop tries,
    l.conn.point = .sending total chunk rest seq stop tries → Tail iss l.stream chunk seq stop

section After

variable {iss : BitVec 32} {l : Link} {e : Effect} {una : Nat} {acks : List Packet} {p : Packet}

theorem flatMap_quiet (quiet : ∀ p ∈ acks, p.data = []) : acks.flatMap Packet.data = [] :=
  List.flatMap_eq_nil_iff.mpr quiet

variable (una) in
theorem after_quiet (nxt : e.conn.tcp.sndNxt = l.conn.tcp.sndNxt)
    (quiet : ∀ p ∈ e.packets, p.data = []) :
    (l.after e una).stream = l.stream ∧ (l.after e una).wire = l.wire := by
  simpa [Link.after, nxt] using quiet

variable (una) in
theorem after_again (nxt : e.conn.tcp.sndNxt = l.conn.tcp.sndNxt)
    (quiet : ∀ p ∈ acks, p.data = []) (packets : e.packets = acks ++ [p]) (filled : p.data ≠ []) :
    (l.after e una).stream = l.stream ∧
      (l.after e una).wire = l.wire ++ [(l.stream.length, p)] := by
  simpa [Link.after, nxt, packets, List.filter_append, filled] using quiet

variable (una) in
theorem after_fresh (nxt : e.conn.tcp.sndNxt = l.conn.tcp.sndNxt + BitVec.ofNat 32 p.data.length)
    (quiet : ∀ p ∈ acks, p.data = []) (packets : e.packets = acks ++ [p]) (filled : p.data ≠ [])
    (short : p.data.length ≤ MSS) : (l.after e una).stream = l.stream ++ p.data ∧
      (l.after e una).wire = l.wire ++ [((l.stream ++ p.data).length, p)] := by
  have pos : 0 < p.data.length := List.length_pos_of_ne_nil filled
  have moved : ¬e.conn.tcp.sndNxt = l.conn.tcp.sndNxt := by
    intro eq
    rw [eq] at nxt
    have small : p.data.length < 2 ^ 32 := Nat.lt_of_le_of_lt short (by decide)
    have numbers : serial l.conn.tcp.sndNxt 0 = serial l.conn.tcp.sndNxt p.data.length := by
      rw [serial_zero]
      exact nxt
    have := serial_injective (by decide) small numbers
    omega
  simpa [Link.after, moved, packets, List.filter_append, flatMap_quiet quiet, filled] using quiet

theorem Piece.grow {stream : List Byte} {stop : Nat} (piece : Piece iss stream stop p)
    (more : List Byte) : Piece iss (stream ++ more) stop p where
  short := piece.short
  within := by
    rw [List.length_append]
    exact Nat.le_add_right_of_le piece.within
  seq := piece.seq
  bytes := by
    rw [List.take_append_of_le_length piece.within]
    exact piece.bytes

theorem Tail.piece {stream chunk : List Byte} {seq stop : BitVec 32}
    (tail : Tail iss stream chunk seq stop) (data : p.data = chunk) (number : p.seq = seq) :
    Piece iss stream stream.length p := by
  obtain ⟨front, rfl⟩ := tail.bytes
  refine ⟨?_, Nat.le_refl _, ?_, ?_⟩
  · simp [data]
  · rw [number, tail.seq, data]
  · rw [List.take_length, data]
    simp

theorem Inv.silent (inv : l.Inv iss) (nxt : e.conn.tcp.sndNxt = l.conn.tcp.sndNxt)
    (opened : e.conn.tcp.state ≠ .synSent) (moved : e.conn.tcp.sndUna = serial (iss + 1) una)
    (acked : una ≤ l.got.length) (quiet : ∀ p ∈ e.packets, p.data = [])
    (place : e.conn.point = l.conn.point ∨ e.conn.point = .idle ∨
      ∃ room, e.conn.point = .receiving room) : (l.after e una).Inv iss := by
  obtain ⟨stream, wire⟩ := after_quiet una nxt quiet
  refine ⟨opened, ?_, ?_, moved, acked, ?_, inv.acks, ?_, ?_⟩
  · rcases place with eq | idle | receiving
    · exact eq.symm ▸ inv.talking
    · exact .inl idle
    · exact .inr (.inr receiving)
  · rw [stream]
    exact nxt.trans inv.nxt
  · rw [stream]
    exact inv.got
  · rw [stream, wire]
    exact inv.wire
  · intro total chunk rest seq stop tries sending
    have here : e.conn.point = .sending total chunk rest seq stop tries := sending
    rw [stream]
    rcases place with eq | idle | ⟨room, receiving⟩
    · exact inv.chunk total chunk rest seq stop tries (eq.symm.trans here)
    · simp [idle] at here
    · simp [receiving] at here

theorem Inv.speak (inv : l.Inv iss) (opened : e.conn.tcp.state ≠ .synSent)
    (moved : e.conn.tcp.sndUna = serial (iss + 1) una) (acked : una ≤ l.got.length)
    (more : List Byte) (stream : (l.after e una).stream = l.stream ++ more)
    (wire : (l.after e una).wire = l.wire ++ [((l.stream ++ more).length, p)])
    (nxt : e.conn.tcp.sndNxt = serial (iss + 1) (l.stream ++ more).length)
    {total : Nat} {chunk rest : List Byte} {seq stop : BitVec 32} {tries : Nat}
    (tail : Tail iss (l.stream ++ more) chunk seq stop) (data : p.data = chunk)
    (number : p.seq = seq) (place : e.conn.point = .sending total chunk rest seq stop tries) :
    (l.after e una).Inv iss := by
  refine ⟨opened, .inr (.inl ⟨_, _, _, _, _, _, place⟩), ?_, moved, acked, ?_, inv.acks, ?_, ?_⟩
  · rw [stream]
    exact nxt
  · rw [stream]
    exact inv.got.trans (List.prefix_append _ _)
  · rw [stream, wire]
    intro entry mem
    rcases List.mem_append.mp mem with early | late
    · exact (inv.wire entry early).grow more
    · rw [List.mem_singleton.mp late]
      exact tail.piece data number
  · intro total' chunk' rest' seq' stop' tries' sending
    have here : e.conn.point = .sending total' chunk' rest' seq' stop' tries' := sending
    rw [place] at here
    cases here
    rw [stream]
    exact tail

theorem Inv.after (inv : l.Inv iss) {t : Tcp} {due : Nat → List Byte → Prop}
    (nxt : t.sndNxt = l.conn.tcp.sndNxt) (opened : t.state ≠ .synSent)
    (moved : t.sndUna = serial (iss + 1) una) (acked : una ≤ l.got.length)
    (sends : Sends t due l.conn.point e) : (l.after e una).Inv iss := by
  cases sends with
  | still kept eq quiet silent place =>
    exact inv.silent (eq.trans nxt) (kept.state.symm ▸ opened) (kept.una.trans moved) acked quiet
      place
  | failed _ kept eq quiet _ place | finished _ _ kept eq quiet _ place =>
    exact inv.silent (eq.trans nxt) (kept.state.symm ▸ opened) (kept.una.trans moved) acked quiet
      (.inr (.inl place))
  | fresh total rest loop filled acks p quiet packets data seq kept eq silent place =>
    rw [nxt, ← data] at eq
    rw [nxt, ← data] at place
    rw [nxt] at seq
    have some : p.data ≠ [] := by
      rw [data]
      simpa [MSS] using filled
    have short : p.data.length ≤ MSS := by
      rw [data, List.length_take]
      exact Nat.min_le_left _ _
    obtain ⟨stream, wire⟩ := after_fresh una eq quiet packets some short
    have number : e.conn.tcp.sndNxt = serial (iss + 1) (l.stream ++ p.data).length := by
      rw [eq, inv.nxt, serial_add, List.length_append]
    refine inv.speak (kept.state.symm ▸ opened) (kept.una.trans moved) acked p.data stream wire
      number ⟨some, List.suffix_append _ _, ?_, eq.symm.trans number⟩ rfl seq place
    simp [inv.nxt]
  | again total chunk rest seq stop tries was acks p quiet packets data number kept eq silent
      place =>
    have tail := inv.chunk _ _ _ _ _ _ was
    rcases after_again una (eq.trans nxt) quiet packets (data ▸ tail.filled) with
      ⟨stream, wire⟩
    refine inv.speak (kept.state.symm ▸ opened) (kept.una.trans moved) acked []
      (by simpa using stream) (by simpa using wire) ?_ (by simpa using tail) data number place
    rw [List.append_nil, eq, nxt, inv.nxt]

end After

theorem prefix_taken {iss : BitVec 32} {stream got : List Byte} {stop : Nat} {p : Packet}
    (piece : Piece iss stream stop p) (was : got <+: stream) (most : Nat) :
    got <+: taken got stop most p ∧ taken got stop most p <+: stream := by
  rw [taken]
  split
  next reaches =>
    refine ⟨List.prefix_append _ _, ?_⟩
    have bytes := piece.bytes
    generalize stop - p.data.length = start at bytes reaches ⊢
    have front : got = (stream.take stop).take got.length := by
      rw [List.take_take, Nat.min_eq_left (Nat.le_of_lt reaches.2)]
      exact List.prefix_iff_eq_take.mp was
    have rest : p.data.drop (got.length - start) = (stream.take stop).drop got.length := by
      rw [bytes, List.drop_drop, Nat.add_sub_cancel' reaches.1]
    rw [rest]
    nth_rewrite 1 [front]
    rw [← List.take_add]
    exact (List.take_prefix _ _).trans (List.take_prefix _ _)
  next => exact ⟨List.prefix_refl _, was⟩

/-- A call of `send` starts; the sender does something else, with `snd_una` where it was or ahead;
the peer takes bytes; or it says how many it has. -/
inductive Moves (iss : BitVec 32) (l : Link) : Action → Link → Prop where
  | call (data : List Byte) (e : Effect) (idle : l.conn.point = .idle)
      (sends : Sends l.conn.tcp (fun total rest => total = data.length ∧ rest = data)
        l.conn.point e) :
      Moves iss l (.call data)
        { l.after e l.una with offered := l.offered ++ data, asked := data.length }
  | other (action : Action) (e : Effect) (t : Tcp) (una : Nat)
      (nxt : t.sndNxt = l.conn.tcp.sndNxt) (opened : t.state ≠ .synSent)
      (moved : t.sndUna = serial (iss + 1) una) (ahead : l.una ≤ una) (acked : una ≤ l.got.length)
      (sends : Sends t (Due t l.conn.point) l.conn.point e) : Moves iss l action (l.after e una)
  | accept (index most stop : Nat) (p : Packet) (sent : (stop, p) ∈ l.wire) :
      Moves iss l (.accept index most) { l with got := taken l.got stop most p, result := none }
  | acknowledge :
      Moves iss l .acknowledge { l with acks := l.acks ++ [l.got.length], result := none }

theorem sends_poll {t : Tcp} {packets : List Packet} {point : Point}
    (quiet : ∀ p ∈ packets, p.data = [])
    (talking : point = .idle ∨ point.Sending ∨ ∃ room, point = .receiving room) :
    Sends t (Due t point) point (if Conn.done t point then Conn.resume t packets true point
      else Conn.continueAt t packets point) := by
  split
  next => exact sends_resume quiet true talking
  next => exact .still ⟨rfl, rfl⟩ rfl quiet rfl (.inl rfl)

variable {iss : BitVec 32} {l l' : Link} {action : Action}

theorem Inv.ahead (inv : l.Inv iss) {pos : Nat} {ack : BitVec 32}
    (number : ack = serial (iss + 1) pos) (young : l.got.length < pos + 2 ^ 31)
    (seen : geq ack l.conn.tcp.sndUna = true) : l.una ≤ pos := by
  by_contra behind
  have acked := inv.acked
  rw [number, inv.una] at seen
  exact serial_behind (by omega) (by omega) (of_decide_eq_true seen)

theorem moves_of_step (inv : l.Inv iss) (lawful : l.Lawful iss action)
    (ran : l.step action = some l') : Moves iss l action l' := by
  cases action with
  | call data =>
    obtain ⟨e, taken, rfl⟩ := Option.map_eq_some_iff.mp ran
    simp only [Conn.step] at taken
    split at taken
    next idle =>
      cases taken
      exact .call data _ idle (sends_sendChunk (by simp) ⟨rfl, rfl⟩)
    next => simp at taken
  | read room =>
    obtain ⟨e, taken, rfl⟩ := Option.map_eq_some_iff.mp ran
    simp only [Conn.step] at taken
    split at taken
    next =>
      cases taken
      exact .other _ _ l.conn.tcp l.una rfl inv.opened inv.una (Nat.le_refl _) inv.acked
        (.still ⟨rfl, rfl⟩ rfl (by simp [Conn.continueAt]) rfl (.inr (.inr ⟨room, rfl⟩)))
    next => simp at taken
  | quiet =>
    simp only [Link.step, Conn.step, Option.map_some, Option.some.injEq] at ran
    subst ran
    have quiet : ∀ p ∈ ([] : List Packet), p.data = [] := by simp
    exact .other _ _ l.conn.tcp l.una rfl inv.opened inv.una (Nat.le_refl _) inv.acked
      (sends_poll quiet inv.talking)
  | expire =>
    obtain ⟨e, taken, rfl⟩ := Option.map_eq_some_iff.mp ran
    simp only [Conn.step] at taken
    split at taken
    next => simp at taken
    cases taken
    exact .other _ _ l.conn.tcp l.una rfl inv.opened inv.una (Nat.le_refl _) inv.acked
      (sends_resume (by simp) _ inv.talking)
  | arrive seg pos =>
    simp only [Link.step, Conn.step, Option.map_some, Option.some.injEq] at ran
    obtain ⟨quiet, nxt, una⟩ := pump_sender l.conn.tcp (some seg) inv.opened
    have opened := pump_state (some seg) inv.opened
    generalize l.conn.tcp.pump (some seg) = pumped at *
    have sends := sends_poll (t := pumped.1) quiet inv.talking
    generalize (if Conn.done pumped.1 l.conn.point then
      Conn.resume pumped.1 pumped.2 true l.conn.point
      else Conn.continueAt pumped.1 pumped.2 l.conn.point) = e at *
    subst ran
    rw [unaAfter, sends.kept.una]
    split
    next eq =>
      exact .other _ e pumped.1 l.una nxt opened (eq.trans inv.una) (Nat.le_refl _) inv.acked sends
    next moved =>
      rcases una with eq | ⟨_, ⟨⟩, matching, flag, ahead, number⟩
      · exact absurd eq moved
      · obtain ⟨said, position', young⟩ := lawful matching flag
        exact .other _ e pumped.1 pos nxt opened (number.trans position')
          (inv.ahead position' young ahead) (inv.acks pos said) sends
  | accept index most =>
    simp only [Link.step] at ran
    split at ran
    next => simp at ran
    next stop p found =>
      cases ran
      exact .accept index most stop p (List.mem_of_getElem? found)
  | acknowledge =>
    cases ran
    exact .acknowledge

theorem Inv.step (inv : l.Inv iss) (lawful : l.Lawful iss action)
    (ran : l.step action = some l') : l'.Inv iss ∧ l.una ≤ l'.una := by
  cases moves_of_step inv lawful ran with
  | call data e idle sends =>
    have kept := inv.after rfl inv.opened inv.una inv.acked sends
    exact ⟨⟨kept.opened, kept.talking, kept.nxt, kept.una, kept.acked, kept.got, kept.acks,
      kept.wire, kept.chunk⟩, Nat.le_refl _⟩
  | other _ e t una nxt opened moved ahead acked sends =>
    exact ⟨inv.after nxt opened moved acked sends, ahead⟩
  | accept index most stop p sent =>
    obtain ⟨more, part⟩ := prefix_taken (inv.wire _ sent) inv.got most
    have longer := more.length_le
    exact ⟨⟨inv.opened, inv.talking, inv.nxt, inv.una, Nat.le_trans inv.acked longer, part,
      fun a mem => Nat.le_trans (inv.acks a mem) longer, inv.wire, inv.chunk⟩, Nat.le_refl _⟩
  | acknowledge =>
    refine ⟨⟨inv.opened, inv.talking, inv.nxt, inv.una, inv.acked, inv.got, fun a mem => ?_,
      inv.wire, inv.chunk⟩, Nat.le_refl _⟩
    rcases List.mem_append.mp mem with early | late
    · exact inv.acks a early
    · rw [List.mem_singleton.mp late]

theorem inv_start {irs : BitVec 32} {t : Tcp} (opened : t.Opened iss irs) : (start t).Inv iss where
  opened := by simp [start, opened.state]
  talking := .inl rfl
  nxt := by simp [start, opened.sndNxt]
  una := by simp [start, opened.sndUna]
  acked := Nat.le_refl 0
  got := List.prefix_refl []
  acks := by simp [start]
  wire := by simp [start]
  chunk := by simp [start]

end Link

end K1K.Net
