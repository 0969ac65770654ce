import K1K.Net.Tcp

/-!
# Which segments are answered

`on_segment` asks for an acknowledgement when a segment brings data or the FIN that is next; a
FIN or a SYN that comes again, because our acknowledgement was lost, stays without an answer.
-/

namespace K1K.Net

open K1K.Lib

def Tcp.Answered (t : Tcp) (seg : Segment) : Prop :=
  seg.data ≠ [] ∨ seg.flags &&& FIN ≠ 0 ∧ seg.seq = t.rcvNxt ∧ t.fin = false

theorem Tcp.takeAck_fields (t : Tcp) (flags : BitVec 8) (ack : BitVec 32) :
    (t.takeAck flags ack).rcvNxt = t.rcvNxt ∧ (t.takeAck flags ack).fin = t.fin := by
  unfold takeAck
  split <;> exact ⟨rfl, rfl⟩

theorem Tcp.takeData_asks (t : Tcp) (seq : BitVec 32) {data : List Byte} (some : data ≠ []) :
    (t.takeData seq data).1 = true := by
  rw [takeData, if_neg some]
  split <;> rfl

theorem Tcp.takeFin_asks (t : Tcp) (flags : BitVec 8) (seq : BitVec 32) (data : List Byte) :
    (t.takeFin flags seq data).1 = true ↔
      flags &&& FIN ≠ 0 ∧ seq + BitVec.ofNat 32 data.length = t.rcvNxt ∧ t.fin = false := by
  unfold takeFin
  split
  next next => simpa using next
  next other => simpa using other

/-- On an established connection exactly the segments with data and the FIN that is next are
answered, with the number expected now. -/
theorem segment_acknowledged {t : Tcp} {seg : Segment} (established : t.state = .established)
    (mine : t.Matches seg) (alive : seg.flags &&& RST = 0) :
    ((t.onSegment seg.flags seg.seq seg.ack seg.data).1 = true ↔ t.Answered seg) ∧
    (t.Answered seg → (t.pump (some seg)).2 = [(t.pump (some seg)).1.ack]) := by
  have asked : (t.onSegment seg.flags seg.seq seg.ack seg.data).1 = true ↔ t.Answered seg := by
    simp only [Tcp.onSegment, alive, ne_eq, not_true_eq_false, if_false, established,
      Tcp.Answered, Bool.or_eq_true]
    by_cases empty : seg.data = []
    · have silent : (t.takeAck seg.flags seg.ack).takeData seg.seq seg.data =
          (false, t.takeAck seg.flags seg.ack) := if_pos empty
      have fields := t.takeAck_fields seg.flags seg.ack
      rw [silent]
      simp [Tcp.takeFin_asks, fields, empty]
    · simp [Tcp.takeData_asks _ seg.seq empty, empty]
  refine ⟨asked, fun answered => ?_⟩
  simp only [Tcp.pump, if_pos mine, asked.mpr answered, if_true]

def synAck : Segment := ⟨1, 80, 49152, SYN ||| ACK, 100, 8, []⟩

def lastSegment : Segment := ⟨1, 80, 49152, FIN ||| ACK, 101, 8, []⟩

def talking : Tcp := { Tcp.new with
  state := .established
  rip := 1
  rport := 80
  lport := 49152
  rcvNxt := 200 }

theorem data_acknowledged_again :
    (talking.pump (some { lastSegment with data := [1, 2] })).2.length = 1 := by
  have mine : talking.Matches { lastSegment with data := [1, 2] } := by decide
  rw [(segment_acknowledged rfl mine (by decide)).2 (.inl (by simp))]
  rfl

/-- The handshake, and the whole of a connection that the peer closes: when the last
segment of the peer comes once more, nothing is sent. -/
theorem retransmission_unanswered :
    (∃ c, Run (fun (c : Conn) action c' => (c.step action).map Effect.conn = some c')
        ⟨.new, .idle⟩ [.connect 1 80 7, .poll (some synAck)] c ∧
      c.tcp.state = .established ∧ c.tcp.Matches synAck ∧ c.tcp.rcvNxt = synAck.seq + 1 ∧
      (c.tcp.onSegment synAck.flags synAck.seq synAck.ack []).1 = false ∧
      (c.tcp.pump (some synAck)).2 = []) ∧
    ∃ c, Run (fun (c : Conn) action c' => (c.step action).map Effect.conn = some c')
        ⟨.new, .idle⟩ [.connect 1 80 7, .poll (some synAck), .poll (some lastSegment)] c ∧
      c.tcp.state = .established ∧ c.tcp.Matches lastSegment ∧
      c.tcp.rcvNxt = lastSegment.seq + 1 ∧
      (c.tcp.onSegment lastSegment.flags lastSegment.seq lastSegment.ack []).1 = false ∧
      (c.tcp.pump (some lastSegment)).2 = [] := by
  constructor
  · exact exists_of_replay _ (by decide +kernel) fun _ _ facts => facts
  · exact exists_of_replay _ (by decide +kernel) fun _ _ facts => facts

end K1K.Net
