import K1K.Net.Dns

/-!
# Frames

`user/svc/net/src/stack.rs` and the bytes of `segment` in `tcp.rs`. What one stack sends another
one reads as it was meant, and the checksums hold, though `poll` never looks at them.
-/

namespace K1K.Net.Frames

open K1K.Lib Dns

/-! ## Checksums -/

/-- The accumulator is a `u32`, and no packet is long enough to overflow it. -/
def sum : List Byte → Nat → Nat
  | a :: b :: rest, acc => sum rest (acc + u16 a b)
  | [a], acc => acc + u16 a 0
  | [], acc => acc

theorem lower_add_upper (acc : Nat) :
    (acc &&& 0xFFFF) + acc >>> 16 = acc % 65536 + acc / 65536 := by
  rw [Nat.shiftRight_eq_div_pow, show 0xFFFF = 2 ^ 16 - 1 from rfl, Nat.and_two_pow_sub_one_eq_mod]

def fold (acc : Nat) : BitVec 16 :=
  if acc >>> 16 ≠ 0 then fold ((acc &&& 0xFFFF) + acc >>> 16) else ~~~BitVec.ofNat 16 acc
termination_by acc
decreasing_by
  rename_i wide
  rw [Nat.shiftRight_eq_div_pow] at wide
  rw [lower_add_upper]
  omega

def checksum (data : List Byte) : BitVec 16 := fold (sum data 0)

theorem sum_add (data : List Byte) (acc more : Nat) :
    sum data (acc + more) = sum data acc + more := by
  fun_induction sum data acc with
  | case1 a b rest acc ih => rw [sum, Nat.add_right_comm, ih]
  | case2 a acc => exact Nat.add_right_comm acc more _
  | case3 acc => rfl

theorem sum_append {front : List Byte} (even : front.length % 2 = 0) (back : List Byte)
    (acc : Nat) : sum (front ++ back) acc = sum back (sum front acc) := by
  fun_induction sum front acc with
  | case1 a b rest acc ih =>
    simp only [List.length_cons] at even
    exact ih (by omega)
  | case2 a acc => cases even
  | case3 acc => rfl

/-- Folding keeps the sum modulo 65535, and the complement takes it away. -/
theorem fold_spec (acc : Nat) : ((fold acc).toNat + acc) % 65535 = 0 := by
  fun_induction fold acc with
  | case1 acc wide ih =>
    rw [Nat.shiftRight_eq_div_pow] at wide
    rw [lower_add_upper] at ih ⊢
    omega
  | case2 acc narrow =>
    rw [Nat.shiftRight_eq_div_pow] at narrow
    rw [BitVec.toNat_not, BitVec.toNat_ofNat]
    omega

/-- The sum of the words that the bytes spell, the first byte of each being the higher one. -/
def wordSum (packet : List Byte) : Nat :=
  (packet.mapIdx fun i byte => if i % 2 = 0 then byte.toNat * 256 else byte.toNat).sum

/-- What a receiver checks: in ones' complement, where 65535 is zero, the words add up to it. -/
def Verifies (packet : List Byte) : Prop := 0 < wordSum packet ∧ wordSum packet % 65535 = 0

theorem sum_eq (packet : List Byte) (acc : Nat) : sum packet acc = acc + wordSum packet := by
  fun_induction sum packet acc with
  | case1 a b rest acc ih =>
    have next : wordSum (a :: b :: rest) = u16 a b + wordSum rest := by
      have parity (i : Nat) : (i + 1 + 1) % 2 = i % 2 := Nat.add_mod_right i 2
      simp [wordSum, u16, List.mapIdx_cons, parity, Nat.add_assoc]
    rw [ih, next, Nat.add_assoc]
  | case2 a acc => simp [wordSum, u16]
  | case3 acc => rfl

/-- A packet with `c` in its checksum field. -/
def filled (front back : List Byte) (c : BitVec 16) : List Byte := front ++ (be16 c.toNat ++ back)

theorem sum_filled {front : List Byte} (even : front.length % 2 = 0) (back : List Byte)
    (c : BitVec 16) (acc : Nat) :
    sum (filled front back c) acc = sum (filled front back 0) acc + c.toNat := by
  rw [filled, filled, sum_append even, sum_append even, be16, be16]
  simp only [List.cons_append, List.nil_append, sum]
  rw [u16_be16 c.isLt, sum_add back]
  rfl

/-- The checksum is taken while its field is zero, and then written there. -/
theorem filled_verifies {header front : List Byte} {acc : Nat} (before : header.length % 2 = 0)
    (same : wordSum header = acc) (even : front.length % 2 = 0) (back : List Byte) :
    Verifies (header ++ filled front back (fold (sum (filled front back 0) acc))) := by
  have total (c : BitVec 16) : wordSum (header ++ filled front back c) =
      sum (filled front back 0) acc + c.toNat := by
    rw [← sum_filled even, ← Nat.zero_add (wordSum (header ++ _)), ← sum_eq, sum_append before,
      sum_eq header, Nat.zero_add, same]
  rw [Verifies, total]
  generalize sum (filled front back 0) acc = plain
  have cancels := fold_spec plain
  refine ⟨?_, by rw [Nat.add_comm]; exact cancels⟩
  rcases Nat.eq_zero_or_pos plain with rfl | pos
  · rw [fold]
    decide
  · exact Nat.add_pos_left pos _

theorem filled_verifies_alone {front : List Byte} (even : front.length % 2 = 0) (back : List Byte) :
    Verifies (filled front back (fold (sum (filled front back 0) 0))) :=
  @filled_verifies [] front 0 rfl rfl even back

def sealed (front back : List Byte) : List Byte :=
  filled front back (checksum (filled front back 0))

/-! ## What the stack sends -/

abbrev Mac : Type := Fin 6 → Byte

def macBytes (mac : Mac) : List Byte := [mac 0, mac 1, mac 2, mac 3, mac 4, mac 5]

structure Stack where
  mac : Mac
  ip : Ip
  gateway : Ip
  gwMac : Mac

def eth (dst src : Mac) (ethertype : Nat) : List Byte :=
  macBytes dst ++ (macBytes src ++ be16 ethertype)

def ID_ECHO : Nat := 0x4B31

def hdr (flags : Byte) : Nat := if flags &&& SYN ≠ 0 then 24 else 20

def options (flags : Byte) : List Byte := if flags &&& SYN ≠ 0 then [2, 4] ++ be16 MSS else []

theorem hdr_options (flags : Byte) :
    (hdr flags = 20 ∨ hdr flags = 24) ∧ 20 + (options flags).length = hdr flags := by
  rw [hdr, options]
  split
  · exact ⟨.inr rfl, rfl⟩
  · exact ⟨.inl rfl, rfl⟩

/-- The packet that `Tcp::segment` builds. -/
def segmentBytes (p : Packet) : BitVec 16 → List Byte :=
  filled (be16 p.lport.toNat ++ (be16 p.rport.toNat ++ (ipBytes p.seq ++ (ipBytes p.ack ++
      ([BitVec.ofNat 8 (hdr p.flags / 4) <<< 4, p.flags] ++ be16 p.win)))))
    ([0, 0] ++ (options p.flags ++ p.data))

theorem segmentBytes_length (p : Packet) (c : BitVec 16) :
    (segmentBytes p c).length = hdr p.flags + p.data.length := by
  rw [← (hdr_options p.flags).2]
  simp only [segmentBytes, filled, be16, ipBytes, List.length_append, List.length_cons,
    List.length_nil]
  omega

namespace Stack

variable (s : Stack)

def arp (op : Nat) (dstMac targetMac : Mac) (targetIp : Ip) : List Byte :=
  eth dstMac s.mac 0x0806 ++ ([0, 1, 8, 0, 6, 4] ++ (be16 op ++ (macBytes s.mac ++ (ipBytes s.ip ++
    (macBytes targetMac ++ ipBytes targetIp)))))

def ipHeader (proto : Byte) (dst : Ip) (len : Nat) : List Byte :=
  sealed ([0x45, 0] ++ (be16 (IPH + len) ++ [0, 0, 0, 0, 64, proto])) (ipBytes s.ip ++ ipBytes dst)

/-- The frame that goes to the device, if the packet fits one. -/
def sendIp (proto : Byte) (dst : Ip) (payload : List Byte) : Option (List Byte) :=
  if ETH + IPH + payload.length > 1536 then none
  else
    some (eth (if dst = 0xFFFFFFFF then fun _ => 0xFF else s.gwMac) s.mac 0x0800 ++
      (s.ipHeader proto dst payload.length ++ payload))

def pseudo (dst : Ip) (proto len : Nat) : Nat :=
  sum (ipBytes dst) (sum (ipBytes s.ip) 0) + proto + len

/-- What does not fit the buffer of `Tcp::segment` is a panic in the source; its callers send
at most `MSS` bytes. -/
def sendSegment (p : Packet) : Option (List Byte) :=
  let total := hdr p.flags + p.data.length
  if total > 1500 then none
  else
    let c := fold (sum (segmentBytes p 0) (s.pseudo p.rip 6 total))
    s.sendIp 6 p.rip (segmentBytes p c)

end Stack

/-! ## What the stack takes -/

inductive Event where
  | none
  | udp (e : UdpEvent)
  | echoReply (seq len : Nat)
  | tcp (src : Ip) (sport dport : Nat) (flags : Byte) (seq ack : BitVec 32) (off len : Nat)

def u32 (f : List Byte) (i : Nat) : BitVec 32 :=
  f.getD i 0 ++ f.getD (i + 1) 0 ++ f.getD (i + 2) 0 ++ f.getD (i + 3) 0

theorem u32_ipBytes (ip : BitVec 32) :
    ip.extractLsb' 24 8 ++ ip.extractLsb' 16 8 ++ ip.extractLsb' 8 8 ++ ip.extractLsb' 0 8 =
      ip := by
  ext i
  grind

def Event.segment (f : List Byte) : Event → Option Segment
  | .tcp src sport dport flags seq ack off len =>
    some ⟨src, sport, dport, flags, seq, ack, (f.drop off).take len⟩
  | _ => .none

def ihl (f : List Byte) : Nat := (f.getD ETH 0 &&& 15).toNat * 4

def total (f : List Byte) : Nat :=
  min (u16 (f.getD (ETH + 2) 0) (f.getD (ETH + 3) 0)) (f.length - ETH)

/-- The bytes an event points to come right after the transport header, as its data offset says, and
lie in the packet, as its length and the frame bound it. -/
def Event.Inside (f : List Byte) : Event → Prop
  | .udp e => e.off = ETH + ihl f + 8 ∧ e.off + e.len ≤ min (ETH + total f) f.length
  | .tcp _ _ _ _ _ _ off len => ETH + ihl f + 20 ≤ off ∧
      off = ETH + ihl f + (f.getD (ETH + ihl f + 12) 0).toNat / 16 * 4 ∧
      off + len ≤ min (ETH + total f) f.length
  | _ => True

namespace Stack

variable (s : Stack)

/-- The arms of `poll` for the protocols, with the frame that is sent in answer. -/
def transport (f : List Byte) (t tlen : Nat) : Event × Option (List Byte) :=
  let proto := f.getD (ETH + 9) 0
  let dst := (f.drop (ETH + 16)).take 4
  let dstOk := dst = ipBytes s.ip ∨ dst = [255, 255, 255, 255]
  if proto = 1 ∧ tlen ≥ 8 ∧ dst = ipBytes s.ip then
    if f.getD t 0 = 0 ∧ (f.drop (t + 4)).take 2 = be16 ID_ECHO then
      (.echoReply (u16 (f.getD (t + 6) 0) (f.getD (t + 7) 0)) tlen, none)
    else if f.getD t 0 = 8 then
      (.none, s.sendIp 1 (u32 f (ETH + 12))
        (sealed [0, f.getD (t + 1) 0] ((f.drop (t + 4)).take (min tlen 1500 - 4))))
    else (.none, none)
  else if proto = 17 ∧ dstOk ∧ tlen ≥ 8 then
    (.udp ⟨(f.drop (ETH + 12)).take 4, u16 (f.getD t 0) (f.getD (t + 1) 0),
      u16 (f.getD (t + 2) 0) (f.getD (t + 3) 0), t + 8, tlen - 8⟩, none)
  else if proto = 6 ∧ dstOk ∧ tlen ≥ 20 then
    let doff := (f.getD (t + 12) 0 >>> 4).toNat * 4
    if doff < 20 ∨ doff > tlen then (.none, none)
    else
      (.tcp (u32 f (ETH + 12)) (u16 (f.getD t 0) (f.getD (t + 1) 0))
        (u16 (f.getD (t + 2) 0) (f.getD (t + 3) 0)) (f.getD (t + 13) 0) (u32 f (t + 4))
        (u32 f (t + 8)) (t + doff) (tlen - doff), none)
  else (.none, none)

def poll (f : List Byte) : Event × Option (List Byte) :=
  if f.length ≥ 42 ∧ (f.drop 12).take 2 = [8, 6] ∧ (f.drop 20).take 2 = [0, 1] ∧
      (f.drop 38).take 4 = ipBytes s.ip then
    let mac : Mac := fun i => f.getD (22 + i) 0
    (.none, some (s.arp 2 mac mac (u32 f 28)))
  else if f.length < ETH + IPH ∨ (f.drop 12).take 2 ≠ [8, 0] ∨ f.getD ETH 0 >>> 4 ≠ 4 then
    (.none, none)
  else if ihl f < IPH ∨ total f < ihl f then (.none, none)
  else s.transport f (ETH + ihl f) (total f - ihl f)

/-- The hardware address that `resolve_gateway` takes from a frame. -/
def learn (f : List Byte) : Option Mac :=
  if f.length ≥ 42 ∧ (f.drop 12).take 2 = [8, 6] ∧ (f.drop 20).take 2 = [0, 2] ∧
      (f.drop 28).take 4 = ipBytes s.gateway then some fun i => f.getD (22 + i) 0
  else none

/-- What `resolve_gateway` broadcasts. -/
def request : List Byte := s.arp 1 (fun _ => 0xFF) (fun _ => 0) s.gateway

/-- The loop of `resolve_gateway` over the frames that come in time. -/
def resolveGateway (frames : List (List Byte)) : Option Stack :=
  (frames.findSome? s.learn).map fun mac => { s with gwMac := mac }

variable {s} {f : List Byte}

/-! ## Any frame -/

/-- What a reader finds in a frame that `sendIp` built around `payload`. -/
structure Carries (s : Stack) (proto : Byte) (dst : Ip) (payload f : List Byte) : Prop where
  size : f.length = 34 + payload.length
  header : (f.drop ETH).take IPH = s.ipHeader proto dst payload.length
  body : f.drop 34 = payload
  kind : (f.drop 12).take 2 = [8, 0]
  version : f.getD ETH 0 = 0x45
  total : u16 (f.getD (ETH + 2) 0) (f.getD (ETH + 3) 0) = 20 + payload.length
  proto : f.getD (ETH + 9) 0 = proto
  source : u32 f (ETH + 12) = s.ip
  target : u32 f (ETH + 16) = dst
  dst : (f.drop (ETH + 16)).take 4 = ipBytes dst

theorem sendIp_carries (s : Stack) (proto : Byte) (dst : Ip) {payload : List Byte}
    (fits : payload.length ≤ 1500) :
    ∃ f, s.sendIp proto dst payload = some f ∧ s.Carries proto dst payload f := by
  rw [sendIp, if_neg (by rw [ETH, IPH]; omega)]
  refine ⟨_, rfl, {
    size := by
      rw [List.length_append, List.length_append, ← Nat.add_assoc]
      rfl
    header := rfl
    body := rfl
    kind := rfl
    version := rfl
    total := u16_be16 (by rw [IPH]; omega)
    proto := rfl
    source := u32_ipBytes s.ip
    target := u32_ipBytes dst
    dst := rfl }⟩

namespace Carries

variable {proto : Byte} {dst : Ip} {payload : List Byte} (c : s.Carries proto dst payload f)

include c

theorem header_verifies : Verifies ((f.drop ETH).take IPH) := by
  rw [c.header]
  exact filled_verifies_alone (by simp [be16]) _

theorem byte (i : Nat) : f.getD (34 + i) 0 = payload.getD i 0 := by
  rw [← c.body, List.getD_eq_getElem?_getD, List.getD_eq_getElem?_getD, List.getElem?_drop]

theorem word (i : Nat) : u32 f (34 + i) = u32 payload i := by
  simp only [u32, Nat.add_assoc, c.byte]

theorem poll_eq (peer : Stack) : peer.poll f = peer.transport f 34 payload.length := by
  have twenty : ihl f = 20 := by
    rw [ihl, c.version]
    decide
  have all : Frames.total f = 20 + payload.length := by
    rw [Frames.total, c.total, c.size, ETH]
    omega
  rw [poll, if_neg, if_neg, if_neg]
  · rw [twenty, all, Nat.add_sub_cancel_left]
    rfl
  · rw [twenty, all, IPH]
    omega
  · rw [c.size, c.kind, c.version, ETH, IPH]
    rintro (small | other | other)
    · omega
    · exact other rfl
    · exact other (by decide)
  · rw [c.kind]
    exact fun asked => absurd asked.2.1 (by decide)

end Carries

def pseudoHeader (s : Stack) (dst : Ip) (proto : Byte) (len : Nat) : List Byte :=
  ipBytes s.ip ++ (ipBytes dst ++ ([0, proto] ++ be16 len))

theorem wordSum_pseudoHeader (s : Stack) (dst : Ip) (proto : Byte) {len : Nat}
    (small : len < 2 ^ 16) :
    wordSum (s.pseudoHeader dst proto len) = s.pseudo dst proto.toNat len := by
  have four (ip : Ip) : (ipBytes ip).length % 2 = 0 := by simp [ipBytes]
  rw [← Nat.zero_add (wordSum _), ← sum_eq, pseudoHeader, pseudo, sum_append (four _),
    sum_append (four _), be16]
  simp only [List.cons_append, List.nil_append, sum]
  rw [u16_be16 small, u16]
  simp

/-- The checksums of the header and of the packet in it hold. -/
def Verified (s : Stack) (dst : Ip) (proto : Byte) (f : List Byte) : Prop :=
  Verifies ((f.drop ETH).take IPH) ∧
    Verifies (s.pseudoHeader dst proto (f.drop 34).length ++ f.drop 34)

/-- A segment of the TCP client arrives at the stack it is meant for as the client built it, and
both checksums hold. -/
theorem segment_received (s : Stack) {peer : Stack} {p : Packet} (here : p.rip = peer.ip)
    (short : p.data.length ≤ MSS) :
    ∃ f, s.sendSegment p = some f ∧ s.Verified p.rip 6 f ∧ (peer.poll f).1.segment f =
      some ⟨s.ip, p.lport, p.rport, p.flags, p.seq, p.ack, p.data⟩ := by
  obtain ⟨known, counted⟩ := hdr_options p.flags
  rw [MSS] at short
  have size := segmentBytes_length p
  rw [sendSegment, if_neg (by omega)]
  obtain ⟨f, sent, c⟩ := s.sendIp_carries 6 p.rip ((size _).trans_le (by omega))
  have data : (f.drop 34).drop (hdr p.flags) = p.data := by
    rw [c.body, ← counted, ← List.drop_drop]
    exact List.drop_left
  have doff : (f.getD 46 0 >>> 4).toNat * 4 = hdr p.flags := by
    rw [show f.getD 46 0 = BitVec.ofNat 8 (hdr p.flags / 4) <<< 4 from c.byte 12]
    rcases known with eq | eq <;> rw [eq] <;> decide
  have sport : u16 (f.getD 34 0) (f.getD 35 0) = p.lport.toNat :=
    (congrArg₂ u16 (c.byte 0) (c.byte 1)).trans (u16_be16 p.lport.isLt)
  have dport : u16 (f.getD 36 0) (f.getD 37 0) = p.rport.toNat :=
    (congrArg₂ u16 (c.byte 2) (c.byte 3)).trans (u16_be16 p.rport.isLt)
  have seq : u32 f 38 = p.seq := (c.word 4).trans (u32_ipBytes p.seq)
  have ack : u32 f 42 = p.ack := (c.word 8).trans (u32_ipBytes p.ack)
  have flags : f.getD 47 0 = p.flags := c.byte 13
  refine ⟨f, sent, ⟨c.header_verifies, ?_⟩, ?_⟩
  · rw [c.body, size]
    have small : hdr p.flags + p.data.length < 2 ^ 16 := by omega
    have pseudo := s.wordSum_pseudoHeader p.rip 6 small
    exact filled_verifies (by simp [pseudoHeader, be16, ipBytes]) pseudo (by simp [be16, ipBytes]) _
  rw [c.poll_eq, transport]
  simp only [c.proto, c.dst, c.source, here, size, doff, sport, dport, seq, ack, flags]
  rw [if_neg fun icmp => absurd icmp.1 (by decide), if_neg fun udp => absurd udp.1 (by decide),
    if_pos ⟨trivial, .inl trivial, by omega⟩, if_neg (by omega), Nat.add_sub_cancel_left,
    Event.segment, ← List.drop_drop, data, List.take_length]
  simp

def guest : Stack := ⟨fun _ => 2, 0x0A00020F, 0x0A000202, fun _ => 4⟩

def host : Stack := ⟨fun _ => 4, 0x0A000202, 0, fun _ => 2⟩

theorem syn_received : ∃ f, guest.sendSegment ⟨host.ip, 49152, 80, SYN, 7, 0, RX, []⟩ = some f ∧
    (host.poll f).1.segment f = some ⟨guest.ip, 49152, 80, SYN, 7, 0, []⟩ := by
  obtain ⟨f, sent, -, polled⟩ := segment_received guest
    (p := ⟨host.ip, 49152, 80, SYN, 7, 0, RX, []⟩) rfl (Nat.zero_le _)
  exact ⟨f, sent, polled⟩

/-- The sender of an ARP frame. -/
def askerMac (f : List Byte) : Mac := fun i => f.getD (22 + i) 0

theorem of_answer {g : List Byte} (sent : (s.poll f).2 = some g) :
    g = s.arp 2 (askerMac f) (askerMac f) (u32 f 28) ∨
      f.getD (ETH + ihl f) 0 = 8 ∧ s.Carries 1 (u32 f (ETH + 12))
        (sealed [0, f.getD (ETH + ihl f + 1) 0]
          ((f.drop (ETH + ihl f + 4)).take (min (total f - ihl f) 1500 - 4))) g := by
  rw [poll] at sent
  split_ifs at sent with asked other bad
  · cases sent
    exact .inl rfl
  rw [transport] at sent
  split_ifs at sent with icmp reply request udp tcp
  · have short (l : List Byte) : (sealed [0, f.getD (ETH + ihl f + 1) 0]
        (l.take (min (total f - ihl f) 1500 - 4))).length ≤ 1500 := by
      simp only [sealed, filled, be16, List.length_append, List.length_cons, List.length_nil,
        List.length_take]
      omega
    obtain ⟨g', made, c⟩ := s.sendIp_carries 1 (u32 f (ETH + 12)) (short _)
    cases made.symm.trans sent
    exact .inr ⟨request, c⟩
  · dsimp only at sent
    split_ifs at sent

/-- An echo reply to the one whose request `f` is, with its identifier, sequence number and data. -/
structure Echoes (s : Stack) (f g : List Byte) : Prop where
  asked : f.getD (ETH + ihl f) 0 = 8
  source : u32 g (ETH + 12) = s.ip
  target : u32 g (ETH + 16) = u32 f (ETH + 12)
  proto : g.getD (ETH + 9) 0 = 1
  reply : g.getD 34 0 = 0
  data : g.drop 38 = (f.drop (ETH + ihl f + 4)).take (min (total f - ihl f) 1500 - 4)
  header : Verifies ((g.drop ETH).take IPH)
  packet : Verifies (g.drop 34)

/-- An answer of `poll` teaches the asker nothing but the address of the one who answers. -/
theorem learn_answer {peer : Stack} {g : List Byte} {mac : Mac} (sent : (peer.poll f).2 = some g)
    (learned : s.learn g = some mac) : peer.ip = s.gateway ∧ mac = peer.mac := by
  obtain ⟨⟨-, kind, -, same⟩, ⟨⟩⟩ := Option.ite_none_right_eq_some.mp learned
  obtain rfl | ⟨-, c⟩ := of_answer sent
  · refine ⟨(u32_ipBytes _).symm.trans ((congrArg (u32 · 0) same).trans (u32_ipBytes _)), ?_⟩
    ext i
    fin_cases i <;> rfl
  · cases c.kind.symm.trans kind

/-- The owner of the address answers the request, and its answer is taken. -/
theorem answer_learned {peer : Stack} (own : peer.ip = s.gateway) :
    ∃ g, (peer.poll s.request).2 = some g ∧ (s.learn g).isSome := by
  rw [poll, if_pos ⟨Nat.le_of_eq rfl, rfl, rfl, by rw [own]; rfl⟩]
  refine ⟨_, rfl, ?_⟩
  rw [learn, if_pos ⟨Nat.le_of_eq rfl, rfl, rfl, by rw [← own]; rfl⟩]
  rfl

/-- Whatever the stacks of the link are sent, the gateway's hardware address is resolved only to
that of its owner; and it is resolved if an owner sees the request. -/
theorem gateway_resolved (s : Stack) (link : List (Stack × List Byte)) :
    let got := s.resolveGateway (link.filterMap fun (peer, f) => (peer.poll f).2)
    (∀ s', got = some s' → ∃ peer f, (peer, f) ∈ link ∧ peer.ip = s.gateway ∧
      s' = { s with gwMac := peer.mac }) ∧
    ∀ peer, (peer, s.request) ∈ link → peer.ip = s.gateway → got.isSome := by
  refine ⟨fun s' got => ?_, fun peer asked own => ?_⟩
  · obtain ⟨mac, found, rfl⟩ := Option.map_eq_some_iff.mp got
    obtain ⟨g, mem, learned⟩ := List.exists_of_findSome?_eq_some found
    obtain ⟨⟨peer, f⟩, linked, sent⟩ := List.mem_filterMap.mp mem
    obtain ⟨own, rfl⟩ := learn_answer sent learned
    exact ⟨peer, f, linked, own, rfl⟩
  · obtain ⟨g, sent, learned⟩ := answer_learned own
    rw [resolveGateway, Option.isSome_map, List.findSome?_isSome_iff]
    exact ⟨g, List.mem_filterMap.mpr ⟨_, asked, sent⟩, learned⟩

end Stack

end K1K.Net.Frames
