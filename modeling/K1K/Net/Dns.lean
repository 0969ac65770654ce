import K1K.Net.DnsWire

/-!
# Lookups over a network

`resolve` of `user/svc/net/src/dns.rs` with the UDP event of `Stack::poll`, and the network
around it. Queries and responses may arrive at any time, any number of times or never; a server
answers as it likes with a well-formed response, and other hosts send what they like. Frames
that arrive outside of a lookup are taken by somebody else.

One step of a lookup is one frame that `poll` takes, or the end of an attempt. `responded` is
what servers have answered to which queries, `results` what `resolve` has returned.
-/

namespace K1K.Net.Dns

open K1K.Lib

/-! ## Frames -/

def ETH : Nat := 14
def IPH : Nat := 20

def ipBytes (ip : Ip) : List Byte :=
  [ip.extractLsb' 24 8, ip.extractLsb' 16 8, ip.extractLsb' 8 8, ip.extractLsb' 0 8]

structure UdpEvent where
  src : List Byte
  sport : Nat
  dport : Nat
  off : Nat
  len : Nat
  deriving DecidableEq

def pollUdp (ip : Ip) (f : List Byte) : Option UdpEvent :=
  if f.length < ETH + IPH ∨ (f.drop 12).take 2 ≠ [8, 0] ∨ f.getD ETH 0 >>> 4 ≠ 4 then none
  else
    let ihl := (f.getD ETH 0 &&& 15).toNat * 4
    let total := min (u16 (f.getD (ETH + 2) 0) (f.getD (ETH + 3) 0)) (f.length - ETH)
    if ihl < IPH ∨ total < ihl then none
    else
      let dst := (f.drop (ETH + 16)).take 4
      let t := ETH + ihl
      let tlen := total - ihl
      if f.getD (ETH + 9) 0 = 17 ∧ (dst = ipBytes ip ∨ dst = [255, 255, 255, 255]) ∧ tlen ≥ 8 then
        some ⟨(f.drop (ETH + 12)).take 4, u16 (f.getD t 0) (f.getD (t + 1) 0),
          u16 (f.getD (t + 2) 0) (f.getD (t + 3) 0), t + 8, tlen - 8⟩
      else none

structure Envelope where
  macs : Fin 12 → Byte
  tos : Byte
  mid : Fin 5 → Byte
  ipSum : Byte × Byte
  udpSum : Byte × Byte
  padding : List Byte

namespace Envelope

variable (e : Envelope)

def header (src dst : Ip) (sport dport len : Nat) : List Byte :=
  [e.macs 0, e.macs 1, e.macs 2, e.macs 3, e.macs 4, e.macs 5, e.macs 6, e.macs 7, e.macs 8,
    e.macs 9, e.macs 10, e.macs 11, 8, 0, 0x45, e.tos] ++ be16 (28 + len) ++
  [e.mid 0, e.mid 1, e.mid 2, e.mid 3, e.mid 4, 17, e.ipSum.1, e.ipSum.2] ++ ipBytes src ++
    ipBytes dst ++ be16 sport ++ be16 dport ++ be16 (8 + len) ++ [e.udpSum.1, e.udpSum.2]

def frame (src dst : Ip) (sport dport : Nat) (data : List Byte) : List Byte :=
  e.header src dst sport dport data.length ++ (data ++ e.padding)

theorem pollUdp_frame (src dst : Ip) {sport dport : Nat} {data : List Byte}
    (short : data.length + 28 < 2 ^ 16) (sports : sport < 2 ^ 16) (dports : dport < 2 ^ 16) :
    pollUdp dst (e.frame src dst sport dport data) =
      some ⟨ipBytes src, sport, dport, 42, data.length⟩ := by
  have size : (e.frame src dst sport dport data).length =
      42 + (data.length + e.padding.length) := by
    rw [frame, List.length_append, List.length_append]
    rfl
  have kind : ((e.frame src dst sport dport data).drop 12).take 2 = [8, 0] ∧
      (e.frame src dst sport dport data).getD ETH 0 = 0x45 ∧
      (e.frame src dst sport dport data).getD (ETH + 9) 0 = 17 := ⟨rfl, rfl, rfl⟩
  have addresses : ((e.frame src dst sport dport data).drop (ETH + 12)).take 4 = ipBytes src ∧
      ((e.frame src dst sport dport data).drop (ETH + 16)).take 4 = ipBytes dst := ⟨rfl, rfl⟩
  have total : u16 ((e.frame src dst sport dport data).getD (ETH + 2) 0)
      ((e.frame src dst sport dport data).getD (ETH + 3) 0) = 28 + data.length :=
    u16_be16 (by omega)
  have ports : u16 ((e.frame src dst sport dport data).getD (ETH + 20) 0)
      ((e.frame src dst sport dport data).getD (ETH + 20 + 1) 0) = sport ∧
    u16 ((e.frame src dst sport dport data).getD (ETH + 20 + 2) 0)
      ((e.frame src dst sport dport data).getD (ETH + 20 + 3) 0) = dport :=
    ⟨u16_be16 sports, u16_be16 dports⟩
  have whole : min (28 + data.length) (42 + (data.length + e.padding.length) - ETH) =
      28 + data.length := by
    rw [ETH]
    omega
  have twenty : (0x45 &&& 15 : Byte).toNat * 4 = 20 := by decide
  rw [pollUdp, if_neg]
  · simp only [kind.2.1, total, size, whole, twenty, addresses.1, addresses.2, kind.2.2, ports.1,
      ports.2]
    rw [if_neg (by rw [IPH]; omega), if_pos ⟨trivial, .inl trivial, by omega⟩]
    have rest : 28 + data.length - 20 - 8 = data.length := by omega
    rw [rest]
    rfl
  · rw [size, kind.1, kind.2.1]
    simp only [ETH, IPH]
    rintro (small | other | other)
    · omega
    · exact other rfl
    · exact other (by decide)

theorem slice_frame (src dst : Ip) (sport dport : Nat) (data : List Byte) :
    ((e.frame src dst sport dport data).drop 42).take data.length = data := by
  have skipped : (e.frame src dst sport dport data).drop 42 = data ++ e.padding := rfl
  rw [skipped, List.take_left]

end Envelope

/-! ## Lookups -/

structure Reply where
  response : Response
  wf : response.WellFormed
  short : response.encode.length + 28 < 2 ^ 16

structure Query where
  server : Ip
  name : List Byte
  deriving DecidableEq

structure Sent where
  frame : List Byte
  origin : Option (Query × Response)

/-- `lookup` is the query of the call of `resolve` that is going on and the number of
attempts it has left. -/
structure World where
  ip : Ip
  queries : List Query
  flight : List Sent
  lookup : Option (Query × Nat)
  responded : List (Query × Response)
  results : List (Query × Ip)

def forResolver (ip : Ip) (f : List Byte) : Bool :=
  (pollUdp ip f).any fun e => e.sport == 53 && e.dport == PORT

def received (ip : Ip) (f : List Byte) : Option Ip :=
  match pollUdp ip f with
  | some e => if e.sport = 53 ∧ e.dport = PORT then answer ((f.drop e.off).take e.len) else none
  | none => none

namespace World

variable (s : World)

inductive Action where
  | resolve (q : Query)
  | expire
  | poll (i : Nat) (again : Bool)
  | reply (i : Nat) (again : Bool) (r : Reply) (e : Envelope)
  | foreign (f : List Byte)
  | lose (i : Nat)
  | loseQuery (i : Nat)

def arrived {α : Type} (l : List α) (i : Nat) (again : Bool) : List α :=
  if again then l else l.eraseIdx i

def step : Action → Option World
  | .resolve q =>
    match s.lookup with
    | some _ => none
    | none =>
      match question q.name with
      | none => some s
      | some _ => some { s with lookup := some (q, 2), queries := s.queries ++ [q] }
  | .expire =>
    match s.lookup with
    | none => none
    | some (_, 0) => some { s with lookup := none }
    | some (q, left + 1) => some { s with lookup := some (q, left), queries := s.queries ++ [q] }
  | .poll i again =>
    match s.flight[i]? with
    | none => none
    | some sent =>
      let s := { s with flight := arrived s.flight i again }
      match s.lookup with
      | none => some s
      | some (q, _) =>
        match received s.ip sent.frame with
        | none => some s
        | some ip => some { s with lookup := none, results := s.results ++ [(q, ip)] }
  | .reply i again r e =>
    match s.queries[i]? with
    | none => none
    | some q =>
      some { s with
        queries := arrived s.queries i again
        flight := s.flight ++
          [⟨e.frame q.server s.ip 53 PORT r.response.encode, some (q, r.response)⟩]
        responded := s.responded ++ [(q, r.response)] }
  | .foreign f => some { s with flight := s.flight ++ [⟨f, none⟩] }
  | .lose i => some { s with flight := s.flight.eraseIdx i }
  | .loseQuery i => some { s with queries := s.queries.eraseIdx i }

def Step (s : World) (a : Action) (s' : World) : Prop := s.step a = some s'

def start (ip : Ip) : World := ⟨ip, [], [], none, [], []⟩

/-- When a lookup begins, no query for another name or server is on its way any more, nor a
response to one; and other hosts do not use the two ports. -/
def Settled (s : World) : Action → Prop
  | .resolve q => (∀ other ∈ s.queries, other = q) ∧
      ∀ sent ∈ s.flight, forResolver s.ip sent.frame → ∃ r, sent.origin = some (q, r)
  | .foreign f => ¬forResolver s.ip f
  | _ => True

def Genuine (ip : Ip) (responded : List (Query × Response)) (sent : Sent) : Prop :=
  forResolver ip sent.frame → ∃ q r e, sent.origin = some (q, r.response) ∧
    (q, r.response) ∈ responded ∧
    sent.frame = Envelope.frame e q.server ip 53 PORT (Reply.response r).encode

structure Inv (s : World) : Prop where
  genuine : ∀ sent ∈ s.flight, Genuine s.ip s.responded sent
  queries : ∀ q left, s.lookup = some (q, left) → ∀ other ∈ s.queries, other = q
  flight : ∀ q left, s.lookup = some (q, left) → ∀ sent ∈ s.flight,
    forResolver s.ip sent.frame → ∃ r, sent.origin = some (q, r)
  results : ∀ p ∈ s.results, ∃ r, (p.1, r) ∈ s.responded ∧ p.2 ∈ r.addresses

variable {s} {s' : World} {a : Action}

theorem mem_of_arrived {α : Type} {l : List α} {i : Nat} {again : Bool} {x : α}
    (mem : x ∈ arrived l i again) : x ∈ l := by
  rw [arrived] at mem
  split at mem
  next => exact mem
  next => exact List.mem_of_mem_eraseIdx mem

theorem Genuine.more {ip : Ip} {responded : List (Query × Response)} {sent : Sent}
    (genuine : Genuine ip responded sent) (later : List (Query × Response)) :
    Genuine ip (responded ++ later) sent := by
  intro ours
  obtain ⟨q, r, e, origin, mem, frame⟩ := genuine ours
  exact ⟨q, r, e, origin, List.mem_append_left _ mem, frame⟩

theorem forResolver_of_received {ip : Ip} {f : List Byte} {address : Ip}
    (found : received ip f = some address) : forResolver ip f := by
  rw [received] at found
  split at found
  next e polled =>
    split at found
    next ports => simp [forResolver, polled, ports]
    next => cases found
  next => cases found

theorem received_reply {ip : Ip} {e : Envelope} {q : Query} {r : Reply} :
    received ip (e.frame q.server ip 53 PORT r.response.encode) =
      if r.response.Accepted then r.response.addresses.head? else none := by
  have polled := e.pollUdp_frame q.server ip r.short (by decide : 53 < 2 ^ 16)
    (by decide : PORT < 2 ^ 16)
  rw [received, polled]
  simp only [true_and, if_true]
  rw [e.slice_frame, Response.answer_encode r.wf]

theorem inv_start (ip : Ip) : (start ip).Inv :=
  ⟨by simp [start], by rintro _ _ ⟨⟩, by rintro _ _ ⟨⟩, by simp [start]⟩

theorem Inv.fewer (inv : s.Inv) {flight : List Sent} (subset : ∀ sent ∈ flight, sent ∈ s.flight) :
    Inv { s with flight := flight } :=
  ⟨fun sent mem => inv.genuine sent (subset sent mem), inv.queries,
    fun q left looks sent mem => inv.flight q left looks sent (subset sent mem), inv.results⟩

theorem Inv.fewerQueries (inv : s.Inv) {queries : List Query}
    (subset : ∀ q ∈ queries, q ∈ s.queries) : Inv { s with queries := queries } :=
  ⟨inv.genuine, fun q left looks other mem => inv.queries q left looks other
    (subset other mem), inv.flight, inv.results⟩

theorem Inv.idle (inv : s.Inv) : Inv { s with lookup := none } :=
  ⟨inv.genuine, by rintro _ _ ⟨⟩, by rintro _ _ ⟨⟩, inv.results⟩

theorem Inv.answered (inv : s.Inv) {sent : Sent} (mem : sent ∈ s.flight) {q : Query} {left : Nat}
    (looks : s.lookup = some (q, left)) {ip : Ip} (found : received s.ip sent.frame = some ip) :
    ∃ r, (q, r) ∈ s.responded ∧ ip ∈ r.addresses := by
  have ours := forResolver_of_received found
  obtain ⟨q', r, e, origin, known, frame⟩ := inv.genuine sent mem ours
  obtain ⟨r', origin'⟩ := inv.flight q left looks sent mem ours
  cases origin.symm.trans origin'
  refine ⟨_, known, ?_⟩
  rw [frame, received_reply] at found
  split at found
  next => exact List.mem_of_mem_head? found
  next => cases found

theorem Inv.step (inv : s.Inv) (settled : s.Settled a) (ran : Step s a s') : s'.Inv := by
  cases a with
  | resolve q =>
    rw [Step, World.step] at ran
    split at ran
    next => cases ran
    split at ran
    next =>
      cases ran
      exact inv
    cases ran
    refine ⟨inv.genuine, ?_, ?_, inv.results⟩
    · rintro q' left ⟨⟩ other mem
      rcases List.mem_append.mp mem with old | new
      · exact settled.1 other old
      · exact List.mem_singleton.mp new
    · rintro q' left ⟨⟩ sent mem ours
      exact settled.2 sent mem ours
  | expire =>
    rw [Step, World.step] at ran
    split at ran
    next => cases ran
    next =>
      cases ran
      exact inv.idle
    next q left looks =>
      cases ran
      refine ⟨inv.genuine, ?_, ?_, inv.results⟩
      · rintro q' left' ⟨⟩ other mem
        rcases List.mem_append.mp mem with old | new
        · exact inv.queries q _ looks other old
        · exact List.mem_singleton.mp new
      · rintro q' left' ⟨⟩ sent mem ours
        exact inv.flight q _ looks sent mem ours
  | poll i again =>
    rw [Step, World.step] at ran
    split at ran
    next => cases ran
    next sent found =>
      have fewer : Inv { s with flight := arrived s.flight i again } :=
        inv.fewer fun _ => mem_of_arrived
      dsimp only at ran
      split at ran
      next =>
        cases ran
        exact fewer
      next q left looks =>
        split at ran
        next =>
          cases ran
          exact fewer
        next ip answered =>
          cases ran
          refine ⟨fewer.genuine, by rintro _ _ ⟨⟩, by rintro _ _ ⟨⟩, fun p mem => ?_⟩
          rcases List.mem_append.mp mem with old | new
          · exact inv.results p old
          · rw [List.mem_singleton.mp new]
            exact inv.answered (List.mem_of_getElem? found) looks answered
  | reply i again r e =>
    rw [Step, World.step] at ran
    split at ran
    next => cases ran
    next q found =>
      cases ran
      refine ⟨?_, ?_, ?_, ?_⟩
      · intro sent mem
        rcases List.mem_append.mp mem with old | new
        · exact (inv.genuine sent old).more _
        · rw [List.mem_singleton.mp new]
          exact fun _ => ⟨q, r, e, rfl, by simp, rfl⟩
      · intro q' left looks other mem
        exact inv.queries q' left looks other (mem_of_arrived mem)
      · intro q' left looks sent mem ours
        rcases List.mem_append.mp mem with old | new
        · exact inv.flight q' left looks sent old ours
        · have eq := inv.queries q' left looks q (List.mem_of_getElem? found)
          rw [List.mem_singleton.mp new]
          exact ⟨r.response, by rw [eq]⟩
      · intro p mem
        obtain ⟨r', known, address⟩ := inv.results p mem
        exact ⟨r', List.mem_append_left _ known, address⟩
  | foreign f =>
    cases ran
    refine ⟨?_, inv.queries, ?_, inv.results⟩
    · intro sent mem
      rcases List.mem_append.mp mem with old | new
      · exact inv.genuine sent old
      · rw [List.mem_singleton.mp new]
        exact fun ours => absurd ours settled
    · intro q left looks sent mem ours
      rcases List.mem_append.mp mem with old | new
      · exact inv.flight q left looks sent old ours
      · rw [List.mem_singleton.mp new] at ours
        exact absurd ours settled
  | lose i =>
    cases ran
    exact inv.fewer fun sent => List.mem_of_mem_eraseIdx
  | loseQuery i =>
    cases ran
    exact inv.fewerQueries fun q => List.mem_of_mem_eraseIdx

/-- While nothing of an earlier lookup for something else is on its way when a lookup begins, and
no other host uses the two ports, every address that `resolve` returns is in a response of the
queried server to a query for this name. -/
theorem answers_match {ip : Ip} {actions : List Action} {s : World}
    (run : Run (Guarded Settled Step) (start ip) actions s) :
    ∀ p ∈ s.results, ∃ r, (p.1, r) ∈ s.responded ∧ p.2 ∈ r.addresses := by
  have inv : s.Inv := run.invariant Inv (inv_start ip) fun _ _ _ inv ran =>
    inv.step ran.1 ran.2
  exact inv.results

/-! ## A late response -/

def nameA : List Byte := [0x61]
def nameB : List Byte := [0x62]

def server : Ip := 0x01010101

def oneAddress (name : List Byte) : Response where
  id := ID
  flags := (0x81, 0x80)
  questions := [(⟨[name], none⟩, [0, 1, 0, 1])]
  answers := [⟨⟨[], some (0, 12)⟩, (0, 1), (0, 1), (0, 0, 0, 60), [1, 2, 3, 4]⟩]
  counts := [0, 0, 0, 0]
  rest := []

theorem oneAddress_wellFormed {name : List Byte} (nonempty : name ≠ [])
    (short : name.length ≤ 63) : (oneAddress name).WellFormed where
  id := rfl
  counts := rfl
  few := ⟨by simp [oneAddress], by simp [oneAddress]⟩
  questions := by simp [oneAddress, Name.WellFormed, nonempty, short]
  answers := by
    intro rr mem
    rw [List.mem_singleton.mp mem]
    exact ⟨by simp [Name.WellFormed], by decide⟩

def replyA : Reply := ⟨oneAddress nameA, oneAddress_wellFormed (by decide) (by decide), by decide⟩

def plain : Envelope := ⟨fun _ => 0, 0, fun _ => 0, (0, 0), (0, 0), []⟩

theorem step_resolve {q : Query} (idle : s.lookup = none) (valid : (question q.name).isSome) :
    Step s (.resolve q) { s with lookup := some (q, 2), queries := s.queries ++ [q] } := by
  obtain ⟨data, asked⟩ := Option.isSome_iff_exists.mp valid
  simp [Step, step, idle, asked]

theorem step_reply {i : Nat} {q : Query} (asked : s.queries[i]? = some q) (r : Reply)
    (e : Envelope) : Step s (.reply i false r e) { s with
      queries := s.queries.eraseIdx i
      flight := s.flight ++
        [⟨e.frame q.server s.ip 53 PORT r.response.encode, some (q, r.response)⟩]
      responded := s.responded ++ [(q, r.response)] } := by
  simp [Step, step, asked, arrived]

theorem step_poll {q asked : Query} {left : Nat} {r : Reply} {e : Envelope} {ip : Ip}
    (flight : s.flight = [⟨e.frame asked.server s.ip 53 PORT r.response.encode,
      some (asked, r.response)⟩]) (looks : s.lookup = some (q, left))
    (accepted : r.response.Accepted) (address : r.response.addresses.head? = some ip) :
    Step s (.poll 0 false)
      { s with flight := [], lookup := none, results := s.results ++ [(q, ip)] } := by
  have found : received s.ip (e.frame asked.server s.ip 53 PORT r.response.encode) = some ip := by
    rw [received_reply, if_pos accepted, address]
  simp [Step, step, flight, looks, found, arrived]

theorem lookup_answered :
    ∃ actions s, Run (Guarded Settled Step) (start 0) actions s ∧
      s.results = [(⟨server, nameA⟩, 0x01020304)] ∧ s.lookup = some (⟨server, nameB⟩, 2) ∧
      ∀ p ∈ s.results, ∃ r, (p.1, r) ∈ s.responded ∧ p.2 ∈ r.addresses := by
  have waits : Run (Guarded Settled Step) (start 0) _ _ := .snoc .nil
    ⟨by exact ⟨by simp [start], by simp [start]⟩,
      step_resolve (q := ⟨server, nameA⟩) rfl (by decide)⟩
  have sent := waits.snoc ⟨by trivial, step_reply (i := 0) rfl replyA plain⟩
  have answered := sent.snoc ⟨by trivial, step_poll rfl rfl (by decide) rfl⟩
  have waits_again := answered.snoc
    ⟨by exact ⟨by simp [start], by simp⟩, step_resolve (q := ⟨server, nameB⟩) rfl (by decide)⟩
  exact ⟨_, _, waits_again, rfl, rfl, answers_match waits_again⟩

/-- A lookup for the first name times out. The response comes during the lookup for the second
name, which returns its address. -/
theorem late_response_accepted :
    ∃ actions s, Run Step (start 0) actions s ∧ s.results = [(⟨server, nameB⟩, 0x01020304)] ∧
      ∀ p ∈ s.responded, p.1.name ≠ nameB := by
  have waits : Run Step (start 0) _ _ := .snoc .nil
    (step_resolve (q := ⟨server, nameA⟩) rfl (by decide))
  have gave_up := ((waits.snoc (show Step _ .expire _ from rfl)).snoc
    (show Step _ .expire _ from rfl)).snoc (show Step _ .expire _ from rfl)
  have waits_again := gave_up.snoc (step_resolve (q := ⟨server, nameB⟩) rfl (by decide))
  have sent := waits_again.snoc (step_reply (i := 0) rfl replyA plain)
  refine ⟨_, _, sent.snoc (step_poll rfl rfl (by decide) rfl), rfl, ?_⟩
  intro p mem
  rw [List.mem_singleton.mp mem]
  decide

end World

end K1K.Net.Dns
