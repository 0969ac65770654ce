import K1K.Net.Link

/-!
# When `Ok` means that the peer has it all

`send` returning `Ok` says only that the end of its last chunk has been acknowledged. A call
that times out drops the rest of its data, and the next one continues right behind the chunk
sent last.
-/

namespace K1K.Net

open K1K.Lib

namespace Link

variable {iss : BitVec 32} {l l' : Link} {action : Action}

/-- A call of `send` is made only when every byte of the calls before is on the wire, an empty one
only when they are acknowledged; and at most half of the sequence space is not acknowledged, the
first chunk included. -/
def Settled (l : Link) : Action → Prop
  | .call data => l.stream.length = l.offered.length ∧ (data = [] → l.una = l.stream.length) ∧
      l.stream.length - l.una + min data.length MSS ≤ 2 ^ 31
  | _ => True

instance (l : Link) (action : Action) : Decidable (l.Settled action) :=
  match action with
  | .call _ => inferInstanceAs (Decidable (_ ∧ (_ → _) ∧ _))
  | .arrive _ _ => .isTrue trivial
  | .read _ => .isTrue trivial
  | .quiet => .isTrue trivial
  | .expire => .isTrue trivial
  | .accept _ _ => .isTrue trivial
  | .acknowledge => .isTrue trivial

structure Remaining (l : Link) (rest : List Byte) : Prop where
  offered : l.offered = l.stream ++ rest
  loop : ∀ total chunk rest' seq stop tries,
    l.conn.point = .sending total chunk rest' seq stop tries →
      rest = rest' ∧ total = l.asked ∧ l.stream.length - l.una ≤ 2 ^ 31

structure Whole (l : Link) : Prop where
  remaining : ∃ rest, l.Remaining rest
  result : ∀ n, l.result = some (.ok n) → l.got = l.offered ∧ n = l.asked

theorem Inv.complete (inv : l.Inv iss) {una : Nat} (acked : una ≤ l.got.length)
    (all : l.stream.length ≤ una) : l.got = l.stream ∧ una = l.stream.length := by
  have most := inv.got.length_le
  have eq : l.got = l.stream := inv.got.eq_of_length_le (by omega)
  exact ⟨eq, by omega⟩

theorem Whole.due (whole : l.Whole) (inv : l.Inv iss) {t : Tcp} {una total : Nat}
    {rest : List Byte} (moved : t.sndUna = serial (iss + 1) una) (ahead : l.una ≤ una)
    (acked : una ≤ l.got.length) (loop : Due t l.conn.point total rest) :
    l.offered = l.stream ++ rest ∧ total = l.asked ∧ l.got = l.stream ∧
      una = l.stream.length := by
  obtain ⟨chunk, seq, stop, tries, sending, passed⟩ := loop
  obtain ⟨_, remaining⟩ := whole.remaining
  obtain ⟨rfl, asked, bound⟩ := remaining.loop _ _ _ _ _ _ sending
  refine ⟨remaining.offered, asked, inv.complete acked ?_⟩
  by_contra behind
  rw [moved, (inv.chunk _ _ _ _ _ _ sending).stop] at passed
  exact serial_behind (by omega) (by omega) (of_decide_eq_true passed)

section After

variable {e : Effect} {una asked : Nat} {offered rest : List Byte}

theorem whole_of_same (stream : (l.after e una).stream = l.stream)
    (left : offered = l.stream ++ rest) (loop : ∀ total chunk rest' seq stop tries,
      e.conn.point = .sending total chunk rest' seq stop tries →
        rest = rest' ∧ total = asked ∧ l.stream.length - una ≤ 2 ^ 31)
    (res : ∀ n, e.sent = some (.ok n) → l.got = offered ∧ n = asked) :
    Whole { l.after e una with offered := offered, asked := asked } := by
  refine ⟨⟨rest, ?_, fun total chunk rest' seq stop tries sending => ?_⟩, res⟩
  · rw [stream]
    exact left
  · rw [stream]
    exact loop total chunk rest' seq stop tries sending

theorem whole_of_fresh (stream : (l.after e una).stream = l.stream ++ rest.take MSS)
    (left : offered = l.stream ++ rest)
    (bound : l.stream.length + (rest.take MSS).length - una ≤ 2 ^ 31) (silent : e.sent = none)
    {chunk : List Byte} {seq stop : BitVec 32} {tries : Nat}
    (place : e.conn.point = .sending asked chunk (rest.drop MSS) seq stop tries) :
    Whole { l.after e una with offered := offered, asked := asked } := by
  refine ⟨⟨rest.drop MSS, ?_, fun total chunk rest' seq stop tries sending => ?_⟩, fun n ok => ?_⟩
  · rw [stream, List.append_assoc, List.take_append_drop]
    exact left
  · have here : e.conn.point = .sending total chunk rest' seq stop tries := sending
    rw [place] at here
    cases here
    rw [stream, List.length_append]
    exact ⟨rfl, rfl, bound⟩
  · have gave : e.sent = some (.ok n) := ok
    simp [silent] at gave

theorem not_sending {total tries : Nat} {chunk rest' : List Byte} {seq stop : BitVec 32}
    (place : e.conn.point = .idle ∨ ∃ room, e.conn.point = .receiving room) :
    e.conn.point ≠ .sending total chunk rest' seq stop tries := by
  rcases place with idle | ⟨room, receiving⟩
  · simp [idle]
  · simp [receiving]

end After

theorem stream_fresh {t : Tcp} {e : Effect} {una : Nat} {rest : List Byte} {acks : List Packet}
    {p : Packet} (nxt : t.sndNxt = l.conn.tcp.sndNxt) (filled : rest ≠ [])
    (quiet : ∀ p ∈ acks, p.data = []) (packets : e.packets = acks ++ [p])
    (data : p.data = rest.take MSS)
    (eq : e.conn.tcp.sndNxt = t.sndNxt + BitVec.ofNat 32 (rest.take MSS).length) :
    (l.after e una).stream = l.stream ++ rest.take MSS := by
  rw [nxt, ← data] at eq
  rw [← data]
  refine (after_fresh una eq quiet packets ?_ ?_).1
  · rw [data]
    simpa [MSS] using filled
  · rw [data, List.length_take]
    exact Nat.min_le_left _ _

theorem Whole.call (whole : l.Whole) (inv : l.Inv iss) {data : List Byte} {e : Effect}
    (settled : l.Settled (.call data)) (idle : l.conn.point = .idle)
    (sends : Sends l.conn.tcp (fun total rest => total = data.length ∧ rest = data)
      l.conn.point e) :
    Whole { l.after e l.una with offered := l.offered ++ data, asked := data.length } := by
  obtain ⟨lengths, empty, bound⟩ := settled
  obtain ⟨rest, remaining⟩ := whole.remaining
  have sent : l.offered = l.stream := by
    have left := remaining.offered
    have nothing : rest = [] := List.eq_nil_of_length_eq_zero (by
      rw [left, List.length_append] at lengths
      omega)
    rw [left, nothing, List.append_nil]
  have left : l.offered ++ data = l.stream ++ data := by rw [sent]
  cases sends with
  | still kept nxt quiet silent place =>
    rw [idle] at place
    refine whole_of_same (after_quiet _ nxt quiet).1 left
      (fun _ _ _ _ _ _ sending => ?_) (by simp [silent])
    exact absurd sending (not_sending (place.elim .inl id))
  | failed fail kept nxt quiet gave place =>
    exact whole_of_same (after_quiet _ nxt quiet).1 left
      (fun _ _ _ _ _ _ sending => absurd sending (not_sending (.inl place))) (by simp [gave])
  | finished total loop kept nxt quiet gave place =>
    obtain ⟨total, rfl⟩ := loop
    refine whole_of_same (after_quiet _ nxt quiet).1 left
      (fun _ _ _ _ _ _ sending => absurd sending (not_sending (.inl place))) fun n ok => ?_
    rw [gave] at ok
    cases ok
    exact ⟨by rw [List.append_nil, sent]; exact (inv.complete inv.acked (empty rfl).ge).1, total⟩
  | fresh total rest loop filled acks p quiet packets chunk seq kept nxt silent place =>
    obtain ⟨rfl, rfl⟩ := loop
    refine whole_of_fresh (stream_fresh rfl filled quiet packets chunk nxt) left ?_ silent place
    have most := Nat.le_trans inv.acked inv.got.length_le
    rw [List.length_take, Nat.min_comm]
    omega
  | again total chunk rest seq stop tries was => simp [idle] at was

theorem Whole.other (whole : l.Whole) (inv : l.Inv iss) {t : Tcp} {e : Effect} {una : Nat}
    (nxt : t.sndNxt = l.conn.tcp.sndNxt) (moved : t.sndUna = serial (iss + 1) una)
    (ahead : l.una ≤ una) (acked : una ≤ l.got.length)
    (sends : Sends t (Due t l.conn.point) l.conn.point e) : (l.after e una).Whole := by
  obtain ⟨rest, remaining⟩ := whole.remaining
  have left := remaining.offered
  cases sends with
  | still kept eq quiet silent place =>
    refine whole_of_same (after_quiet _ (eq.trans nxt) quiet).1 left
      (fun total chunk rest' seq stop tries sending => ?_) (by simp [silent])
    rcases place with point | place
    · obtain ⟨rest, asked, bound⟩ := remaining.loop _ _ _ _ _ _ (point.symm.trans sending)
      exact ⟨rest, asked, by omega⟩
    · exact absurd sending (not_sending place)
  | failed fail kept eq quiet gave place =>
    exact whole_of_same (after_quiet _ (eq.trans nxt) quiet).1 left
      (fun _ _ _ _ _ _ sending => absurd sending (not_sending (.inl place))) (by simp [gave])
  | finished total loop kept eq quiet gave place =>
    obtain ⟨all, asked, got, -⟩ := whole.due inv moved ahead acked loop
    refine whole_of_same (after_quiet _ (eq.trans nxt) quiet).1 all
      (fun _ _ _ _ _ _ sending => absurd sending (not_sending (.inl place))) fun n ok => ?_
    rw [gave] at ok
    cases ok
    exact ⟨by rw [got, all, List.append_nil], asked⟩
  | fresh total rest loop filled acks p quiet packets chunk seq kept eq silent place =>
    obtain ⟨all, rfl, -, rfl⟩ := whole.due inv moved ahead acked loop
    refine whole_of_fresh (stream_fresh nxt filled quiet packets chunk eq) all ?_ silent place
    rw [List.length_take]
    simp only [MSS]
    omega
  | again total chunk rest' seq stop tries was acks p quiet packets data number kept eq silent
      place =>
    have filled := (inv.chunk _ _ _ _ _ _ was).filled
    obtain ⟨rfl, asked, bound⟩ := remaining.loop _ _ _ _ _ _ was
    refine whole_of_same (after_again _ (eq.trans nxt) quiet packets (data ▸ filled)).1 left
      (fun total' chunk' rest' seq' stop' tries' sending => ?_) (by simp [silent])
    rw [place] at sending
    cases sending
    exact ⟨rfl, asked, by omega⟩

theorem Whole.step (whole : l.Whole) (inv : l.Inv iss) (lawful : l.Lawful iss action)
    (settled : l.Settled action) (ran : l.step action = some l') : l'.Whole := by
  cases moves_of_step inv lawful ran with
  | call data e idle sends => exact whole.call inv settled idle sends
  | other _ e t una nxt opened moved ahead acked sends =>
    exact whole.other inv nxt moved ahead acked sends
  | accept | acknowledge =>
    obtain ⟨rest, remaining⟩ := whole.remaining
    exact ⟨⟨rest, remaining.offered, remaining.loop⟩, by simp⟩

/-- Over any network, `snd_una` never moves back and never passes `snd_nxt`.  In runs
whose calls are settled, when `send` returns `Ok` the peer has received all that was
ever passed to `send`, once and in order. -/
theorem sent_in_order {irs : BitVec 32} {t : Tcp} (opened : t.Opened iss irs) :
    (∀ actions l, Run (Guarded (Lawful iss) fun l action l' => l.step action = some l') (start t)
        actions l →
      l.conn.tcp.sndUna = serial (iss + 1) l.una ∧
      l.conn.tcp.sndNxt = serial (iss + 1) l.stream.length ∧ l.una ≤ l.stream.length ∧
      ∀ action l', l.Lawful iss action → l.step action = some l' →
        l.una ≤ l'.una ∧ l'.una ≤ l'.stream.length) ∧
    (∀ actions l, Run (Guarded (fun l action => l.Lawful iss action ∧ l.Settled action)
        fun l action l' => l.step action = some l') (start t) actions l →
      ∀ n, l.result = some (.ok n) → l.got = l.offered ∧ n = l.asked) := by
  constructor
  · intro actions l run
    have inv : l.Inv iss := run.invariant (Inv iss) (inv_start opened)
      fun _ _ _ inv ran => (inv.step ran.1 ran.2).1
    refine ⟨inv.una, inv.nxt, Nat.le_trans inv.acked inv.got.length_le, ?_⟩
    intro action l' lawful stepped
    obtain ⟨later, ahead⟩ := inv.step lawful stepped
    exact ⟨ahead, Nat.le_trans later.acked later.got.length_le⟩
  · intro actions l run
    have both : l.Inv iss ∧ l.Whole := by
      refine run.invariant (fun l => l.Inv iss ∧ l.Whole) ⟨inv_start opened, ?_⟩ ?_
      · exact ⟨⟨[], rfl, by simp [start]⟩, by simp [start]⟩
      · rintro l action l' ⟨inv, whole⟩ ⟨⟨lawful, settled⟩, stepped⟩
        exact ⟨(inv.step lawful stepped).1, whole.step inv lawful settled stepped⟩
    exact both.2.result

/-! ## Two calls -/

def silent : Tcp := { Tcp.new with state := .established, sndUna := 1, sndNxt := 1, rcvNxt := 1 }

theorem silent_opened : silent.Opened 0 0 := ⟨rfl, rfl, rfl, rfl, rfl, rfl, rfl⟩

def acked (position : Nat) : Action :=
  .arrive ⟨0, 0, 0, ACK, 1, serial 1 position, []⟩ position

def retried : List Action :=
  [.call [1, 2], .expire, .accept 1 1, .accept 1 8, .accept 0 8, .acknowledge, acked 0, acked 2,
    .call [3], .accept 2 8, .acknowledge, acked 2, acked 3]

theorem retried_in_order :
    ∃ l, Run (Guarded (fun l action => l.Lawful 0 action ∧ l.Settled action)
        fun l action l' => l.step action = some l') (start silent) retried l ∧
      l.result = some (.ok 1) ∧ l.got = [1, 2, 3] ∧ l.got = l.offered := by
  refine exists_guarded_of_replay (fun l => l.result = some (.ok 1) ∧ l.got = [1, 2, 3])
    (by decide +kernel) ?_
  rintro l run ⟨gave, got⟩
  exact ⟨gave, got, ((sent_in_order silent_opened).2 _ l run 1 gave).1⟩

/-- A call with one byte more than a segment holds. The peer gets the first segment,
but no acknowledgement comes in time; the last byte is never sent. -/
def gap : List Action :=
  [.call (List.replicate 1361 7), .accept 0 1360, .expire, .expire, .expire, .expire, .expire,
    .call [9], .accept 5 1, .acknowledge, acked 1361]

def nothing : List Action :=
  [.call [7], .expire, .expire, .expire, .expire, .expire, .call []]

/-- After a call that timed out, `send` returns `Ok` for bytes that come right behind a
gap in the stream, and for no bytes with nothing received at all. -/
theorem ok_with_gap :
    (∃ l, Run (Guarded (Lawful 0) fun l action l' => l.step action = some l') (start silent) gap l ∧
      l.result = some (.ok 1) ∧ l.offered.length = 1362 ∧ l.got.length = 1361 ∧
      l.got.getLast? = some 9) ∧
    (∃ l, Run (Guarded (Lawful 0) fun l action l' => l.step action = some l') (start silent)
        nothing l ∧
      l.result = some (.ok 0) ∧ l.offered = [7] ∧ l.got = []) := by
  constructor
  · exact exists_guarded_of_replay _ (by decide +kernel) fun _ _ facts => facts
  · exact exists_guarded_of_replay _ (by decide +kernel) fun _ _ facts => facts

end Link

end K1K.Net
