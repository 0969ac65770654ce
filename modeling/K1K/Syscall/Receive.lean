import K1K.Obj.Slots
import K1K.Syscall.Copies
import K1K.Syscall.Machine

/-!
# Receiving a message

`sys_recv` of `kernel/src/syscall/mod.rs` with `try_recv` and `recv` of `kernel/src/ipc/mod.rs`.
The message is taken first, then its capability goes into the table, and only then are the words
copied, so that a copy that fails comes too late. A call that waits is given what the caller
finds each time it runs again.
-/

namespace K1K.Syscall

open K1K.Lib K1K.Mm K1K.Obj

abbrev Endpoints (Call : Type) : Type :=
  Ipc.State Nat (BitVec 32) Call (Ipc.Message (BitVec 32))

structure Receiver (Call : Type) where
  endpoints : Endpoints Call
  machine : Machine

structure Wakeup (Call : Type) where
  endpoints : Endpoints Call
  mem : Memory

section Receive

variable {Call : Type} (me : BitVec 32)

/-- `recv`: `none` if the task is still asleep after the given turns. -/
def recvLoop (e : Nat) : List (Wakeup Call) → Receiver Call →
    Option (Ipc.Message (BitVec 32) × Receiver Call)
  | turns, r =>
    match r.endpoints.look me e with
    | (some msg, endpoints) => some (msg, { r with endpoints := endpoints })
    | (none, _) =>
      match turns with
      | [] => none
      | turn :: later =>
        let woken : Receiver Call :=
          ⟨(turn.endpoints.resume me e).2, { r.machine with mem := turn.mem }⟩
        match (turn.endpoints.resume me e).1 with
        | some msg => some (msg, woken)
        | none => recvLoop e later woken

def takeMessage (e nonblock : Nat) (turns : List (Wakeup Call)) (r : Receiver Call) :
    Option (Option (Ipc.Message (BitVec 32)) × Receiver Call) :=
  if nonblock ≠ 0 then
    let taken := r.endpoints.tryRecv e
    some (taken.1, { r with endpoints := taken.2 })
  else (recvLoop me e turns r).map fun taken => (some taken.1, taken.2)

def handOver (m : Machine) (buf : Nat) (msg : Ipc.Message (BitVec 32)) :
    Except Errno (BitVec 64) × Machine :=
  let taken := m.takeCap msg.cap
  Machine.copyResult { m with caps := taken.2 } buf
    (wordsToBytes ((List.ofFn msg.words).set 3 taken.1)) (msg.sender.setWidth 64)

def sysRecv (slot buf nonblock : Nat) (turns : List (Wakeup Call)) (r : Receiver Call) :
    Option (Except Errno (BitVec 64) × Receiver Call) :=
  match (r.machine.caps.lookup (Machine.slotOf slot) .RECV).bind Capability.endpoint with
  | none => some (.error .EPERM, r)
  | some e =>
    if !userRangeOk buf 32 then some (.error .EFAULT, r)
    else
      match takeMessage me e nonblock turns r with
      | none => none
      | some (none, r) => some (.error .EAGAIN, r)
      | some (some msg, r) =>
        let given := handOver r.machine buf msg
        some (given.1, { r with machine := given.2 })

/-- What a receiver finds: the first message of the queue when it looks, or what is in its inbox
when it runs again. -/
def offered (e : Nat) : List (Wakeup Call) → List (Ipc.Message (BitVec 32)) →
    Option (Ipc.Message (BitVec 32))
  | [], queue => queue.head?
  | turn :: later, queue =>
    queue.head?.or ((turn.endpoints.inbox me).or (offered e later (turn.endpoints.queue e)))

/-- There is a message for a call whose slot and range of addresses are accepted. -/
def Finds (slot buf nonblock : Nat) (turns : List (Wakeup Call)) (r : Receiver Call)
    (msg : Ipc.Message (BitVec 32)) : Prop :=
  ∃ e, (r.machine.caps.lookup (Machine.slotOf slot) .RECV).bind Capability.endpoint = some e ∧
    userRangeOk buf 32 = true ∧
    offered me e (if nonblock ≠ 0 then [] else turns) (r.endpoints.queue e) = some msg

/-- The caller can be given the message: its buffer is mapped, and its table has
room for a capability. -/
structure Accepts (m : Machine) (buf : Nat) (msg : Ipc.Message (BitVec 32)) : Prop where
  mapped : ∀ i < 32, (leafAt m.space (buf + i)).isSome
  room : msg.cap.isSome → m.caps.freeSlots ≠ 0

def Reports (m : Machine) (buf slot : Nat) : Prop :=
  ∀ k < 8, taskReads m.space m.mem (buf + 24 + k) =
    some ((BitVec.ofNat 64 slot).extractLsb' (8 * k) 8)

variable {me} {slot buf nonblock : Nat} {turns : List (Wakeup Call)} {r r' : Receiver Call}
  {msg : Ipc.Message (BitVec 32)} {result : Except Errno (BitVec 64)}

theorem look_eq (me : BitVec 32) (s : Endpoints Call) (e : Nat) :
    (s.look me e).1 = (s.queue e).head? ∧ (s.tryRecv e).1 = (s.queue e).head? := by
  unfold Ipc.State.look Ipc.State.tryRecv
  cases s.queue e <;> exact ⟨rfl, rfl⟩

theorem recvLoop_spec {e : Nat} (ran : recvLoop me e turns r = some (msg, r')) :
    r'.machine.caps = r.machine.caps ∧ r'.machine.space = r.machine.space ∧
      offered me e turns (r.endpoints.queue e) = some msg := by
  have first := (look_eq me r.endpoints e).1
  fun_induction recvLoop me e turns r with
  | case1 turns r _ _ look =>
    cases ran
    rw [look] at first
    cases turns <;> exact ⟨rfl, rfl, by simp [offered, ← first]⟩
  | case2 => cases ran
  | case3 r _ look turn later woken _ inbox =>
    obtain ⟨rfl, rfl⟩ := Prod.mk.inj (Option.some.inj ran)
    rw [look] at first
    exact ⟨rfl, rfl, by simp [offered, ← first, show turn.endpoints.inbox me = _ from inbox]⟩
  | case4 r _ look turn later woken inbox ih =>
    rw [look] at first
    rw [offered, ← first, show turn.endpoints.inbox me = none from inbox]
    exact ih ran (look_eq ..).1

theorem takeMessage_spec {e : Nat} {found : Option (Ipc.Message (BitVec 32))}
    (ran : takeMessage me e nonblock turns r = some (found, r')) :
    r'.machine.caps = r.machine.caps ∧ r'.machine.space = r.machine.space ∧
      offered me e (if nonblock ≠ 0 then [] else turns) (r.endpoints.queue e) = found ∧
      (found = none → r' = r) := by
  unfold takeMessage at ran
  split at ran
  next poll =>
    cases ran
    rw [if_pos poll, offered, (look_eq me r.endpoints e).2]
    refine ⟨rfl, rfl, rfl, fun empty => ?_⟩
    unfold Ipc.State.tryRecv
    rw [List.head?_eq_none_iff.mp empty]
  next wait =>
    obtain ⟨⟨msg, r₁⟩, waited, eq⟩ := Option.map_eq_some_iff.mp ran
    cases eq
    obtain ⟨caps, space, same⟩ := recvLoop_spec waited
    exact ⟨caps, space, by rw [if_neg wait, same], by simp⟩

theorem getElem?_wordsToBytes (words : List (BitVec 64)) (i : Nat) {k : Nat} (inWord : k < 8) :
    (wordsToBytes words)[8 * i + k]? =
      words[i]?.map fun word => word.extractLsb' (8 * k) 8 := by
  induction words generalizing i with
  | nil => rfl
  | cons word rest ih =>
    have size : (toLeBytes 8 word).length = 8 := by simp [toLeBytes]
    change (toLeBytes 8 word ++ wordsToBytes rest)[8 * i + k]? = _
    cases i with
    | zero =>
      rw [List.getElem?_append_left (by omega)]
      simp [toLeBytes, inWord]
    | succ i =>
      rw [List.getElem?_append_right (by omega), size, List.getElem?_cons_succ, ← ih]
      congr 1
      omega

theorem length_message (words : Fin Ipc.MSG_WORDS → BitVec 64) (word : BitVec 64) :
    (wordsToBytes ((List.ofFn words).set 3 word)).length = 32 := by
  rw [length_wordsToBytes, List.length_set, List.length_ofFn]
  rfl

theorem copyResult_mapped {m : Machine} {data : List Byte} (value : BitVec 64)
    (range : userRangeOk buf data.length = true) :
    ((∃ e, (m.copyResult buf data value).1 = .error e) ↔
      ¬∀ i < data.length, (leafAt m.space (buf + i)).isSome) ∧
    ((∀ i < data.length, (leafAt m.space (buf + i)).isSome) → ∀ i byte, data[i]? = some byte →
      taskReads (m.copyResult buf data value).2.space (m.copyResult buf data value).2.mem
        (buf + i) = some byte) := by
  have eq : copyToUser m.space m.mem buf data = copyBytes m.space buf data ⟨m.mem, []⟩ := by
    rw [copyToUser_eq, if_pos range]
  rw [← copyBytes_ok_iff buf data ⟨m.mem, []⟩]
  refine ⟨?_, fun copied i byte found => ?_⟩
  · simp only [Machine.copyResult, Machine.copyOut, eq]
    rcases (copyBytes m.space buf data ⟨m.mem, []⟩).1 with e | _ <;> simp [Except.map]
  have short := (userRangeOk_iff.mp range).1
  obtain ⟨pa, place, written⟩ := copyBytes_at (Prod.ext copied rfl) (spread_of_short short) found
  simp only [Machine.copyResult, Machine.copyOut, eq, taskReads, place, Option.map_some]
  exact congrArg some written

theorem takeCap_room {m : Machine} {given : Option Capability} {cap : Capability}
    (carried : given = some cap) (wellFormed : m.caps.WellFormed) (room : m.caps.freeSlots ≠ 0) :
    ∃ ran, (m.takeCap given).1 = BitVec.ofNat 64 ran ∧
      (m.takeCap given).2.get ran = some cap := by
  subst carried
  have placed : (m.caps.insert cap).1 ≠ none := fun full =>
    room ((wellFormed.insert_eq_none_iff cap).mp full)
  obtain ⟨ran, inserted⟩ := Option.ne_none_iff_exists'.mp placed
  have split : m.caps.insert cap = (some ran, (m.caps.insert cap).2) := Prod.ext inserted rfl
  have held := (wellFormed.insert_some inserted).2.2.2.1
  refine ⟨ran, ?_, ?_⟩
  · rw [Machine.takeCap, split]
  · rw [Machine.takeCap, split]
    exact held

theorem takeCap_full {m : Machine} (cap : Capability) (wellFormed : m.caps.WellFormed)
    (full : m.caps.freeSlots = 0) : m.takeCap (some cap) = (NO_CAP, m.caps) := by
  have none := (wellFormed.insert_eq_none_iff cap).mpr full
  obtain ⟨i, res, -⟩ | ⟨res, -⟩ | ⟨res, -⟩ := m.caps.insert_cases cap
  · rw [res] at none
    cases none
  · rw [Machine.takeCap, res]
  · rw [res] at none
    cases none

theorem eq_of_bytes {a b : BitVec 64}
    (eq : ∀ k < 8, a.extractLsb' (8 * k) 8 = b.extractLsb' (8 * k) 8) : a = b := by
  refine BitVec.eq_of_getLsbD_eq fun i small => ?_
  have bit := congrArg (·.getLsbD (i % 8)) (eq (i / 8) (by omega))
  simpa [BitVec.getLsbD_extractLsb', Nat.mod_lt, Nat.div_add_mod] using bit

/-- If the buffer is mapped, the capability of the message is in the slot that word 3 reports
exactly if there was a free one. -/
theorem handOver_reports {m : Machine} {cap : Capability} (wellFormed : m.caps.WellFormed)
    (range : userRangeOk buf 32 = true) (mapped : ∀ i < 32, (leafAt m.space (buf + i)).isSome)
    (carried : msg.cap = some cap) :
    (∃ taken, (handOver m buf msg).2.caps.get taken = some cap ∧
      Reports (handOver m buf msg).2 buf taken) ↔ m.caps.freeSlots ≠ 0 := by
  have size := length_message msg.words (m.takeCap msg.cap).1
  have bytes := (copyResult_mapped (m := { m with caps := (m.takeCap msg.cap).2 })
    (msg.sender.setWidth 64) (by rw [size]; exact range)).2 (by rw [size]; exact mapped)
  have reads (k : Nat) (inWord : k < 8) : taskReads (handOver m buf msg).2.space
      (handOver m buf msg).2.mem (buf + 24 + k) =
        some ((m.takeCap msg.cap).1.extractLsb' (8 * k) 8) := by
    rw [Nat.add_assoc]
    refine bytes (24 + k) _ ?_
    have word := getElem?_wordsToBytes ((List.ofFn msg.words).set 3 (m.takeCap msg.cap).1) 3 inWord
    rwa [List.getElem?_set_self (by rw [List.length_ofFn]; decide)] at word
  refine ⟨fun held full => ?_, fun room => ?_⟩
  · obtain ⟨taken, held, reports⟩ := held
    have missed := takeCap_full cap wellFormed full
    rw [carried] at reads
    have word : BitVec.ofNat 64 taken = NO_CAP := eq_of_bytes fun k inWord => by
      have both := (reports k inWord).symm.trans (reads k inWord)
      rw [missed] at both
      exact Option.some.inj both
    have inTable : taken < m.caps.slots.length := by
      have found : (m.takeCap msg.cap).2.get taken = some cap := held
      rw [carried, missed] at found
      exact (List.getElem?_eq_some_iff.mp (CapTable.get_eq_some_iff.mp found)).1
    have bounded : m.caps.slots.length ≤ 256 := wellFormed.bounded
    have large := congrArg BitVec.toNat word
    simp only [BitVec.toNat_ofNat, NO_CAP, BitVec.toNat_allOnes] at large
    omega
  · obtain ⟨taken, reported, inSlot⟩ := takeCap_room carried wellFormed room
    exact ⟨taken, inSlot, fun k inWord => by rw [reads k inWord, reported]⟩

/-- A call that fails has taken no message and leaves everything as it was, and one that succeeds
leaves the capability of its message in the slot that word 3 reports, exactly if the caller can be
given the message that there is. -/
theorem recv_all_or_nothing (wellFormed : r.machine.caps.WellFormed)
    (called : sysRecv me slot buf nonblock turns r = some (result, r')) :
    ((∀ e, result = .error e → r' = r ∧ ∀ msg, ¬Finds me slot buf nonblock turns r msg) ∧
      ∀ value msg cap, result = .ok value → Finds me slot buf nonblock turns r msg →
        msg.cap = some cap →
        ∃ taken, r'.machine.caps.get taken = some cap ∧ Reports r'.machine buf taken) ↔
    ∀ msg, Finds me slot buf nonblock turns r msg → Accepts r.machine buf msg := by
  by_cases finds : ∃ msg, Finds me slot buf nonblock turns r msg
  · obtain ⟨msg, e, held, range, found⟩ := finds
    have only (other) : Finds me slot buf nonblock turns r other ↔ other = msg := by
      refine ⟨?_, fun eq => eq ▸ ⟨e, held, range, found⟩⟩
      rintro ⟨e', held', -, found'⟩
      cases held.symm.trans held'
      exact Option.some.inj (found'.symm.trans found)
    simp only [only, forall_eq]
    simp only [sysRecv, held, range, Bool.not_true, Bool.false_eq_true, if_false] at called
    split at called
    next => cases called
    next taken =>
      cases found.symm.trans (takeMessage_spec taken).2.2.1
    next msg' r₁ taken =>
      obtain ⟨caps, space, same, -⟩ := takeMessage_spec taken
      cases found.symm.trans same
      cases called
      rw [← caps] at wellFormed
      have accepts : Accepts r.machine buf msg ↔
          (∀ i < 32, (leafAt r₁.machine.space (buf + i)).isSome) ∧
            (msg.cap.isSome → r₁.machine.caps.freeSlots ≠ 0) := by
        rw [caps, space]
        exact ⟨fun both => ⟨both.mapped, both.room⟩, fun both => ⟨both.1, both.2⟩⟩
      have size := length_message msg.words (r₁.machine.takeCap msg.cap).1
      have failed := (copyResult_mapped
        (m := { r₁.machine with caps := (r₁.machine.takeCap msg.cap).2 })
        (msg.sender.setWidth 64) (by rw [size]; exact range)).1
      rw [size] at failed
      rw [accepts]
      constructor
      · rintro ⟨error, success⟩
        have mapped : ∀ i < 32, (leafAt r₁.machine.space (buf + i)).isSome := by
          by_contra unmapped
          obtain ⟨e, res⟩ := failed.mpr unmapped
          exact (error e res).2
        refine ⟨mapped, fun some_ => ?_⟩
        obtain ⟨cap, carried⟩ := Option.isSome_iff_exists.mp some_
        cases res : (handOver r₁.machine buf msg).1 with
        | error e => exact absurd mapped (failed.mp ⟨e, res⟩)
        | ok value =>
          exact (handOver_reports wellFormed range mapped carried).mp
            (success value msg cap res rfl carried)
      · rintro ⟨mapped, room⟩
        refine ⟨fun e res => absurd mapped (failed.mp ⟨e, res⟩), ?_⟩
        rintro _ _ cap _ rfl carried
        exact (handOver_reports wellFormed range mapped carried).mpr (room (by simp [carried]))
  · have never (msg) : ¬Finds me slot buf nonblock turns r msg := fun here => finds ⟨msg, here⟩
    refine iff_of_true ⟨fun _ _ => ⟨?_, never⟩, fun _ msg _ _ here => (never msg here).elim⟩
      fun msg here => (never msg here).elim
    unfold sysRecv at called
    split at called
    next => cases called; rfl
    next e held =>
      split at called
      next => cases called; rfl
      next lt =>
        split at called
        next => simp at called
        next nothing => cases called; exact (takeMessage_spec nothing).2.2.2 rfl
        next msg r₁ taken =>
          exact (never msg ⟨e, held, by simpa using lt, (takeMessage_spec taken).2.2.1⟩).elim

end Receive

/-! One page of the caller is mapped, and a message with a capability waits at the
endpoint 0. `spare` is what the message carries. -/

def spare : Capability := ⟨.console, .MAP_WRITE⟩

def onePage : AddressSpace :=
  ⟨(mapTo (.node 0 fun _ => .empty) 1 ⟨5, ⟨true, true, false, false, false⟩⟩
    ⟨⟨[0x21#64], 16, 14, 16, 0⟩, []⟩).2.1, [], USER_MMAP_BASE⟩

def waiting (caps : CapTable) : Receiver Unit where
  endpoints := { Ipc.State.new with queue := fun _ => [⟨3, fun _ => 9, some spare⟩] }
  machine := { Machine.start (fun _ => 0) onePage ⟨⟨[], 0, 0, 0, 0⟩, []⟩ with caps := caps }

def listener : CapTable := ⟨[some ⟨.endpoint 0, .RECV⟩], [false]⟩

theorem listener_wellFormed : listener.WellFormed :=
  CapTable.new_wellFormed.insert ⟨.endpoint 0, .RECV⟩

theorem recv_in_mapped_page : ∃ r', sysRecv 7 0 0x1000 1 [] (waiting listener) = some (.ok 3, r') ∧
    ∃ taken, r'.machine.caps.get taken = some spare ∧ Reports r'.machine 0x1000 taken := by
  have eval : (sysRecv 7 0 0x1000 1 [] (waiting listener)).any
      (fun outcome => decide (outcome.1 = .ok 3)) = true := by decide +kernel
  obtain ⟨⟨_, r'⟩, ran, rfl⟩ := exists_of_any eval
  have mapped : ∀ i < 32, (leafAt onePage (0x1000 + i)).isSome := by decide +kernel
  have accepts : ∀ msg, Finds 7 0 0x1000 1 [] (waiting listener) msg →
      Accepts (waiting listener).machine 0x1000 msg := fun _ _ => ⟨mapped, fun _ => by decide⟩
  exact ⟨r', ran, ((recv_all_or_nothing listener_wellFormed ran).mpr accepts).2 3 _ spare rfl
    ⟨0, by decide, by decide, rfl⟩ rfl⟩

/-- A buffer whose second half is not mapped: the call fails, but the message is
gone, its capability is in the table and half of its words are in memory.  And a
full table: the call succeeds, and the capability is gone. -/
theorem recv_fails_halfway :
    (∃ r', sysRecv 7 0 0x1ff0 1 [] (waiting listener) = some (.error .EFAULT, r') ∧
      ((waiting listener).endpoints.queue 0).length = 1 ∧ (r'.endpoints.queue 0).length = 0 ∧
      (waiting listener).machine.caps.get 1 = none ∧ r'.machine.caps.get 1 = some spare ∧
      (waiting listener).machine.mem 0x5ff0 = 0 ∧ r'.machine.mem 0x5ff0 = 9) ∧
    let full : CapTable := ⟨List.replicate 256 (some ⟨.endpoint 0, .RECV⟩),
      List.replicate 256 false⟩
    ∃ r', sysRecv 7 0 0x1000 1 [] (waiting full) = some (.ok 3, r') ∧ r'.machine.caps = full := by
  have halfway : (sysRecv 7 0 0x1ff0 1 [] (waiting listener)).any (fun outcome =>
      decide (outcome.1 = .error .EFAULT ∧ (outcome.2.endpoints.queue 0).length = 0 ∧
        outcome.2.machine.caps.get 1 = some spare ∧ outcome.2.machine.mem 0x5ff0 = 9)) = true := by
    decide +kernel
  obtain ⟨⟨_, r'⟩, ran, rfl, emptied, held, written⟩ := exists_of_any halfway
  refine ⟨⟨r', ran, rfl, emptied, rfl, held, rfl, written⟩, ?_⟩
  intro full
  have lost : (sysRecv 7 0 0x1000 1 [] (waiting full)).any (fun outcome =>
      decide (outcome.1 = .ok 3 ∧ outcome.2.machine.caps = full)) = true := by decide +kernel
  obtain ⟨⟨_, r''⟩, called', rfl, eq⟩ := exists_of_any lost
  exact ⟨r'', called', eq⟩

end K1K.Syscall
