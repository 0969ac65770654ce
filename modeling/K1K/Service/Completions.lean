import K1K.Service.Block

/-!
# Submission and completion of NVMe commands

One queue pair of `user/svc/blk/src/nvme.rs`, with `submit` on the one side and a controller on
the other. The controller takes entries up to the doorbell, completes each once, whenever it
likes and in any order, and writes no completion over one that the driver has not given up.

Every entry carries the number of its call. The number is in no memory; it says which command a
completion is for, as command ids come round again.
-/

namespace K1K.Service.Nvme

open K1K.Lib
open Function (update update_of_ne update_self)

def QUEUE_DEPTH : Nat := 64

inductive Outcome where
  | ok (result : BitVec 32)
  | status (code : BitVec 16)
  | timeout
  deriving DecidableEq, Repr

structure Sqe where
  command : Blk.Command
  serial : Nat

structure Cqe where
  dw0 : BitVec 32
  dw3 : BitVec 32
  serial : Nat
  deriving DecidableEq, Repr

namespace Cqe

variable (e : Cqe)

def phase : BitVec 16 := ((e.dw3 >>> 16) &&& 1).setWidth 16

def status : BitVec 16 := (e.dw3 >>> 17).setWidth 16

def cid : BitVec 16 := (e.dw3 &&& 0xFFFF).setWidth 16

end Cqe

structure Queue where
  sq : Nat → Sqe
  cq : Nat → Cqe
  depth : Nat
  sqTail : Nat
  cqHead : Nat
  phase : BitVec 16
  nextCid : BitVec 16

/-- The controller's side of the pair: the two doorbells, how far it has read and
written, and the entries that it has not completed yet. -/
structure Controller where
  sqDoorbell : Nat
  cqDoorbell : Nat
  sqHead : Nat
  cqTail : Nat
  phase : BitVec 16
  fetched : List Sqe

structure Call where
  cid : BitVec 16
  serial : Nat
  idleSpins : Nat
  deriving DecidableEq, Repr

structure Return where
  call : Call
  outcome : Outcome
  consumed : Option Cqe
  deriving DecidableEq, Repr

structure System where
  irqEp : Bool
  q : Queue
  ctl : Controller
  call : Option Call
  submitted : Nat
  returned : List Return

inductive Action where
  | submit (cmd : Blk.Command)
  /-- A turn of the loop, and whether `recv` answers if it is reached. -/
  | poll (answered : Bool)
  | fetch
  | complete (index : Nat) (result : BitVec 32) (status : BitVec 15)

def advance (depth position : Nat) (phase : BitVec 16) : Nat × BitVec 16 :=
  if position + 1 = depth then (0, phase ^^^ 1) else (position + 1, phase)

def tagged (cmd : Blk.Command) (cid : BitVec 16) : Blk.Command where
  words := update cmd.words 0 ((cmd.words 0 &&& 0xFF) ||| cid.setWidth 32 <<< 16)

def commandId (cmd : Blk.Command) : BitVec 16 := (cmd.words 0 >>> 16).setWidth 16

def completion (entry : Sqe) (phase : BitVec 16) (result : BitVec 32) (status : BitVec 15) :
    Cqe where
  dw0 := result
  dw3 := status.setWidth 32 <<< 17 ||| phase.setWidth 32 <<< 16 |||
    (commandId entry.command).setWidth 32
  serial := entry.serial

namespace System

variable (s : System)

def finish (call : Call) (outcome : Outcome) (consumed : Option Cqe) : System :=
  { s with call := none, returned := ⟨call, outcome, consumed⟩ :: s.returned }

def submit (cmd : Blk.Command) : Option System :=
  match s.call with
  | some _ => none
  | none =>
    let cid := s.q.nextCid
    let sqTail := (s.q.sqTail + 1) % s.q.depth
    some { s with
      q := { s.q with
        nextCid := cid + 1
        sq := update s.q.sq s.q.sqTail ⟨tagged cmd cid, s.submitted⟩
        sqTail := sqTail }
      ctl := { s.ctl with sqDoorbell := sqTail }
      call := some ⟨cid, s.submitted, 0⟩
      submitted := s.submitted + 1 }

def consume : System :=
  let next := advance s.q.depth s.q.cqHead s.q.phase
  { s with
    q := { s.q with cqHead := next.1, phase := next.2 }
    ctl := { s.ctl with cqDoorbell := next.1 } }

def poll (answered : Bool) : Option System :=
  match s.call with
  | none => none
  | some call =>
    let cqe := s.q.cq s.q.cqHead
    if cqe.phase ≠ s.q.phase then
      if s.irqEp then
        if answered then some s else some (s.finish call .timeout none)
      else
        let idleSpins := call.idleSpins + 1
        if idleSpins > 2000000 then some (s.finish call .timeout none)
        else some { s with call := some { call with idleSpins := idleSpins } }
    else
      -- A completion with another id than `call.cid` is logged and taken all the same.
      let outcome := if cqe.status = 0 then .ok cqe.dw0 else .status cqe.status
      some (s.consume.finish call outcome (some cqe))

def fetch : Option System :=
  if s.ctl.sqHead = s.ctl.sqDoorbell then none
  else
    some { s with
      ctl := { s.ctl with
        fetched := s.ctl.fetched ++ [s.q.sq s.ctl.sqHead]
        sqHead := (s.ctl.sqHead + 1) % s.q.depth } }

def complete (index : Nat) (result : BitVec 32) (status : BitVec 15) : Option System :=
  match s.ctl.fetched[index]? with
  | none => none
  | some entry =>
    if (s.ctl.cqTail + 1) % s.q.depth = s.ctl.cqDoorbell then none
    else
      let next := advance s.q.depth s.ctl.cqTail s.ctl.phase
      let cqe := completion entry s.ctl.phase result status
      some { s with
        q := { s.q with cq := update s.q.cq s.ctl.cqTail cqe }
        ctl := { s.ctl with
          cqTail := next.1
          phase := next.2
          fetched := s.ctl.fetched.eraseIdx index } }

def step : Action → Option System
  | .submit cmd => s.submit cmd
  | .poll answered => s.poll answered
  | .fetch => s.fetch
  | .complete index result status => s.complete index result status

end System

/-- `Queue::new` over zeroed pages. `init` cuts the admin queue down to what the
controller's `CAP` register allows. -/
def Queue.new (admin : Bool) (cap : BitVec 64) : Queue where
  sq _ := ⟨⟨fun _ => 0⟩, 0⟩
  cq _ := ⟨0, 0, 0⟩
  depth :=
    let mqes := (cap &&& 0xFFFF).toNat + 1
    if admin ∧ mqes < QUEUE_DEPTH then mqes else QUEUE_DEPTH
  sqTail := 0
  cqHead := 0
  phase := 1
  nextCid := 0

def System.start (admin : Bool) (cap : BitVec 64) (irqEp : Bool) : System where
  irqEp := irqEp
  q := Queue.new admin cap
  ctl := ⟨0, 0, 0, 0, 1, []⟩
  call := none
  submitted := 0
  returned := []

/-! ## The fields of an entry -/

theorem commandId_tagged (cmd : Blk.Command) (cid : BitVec 16) :
    commandId (tagged cmd cid) = cid := by
  have word : (tagged cmd cid).words 0 = (cmd.words 0 &&& 0xFF) ||| cid.setWidth 32 <<< 16 := by
    simp [tagged]
  rw [commandId, word]
  ext i small
  have mask : (255#32).getLsbD (16 + i) = false := by interval_cases i <;> decide
  have lt : 16 + i < 32 := by omega
  rw [BitVec.getLsbD_eq_getElem lt] at mask
  simp [BitVec.getLsbD_eq_getElem small, mask, lt]

section Completion

variable (entry : Sqe) (phase : BitVec 16) (result : BitVec 32) (status : BitVec 15)

theorem cid_completion : (completion entry phase result status).cid = commandId entry.command := by
  have mask : (0xFFFF : BitVec 32).setWidth 16 = BitVec.allOnes 16 := by decide
  rw [Cqe.cid, completion, BitVec.setWidth_and, mask, BitVec.and_allOnes]
  ext i small
  simp

theorem phase_completion (bit : phase = 0 ∨ phase = 1) :
    (completion entry phase result status).phase = phase := by
  have higher : ∀ i, 0 < i → phase.getLsbD i = false := by
    intro i positive
    rcases bit with rfl | rfl
    · simp
    · simp [BitVec.getLsbD_one, positive.ne']
  rw [Cqe.phase, completion]
  ext i small
  rcases Nat.eq_zero_or_pos i with rfl | positive
  · simp
  · have clear := higher i positive
    rw [BitVec.getLsbD_eq_getElem small] at clear
    simp [clear, positive.ne']

end Completion

/-! ## One command at a time -/

theorem flip_ne {phase : BitVec 16} (bit : phase = 0 ∨ phase = 1) : phase ≠ phase ^^^ 1 := by
  rcases bit with rfl | rfl <;> decide

theorem advance_bit (depth pos : Nat) {phase : BitVec 16} (bit : phase = 0 ∨ phase = 1) :
    (advance depth pos phase).2 = 0 ∨ (advance depth pos phase).2 = 1 := by
  rw [advance]
  split
  next => rcases bit with rfl | rfl <;> decide
  next => exact bit

/-- The completion ring around the driver's head: what is before the head was
written in this turn of the ring, and what is behind it in the last one. -/
structure Turned (q : Queue) : Prop where
  inside : q.cqHead < q.depth
  bit : q.phase = 0 ∨ q.phase = 1
  before : ∀ i < q.cqHead, (q.cq i).phase = q.phase
  behind : ∀ i, q.cqHead < i → i < q.depth → (q.cq i).phase ≠ q.phase

structure Level (s : System) : Prop where
  tail : s.ctl.cqTail = s.q.cqHead
  phase : s.ctl.phase = s.q.phase
  unread : (s.q.cq s.q.cqHead).phase ≠ s.q.phase

inductive Located (s : System) : Prop where
  | nowhere : s.call = none → s.ctl.fetched = [] → s.ctl.sqHead = s.q.sqTail → Level s → Located s
  | queued (call : Call) : s.call = some call → s.ctl.fetched = [] →
      (s.ctl.sqHead + 1) % s.q.depth = s.q.sqTail →
      commandId (s.q.sq s.ctl.sqHead).command = call.cid →
      (s.q.sq s.ctl.sqHead).serial = call.serial → Level s → Located s
  | taken (call : Call) (entry : Sqe) : s.call = some call → s.ctl.fetched = [entry] →
      s.ctl.sqHead = s.q.sqTail → commandId entry.command = call.cid →
      entry.serial = call.serial → Level s → Located s
  | posted (call : Call) : s.call = some call → s.ctl.fetched = [] → s.ctl.sqHead = s.q.sqTail →
      (s.ctl.cqTail, s.ctl.phase) = advance s.q.depth s.q.cqHead s.q.phase →
      (s.q.cq s.q.cqHead).phase = s.q.phase → (s.q.cq s.q.cqHead).cid = call.cid →
      (s.q.cq s.q.cqHead).serial = call.serial → Located s

def Return.Own (r : Return) : Prop :=
  r.outcome ≠ .timeout →
    ∃ cqe, r.consumed = some cqe ∧ cqe.cid = r.call.cid ∧ cqe.serial = r.call.serial

structure Orderly (s : System) : Prop where
  ring : Turned s.q
  doorbell : s.ctl.sqDoorbell = s.q.sqTail
  located : Located s

def Abandoned (s : System) : Prop :=
  s.call = none ∧ ∃ r ∈ s.returned, r.outcome = .timeout

def Unabandoned (s : System) : Action → Prop
  | .submit _ => ∀ r ∈ s.returned, r.outcome ≠ .timeout
  | _ => True

structure Sound (s : System) : Prop where
  own : ∀ r ∈ s.returned, r.Own
  state : Orderly s ∨ Abandoned s

section Steps

variable {s s' : System}

theorem Orderly.submit {cmd : Blk.Command} (orderly : Orderly s)
    (taken : s.submit cmd = some s') : Orderly s' := by
  rw [System.submit] at taken
  split at taken
  next => cases taken
  next idle =>
    cases taken
    obtain ⟨ring, doorbell, located⟩ := orderly
    refine ⟨⟨ring.inside, ring.bit, ring.before, ring.behind⟩, rfl, ?_⟩
    cases located with
    | nowhere _ fetched drained level =>
      refine .queued _ rfl fetched ?_ ?_ ?_ ⟨level.tail, level.phase, level.unread⟩
      · rw [← drained]
      · simp only [drained, update_self, commandId_tagged]
      · simp only [drained, update_self]
    | queued _ busy | taken _ _ busy | posted _ busy => simp [idle] at busy

theorem Located.spin {call : Call} {idleSpins : Nat} (located : Located s)
    (busy : s.call = some call) :
    Located { s with call := some { call with idleSpins := idleSpins } } := by
  cases located with
  | nowhere idle => simp [busy] at idle
  | queued other eq fetched behind cid serial level =>
    cases busy.symm.trans eq
    exact .queued _ rfl fetched behind cid serial ⟨level.tail, level.phase, level.unread⟩
  | taken other entry eq fetched drained cid serial level =>
    cases busy.symm.trans eq
    exact .taken _ entry rfl fetched drained cid serial ⟨level.tail, level.phase, level.unread⟩
  | posted other eq fetched drained tail phase cid serial =>
    cases busy.symm.trans eq
    exact .posted _ rfl fetched drained tail phase cid serial

theorem Turned.consume (ring : Turned s.q) (read : (s.q.cq s.q.cqHead).phase = s.q.phase) :
    Turned s.consume.q ∧ (s.consume.q.cq s.consume.q.cqHead).phase ≠ s.consume.q.phase := by
  have written : ∀ i ≤ s.q.cqHead, (s.q.cq i).phase = s.q.phase := by
    intro i bound
    rcases Nat.lt_or_eq_of_le bound with earlier | rfl
    · exact ring.before i earlier
    · exact read
  by_cases wraps : s.q.cqHead + 1 = s.q.depth
  · have next : advance s.q.depth s.q.cqHead s.q.phase = (0, s.q.phase ^^^ 1) := if_pos wraps
    have old : ∀ i < s.q.depth, (s.q.cq i).phase ≠ s.q.phase ^^^ 1 := by
      intro i small
      rw [written i (by omega)]
      exact flip_ne ring.bit
    have pos : 0 < s.q.depth := Nat.zero_lt_of_lt ring.inside
    simp only [System.consume, next]
    refine ⟨⟨pos, ?_, ?_, fun i _ small => old i small⟩, old 0 pos⟩
    · simpa only [next] using advance_bit s.q.depth s.q.cqHead ring.bit
    · intro i negative
      exact absurd negative (Nat.not_lt_zero i)
  · have next : advance s.q.depth s.q.cqHead s.q.phase = (s.q.cqHead + 1, s.q.phase) :=
      if_neg wraps
    have lt : s.q.cqHead + 1 < s.q.depth := Nat.lt_of_le_of_ne ring.inside wraps
    simp only [System.consume, next]
    refine ⟨⟨lt, ring.bit, fun i small => written i (Nat.le_of_lt_succ small), ?_⟩, ?_⟩
    · intro i later small
      exact ring.behind i (Nat.lt_of_succ_lt later) small
    · exact ring.behind _ (Nat.lt_succ_self _) lt

theorem Sound.poll {answered : Bool} (sound : Sound s) (taken : s.poll answered = some s') :
    Sound s' := by
  rw [System.poll] at taken
  split at taken
  next => cases taken
  next call busy =>
    rcases sound with ⟨own, orderly | abandoned⟩
    · have gaveUp : Sound (s.finish call .timeout none) := by
        refine ⟨?_, .inr ⟨rfl, _, List.mem_cons_self, rfl⟩⟩
        intro r mem
        rcases List.mem_cons.mp mem with rfl | earlier
        · exact fun other => absurd rfl other
        · exact own r earlier
      simp only at taken
      split at taken
      next unread =>
        split at taken
        next =>
          split at taken
          next =>
            cases taken
            exact ⟨own, .inl orderly⟩
          cases taken
          exact gaveUp
        split at taken
        next =>
          cases taken
          exact gaveUp
        cases taken
        obtain ⟨ring, doorbell, located⟩ := orderly
        exact ⟨own, .inl ⟨ring, doorbell, located.spin busy⟩⟩
      next read =>
        cases taken
        replace read := not_not.mp read
        obtain ⟨ring, doorbell, located⟩ := orderly
        cases located with
        | nowhere idle => simp [busy] at idle
        | queued _ _ _ _ _ _ level | taken _ _ _ _ _ _ _ level => exact absurd read level.unread
        | posted other eq fetched drained tail phase cid serial =>
          cases busy.symm.trans eq
          obtain ⟨turned, unread⟩ := ring.consume read
          refine ⟨?_, .inl ⟨turned, doorbell, .nowhere rfl fetched drained ⟨?_, ?_, unread⟩⟩⟩
          · intro r mem
            rcases List.mem_cons.mp mem with rfl | earlier
            · exact fun _ => ⟨_, rfl, cid, serial⟩
            · exact own r earlier
          · exact congrArg Prod.fst tail
          · exact congrArg Prod.snd tail
    · exact absurd abandoned.1 (by simp [busy])

theorem Orderly.fetch (orderly : Orderly s) (taken : s.fetch = some s') : Orderly s' := by
  rw [System.fetch] at taken
  split at taken
  next => cases taken
  next waiting =>
    cases taken
    obtain ⟨ring, doorbell, located⟩ := orderly
    rw [doorbell] at waiting
    refine ⟨ring, doorbell, ?_⟩
    cases located with
    | nowhere _ _ drained | taken _ _ _ _ drained | posted _ _ _ drained =>
      exact absurd drained waiting
    | queued call busy fetched behind cid serial level =>
      exact .taken call _ busy (by simp [fetched]) behind cid serial
        ⟨level.tail, level.phase, level.unread⟩

theorem Orderly.complete {index : Nat} {result : BitVec 32} {status : BitVec 15}
    (orderly : Orderly s) (taken : s.complete index result status = some s') : Orderly s' := by
  rw [System.complete] at taken
  split at taken
  next => cases taken
  next entry mem =>
    split at taken
    next => cases taken
    cases taken
    obtain ⟨ring, doorbell, located⟩ := orderly
    cases located with
    | nowhere _ fetched | queued _ _ fetched | posted _ _ fetched => simp [fetched] at mem
    | taken call only busy fetched drained cid serial level =>
      rw [fetched] at mem
      obtain ⟨first, eq⟩ := List.getElem?_eq_some_iff.mp mem
      obtain rfl : index = 0 := by simpa using first
      obtain rfl : only = entry := eq
      have ne : ∀ i, i ≠ s.q.cqHead →
          update s.q.cq s.ctl.cqTail
            (completion only s.ctl.phase result status) i = s.q.cq i := by
        intro i other
        rw [level.tail]
        exact update_of_ne other ..
      refine ⟨⟨ring.inside, ring.bit, ?_, ?_⟩, doorbell,
        .posted call busy (by simp [fetched]) drained ?_ ?_ ?_ ?_⟩
      · intro i small
        simp only [ne i (Nat.ne_of_lt small)]
        exact ring.before i small
      · intro i later small
        simp only [ne i (Nat.ne_of_gt later)]
        exact ring.behind i later small
      · simp only [level.tail, level.phase]
      · simp only [level.tail, level.phase, update_self]
        exact phase_completion _ _ _ _ ring.bit
      · simp only [level.tail, update_self]
        exact (cid_completion ..).trans cid
      · simp only [level.tail, update_self]
        exact serial

end Steps

/-! ## Whole runs -/

theorem Queue.depth_pos (admin : Bool) (cap : BitVec 64) : 0 < (Queue.new admin cap).depth := by
  simp only [Queue.new]
  split
  next => exact Nat.succ_pos _
  next => exact Nat.succ_pos _

theorem sound_start (admin : Bool) (cap : BitVec 64) (irqEp : Bool) :
    Sound (System.start admin cap irqEp) := by
  have unwritten : ∀ i, ((Queue.new admin cap).cq i).phase ≠ (Queue.new admin cap).phase := by
    intro i
    simp only [Queue.new]
    decide
  refine ⟨fun r mem => absurd mem List.not_mem_nil, .inl ⟨?_, rfl, ?_⟩⟩
  · refine ⟨Queue.depth_pos admin cap, .inr rfl, ?_, fun i _ _ => unwritten i⟩
    intro i negative
    exact absurd negative (Nat.not_lt_zero i)
  · exact .nowhere rfl rfl rfl ⟨rfl, rfl, unwritten 0⟩

theorem Sound.step {s s' : System} {action : Action} (sound : Sound s)
    (allowed : Unabandoned s action) (ran : s.step action = some s') : Sound s' := by
  cases action with
  | poll answered => exact sound.poll ran
  | submit cmd =>
    rcases sound with ⟨own, orderly | ⟨_, r, mem, gaveUp⟩⟩
    · have kept : s'.returned = s.returned := by
        rw [System.step, System.submit] at ran
        split at ran
        next => cases ran
        cases ran
        rfl
      exact ⟨kept ▸ own, .inl (orderly.submit ran)⟩
    · exact absurd gaveUp (allowed r mem)
  | fetch =>
    have kept : s'.returned = s.returned ∧ s'.call = s.call := by
      rw [System.step, System.fetch] at ran
      split at ran
      next => cases ran
      cases ran
      exact ⟨rfl, rfl⟩
    rcases sound with ⟨own, orderly | abandoned⟩
    · exact ⟨kept.1 ▸ own, .inl (orderly.fetch ran)⟩
    · exact ⟨kept.1 ▸ own, .inr ⟨kept.2.trans abandoned.1, kept.1 ▸ abandoned.2⟩⟩
  | complete index result status =>
    have kept : s'.returned = s.returned ∧ s'.call = s.call := by
      rw [System.step, System.complete] at ran
      split at ran
      next => cases ran
      split at ran
      next => cases ran
      cases ran
      exact ⟨rfl, rfl⟩
    rcases sound with ⟨own, orderly | abandoned⟩
    · exact ⟨kept.1 ▸ own, .inl (orderly.complete ran)⟩
    · exact ⟨kept.1 ▸ own, .inr ⟨kept.2.trans abandoned.1, kept.1 ▸ abandoned.2⟩⟩

/-- Whatever the controller delays or reorders, a call that returns with a result or a status has
taken the completion of its own command, as long as commands are submitted only while no call has
given up. -/
theorem submit_takes_its_own_completion {admin : Bool} {cap : BitVec 64} {irqEp : Bool}
    {actions : List Action} {s : System}
    (run : Run (Guarded Unabandoned fun s a t => s.step a = some t)
      (System.start admin cap irqEp) actions s) :
    ∀ r ∈ s.returned, r.Own := by
  have sound : Sound s := run.invariant Sound (sound_start admin cap irqEp)
    fun _ _ _ was ran => was.step ran.1 ran.2
  exact sound.own

instance unabandoned_decidable (s : System) (a : Action) : Decidable (Unabandoned s a) := by
  apply @Action.casesOn (fun a => Decidable (Unabandoned s a)) a
  case submit => exact fun _ => inferInstanceAs (Decidable (∀ r ∈ s.returned, r.outcome ≠ .timeout))
  all_goals intros; exact isTrue trivial

/-- Three commands one after the other on an admin queue of two entries, the last of
them with an error. -/
theorem two_entries_come_round :
    ∃ actions s,
      Run (Guarded Unabandoned fun s a t => s.step a = some t)
        (System.start true 1 true) actions s ∧
      s.returned.map Return.outcome = [.status 2, .ok 8, .ok 7] ∧ ∀ r ∈ s.returned, r.Own := by
  let identify : Blk.Command := ⟨fun i => if i = 0 then 6 else 0⟩
  refine ⟨[.submit identify, .fetch, .poll true, .complete 0 7 0, .poll true,
      .submit identify, .fetch, .complete 0 8 0, .poll true,
      .submit identify, .poll true, .fetch, .complete 0 0 2, .poll true],
    exists_guarded_of_replay (fun s => s.returned.map Return.outcome = [.status 2, .ok 8, .ok 7])
      (by decide +kernel) fun s run gave => ?_⟩
  exact ⟨gave, submit_takes_its_own_completion run⟩

theorem replay_idle_polls {s : System} {call : Call} (busy : s.call = some call)
    (polled : s.irqEp = false) (unread : (s.q.cq s.q.cqHead).phase ≠ s.q.phase) (turns : Nat)
    (few : call.idleSpins + turns ≤ 2000000) :
    (List.replicate turns (Action.poll true)).foldlM System.step s =
      some { s with call := some { call with idleSpins := call.idleSpins + turns } } := by
  induction turns generalizing s call with
  | zero =>
    obtain ⟨irqEp, q, ctl, current, submitted, gave⟩ := s
    cases busy
    rfl
  | succ turns ih =>
    have once : s.step (.poll true) =
        some { s with call := some { call with idleSpins := call.idleSpins + 1 } } := by
      have more : ¬ call.idleSpins + 1 > 2000000 := by omega
      simp [System.step, System.poll, busy, polled, unread, more]
    have rest := ih
      (s := { s with call := some { call with idleSpins := call.idleSpins + 1 } }) rfl polled unread
      (Nat.add_right_comm _ 1 turns ▸ few)
    rw [List.replicate_succ, List.foldlM_cons, once, Option.bind_eq_bind, Option.bind_some, rest]
    simp only [Nat.add_assoc, Nat.add_comm 1 turns]

/-- A read gives up after its two million turns. The controller completes it late, and the next
read returns with that completion, before its own command is fetched. -/
theorem late_completion_answers_the_next_read :
    ∃ actions s,
      Run (fun (s : System) a t => s.step a = some t) (System.start false 0 false) actions s ∧
      ∃ r ∈ s.returned, r.outcome = .ok 0 ∧
        ∃ cqe, r.consumed = some cqe ∧ cqe.cid ≠ r.call.cid ∧ cqe.serial ≠ r.call.serial := by
  let read (lba : BitVec 64) : Blk.Command := Blk.readCommand lba 0x200000 8 4096
  let waiting : System := ((System.start false 0 false).submit (read 0)).getD
    (System.start false 0 false)
  let spent : System := { waiting with call := some ⟨0, 0, 2000000⟩ }
  have idle : (Action.submit (read 0) :: List.replicate 2000000 (.poll true)).foldlM System.step
      (System.start false 0 false) = some spent := by
    have first : (System.start false 0 false).step (.submit (read 0)) = some waiting := rfl
    have busy : waiting.call = some ⟨0, 0, 0⟩ := rfl
    have unread : (waiting.q.cq waiting.q.cqHead).phase ≠ waiting.q.phase := by decide
    rw [List.foldlM_cons, first, Option.bind_eq_bind, Option.bind_some,
      replay_idle_polls busy rfl unread 2000000 (by decide)]
  have eval :
      ([.poll true, .fetch, .complete 0 0 0, .submit (read 8), .poll true].foldlM System.step
        spent).any
      (fun s : System => decide (∃ r ∈ s.returned, r.outcome = .ok 0 ∧
        r.consumed.any (fun cqe => cqe.cid ≠ r.call.cid ∧ cqe.serial ≠ r.call.serial))) := by
    decide +kernel
  obtain ⟨s, replayed, r, mem, gave, ran⟩ := exists_of_any eval
  obtain ⟨cqe, consumed, others⟩ := (Option.any_eq_true _ _).mp ran
  refine ⟨_, s, run_of_replay (replay_append idle replayed), r, mem, gave, cqe, consumed, ?_⟩
  simpa using others

end K1K.Service.Nvme
