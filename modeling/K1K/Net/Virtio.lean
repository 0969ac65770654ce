import K1K.Lib.Run

/-!
# Who owns the transmit buffer

The transmit queue of the network driver and its device. `Nic::send` uses buffer 0 and
descriptor 0 for every frame: it fills the buffer, writes and posts the descriptor and polls the
used ring up to 1000 times. The device takes the available entries in order and completes each
once, whenever it likes, between any two accesses of the driver. It owns a posting, numbered in
order, from when it can see it to its completion.
-/

namespace K1K.Net.Virtio

open K1K.Lib

def QSIZE : Nat := 16
def BUF : Nat := 2048
def HDR : Nat := 12
def POLLS : Nat := 1000

structure Desc where
  addr : Nat
  len : Nat
  flags : Nat
  deriving DecidableEq

structure Queue where
  desc : Nat → Desc
  avail : Nat → Nat
  /-- The index of the available ring that the device sees. -/
  availShared : Nat
  used : Nat → Nat × Nat
  /-- The index of the used ring, which the device writes. -/
  usedShared : Nat
  lastUsed : Nat
  availIdx : Nat

namespace Queue

variable (q : Queue)

def enter (i : Nat) : Queue :=
  { q with avail := Function.update q.avail (q.availIdx % QSIZE) i }

def publish : Queue :=
  { q with
    availIdx := (q.availIdx + 1) % 2 ^ 16
    availShared := (q.availIdx + 1) % 2 ^ 16 }

def pop : Option ((Nat × Nat) × Queue) :=
  if q.usedShared = q.lastUsed then none
  else some (q.used (q.lastUsed % QSIZE), { q with lastUsed := (q.lastUsed + 1) % 2 ^ 16 })

def complete (i len : Nat) : Queue :=
  { q with
    used := Function.update q.used (q.usedShared % QSIZE) (i, len)
    usedShared := (q.usedShared + 1) % 2 ^ 16 }

end Queue

abbrev Frame := List UInt8

inductive Phase where
  | idle
  | clearing (frame : Frame)
  | copying (frame : Frame)
  | describing (frame : Frame)
  | entering (frame : Frame)
  | publishing (frame : Frame)
  | polling (polls : Nat)
  deriving DecidableEq

structure State where
  queue : Queue
  buffer : Nat → UInt8
  phys : Nat
  phase : Phase
  /-- The frames that were posted, in order. -/
  posted : List Frame
  /-- How many postings the device has taken. -/
  taken : Nat
  /-- The device's place in the available ring. -/
  lastAvail : Nat
  /-- The postings the device has taken and not completed, with their descriptors. -/
  inFlight : List (Nat × Nat)
  completed : List Nat
  /-- What the device owned whenever the driver wrote the buffer or the descriptor. -/
  overwritten : List Nat
  /-- What the calls returned, with the posting each of them made. -/
  returned : List (Option Nat × Bool)

inductive Action where
  | send (frame : Frame)
  | advance
  | take
  | complete (posting len : Nat)
  deriving DecidableEq

namespace State

def start (phys : Nat) : State where
  queue := ⟨fun _ => ⟨0, 0, 0⟩, fun _ => 0, 0, fun _ => (0, 0), 0, 0, 0⟩
  buffer _ := 0
  phys := phys
  phase := .idle
  posted := []
  taken := 0
  lastAvail := 0
  inFlight := []
  completed := []
  overwritten := []
  returned := []

variable (s : State)

def owned : List Nat := (List.range s.posted.length).filter (· ∉ s.completed)

def writing : State := { s with overwritten := s.overwritten ++ s.owned }

def finish (value : Bool) : State :=
  { s with
    phase := .idle
    returned := s.returned ++ [(some (s.posted.length - 1), value)] }

def advance : Option State :=
  match s.phase with
  | .idle => none
  | .clearing frame =>
    some { s.writing with
      buffer := fun i => if i < HDR then 0 else s.buffer i
      phase := .copying frame }
  | .copying frame =>
    some { s.writing with
      buffer := fun i => if i < HDR then s.buffer i else (frame[i - HDR]?).getD (s.buffer i)
      phase := .describing frame }
  | .describing frame =>
    some { s.writing with
      queue := { s.queue with
        desc := Function.update s.queue.desc 0 ⟨s.phys, HDR + frame.length, 0⟩ }
      phase := .entering frame }
  | .entering frame => some { s with queue := s.queue.enter 0, phase := .publishing frame }
  | .publishing frame =>
    some { s with
      queue := s.queue.publish
      posted := s.posted ++ [frame]
      phase := .polling 0 }
  | .polling polls =>
    match s.queue.pop with
    | some popped => some ({ s with queue := popped.2 }.finish true)
    | none =>
      if polls + 1 < POLLS then some { s with phase := .polling (polls + 1) }
      else some (s.finish false)

def step (s : State) : Action → Option State
  | .send frame =>
    if s.phase = .idle then
      if frame.length + HDR > BUF then some { s with returned := s.returned ++ [(none, false)] }
      else some { s with phase := .clearing frame }
    else none
  | .advance => s.advance
  | .take =>
    if s.queue.availShared = s.lastAvail then none
    else some { s with
      inFlight := s.inFlight ++ [(s.taken, s.queue.avail (s.lastAvail % QSIZE))]
      taken := s.taken + 1
      lastAvail := (s.lastAvail + 1) % 2 ^ 16 }
  | .complete posting len =>
    match s.inFlight.find? fun entry => entry.1 = posting with
    | none => none
    | some entry => some { s with
        queue := s.queue.complete entry.2 len
        inFlight := s.inFlight.erase entry
        completed := s.completed ++ [posting] }

inductive Moves : Action → State → Prop where
  | refuse {frame : Frame} (phase : s.phase = .idle) :
      Moves (.send frame) { s with returned := s.returned ++ [(none, false)] }
  | send {frame : Frame} (phase : s.phase = .idle) :
      Moves (.send frame) { s with phase := .clearing frame }
  | clear {frame : Frame} (phase : s.phase = .clearing frame) :
      Moves .advance { s.writing with
        buffer := fun i => if i < HDR then 0 else s.buffer i
        phase := .copying frame }
  | copy {frame : Frame} (phase : s.phase = .copying frame) :
      Moves .advance { s.writing with
        buffer := fun i => if i < HDR then s.buffer i else (frame[i - HDR]?).getD (s.buffer i)
        phase := .describing frame }
  | describe {frame : Frame} (phase : s.phase = .describing frame) :
      Moves .advance { s.writing with
        queue := { s.queue with
          desc := Function.update s.queue.desc 0 ⟨s.phys, HDR + frame.length, 0⟩ }
        phase := .entering frame }
  | enter {frame : Frame} (phase : s.phase = .entering frame) :
      Moves .advance { s with queue := s.queue.enter 0, phase := .publishing frame }
  | publish {frame : Frame} (phase : s.phase = .publishing frame) :
      Moves .advance { s with
        queue := s.queue.publish
        posted := s.posted ++ [frame]
        phase := .polling 0 }
  | found {polls : Nat} (phase : s.phase = .polling polls)
      (news : s.queue.usedShared ≠ s.queue.lastUsed) :
      Moves .advance ({ s with
        queue := { s.queue with lastUsed := (s.queue.lastUsed + 1) % 2 ^ 16 } }.finish true)
  | poll {polls : Nat} (phase : s.phase = .polling polls) :
      Moves .advance { s with phase := .polling (polls + 1) }
  | giveUp {polls : Nat} (phase : s.phase = .polling polls) (last : POLLS ≤ polls + 1)
      (none : s.queue.usedShared = s.queue.lastUsed) : Moves .advance (s.finish false)
  | take (news : s.queue.availShared ≠ s.lastAvail) :
      Moves .take { s with
        inFlight := s.inFlight ++ [(s.taken, s.queue.avail (s.lastAvail % QSIZE))]
        taken := s.taken + 1
        lastAvail := (s.lastAvail + 1) % 2 ^ 16 }
  | complete {posting len : Nat} {entry : Nat × Nat} (member : entry ∈ s.inFlight)
      (named : entry.1 = posting) :
      Moves (.complete posting len) { s with
        queue := s.queue.complete entry.2 len
        inFlight := s.inFlight.erase entry
        completed := s.completed ++ [posting] }

variable {s} {s' : State}

theorem moves_of_step {action : Action} (ran : s.step action = some s') : s.Moves action s' := by
  cases action with
  | send frame =>
    simp only [step, Option.ite_none_right_eq_some] at ran
    obtain ⟨phase, ran⟩ := ran
    split at ran
    · cases ran
      exact .refuse phase
    · cases ran
      exact .send phase
  | advance =>
    simp only [step, advance] at ran
    split at ran
    next => cases ran
    next phase =>
      cases ran
      exact .clear phase
    next phase =>
      cases ran
      exact .copy phase
    next phase =>
      cases ran
      exact .describe phase
    next phase =>
      cases ran
      exact .enter phase
    next phase =>
      cases ran
      exact .publish phase
    next polls phase =>
      unfold Queue.pop at ran
      by_cases none : s.queue.usedShared = s.queue.lastUsed
      · simp only [if_pos none] at ran
        split at ran
        next =>
          cases ran
          exact .poll phase
        next last =>
          cases ran
          exact .giveUp phase (Nat.not_lt.mp last) none
      · simp only [if_neg none, Option.some.injEq] at ran
        subst ran
        exact .found phase none
  | take =>
    simp only [step] at ran
    split at ran
    next => cases ran
    next news =>
      cases ran
      exact .take news
  | complete posting len =>
    simp only [step] at ran
    split at ran
    next => cases ran
    next entry found =>
      cases ran
      exact .complete (List.mem_of_find?_eq_some found) (by simpa using List.find?_some found)

end State

/-! ## The driver waits for every frame -/

def Phase.waiting : Phase → Nat
  | .polling _ => 1
  | _ => 0

namespace State

variable {s s' : State}

structure Inv (s : State) : Prop where
  once : s.completed.Nodup
  completed : ∀ k ∈ s.completed, k < s.taken
  flight : (s.inFlight.map Prod.fst).Nodup
  flying : ∀ k ∈ s.inFlight.map Prod.fst, k < s.taken ∧ k ∉ s.completed
  taken : s.taken ≤ s.posted.length
  availIdx : s.queue.availIdx = s.posted.length % 2 ^ 16
  availShared : s.queue.availShared = s.posted.length % 2 ^ 16
  lastAvail : s.lastAvail = s.taken % 2 ^ 16
  usedShared : s.queue.usedShared = s.completed.length % 2 ^ 16
  waiting : s.phase.waiting ≤ s.posted.length
  lastUsed : s.queue.lastUsed = (s.posted.length - s.phase.waiting) % 2 ^ 16
  settled : ∀ k, k + s.phase.waiting < s.posted.length → k ∈ s.completed
  returned : ∀ k, (some k, true) ∈ s.returned → k ∈ s.completed
  overwritten : s.overwritten = []

theorem inv_start (phys : Nat) : (start phys).Inv where
  once := .nil
  completed k member := by cases member
  flight := .nil
  flying k member := by cases member
  taken := le_rfl
  availIdx := rfl
  availShared := rfl
  lastAvail := rfl
  usedShared := rfl
  waiting := le_rfl
  lastUsed := rfl
  settled k small := absurd small (Nat.not_lt_zero _)
  returned k member := by cases member
  overwritten := rfl

def Answered (s : State) : Action → Prop
  | .advance =>
    match s.phase with
    | .polling polls => POLLS ≤ polls + 1 → s.queue.usedShared ≠ s.queue.lastUsed
    | _ => True
  | _ => True

instance decidableAnswered : DecidablePred s.Answered := fun action => by
  apply @Action.casesOn (fun action => Decidable (s.Answered action)) action
  case advance =>
    unfold Answered
    dsimp only
    split <;> infer_instance
  all_goals intros; exact isTrue trivial

namespace Inv

variable (inv : s.Inv)
include inv

theorem owned_eq_nil (quiet : s.phase.waiting = 0) : s.owned = [] := by
  refine List.filter_eq_nil_iff.mpr fun k mem => ?_
  have small : k < s.posted.length := List.mem_range.mp mem
  have done : k ∈ s.completed := inv.settled k (by rwa [quiet])
  simpa using done

theorem writing_eq (quiet : s.phase.waiting = 0) : s.writing = s := by
  rw [writing, inv.owned_eq_nil quiet, List.append_nil]

theorem pass {q : Queue} {buffer : Nat → UInt8} {phase : Phase}
    (availIdx : q.availIdx = s.queue.availIdx) (availShared : q.availShared = s.queue.availShared)
    (usedShared : q.usedShared = s.queue.usedShared) (lastUsed : q.lastUsed = s.queue.lastUsed)
    (waiting : phase.waiting = s.phase.waiting) :
    { s with queue := q, buffer := buffer, phase := phase }.Inv :=
  { inv with
    availIdx := availIdx.trans inv.availIdx
    availShared := availShared.trans inv.availShared
    usedShared := usedShared.trans inv.usedShared
    waiting := waiting.le.trans inv.waiting
    lastUsed := lastUsed.trans (by rw [waiting]; exact inv.lastUsed)
    settled := fun k small => inv.settled k (waiting ▸ small) }

theorem completed_of_news {polls : Nat} (phase : s.phase = .polling polls)
    (news : s.queue.usedShared ≠ s.queue.lastUsed) : s.posted.length - 1 ∈ s.completed := by
  have waits : s.phase.waiting = 1 := by rw [phase]; rfl
  have some : 1 ≤ s.posted.length := waits ▸ inv.waiting
  by_contra open_
  have members : ∀ k, k ∈ s.completed ↔ k ∈ List.range (s.posted.length - 1) := by
    intro k
    rw [List.mem_range]
    refine ⟨fun mem => ?_, fun small => inv.settled k (by omega)⟩
    have below := (inv.completed k mem).trans_le inv.taken
    have ne : k ≠ s.posted.length - 1 := fun eq => open_ (eq ▸ mem)
    omega
  have length := ((List.perm_ext_iff_of_nodup inv.once List.nodup_range).mpr members).length_eq
  rw [List.length_range] at length
  refine news ?_
  rw [inv.usedShared, inv.lastUsed, length, waits]

theorem publish {frame : Frame} (phase : s.phase = .publishing frame) : { s with
      queue := s.queue.publish
      posted := s.posted ++ [frame]
      phase := .polling 0 }.Inv := by
  have quiet : s.phase.waiting = 0 := by rw [phase]; rfl
  have length : (s.posted ++ [frame]).length = s.posted.length + 1 := by simp
  refine { inv with
    taken := ?_, availIdx := ?_, availShared := ?_, waiting := ?_, lastUsed := ?_, settled := ?_ }
  · rw [length]
    exact inv.taken.trans (Nat.le_succ _)
  · change (s.queue.availIdx + 1) % 2 ^ 16 = _
    rw [length, inv.availIdx, Nat.mod_add_mod]
  · change (s.queue.availIdx + 1) % 2 ^ 16 = _
    rw [length, inv.availIdx, Nat.mod_add_mod]
  · exact length ▸ Nat.succ_le_succ (Nat.zero_le _)
  · change s.queue.lastUsed = ((s.posted ++ [frame]).length - 1) % 2 ^ 16
    rw [length, Nat.add_sub_cancel, inv.lastUsed, quiet, Nat.sub_zero]
  · intro k small
    refine inv.settled k ?_
    rw [quiet]
    rw [length] at small
    exact Nat.lt_of_succ_lt_succ small

theorem found {polls : Nat} (phase : s.phase = .polling polls)
    (news : s.queue.usedShared ≠ s.queue.lastUsed) : ({ s with
      queue := { s.queue with lastUsed := (s.queue.lastUsed + 1) % 2 ^ 16 } }.finish true).Inv := by
  have own := inv.completed_of_news phase news
  have waits : s.phase.waiting = 1 := by rw [phase]; rfl
  have some : 1 ≤ s.posted.length := waits ▸ inv.waiting
  refine { inv with waiting := Nat.zero_le _, lastUsed := ?_, settled := ?_, returned := ?_ }
  · change (s.queue.lastUsed + 1) % 2 ^ 16 = s.posted.length % 2 ^ 16
    rw [inv.lastUsed, waits, Nat.mod_add_mod, Nat.sub_add_cancel some]
  · intro k small
    by_cases last : k = s.posted.length - 1
    · exact last ▸ own
    have below : k + 1 < s.posted.length := by
      change k + 0 < s.posted.length at small
      omega
    exact inv.settled k (by rwa [waits])
  · intro k mem
    rcases List.mem_append.mp mem with old | now
    · exact inv.returned k old
    · cases List.mem_singleton.mp now
      exact own

theorem take (news : s.queue.availShared ≠ s.lastAvail) : { s with
      inFlight := s.inFlight ++ [(s.taken, s.queue.avail (s.lastAvail % QSIZE))]
      taken := s.taken + 1
      lastAvail := (s.lastAvail + 1) % 2 ^ 16 }.Inv := by
  have fresh : s.taken < s.posted.length := by
    refine lt_of_le_of_ne inv.taken fun eq => news ?_
    rw [inv.availShared, inv.lastAvail, eq]
  have untaken : s.taken ∉ s.inFlight.map Prod.fst :=
    fun mem => lt_irrefl _ (inv.flying _ mem).1
  refine { inv with
    completed := fun k mem => (inv.completed k mem).trans (Nat.lt_succ_self _)
    flight := ?_, flying := ?_, taken := fresh, lastAvail := ?_ }
  · rw [List.map_append, List.map_singleton]
    exact List.nodup_append'.mpr ⟨inv.flight, List.nodup_singleton _, by simpa using untaken⟩
  · intro k mem
    rw [List.map_append, List.map_singleton] at mem
    rcases List.mem_append.mp mem with old | now
    · obtain ⟨below, open_⟩ := inv.flying k old
      exact ⟨below.trans (Nat.lt_succ_self _), open_⟩
    · cases List.mem_singleton.mp now
      exact ⟨Nat.lt_succ_self _, fun done => lt_irrefl _ (inv.completed _ done)⟩
  · change (s.lastAvail + 1) % 2 ^ 16 = _
    rw [inv.lastAvail, Nat.mod_add_mod]

theorem complete {len : Nat} {entry : Nat × Nat} (mem : entry ∈ s.inFlight) : { s with
      queue := s.queue.complete entry.2 len
      inFlight := s.inFlight.erase entry
      completed := s.completed ++ [entry.1] }.Inv := by
  obtain ⟨below, open_⟩ := inv.flying entry.1 (List.mem_map_of_mem mem)
  refine { inv with
    once := ?_, completed := ?_, flight := ?_, flying := ?_, usedShared := ?_, settled := ?_,
    returned := ?_ }
  · exact List.nodup_append'.mpr ⟨inv.once, List.nodup_singleton _, by simpa using open_⟩
  · intro k done
    rcases List.mem_append.mp done with old | now
    · exact inv.completed k old
    · cases List.mem_singleton.mp now
      exact below
  · exact inv.flight.sublist (List.erase_sublist.map _)
  · intro k flying
    obtain ⟨other, kept, rfl⟩ := List.mem_map.mp flying
    obtain ⟨ne, was⟩ := inv.flight.of_map.mem_erase_iff.mp kept
    have nodup : other.1 ≠ entry.1 :=
      fun eq => ne (List.inj_on_of_nodup_map inv.flight was mem eq)
    obtain ⟨below, open_⟩ := inv.flying other.1 (List.mem_map_of_mem was)
    exact ⟨below, by simp [open_, nodup]⟩
  · change (s.queue.usedShared + 1) % 2 ^ 16 = _
    rw [inv.usedShared, Nat.mod_add_mod, List.length_append, List.length_singleton]
  · exact fun k small => List.mem_append_left _ (inv.settled k small)
  · exact fun k listed => List.mem_append_left _ (inv.returned k listed)

theorem step {action : Action} (answered : s.Answered action) (moves : s.Moves action s') :
    s'.Inv := by
  cases moves with
  | refuse phase =>
    refine { inv with returned := fun k mem => ?_ }
    rcases List.mem_append.mp mem with old | now
    · exact inv.returned k old
    · cases List.mem_singleton.mp now
  | send phase => exact inv.pass rfl rfl rfl rfl (by rw [phase]; rfl)
  | clear phase | copy phase | describe phase =>
    rw [inv.writing_eq (by rw [phase]; rfl)]
    exact inv.pass rfl rfl rfl rfl (by rw [phase]; rfl)
  | enter phase => exact inv.pass rfl rfl rfl rfl (by rw [phase]; rfl)
  | publish phase => exact inv.publish phase
  | found phase news => exact inv.found phase news
  | poll phase => exact inv.pass rfl rfl rfl rfl (by rw [phase]; rfl)
  | giveUp phase last none =>
    simp only [Answered, phase] at answered
    exact absurd none (answered last)
  | take news => exact inv.take news
  | complete mem named =>
    subst named
    exact inv.complete mem

end Inv

/-- While no call of `send` gives up, the driver writes neither buffer nor descriptor while the
device owns a posting, and a call that returns `true` has seen the completion of its own frame. -/
theorem transmit_ownership {phys : Nat} {actions : List Action}
    (run : Run (Guarded Answered fun s action s' => s.step action = some s') (start phys)
      actions s) :
    s.overwritten = [] ∧ ∀ k, (some k, true) ∈ s.returned → k ∈ s.completed := by
  have inv := run.invariant Inv (inv_start phys) fun _ _ _ inv ran =>
    inv.step ran.1 (moves_of_step ran.2)
  exact ⟨inv.overwritten, inv.returned⟩

def drive (count : Nat) : List Action := List.replicate count .advance

def twoFrames : List Action :=
  List.flatten [[.send [1]], drive 7, [.take], drive 2, [.complete 0 0], drive 1,
    [.send [2]], drive 5, [.take, .complete 1 0], drive 1]

theorem two_frames_sent : ∃ s, Run (Guarded Answered fun s action s' => s.step action = some s')
    (start 4096) twoFrames s ∧ s.returned = [(some 0, true), (some 1, true)] ∧
    s.overwritten = [] ∧ 0 ∈ s.completed ∧ 1 ∈ s.completed := by
  refine exists_guarded_of_replay (fun s => s.returned = [(some 0, true), (some 1, true)])
    (by decide +kernel) fun s run gave => ?_
  obtain ⟨quiet, completed⟩ := transmit_ownership run
  exact ⟨gave, quiet, completed 0 (by simp [gave]), completed 1 (by simp [gave])⟩

/-- The device takes longer than the 1000 polls of the first call; the second fills the buffer
that the device is reading, and takes the completion of the first frame for its own. -/
def slowDevice : List Action :=
  List.flatten [[.send [1]], drive 5, [.take], drive 1000, [.send [2]], drive 5,
    [.complete 0 0], drive 1]

theorem buffer_overwritten : ∃ s, Run (fun s action s' => s.step action = some s') (start 4096)
    slowDevice s ∧ s.overwritten = [0, 0, 0] ∧
    s.returned = [(some 0, false), (some 1, true)] ∧ 1 ∉ s.completed := by
  exact exists_of_replay _ (by decide +kernel) fun _ _ facts => facts

end State

end K1K.Net.Virtio
