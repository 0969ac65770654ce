import K1K.Service.Confinement

/-!
# The block service and its transfers

The request loop of `user/svc/blk/src/main.rs` and `read_phys` of `nvme.rs`. A read is a command
of sixteen words with up to two physical addresses: the controller fills the rest of the 4 KiB
page that the first is in, and continues at the second.
-/

namespace K1K.Service

open K1K.Lib K1K.Mm K1K.Obj K1K.Syscall

namespace Blk

def SET_REPLY : BitVec 64 := 2
def READ : BitVec 64 := 3
def MAX_BLOCKS : Nat := 16

def OPC_IO_READ : BitVec 32 := 2

inductive NvmeError where
  | notReady
  deriving DecidableEq, Repr

/-- The controller: its block size is a power of two, read from the namespace. The
shift in `1u32 << lbads` takes the exponent modulo 32. -/
structure Nvme where
  lbads : BitVec 8
  deriving DecidableEq, Repr

def Nvme.blockSize (dev : Nvme) : Nat := 2 ^ (dev.lbads.toNat % 32)

structure Command where
  words : Fin 16 → BitVec 32

def readCommand (lba phys : BitVec 64) (count : BitVec 16) (bytes : Nat) : Command where
  words i :=
    let prp2 := if bytes > 4096 then (phys &&& ~~~0xFFF) + 4096 else 0
    match i with
    | 0 => OPC_IO_READ
    | 1 => 1
    | 6 => phys.setWidth 32
    | 7 => (phys >>> 32).setWidth 32
    | 8 => prp2.setWidth 32
    | 9 => (prp2 >>> 32).setWidth 32
    | 10 => lba.setWidth 32
    | 11 => (lba >>> 32).setWidth 32
    | 12 => (count.setWidth 32 - 1) &&& 0xFFFF
    | _ => 0

def readPhys (dev : Nvme) (lba : BitVec 64) (count : BitVec 16) (phys : BitVec 64) :
    Except NvmeError Command :=
  let bytes := count.toNat * dev.blockSize
  if bytes = 0 ∨ bytes > 8192 then .error .notReady
  else .ok (readCommand lba phys count bytes)

/-! ## The controller's side -/

namespace Command

variable (c : Command)

instance dwords_neZero : NeZero 16 := ⟨by decide⟩

def prp1 : Nat := (c.words 7 ++ c.words 6).toNat

def prp2 : Nat := (c.words 9 ++ c.words 8).toNat

def blocks : Nat := (c.words 12).toNat % 2 ^ 16 + 1

def transfers (dev : Nvme) : List Span :=
  let bytes := c.blocks * dev.blockSize
  let first := min bytes (4096 - c.prp1 % 4096)
  ⟨c.prp1, first⟩ :: if bytes > first then [⟨c.prp2, bytes - first⟩] else []

end Command

end Blk

/-! ## The service -/

/-- `registered` is the object of the last registration that was accepted, and
`issued` the reads that the last step submitted, each with its block count. -/
structure Blk where
  dev : Blk.Nvme
  bufPhys : Nat
  bufPages : Nat
  reply : Option Capability
  host : Host
  registered : Option Nat
  issued : List (Nat × Blk.Command)

namespace Blk

inductive Action where
  | message (m : Message)
  | elsewhere (fr : Frames)

def read (s : Blk) (m : Message) : Blk :=
  match s.reply with
  | none => s
  | some _ =>
    let count := (m.word 2).toNat
    let max := min (s.bufPages * 4096 / s.dev.blockSize) MAX_BLOCKS
    if s.bufPhys = 0 ∨ count = 0 ∨ count > max then s
    else
      match readPhys s.dev (m.word 1) (BitVec.ofNat 16 count) (BitVec.ofNat 64 s.bufPhys) with
      | .ok command => { s with issued := [(count, command)] }
      | .error _ => s

def handle (objects : Nat → MemoryObject) (s : Blk) (m : Message) : Option Blk :=
  let s := { s with issued := [] }
  let op := m.word 0 &&& 0xFFFFFFFF
  if op = REGISTER_BUF then
    match m.cap with
    | none => some s
    | some cap =>
      match s.host.memMap objects cap true with
      | none => none
      | some (.ok _, host) =>
        match Host.memPhys objects cap with
        | .ok phys =>
          some { s with
            bufPhys := phys
            bufPages := m.claimed
            host := host
            registered := cap.memory }
        | .error _ => some { s with host := host }
      | some (.error _, host) => some { s with host := host }
  else if op = SET_REPLY then some { s with reply := m.cap }
  else if op = READ then some (s.read m)
  else some s

inductive Step (objects : Nat → MemoryObject) : Blk → Action → Blk → Prop where
  | message {s s' : Blk} {m : Message} :
      s.handle objects m = some s' → Step objects s (.message m) s'
  | elsewhere {s : Blk} {fr : Frames} : fr.map.Valid →
      Step objects s (.elsewhere fr) { s with host := { s.host with frames := fr }, issued := [] }

def start (dev : Nvme) (h : Host) : Blk where
  dev := dev
  bufPhys := 0
  bufPages := 0
  reply := none
  host := h
  registered := none
  issued := []

/-! ## Where a command goes -/

theorem join_halves (w : BitVec 64) :
    ((w >>> 32).setWidth 32 ++ w.setWidth 32 : BitVec 64) = w := by
  ext i small
  rw [BitVec.getElem_append]
  split
  next => simp [BitVec.getLsbD_eq_getElem small]
  next high =>
    have index : 32 + (i - 32) = i := by omega
    simp [index, BitVec.getLsbD_eq_getElem small]

theorem page_start {w : BitVec 64} (aligned : w.toNat % 4096 = 0) : w &&& ~~~0xFFF = w := by
  have low : w &&& 0xFFF = 0#64 := by
    apply BitVec.eq_of_toNat_eq
    simpa [aligned] using Nat.and_two_pow_sub_one_eq_mod w.toNat 12
  have whole : (0xFFF : BitVec 64) ||| ~~~0xFFF = BitVec.allOnes 64 := by decide
  calc w &&& ~~~0xFFF = (w &&& 0xFFF) ||| (w &&& ~~~0xFFF) := by rw [low, BitVec.zero_or]
    _ = w &&& BitVec.allOnes 64 := by rw [← BitVec.and_or_distrib_left, whole]
    _ = w := BitVec.and_allOnes

section Transfers

variable {dev : Nvme} {lba phys : BitVec 64} {count : BitVec 16} {command : Command}

variable (lba phys count) in
theorem prp1_readCommand (bytes : Nat) : (readCommand lba phys count bytes).prp1 = phys.toNat := by
  have first : (readCommand lba phys count bytes).prp1 =
      ((phys >>> 32).setWidth 32 ++ phys.setWidth 32 : BitVec 64).toNat := rfl
  rw [first, join_halves]

variable (lba count) in
theorem prp2_readCommand {bytes : Nat} (large : bytes > 4096) (aligned : phys.toNat % 4096 = 0)
    (small : phys.toNat < 2 ^ 52) :
    (readCommand lba phys count bytes).prp2 = phys.toNat + 4096 := by
  have second : (readCommand lba phys count bytes).prp2 =
      ((((phys &&& ~~~0xFFF) + 4096) >>> 32).setWidth 32 ++
        ((phys &&& ~~~0xFFF) + 4096).setWidth 32 : BitVec 64).toNat := by
    simp [Command.prp2, readCommand, large]
  rw [second, join_halves, page_start aligned]
  bv_omega

theorem blocks_readCommand {bytes : Nat} (pos : count ≠ 0) :
    (readCommand lba phys count bytes).blocks = count.toNat := by
  have word : (readCommand lba phys count bytes).words 12 = (count.setWidth 32 - 1) &&& 0xFFFF :=
    rfl
  have nonzero : 0 < count.toNat := Nat.pos_of_ne_zero fun zero =>
    pos (BitVec.eq_of_toNat_eq zero)
  have bound := count.isLt
  have less : (count.setWidth 32 - 1 : BitVec 32).toNat = count.toNat - 1 := by bv_omega
  have below : ((count.setWidth 32 - 1) &&& 0xFFFF : BitVec 32).toNat = count.toNat - 1 := by
    have mask := Nat.and_two_pow_sub_one_eq_mod (count.toNat - 1) 16
    have fits : (count.toNat - 1) % 2 ^ 16 = count.toNat - 1 := Nat.mod_eq_of_lt (by omega)
    rw [BitVec.toNat_and, less]
    exact mask.trans fits
  rw [Command.blocks, word, below]
  omega

theorem readPhys_transfers (aligned : phys.toNat % 4096 = 0) (small : phys.toNat < 2 ^ 52)
    (submitted : readPhys dev lba count phys = .ok command) : count.toNat * dev.blockSize ≤ 8192 ∧
    ((command.transfers dev).map Span.len).sum = count.toNat * dev.blockSize ∧
    ∀ sp ∈ command.transfers dev, sp.Inside ⟨phys.toNat, count.toNat * dev.blockSize⟩ := by
  simp only [readPhys] at submitted
  split at submitted
  next => simp at submitted
  next limits =>
    cases submitted
    generalize size : count.toNat * dev.blockSize = bytes at *
    have pos : count ≠ 0 := by
      rintro rfl
      simp at size
      omega
    simp only [Command.transfers, blocks_readCommand pos, prp1_readCommand, size, aligned]
    refine ⟨by omega, ?_, ?_⟩
    · split
      next large => simp
      next short =>
        simp
        omega
    · intro sp mem
      rcases List.mem_cons.mp mem with rfl | rest
      · exact ⟨by simp, by simp only; omega⟩
      split at rest
      next large =>
        rw [List.mem_singleton.mp rest, prp2_readCommand lba count (by omega) aligned small]
        exact ⟨by simp, by simp only; omega⟩
      next => cases rest

end Transfers

/-! ## Confinement -/

variable {objects : Nat → MemoryObject} {s s' : Blk}

theorem memPhys_spec {cap : Capability} {phys : Nat} (found : Host.memPhys objects cap = .ok phys) :
    ∃ id first, cap.memory = some id ∧
      (objects id).frames = List.range' first (objects id).pages ∧ first < PHYS_FRAMES ∧
      phys = first * FRAME_SIZE := by
  simp only [Host.memPhys] at found
  split at found
  next => simp at found
  next id named =>
    split at found
    next contiguous =>
      cases found
      obtain ⟨first, frames⟩ := (objects id).adjacent contiguous
      have pos := (objects id).pages_pos
      have head : first ∈ (objects id).frames := by
        rw [frames, List.mem_range'_1]
        simp only [MemoryObject.pages] at pos
        omega
      refine ⟨id, first, memory_of_lookup named, frames, (objects id).physical _ head, ?_⟩
      rw [frames]
      simp only [MemoryObject.pages] at pos
      rw [show (objects id).frames.length = (objects id).frames.length - 1 + 1 by omega,
        List.range'_succ, List.headD_cons]
    next => simp at found

/-- Every read that was submitted transfers its blocks into frames of the object
that was registered last. -/
def Confined (objects : Nat → MemoryObject) (s : Blk) : Prop :=
  ∀ entry ∈ s.issued,
    ((entry.2.transfers s.dev).map Span.len).sum = entry.1 * s.dev.blockSize ∧
    ∃ id, s.registered = some id ∧ ∀ sp ∈ entry.2.transfers s.dev, ∀ a, sp.Covers a →
      a / FRAME_SIZE ∈ (objects id).frames

def Honest (objects : Nat → MemoryObject) (_ : Blk) : Action → Prop
  | .message m => m.word 0 &&& 0xFFFFFFFF = REGISTER_BUF → ∀ cap ∈ m.cap, ∀ id ∈ cap.memory,
      min m.claimed 2 ≤ (objects id).pages
  | .elsewhere _ => True

/-- The buffer of a client is the registered object, as far as a read can go. -/
structure Target (objects : Nat → MemoryObject) (registered : Option Nat) (phys pages : Nat)
    (id first : Nat) : Prop where
  registered : registered = some id
  frames : (objects id).frames = List.range' first (objects id).pages
  physical : first < PHYS_FRAMES
  address : phys = first * FRAME_SIZE
  claimed : min pages 2 ≤ (objects id).pages

structure Inv (objects : Nat → MemoryObject) (s : Blk) : Prop where
  sound : s.host.Sound
  target : s.bufPhys ≠ 0 → ∃ id first, Target objects s.registered s.bufPhys s.bufPages id first
  confined : Confined objects s

theorem confined_nil (quiet : s.issued = []) : Confined objects s := by
  intro entry mem
  rw [quiet] at mem
  cases mem

section Target

variable {registered : Option Nat} {phys pages id first : Nat}

theorem Target.aligned (target : Target objects registered phys pages id first) :
    phys % 4096 = 0 := by
  simp [target.address, FRAME_SIZE]

theorem Target.small (target : Target objects registered phys pages id first) : phys < 2 ^ 52 := by
  have physical := target.physical
  simp only [target.address, FRAME_SIZE, PHYS_FRAMES] at *
  omega

theorem Target.covers (target : Target objects registered phys pages id first) {bytes a : Nat}
    (short : bytes ≤ 8192) (within : bytes ≤ pages * 4096)
    (covered : Span.Covers ⟨phys, bytes⟩ a) : a / FRAME_SIZE ∈ (objects id).frames := by
  obtain ⟨low, high⟩ := covered
  have claimed := target.claimed
  have address := target.address
  rw [target.frames, List.mem_range'_1]
  simp only [FRAME_SIZE] at *
  omega

end Target

theorem Inv.read (inv : s.Inv objects) (m : Message) : (s.read m).Inv objects := by
  simp only [Blk.read]
  split
  next => exact inv
  split
  next => exact inv
  next accepted =>
    split
    next command submitted =>
      obtain ⟨id, first, target⟩ := inv.target fun zero => accepted (.inl zero)
      have count : (BitVec.ofNat 16 (m.word 2).toNat).toNat = (m.word 2).toNat := by
        rw [BitVec.toNat_ofNat, Nat.mod_eq_of_lt]
        simp only [MAX_BLOCKS] at accepted
        omega
      have address : (BitVec.ofNat 64 s.bufPhys).toNat = s.bufPhys := by
        rw [BitVec.toNat_ofNat, Nat.mod_eq_of_lt]
        exact Nat.lt_trans target.small (by decide)
      have claimed : (m.word 2).toNat * s.dev.blockSize ≤ s.bufPages * 4096 :=
        calc _ ≤ s.bufPages * 4096 / s.dev.blockSize * s.dev.blockSize :=
              Nat.mul_le_mul_right _ (by omega)
          _ ≤ _ := Nat.div_mul_le_self _ _
      have spec := readPhys_transfers (by rw [address]; exact target.aligned)
        (by rw [address]; exact target.small) submitted
      rw [count, address] at spec
      refine ⟨inv.sound, inv.target, fun entry mem => ?_⟩
      rw [List.mem_singleton.mp mem]
      refine ⟨spec.2.1, id, target.registered, fun sp piece a covered => ?_⟩
      exact target.covers spec.1 claimed ((spec.2.2 sp piece).covers covered)
    next => exact inv

theorem Inv.handle (inv : s.Inv objects) {m : Message} (honest : s.Honest objects (.message m))
    (ran : s.handle objects m = some s') : s'.Inv objects := by
  have quiet : Inv objects { s with issued := [] } := ⟨inv.sound, inv.target, confined_nil rfl⟩
  simp only [Blk.handle] at ran
  split at ran
  next registering =>
    split at ran
    next =>
      cases ran
      exact quiet
    next cap attached =>
      rcases called : s.host.memMap objects cap true with _ | ⟨_ | start, h⟩
      · simp [called] at ran
      · simp only [called] at ran
        cases ran
        exact ⟨(Host.memMap_spec inv.sound called).1, inv.target, confined_nil rfl⟩
      · have sound := (Host.memMap_spec inv.sound called).1
        simp only [called] at ran
        split at ran
        next phys found =>
          cases ran
          obtain ⟨id, first, memory, frames, physical, address⟩ := memPhys_spec found
          exact ⟨sound, fun _ => ⟨id, first, memory, frames, physical, address,
            honest registering cap attached id memory⟩, confined_nil rfl⟩
        cases ran
        exact ⟨sound, inv.target, confined_nil rfl⟩
  split at ran
  next =>
    cases ran
    exact ⟨inv.sound, inv.target, confined_nil rfl⟩
  split at ran
  next =>
    cases ran
    exact quiet.read m
  cases ran
  exact quiet

theorem Inv.step (inv : s.Inv objects) {action : Action} (honest : s.Honest objects action)
    (ran : Step objects s action s') : s'.Inv objects := by
  cases ran with
  | message handled => exact inv.handle honest handled
  | elsewhere valid => exact ⟨⟨valid, inv.sound.aligned⟩, inv.target, confined_nil rfl⟩

/-- While no client claims more of a one-page object than there is, every read
transfers its blocks into the object that was registered last. -/
theorem reads_confined (objects : Nat → MemoryObject) (dev : Nvme) {h : Host} (sound : h.Sound)
    {actions : List Action} {s : Blk}
    (run : Run (Guarded (Honest objects) (Step objects)) (.start dev h) actions s) :
    Confined objects s := by
  have inv : s.Inv objects := run.invariant (Inv objects)
    ⟨sound, fun used => absurd rfl used, confined_nil rfl⟩
    fun _ _ _ inv ran => inv.step ran.1 ran.2
  exact inv.confined

/-! ## One page -/

def attaching (task pages id : Nat) : Message :=
  { registering task pages id with
    cap := some ⟨.memory id, (Rights.MAP_READ.union .MAP_WRITE).union .DMA⟩ }

def replyingTo (task : Nat) : Message :=
  { asking task SET_REPLY 0 0 with cap := some ⟨.endpoint 0, .SEND⟩ }

def disk : Nvme := ⟨9⟩

theorem page_read_confined :
    ∃ actions s, Run (Guarded (Honest twoPages) (Step twoPages)) (.start disk bareHost) actions s ∧
      s.issued.length = 1 ∧ Confined twoPages s := by
  have eval : (((start disk bareHost).handle twoPages (attaching 5 1 0)).bind fun s =>
      (s.handle twoPages (replyingTo 5)).bind fun s =>
        s.handle twoPages (asking 5 READ 0 8)).any fun s => decide (s.issued.length = 1) := by
    decide +kernel
  obtain ⟨s, replayed, submitted⟩ := exists_of_any eval
  obtain ⟨s₁, first, rest⟩ := Option.bind_eq_some_iff.mp replayed
  obtain ⟨s₂, second, third⟩ := Option.bind_eq_some_iff.mp rest
  have claims : (start disk bareHost).Honest twoPages (.message (attaching 5 1 0)) := by
    rintro - cap ⟨⟩ id ⟨⟩
    decide
  have replies : s₁.Honest twoPages (.message (replyingTo 5)) := fun registers =>
    absurd registers (by decide)
  have asks : s₂.Honest twoPages (.message (asking 5 READ 0 8)) := by rintro - cap ⟨⟩
  have run : Run (Guarded (Honest twoPages) (Step twoPages)) (.start disk bareHost) _ s :=
    .snoc (.snoc (.snoc .nil ⟨claims, .message first⟩) ⟨replies, .message second⟩)
      ⟨asks, .message third⟩
  exact ⟨_, s, run, submitted, reads_confined twoPages disk sound_bareHost run⟩

/-- A client claims two pages for its one, and reads sixteen blocks: the second half
goes into the page of another object. -/
theorem claimed_page_overwritten :
    ∃ actions s entry, Run (Step twoPages) (.start disk bareHost) actions s ∧
      s.registered = some 0 ∧ s.issued = [entry] ∧ ∃ sp ∈ entry.2.transfers disk, ∃ a,
        sp.Covers a ∧ a / FRAME_SIZE ∉ (twoPages 0).frames ∧
        a / FRAME_SIZE ∈ (twoPages 1).frames := by
  have eval : (((start disk bareHost).handle twoPages (attaching 5 2 0)).bind fun s =>
      (s.handle twoPages (replyingTo 5)).bind fun s =>
        s.handle twoPages (asking 5 READ 0 16)).any fun s => decide (s.registered = some 0 ∧
          (s.issued.map fun entry => entry.2.transfers disk) =
            [[⟨40 * 4096, 4096⟩, ⟨41 * 4096, 4096⟩]]) := by
    decide +kernel
  obtain ⟨s, replayed, registered, written⟩ := exists_of_any eval
  obtain ⟨s₁, first, rest⟩ := Option.bind_eq_some_iff.mp replayed
  obtain ⟨s₂, second, third⟩ := Option.bind_eq_some_iff.mp rest
  obtain ⟨entry, issued, spans⟩ := List.map_eq_singleton_iff.mp written
  refine ⟨_, s, entry, .snoc (.snoc (.snoc .nil (.message first)) (.message second))
    (.message third), registered, issued, ⟨41 * 4096, 4096⟩, ?_, 41 * 4096,
    by decide, by decide, by decide⟩
  rw [spans]
  simp

end Blk

end K1K.Service
