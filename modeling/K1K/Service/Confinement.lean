import K1K.Service.Files
import K1K.Service.Network

/-!
# What the services touch for a client

Every handler stays inside the buffer it was given, but the length of the buffer is what the
client said when it registered it. As long as no client claims more pages than its object has,
every access for a client ends in a frame of its object. The network service has a single
buffer, and needs that the client that asks is the one whose object that is.
-/

namespace K1K.Service

open K1K.Lib K1K.Mm K1K.Obj K1K.Syscall
open Traced (within_pure within_touch)

/-! ## Handlers stay inside their buffer -/

namespace Files

variable {vol : Volume} {view : Memory} {buf : Span} {files : Handles}

theorem within_reqU64 (index : Nat) : Traced.Within buf (reqU64 view buf index) := by
  simp only [reqU64]
  split
  next => exact within_pure _
  next lt =>
    refine (within_touch ?_).bind (within_pure _)
    exact ⟨by simp, by simp only; omega⟩

theorem reqBytes_inside {off len : Nat} {part : Span} (found : reqBytes buf off len = some part) :
    part.Inside buf ∧ part.len = len := by
  simp only [reqBytes] at found
  split at found
  next => simp at found
  split at found
  next => simp at found
  next lt =>
    cases found
    exact ⟨⟨by simp, by simp only; omega⟩, rfl⟩

theorem within_putDirRec (off : Nat) : Traced.Within buf (putDirRec buf off) := by
  simp only [putDirRec]
  split
  next => exact within_pure _
  next dst found =>
    exact (within_touch (reqBytes_inside found).1).bind (within_pure _)

theorem within_takePath : Traced.Within buf (takePath vol view buf) := by
  simp only [takePath]
  refine (within_reqU64 0).bind ((within_reqU64 1).bind ?_)
  split
  next => exact within_pure _
  split
  next => exact within_pure _
  next bytes found =>
    exact (within_touch (reqBytes_inside found).1).bind (within_pure _)

theorem within_opOpen : Traced.Within buf (opOpen vol view files buf) := by
  refine within_takePath.bind ?_
  split
  next => exact within_pure _
  split
  next => exact within_pure _
  next => split <;> exact within_pure _

theorem within_readAt {entry : DirEntry} {offset : Nat} {out : Span} (sub : out.Inside buf) :
    Traced.Within buf (readAt vol entry offset out) := by
  have front : ∀ count, Span.Inside ⟨out.start, min count out.len⟩ buf := by
    intro count
    obtain ⟨low, high⟩ := sub
    exact ⟨low, by simp only; omega⟩
  simp only [readAt]
  split
  next => exact within_pure _
  split
  next =>
    rw [Nat.min_comm out.len]
    exact (within_touch (front _)).bind (within_pure _)
  next done stopped =>
    rw [Nat.min_comm out.len, ← Nat.min_assoc]
    exact (within_touch (front _)).bind (within_pure _)

theorem within_opRead : Traced.Within buf (opRead vol view files buf) := by
  refine (within_reqU64 0).bind ((within_reqU64 1).bind ((within_reqU64 2).bind
    ((within_reqU64 3).bind ?_)))
  split
  next => exact within_pure _
  split
  next => exact within_pure _
  split
  next => exact within_pure _
  split
  next => exact within_pure _
  next dst found =>
    refine (within_readAt (reqBytes_inside found).1).bind ?_
    split <;> exact within_pure _

theorem within_opStat : Traced.Within buf (opStat vol view buf) := by
  refine within_takePath.bind ?_
  split
  next => exact within_pure _
  split
  next => exact within_pure _
  split
  next => exact within_pure _
  next => split <;> exact within_pure _

theorem within_putRecords (max recOff : Nat) (entries : List DirEntry) (count : Nat)
    (full : Bool) : Traced.Within buf (putRecords buf max recOff entries count full) := by
  induction entries generalizing count full with
  | nil => exact within_pure _
  | cons entry rest ih =>
    simp only [putRecords]
    split
    next => exact (within_putDirRec _).bind (ih _ _)
    next => exact ih _ _

theorem within_opList : Traced.Within buf (opList vol view buf) := by
  refine within_takePath.bind ?_
  split
  next => exact within_pure _
  refine (within_reqU64 2).bind ((within_reqU64 3).bind ?_)
  split
  next => exact within_pure _
  split
  next => exact within_pure _
  split
  next => exact within_pure _
  next => exact (within_putRecords _ _ _ _ _).bind (within_pure _)

theorem within_opClose : Traced.Within buf (opClose view files buf) := by
  refine (within_reqU64 0).bind ?_
  split <;> exact within_pure _

theorem within_runOp (op : BitVec 64) : Traced.Within buf (runOp vol view files op buf) := by
  simp only [runOp]
  split
  next => exact within_opOpen
  split
  next => exact within_opRead.bind (within_pure _)
  split
  next => exact within_opStat.bind (within_pure _)
  split
  next => exact within_opList.bind (within_pure _)
  split
  next => exact within_opClose
  next => exact within_pure _

theorem dispatch_spans (srv : Server) (req : Request) {sp : Span}
    (touched : sp ∈ (dispatch vol view srv files req).spans) :
    ∃ buf, srv.clientBuffer req.client = some buf ∧ sp.Inside buf := by
  simp only [dispatch] at touched
  split at touched
  next => cases touched
  split at touched
  next => cases touched
  next buf known =>
    refine ⟨buf, known, ?_⟩
    split at touched
    next => cases touched
    refine Traced.Within.bind (within_runOp req.op) ?_ sp touched
    split
    next => exact (within_reqU64 0).bind ((within_reqU64 1).bind (within_pure _))
    next => exact within_pure _

end Files

/-! ## Confinement -/

/-- Every address touched on behalf of a client goes to a frame of the object that
this client registered. -/
def Confined (objects : Nat → MemoryObject) (h : Host) (registered : Nat → Option Nat)
    (accesses : List (Nat × Span)) : Prop :=
  ∀ access ∈ accesses, ∀ va, access.2.Covers va →
    ∃ id leaf, registered access.1 = some id ∧ leafAt h.space va = some leaf ∧
      leaf.frame ∈ (objects id).frames

/-- A window of `len` bytes that is part of what the object is mapped to. -/
structure Window (objects : Nat → MemoryObject) (h : Host) (sp : Span) (id : Nat) : Prop where
  backed : h.Backed sp.start (objects id).frames
  short : sp.len ≤ (objects id).pages * FRAME_SIZE

theorem Window.keep {objects : Nat → MemoryObject} {h h' : Host} {sp : Span} {id : Nat}
    (window : Window objects h sp id) (keeps : h.Keeps h') : Window objects h' sp id :=
  ⟨window.backed.keep keeps, window.short⟩

theorem Window.confined {objects : Nat → MemoryObject} {h : Host} {buf : Span} {id task : Nat}
    {known : Nat → Option Nat} {accesses : List (Nat × Span)}
    (window : Window objects h buf id) (attached : known task = some id)
    (sub : ∀ access ∈ accesses, access.1 = task ∧ access.2.Inside buf) :
    Confined objects h known accesses := by
  intro access listed va covered
  obtain ⟨rfl, within⟩ := sub access listed
  obtain ⟨low, high⟩ := within.covers covered
  have short := window.short
  rcases window.backed.reaches ⟨low, by simp only [MemoryObject.pages] at *; omega⟩ with
    ⟨leaf, found, mem⟩
  exact ⟨id, leaf, attached, found, mem⟩

theorem confined_nil (objects : Nat → MemoryObject) (h : Host) (known : Nat → Option Nat) :
    Confined objects h known [] := by
  rintro access ⟨⟩

namespace Fs

variable {objects : Nat → MemoryObject} {s s' : Fs}

def Honest (objects : Nat → MemoryObject) (_ : Fs) : Action → Prop
  | .message m _ _ => m.word 0 &&& 0xFFFF = REGISTER_BUF → ∀ cap ∈ m.cap, ∀ id ∈ cap.memory,
      Server.clampPages m.claimed ≤ (objects id).pages
  | .elsewhere _ => True

structure Inv (objects : Nat → MemoryObject) (s : Fs) : Prop where
  sound : s.host.Sound
  distinct : s.server.Distinct
  window : ∀ i c start, s.server.clients i = some c → c.map = some start →
    ∃ id, s.registered c.task = some id ∧ Window objects s.host ⟨start, c.mapLen⟩ id
  confined : Confined objects s.host s.registered s.accesses

theorem clientBuffer_some {srv : Server} {task : Nat} {buf : Span}
    (found : srv.clientBuffer task = some buf) :
    ∃ i c, srv.clients i = some c ∧ c.task = task ∧ c.map = some buf.start ∧
      c.mapLen = buf.len := by
  simp only [Server.clientBuffer] at found
  split at found
  next => simp at found
  next c held =>
    obtain ⟨i, slot, client⟩ := Option.bind_eq_some_iff.mp held
    obtain ⟨d, held', task⟩ := Server.slotOf_some slot
    have eq : d = c := Option.some.inj (held'.symm.trans client)
    split at found
    next start mapped =>
      split at found
      next =>
        cases found
        exact ⟨i, c, client, eq ▸ task, mapped, rfl⟩
      next => simp at found
    next => simp at found

theorem Inv.seat (inv : s.Inv objects) {server : Server} {h : Host} (sound : h.Sound)
    (keeps : s.host.Keeps h) (distinct : server.Distinct)
    (clients : ∀ i c, server.clients i = some c → c.map ≠ none → ∃ d,
      s.server.clients i = some d ∧ d.task = c.task ∧ d.map = c.map ∧ d.mapLen = c.mapLen) :
    Inv objects { s with server := server, host := h, accesses := [] } where
  sound := sound
  distinct := distinct
  window i c start held mapped := by
    obtain ⟨d, was, task, map, len⟩ := clients i c held (by simp [mapped])
    obtain ⟨id, attached, window⟩ := inv.window i d start was (map.trans mapped)
    rw [task] at attached
    rw [len] at window
    exact ⟨id, attached, window.keep keeps⟩
  confined := confined_nil _ _ _

theorem Inv.quiet (inv : s.Inv objects) : Inv objects { s with accesses := [] } :=
  ⟨inv.sound, inv.distinct, inv.window, confined_nil _ _ _⟩

theorem seated {srv server : Server} {task : Nat} {slot : Option (Fin MAX_CLIENTS)}
    (nodup : srv.Distinct) (seat : srv.slotOfOrNew task = (slot, server)) :
    server.Distinct ∧ ∀ i c, server.clients i = some c → c.map ≠ none →
      srv.clients i = some c := by
  have spec := srv.slotOfOrNew_spec task nodup
  rw [seat] at spec
  refine ⟨spec.1, fun i c held mapped => ?_⟩
  rcases spec.2 i c held with was | rfl
  · exact was
  · exact absurd rfl mapped

theorem Inv.connect (inv : s.Inv objects) (task : Nat) (reply : Capability) :
    Inv objects { s with server := s.server.connect task reply, accesses := [] } := by
  rcases seat : s.server.slotOfOrNew task with ⟨slot, server⟩
  obtain ⟨nodup, was⟩ := seated inv.distinct seat
  simp only [Server.connect, seat]
  cases slot with
  | none =>
    exact inv.seat inv.sound (.refl _) nodup fun j c held mapped =>
      ⟨c, was j c held mapped, rfl, rfl, rfl⟩
  | some i =>
    refine inv.seat inv.sound (.refl _) (nodup.modify fun _ => rfl) fun j c held mapped => ?_
    rcases Server.modify_clients held with ⟨-, old⟩ | ⟨rfl, d, old, rfl⟩
    · exact ⟨c, was j c old mapped, rfl, rfl, rfl⟩
    · exact ⟨d, was _ d old mapped, rfl, rfl, rfl⟩

theorem Inv.drop (inv : s.Inv objects) (task : Nat) :
    Inv objects { s with server := s.server.dropClient task, accesses := [] } := by
  refine inv.seat inv.sound (.refl _) ?_ fun i c held _ =>
    ⟨c, Server.dropClient_clients held, rfl, rfl, rfl⟩
  intro i j c d first second tasks
  exact inv.distinct i j c d (Server.dropClient_clients first) (Server.dropClient_clients second)
    tasks

theorem Inv.request (inv : s.Inv objects) (vol : Files.Volume) (view : Memory) (req : Request) :
    Confined objects s.host s.registered
      ((Files.dispatch vol view s.server s.files req).spans.map fun sp => (req.client, sp)) := by
  rcases buffer : s.server.clientBuffer req.client with _ | buf
  · intro access mem
    obtain ⟨sp, touched, -⟩ := List.mem_map.mp mem
    obtain ⟨buf, found, -⟩ := Files.dispatch_spans _ _ touched
    simp [buffer] at found
  · obtain ⟨i, c, held, task, mapped, len⟩ := clientBuffer_some buffer
    obtain ⟨id, attached, window⟩ := inv.window i c _ held mapped
    rw [task] at attached
    rw [len] at window
    refine window.confined attached fun access mem => ?_
    obtain ⟨sp, touched, rfl⟩ := List.mem_map.mp mem
    obtain ⟨other, found, sub⟩ := Files.dispatch_spans _ _ touched
    rw [buffer] at found
    cases found
    exact ⟨rfl, sub⟩

theorem Inv.register (inv : s.Inv objects) {task start pages id : Nat} {buf : Capability}
    {i : Fin MAX_CLIENTS} {server : Server} {h : Host}
    (seat : s.server.slotOfOrNew task = (some i, server)) (sound : h.Sound)
    (keeps : s.host.Keeps h) (backed : h.Backed start (objects id).frames)
    (honest : Server.clampPages pages ≤ (objects id).pages) :
    Inv objects { s with
      server := server.modify i fun c =>
        { c with buf := some buf, map := some start, mapLen := Server.clampPages pages * 4096 }
      host := h
      registered := Function.update s.registered task (some id)
      accesses := [] } := by
  obtain ⟨nodup, was⟩ := seated inv.distinct seat
  have slot : server.slotOf task = some i := by
    rw [Server.slotOfOrNew, Prod.mk.injEq] at seat
    rw [← seat.2]
    exact seat.1
  obtain ⟨d, held, own⟩ := Server.slotOf_some slot
  refine ⟨sound, nodup.modify fun _ => rfl, fun j c at_ held' mapped => ?_, confined_nil _ _ _⟩
  rcases Server.modify_clients held' with ⟨ne, old⟩ | ⟨rfl, d', old, rfl⟩
  · have other : c.task ≠ task := fun eq => ne (nodup j i c d old held (eq.trans own.symm))
    rcases inv.window j c at_ (was j c old (by simp [mapped])) mapped with
      ⟨id', attached, window⟩
    exact ⟨id', by simpa [Function.update_of_ne other] using attached, window.keep keeps⟩
  · have eq : d' = d := Option.some.inj (old.symm.trans held)
    cases mapped
    refine ⟨id, by simp [eq, own], backed, ?_⟩
    simp only [FRAME_SIZE]
    omega

theorem Inv.handle (inv : s.Inv objects) {m : Message} {view : Memory} {vol : Files.Volume}
    (honest : s.Honest objects (.message m view vol))
    (ran : s.handle objects m view vol = some s') : s'.Inv objects := by
  simp only [Fs.handle] at ran
  split at ran
  next =>
    split at ran
    next =>
      cases ran
      exact inv.quiet
    next reply _ =>
      cases ran
      exact inv.connect m.sender reply
  split at ran
  next registering =>
    split at ran
    next =>
      cases ran
      exact inv.quiet
    next buf attached =>
      simp only [Server.register] at ran
      rcases seat : s.server.slotOfOrNew m.sender with ⟨_ | i, server⟩
      · rw [seat] at ran
        cases ran
        obtain ⟨nodup, was⟩ := seated inv.distinct seat
        exact inv.seat inv.sound (.refl _) nodup fun j c held mapped =>
          ⟨c, was j c held mapped, rfl, rfl, rfl⟩
      · rw [seat] at ran
        obtain ⟨nodup, was⟩ := seated inv.distinct seat
        rcases called : s.host.memMap objects buf true with _ | ⟨_ | start, h⟩
        · simp [called] at ran
        · simp only [called] at ran
          cases ran
          obtain ⟨sound, keeps, -⟩ := Host.memMap_spec inv.sound called
          refine inv.seat sound keeps (nodup.modify fun _ => rfl) fun j c held mapped => ?_
          rcases Server.modify_clients held with ⟨-, old⟩ | ⟨rfl, d, old, rfl⟩
          · exact ⟨c, was j c old mapped, rfl, rfl, rfl⟩
          · exact absurd rfl mapped
        · obtain ⟨sound, keeps, maps⟩ := Host.memMap_spec inv.sound called
          obtain ⟨id, memory, backed⟩ := maps start rfl
          simp only [called, memory] at ran
          cases ran
          exact inv.register seat sound keeps backed (honest registering buf attached id memory)
  split at ran
  next =>
    cases ran
    exact inv.drop m.sender
  cases ran
  exact ⟨inv.sound, inv.distinct, inv.window, inv.request vol view m.request⟩

theorem Inv.step (inv : s.Inv objects) {action : Action} (honest : s.Honest objects action)
    (ran : Step objects s action s') : s'.Inv objects := by
  cases ran with
  | message handled => exact inv.handle honest handled
  | elsewhere valid =>
    exact ⟨⟨valid, inv.sound.aligned⟩, inv.distinct, fun i c start held mapped =>
      inv.window i c start held mapped |>.imp fun _ facts =>
        ⟨facts.1, facts.2.keep fun _ _ _ found => found⟩, confined_nil _ _ _⟩

theorem inv_start {h : Host} (sound : h.Sound) : (start h).Inv objects :=
  ⟨sound, by rintro _ _ _ _ ⟨⟩, by rintro _ _ _ ⟨⟩, confined_nil _ _ _⟩

end Fs

namespace Net

variable {objects : Nat → MemoryObject} {s s' : Net}

def Transfers (m : Message) : Prop :=
  m.word 0 &&& 0xFFFFFFFF = SEND ∨ m.word 0 &&& 0xFFFFFFFF = RECV ∨
    m.word 0 &&& 0xFFFFFFFF = RESOLVE

instance (m : Message) : Decidable (Transfers m) := inferInstanceAs (Decidable (_ ∨ _))

/-- No client claims more pages than the object it registers has, and a client that asks for a
transfer has itself registered the object used. -/
def Honest (objects : Nat → MemoryObject) (s : Net) : Action → Prop
  | .message m _ =>
    (m.word 0 &&& 0xFFFFFFFF = REGISTER_BUF → ∀ cap ∈ m.cap, ∀ id ∈ cap.memory,
      m.claimed ≤ (objects id).pages) ∧
    (Transfers m → ∀ held ∈ s.holder, s.registered m.sender = some held.2)
  | .elsewhere _ => True

structure Inv (objects : Nat → MemoryObject) (s : Net) : Prop where
  sound : s.host.Sound
  small : ∀ buf, s.buf = some buf → buf.len < 2 ^ 44
  window : ∀ buf, s.buf = some buf →
    ∃ held, s.holder = some held ∧ Window objects s.host buf held.2
  confined : Confined objects s.host s.registered s.accesses

theorem Inv.quiet (inv : s.Inv objects) : Inv objects { s with accesses := [] } :=
  ⟨inv.sound, inv.small, inv.window, confined_nil _ _ _⟩

theorem Inv.area_inside (inv : s.Inv objects) {m : Message} {sp : Span}
    (found : s.area m = some sp) : ∃ buf, s.buf = some buf ∧ sp.Inside buf := by
  obtain ⟨buf, kept, rfl⟩ := Option.map_eq_some_iff.mp found
  obtain ⟨held, fitting⟩ := Option.filter_eq_some_iff.mp kept
  have short := inv.small buf held
  have sum := of_decide_eq_true fitting
  exact ⟨buf, held, by simp, by simp only; omega⟩

theorem Inv.transfer (inv : s.Inv objects) {m : Message} (progress : Nat) {area : Option Span}
    (part : ∀ sp, area = some sp → s.area m = some sp)
    (own : ∀ held ∈ s.holder, s.registered m.sender = some held.2) :
    Inv objects (transfer { s with accesses := [] } m progress area) := by
  cases area with
  | none => exact inv.quiet
  | some sp =>
    obtain ⟨buf, held, low, high⟩ := inv.area_inside (part sp rfl)
    obtain ⟨holder, holds, window⟩ := inv.window buf held
    refine ⟨inv.sound, inv.small, inv.window, window.confined (own holder holds) ?_⟩
    intro access mem
    rw [List.mem_singleton.mp mem]
    exact ⟨rfl, low, by simp only; omega⟩

theorem Inv.handle (inv : s.Inv objects) {m : Message} {progress : Nat}
    (honest : s.Honest objects (.message m progress))
    (ran : s.handle objects m progress = some s') : s'.Inv objects := by
  simp only [Net.handle] at ran
  split at ran
  next registering =>
    split at ran
    next =>
      cases ran
      exact inv.quiet
    next cap attached =>
      rcases called : s.host.memMap objects cap true with _ | ⟨_ | start, h⟩
      · simp [called] at ran
      · simp only [called] at ran
        cases ran
        obtain ⟨sound, keeps, -⟩ := Host.memMap_spec inv.sound called
        refine ⟨sound, inv.small, fun buf held => ?_, confined_nil _ _ _⟩
        obtain ⟨holder, holds, window⟩ := inv.window buf held
        exact ⟨holder, holds, window.keep keeps⟩
      · obtain ⟨sound, keeps, maps⟩ := Host.memMap_spec inv.sound called
        obtain ⟨id, memory, backed⟩ := maps start rfl
        simp only [called, memory] at ran
        cases ran
        have pages := honest.1 registering cap attached id memory
        have bound := m.claimed_lt
        refine ⟨sound, ?_, ?_, confined_nil _ _ _⟩
        · rintro buf ⟨⟩
          simp only
          omega
        rintro buf ⟨⟩
        refine ⟨_, rfl, backed, ?_⟩
        simp only [FRAME_SIZE]
        omega
  split at ran
  next =>
    cases ran
    exact ⟨inv.sound, inv.small, inv.window, confined_nil _ _ _⟩
  split at ran
  next =>
    cases ran
    exact inv.quiet
  split at ran
  next moving =>
    cases ran
    exact inv.transfer progress (fun _ => id) (honest.2 (moving.imp id .inl))
  split at ran
  next resolving =>
    cases ran
    refine inv.transfer progress (fun sp kept => ?_) (honest.2 (.inr (.inr resolving)))
    exact (Option.filter_eq_some_iff.mp kept).1
  split at ran <;>
  · cases ran
    exact inv.quiet

theorem Inv.step (inv : s.Inv objects) {action : Action} (honest : s.Honest objects action)
    (ran : Step objects s action s') : s'.Inv objects := by
  cases ran with
  | message handled => exact inv.handle honest handled
  | elsewhere valid =>
    refine ⟨⟨valid, inv.sound.aligned⟩, inv.small, fun buf held => ?_, confined_nil _ _ _⟩
    obtain ⟨holder, holds, window⟩ := inv.window buf held
    exact ⟨holder, holds, window.keep (.refl _)⟩

theorem inv_start {h : Host} (sound : h.Sound) : (start h).Inv objects :=
  ⟨sound, by rintro _ ⟨⟩, by rintro _ ⟨⟩, confined_nil _ _ _⟩

end Net

/-- While clients are honest about their buffers, whatever either service touches
for a client lies in the object that this client registered. -/
theorem accesses_confined (objects : Nat → MemoryObject) {h : Host} (sound : h.Sound) :
    (∀ actions s, Run (Guarded (Fs.Honest objects) (Fs.Step objects)) (.start h) actions s →
      Confined objects s.host s.registered s.accesses) ∧
    (∀ actions s, Run (Guarded (Net.Honest objects) (Net.Step objects)) (.start h) actions s →
      Confined objects s.host s.registered s.accesses) := by
  constructor
  · intro actions s run
    have inv : s.Inv objects := run.invariant (Fs.Inv objects) (Fs.inv_start sound)
      fun _ _ _ inv ran => inv.step ran.1 ran.2
    exact inv.confined
  · intro actions s run
    have inv : s.Inv objects := run.invariant (Net.Inv objects) (Net.inv_start sound)
      fun _ _ _ inv ran => inv.step ran.1 ran.2
    exact inv.confined

/-! ## Two clients with a page each -/

def onePage (frame : Fin 64) : MemoryObject where
  frames := [frame]
  contiguous := true
  nonempty := by simp
  physical := by simp only [List.mem_singleton, forall_eq, PHYS_FRAMES]; omega
  adjacent _ := ⟨frame, rfl⟩

def twoPages (id : Nat) : MemoryObject := if id = 0 then onePage 40 else onePage 41

def bareHost : Host where
  space := ⟨.node 0 fun _ => .empty, [], USER_MMAP_BASE⟩
  frames := ⟨⟨[0x30000000001#64], 64, 61, 64, 0⟩, [0]⟩

theorem sound_bareHost : bareHost.Sound := ⟨⟨by decide, by decide +kernel⟩, by decide⟩

def registering (task pages id : Nat) : Message where
  sender := task
  words := ![BitVec.ofNat 64 (1 + pages * 2 ^ 32), 0, 0, 0]
  cap := some ⟨.memory id, Rights.MAP_READ.union .MAP_WRITE⟩

def asking (task : Nat) (op first second : BitVec 64) : Message where
  sender := task
  words := ![op, first, second, 0]
  cap := none

def pathAt (off : Nat) : Memory :=
  (Memory.store64 (fun _ => 0) USER_MMAP_BASE off).store64 (USER_MMAP_BASE + 8) 1

def emptyVolume : Files.Volume where
  utf8 _ := true
  splitParent _ := none
  lookup _ _ := .ok none
  entries _ := ([], true)
  stopsAfter _ _ _ := none

theorem honest_accesses_confined :
    (∃ actions s, Run (Guarded (Fs.Honest twoPages) (Fs.Step twoPages))
      (.start bareHost) actions s ∧ (5, ⟨USER_MMAP_BASE + 200, 1⟩) ∈ s.accesses ∧
      Confined twoPages s.host s.registered s.accesses) ∧
    (∃ actions s, Run (Guarded (Net.Honest twoPages) (Net.Step twoPages)) (.start bareHost)
        actions s ∧
      (5, ⟨USER_MMAP_BASE + 200, 4⟩) ∈ s.accesses ∧
      Confined twoPages s.host s.registered s.accesses) := by
  constructor
  · have eval : (((Fs.start bareHost).handle twoPages (registering 5 1 0) (pathAt 200)
        emptyVolume).bind fun s => s.handle twoPages (asking 5 3 16 0) (pathAt 200)
          emptyVolume).any fun s => decide ((5, ⟨USER_MMAP_BASE + 200, 1⟩) ∈ s.accesses) := by
      decide +kernel
    obtain ⟨s, replayed, touched⟩ := exists_of_any eval
    obtain ⟨s₁, first, second⟩ := Option.bind_eq_some_iff.mp replayed
    have claims : (Fs.start bareHost).Honest twoPages
        (.message (registering 5 1 0) (pathAt 200) emptyVolume) := by
      rintro - cap ⟨⟩ id ⟨⟩
      decide
    have asks : s₁.Honest twoPages (.message (asking 5 3 16 0) (pathAt 200) emptyVolume) := by
      rintro - cap ⟨⟩
    have run : Run (Guarded (Fs.Honest twoPages) (Fs.Step twoPages)) (.start bareHost) _ s :=
      .snoc (.snoc .nil ⟨claims, .message first⟩) ⟨asks, .message second⟩
    exact ⟨_, s, run, touched, (accesses_confined twoPages sound_bareHost).1 _ s run⟩
  · have eval : (((Net.start bareHost).handle twoPages (registering 5 1 0) 0).bind fun s =>
        (s.handle twoPages (asking 5 4 200 4) 4).map fun t => (s, t)).any fun (s, t) =>
          decide (s.holder = some (5, 0) ∧ s.registered 5 = some 0 ∧
            (5, ⟨USER_MMAP_BASE + 200, 4⟩) ∈ t.accesses) := by
      decide +kernel
    obtain ⟨⟨s₁, s⟩, replayed, holder, known, touched⟩ := exists_of_any eval
    obtain ⟨_, first, rest⟩ := Option.bind_eq_some_iff.mp replayed
    obtain ⟨_, second, eq⟩ := Option.map_eq_some_iff.mp rest
    cases eq
    have claims : (Net.start bareHost).Honest twoPages (.message (registering 5 1 0) 0) := by
      refine ⟨?_, by rintro - held ⟨⟩⟩
      rintro - cap ⟨⟩ id ⟨⟩
      decide
    have owns : s₁.Honest twoPages (.message (asking 5 4 200 4) 4) := by
      refine ⟨by rintro - cap ⟨⟩, fun _ held holds => ?_⟩
      cases holder.symm.trans holds
      exact known
    have run : Run (Guarded (Net.Honest twoPages) (Net.Step twoPages)) (.start bareHost) _ s :=
      .snoc (.snoc .nil ⟨claims, .message first⟩) ⟨owns, .message second⟩
    exact ⟨_, s, run, touched, (accesses_confined twoPages sound_bareHost).2 _ s run⟩

/-- Task 5 registers its page and claims 4096, then task 6 registers one: the file service reads a
path of task 5 in the page of task 6. The network service, told of two pages, goes on past the
only one, and reads the page of task 5 for task 6, which has registered nothing. -/
theorem claimed_pages_escape :
    (∃ actions s, Run (Fs.Step twoPages) (.start bareHost) actions s ∧
      s.registered 5 = some 0 ∧ s.registered 6 = some 1 ∧
      ∃ sp va, (5, sp) ∈ s.accesses ∧ sp.Covers va ∧
        (leafAt s.host.space va).map Leaf.frame = some 41 ∧
        41 ∉ (twoPages 0).frames ∧ 41 ∈ (twoPages 1).frames) ∧
    (∃ actions s, Run (Net.Step twoPages) (.start bareHost) actions s ∧
      s.registered 5 = some 0 ∧
      ∃ sp va, (5, sp) ∈ s.accesses ∧ sp.Covers va ∧ leafAt s.host.space va = none) ∧
    (∃ actions s, Run (Net.Step twoPages) (.start bareHost) actions s ∧
      s.registered 6 = none ∧
      ∃ sp va, (6, sp) ∈ s.accesses ∧ sp.Covers va ∧
        (leafAt s.host.space va).map Leaf.frame = some 40) := by
  refine ⟨?_, ?_, ?_⟩
  · have eval : (((Fs.start bareHost).handle twoPages (registering 5 4096 0) (pathAt 8192)
        emptyVolume).bind fun s => (s.handle twoPages (registering 6 1 1) (pathAt 8192)
          emptyVolume).bind fun s => s.handle twoPages (asking 5 3 16 0) (pathAt 8192)
            emptyVolume).any fun s => decide (s.registered 5 = some 0 ∧ s.registered 6 = some 1 ∧
          (5, ⟨USER_MMAP_BASE + 8192, 1⟩) ∈ s.accesses ∧
          (leafAt s.host.space (USER_MMAP_BASE + 8192)).map Leaf.frame = some 41) := by
      decide +kernel
    obtain ⟨s, replayed, own, other, touched, reached⟩ := exists_of_any eval
    obtain ⟨s₁, first, rest⟩ := Option.bind_eq_some_iff.mp replayed
    obtain ⟨s₂, second, third⟩ := Option.bind_eq_some_iff.mp rest
    exact ⟨_, s, .snoc (.snoc (.snoc .nil (.message first)) (.message second)) (.message third),
      own, other, _, _, touched, by decide, reached, by decide, by decide⟩
  · have eval : (((Net.start bareHost).handle twoPages (registering 5 2 0) 0).bind fun s =>
        s.handle twoPages (asking 5 4 4096 1) 1).any fun s => decide (s.registered 5 = some 0 ∧
          (5, ⟨USER_MMAP_BASE + 4096, 1⟩) ∈ s.accesses ∧
          leafAt s.host.space (USER_MMAP_BASE + 4096) = none) := by
      decide +kernel
    obtain ⟨s, replayed, own, touched, missing⟩ := exists_of_any eval
    obtain ⟨s₁, first, second⟩ := Option.bind_eq_some_iff.mp replayed
    exact ⟨_, s, .snoc (.snoc .nil (.message first)) (.message second), own, _, _, touched,
      by decide, missing⟩
  · have eval : (((Net.start bareHost).handle twoPages (registering 5 1 0) 0).bind fun s =>
        s.handle twoPages (asking 6 4 0 1) 1).any fun s => decide (s.registered 6 = none ∧
          (6, ⟨USER_MMAP_BASE, 1⟩) ∈ s.accesses ∧
          (leafAt s.host.space USER_MMAP_BASE).map Leaf.frame = some 40) := by
      decide +kernel
    obtain ⟨s, replayed, absent, touched, reached⟩ := exists_of_any eval
    obtain ⟨s₁, first, second⟩ := Option.bind_eq_some_iff.mp replayed
    exact ⟨_, s, .snoc (.snoc .nil (.message first)) (.message second), absent, _, _, touched,
      by decide, reached⟩

end K1K.Service
