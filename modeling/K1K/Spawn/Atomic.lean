import K1K.Spawn.Enough

/-!
# What a failed spawn leaves behind

Nothing undoes the stages before an early exit. Once the service is registered its entry stays,
whether or not a task could be built; and once the task is published it stays, whether or not
the receipt can be written.
-/

namespace K1K.Spawn

open K1K.Lib K1K.Mm K1K.Obj K1K.Loader K1K.Syscall

inductive Call where
  | spawn (ctl mem size name : BitVec 64)
  | spawnDesc (desc receipt : BitVec 64)
  deriving DecidableEq, Repr

def Call.receipt : Call → BitVec 64
  | .spawn _ _ _ _ => 0
  | .spawnDesc _ receipt => receipt

namespace Kernel

variable (profile : Overflow) (half : Fin 512 → Table 3)

def call (k : Kernel) : Call → Option (Except Errno (BitVec 64) × Kernel)
  | .spawn ctl mem size name => k.sysSpawn profile half ctl mem size name
  | .spawnDesc desc receipt => k.sysSpawnDesc profile half desc receipt

def request (k : Kernel) : Call → Except Errno ServiceSpec
  | .spawn ctl mem size name => k.spawnRequest ctl mem size name
  | .spawnDesc desc _ => k.spawnDescRequest desc

/-- The call gets as far as registering its service. -/
def Registers (k : Kernel) (call : Call) (spec : ServiceSpec) : Prop :=
  k.request call = .ok spec ∧ spec.name ≠ [] ∧ spec.name.all isAsciiGraphic = true ∧
    k.services.length < Supervisor.MAX_SERVICES

/-- There is a frame for the address space, and the image loads into it and leaves frames and room
for the rest. -/
def Startable (k : Kernel) (spec : ServiceSpec) : Prop :=
  ∃ space fr entry st, AddressSpace.new half k.frames = (some space, fr) ∧
    load profile spec.image ⟨space, fr, k.mem⟩ = some (.ok entry, st) ∧ Roomy st

/-- If the call registers a service, its image and the free frames will do, and the receipt, if one
is wanted, lies in mapped memory. -/
structure Completes (k : Kernel) (call : Call) : Prop where
  startable : ∀ spec, k.Registers call spec → k.Startable profile half spec
  receipt : ∀ spec, k.Registers call spec → call.receipt ≠ 0 →
    Readable k.space call.receipt.toNat 72

structure Unchanged (k k' : Kernel) : Prop where
  tasks : k'.tasks = k.tasks
  services : k'.services.length = k.services.length

variable {profile half} {k k₁ k' : Kernel} {spec : ServiceSpec}

theorem spawn_frame {idx : Nat} {started : Option (BitVec 32)}
    (ran : k.spawn profile half idx = some (started, k')) :
    k'.space = k.space ∧ k'.services.length = k.services.length := by
  unfold spawn at ran
  split at ran
  next => cases ran; exact ⟨rfl, rfl⟩
  split at ran
  next => simp at ran
  split at ran
  next => cases ran; exact ⟨rfl, rfl⟩
  split at ran
  next => simp at ran
  next => cases ran; exact ⟨rfl, rfl⟩
  next => cases ran; exact ⟨rfl, by simp [publish]⟩

theorem spawnFromImage_unregistered {call : Call} (requested : k.request call = .ok spec)
    (refused : ¬k.Registers call spec) :
    k.spawnFromImage profile half spec = some (none, k) := by
  unfold spawnFromImage
  split
  next => rfl
  next named =>
    rw [not_or, Bool.not_eq_false] at named
    have full : ¬k.services.length < Supervisor.MAX_SERVICES := fun room =>
      refused ⟨requested, named.1, named.2, room⟩
    rw [register, if_pos (Nat.not_lt.mp full)]

theorem spawnFromImage_registered {call : Call} {started : Option (BitVec 32)}
    (registers : k.Registers call spec)
    (ran : k.spawnFromImage profile half spec = some (started, k')) :
    k'.space = k.space ∧ k'.services.length = k.services.length + 1 ∧
      (k.Startable profile half spec → started ≠ none) := by
  obtain ⟨-, named, graphic, room⟩ := registers
  have known : k.register spec =
      some (k.services.length, { k with services := k.services ++ [⟨spec, none⟩] }) :=
    if_neg (Nat.not_le.mpr room)
  have spawned := ran
  rw [spawnFromImage, if_neg (by simp [named, graphic]), known] at spawned
  obtain ⟨space, services⟩ := spawn_frame spawned
  refine ⟨space, by simpa using services, ?_⟩
  rintro ⟨fresh, fr, entry, st, made, loaded, roomy⟩ rfl
  cases numbered : profile.add k.nextId 1 with
  | none =>
    simp only [spawn, getElem?_register known, numbered] at spawned
    cases spawned
  | some nextId =>
    obtain ⟨_, succeeds⟩ :=
      spawnFromImage_succeeds named graphic room numbered made loaded roomy
    cases ran.symm.trans succeeds

theorem writeReceipt_ok {ptr : BitVec 64} (readable : Readable k.space ptr.toNat 72)
    (task : BitVec 32) (grants : Nat) : (k.writeReceipt ptr task grants).1 = true := by
  have size : (wordsToBytes (k.receiptWords task grants)).length = 72 := by
    rw [length_wordsToBytes]
    simp [receiptWords, MAX_SPAWN_GRANTS]
  have range : userRangeOk ptr.toNat 72 = true :=
    userRangeOk_iff.mpr ⟨readable.short, readable.inside⟩
  have copied := (copyBytes_ok_iff ptr.toNat (wordsToBytes (k.receiptWords task grants))
    ⟨k.mem, []⟩).mpr (by rw [size]; exact readable.mapped)
  simp only [writeReceipt, copyToUser_eq, size, range, if_true, copied]
  rfl

variable (profile half) in
def Fails (k : Kernel) (call : Call) (k' : Kernel) : Prop :=
  ∃ e, k.call profile half call = some (.error e, k')

theorem call_refused {call : Call} {e : Errno} (refused : k.request call = .error e) :
    k.call profile half call = some (.error e, k) := by
  cases call with
  | spawn ctl mem size name =>
    have asked : k.spawnRequest ctl mem size name = .error e := refused
    simp only [Kernel.call, sysSpawn, asked]
  | spawnDesc desc receipt =>
    have asked : k.spawnDescRequest desc = .error e := refused
    simp only [Kernel.call, sysSpawnDesc, asked]

/-- A call that fails was refused before it registered a service, or one is left behind. -/
theorem fails_cases {call : Call} (failed : k.Fails profile half call k') :
    k' = k ∧ (∀ spec, ¬k.Registers call spec) ∨
      k'.services.length = k.services.length + 1 ∧ ¬k.Completes profile half call := by
  cases requested : k.request call with
  | error e =>
    obtain ⟨_, failed⟩ := failed
    cases failed.symm.trans (call_refused requested)
    refine .inl ⟨rfl, fun spec registers => ?_⟩
    cases requested.symm.trans registers.1
  | ok spec =>
    by_cases registers : k.Registers call spec
    · obtain ⟨e, failed⟩ := failed
      refine .inr ?_
      have stays (k₁ : Kernel) (ran : k.spawnFromImage profile half spec = some (none, k₁)) :
          k₁.services.length = k.services.length + 1 ∧ ¬k.Completes profile half call := by
        obtain ⟨-, grown, starts⟩ := spawnFromImage_registered registers ran
        exact ⟨grown, fun completes => starts (completes.startable spec registers) rfl⟩
      cases call with
      | spawn ctl mem size name =>
        have asked : k.spawnRequest ctl mem size name = .ok spec := requested
        simp only [Kernel.call, sysSpawn, asked] at failed
        split at failed
        next => simp at failed
        next k₁ ran => cases failed; exact stays _ ran
        next => simp at failed
      | spawnDesc desc receipt =>
        have asked : k.spawnDescRequest desc = .ok spec := requested
        simp only [Kernel.call, sysSpawnDesc, asked] at failed
        split at failed
        next => simp at failed
        next k₁ ran => cases failed; exact stays _ ran
        next id k₁ ran =>
          obtain ⟨space, grown, -⟩ := spawnFromImage_registered registers ran
          split at failed
          next => simp at failed
          next wanted =>
            split at failed
            next => simp at failed
            next unwritten =>
              cases failed
              refine ⟨grown, fun completes => unwritten (writeReceipt_ok ?_ _ _)⟩
              rw [space]
              exact completes.receipt spec registers wanted
    · refine .inl ⟨?_, fun other taken => ?_⟩
      · have nothing := @spawnFromImage_unregistered profile half _ _ _ requested registers
        obtain ⟨e, failed⟩ := failed
        cases call with
        | spawn ctl mem size name =>
          have asked : k.spawnRequest ctl mem size name = .ok spec := requested
          simp only [Kernel.call, sysSpawn, asked, nothing] at failed
          cases failed
          rfl
        | spawnDesc desc receipt =>
          have asked : k.spawnDescRequest desc = .ok spec := requested
          simp only [Kernel.call, sysSpawnDesc, asked, nothing] at failed
          cases failed
          rfl
      · cases requested.symm.trans taken.1
        exact registers taken

theorem completes_of_unregistered {call : Call} (never : ∀ spec, ¬k.Registers call spec) :
    k.Completes profile half call :=
  ⟨fun spec registers => (never spec registers).elim,
    fun spec registers => (never spec registers).elim⟩

theorem completes_of_length {calls : List Call} (run : Run (Fails profile half) k calls k')
    (eq : k'.services.length = k.services.length) :
    Run (Guarded (Completes profile half) (Fails profile half)) k calls k' := by
  induction run with
  | nil => exact .nil
  | snoc before failed ih =>
    have grown := before.invariant (fun reached => k.services.length ≤ reached.services.length)
      le_rfl fun _ _ _ le failed => by
        rcases fails_cases failed with ⟨rfl, -⟩ | ⟨more, -⟩
        · exact le
        · omega
    rcases fails_cases failed with ⟨rfl, never⟩ | ⟨more, -⟩
    · exact .snoc (ih eq) ⟨completes_of_unregistered never, failed⟩
    · omega

def mapped : Except Radix.InsertError Unit × Table 4 × Frames :=
  mapTo (.node 0 fun _ => .empty) 1 ⟨5, ⟨true, true, false, false, false⟩⟩
    ⟨⟨[0x61#64], 16, 13, 16, 0⟩, []⟩

def powerless : Kernel :=
  ⟨[], fun _ => none, 1, mapped.2.2, fun _ => 0x61, fun _ => some [6],
    ⟨mapped.2.1, [], USER_MMAP_BASE⟩, .new⟩

def spawner : Kernel :=
  { powerless with caps := ⟨[some ⟨.control, .SPAWN⟩, some ⟨.memory 0, .MAP_READ⟩],
    [false, false]⟩ }

def failed (k : Kernel) (call : Call) : Option Kernel :=
  match k.call .panics (fun _ => .empty) call with
  | some (.error _, k') => some k'
  | _ => none

theorem fails_of_failed {call : Call} (left : k.failed call = some k') :
    k.Fails .panics (fun _ => .empty) call k' := by
  unfold failed at left
  split at left
  next e k₁ ran =>
    cases left
    exact ⟨e, ran⟩
  next => simp at left

end Kernel

end K1K.Spawn
