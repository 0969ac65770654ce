import K1K.Manifest.Names
import K1K.Spawn.Enough

/-!
# A service has what its manifest line says

For an accepted and started line, the new task has what the line names, in order, and finds
each under its name.
-/

namespace K1K.Manifest

open K1K.Lib K1K.Lib.Text K1K.Obj K1K.Syscall K1K.Loader K1K.Spawn

/-! ## Reading the arguments back -/

theorem View.read_eq {view : View} {start : Nat} {bytes : List Byte}
    (holds : ∀ i byte, bytes[i]? = some byte → view (start + i) = some byte) :
    view.read start bytes.length = some bytes := by
  refine mapM_eq_some_iff.mpr (List.ext_getElem? fun i => ?_)
  rcases Nat.lt_or_ge i bytes.length with inside | beyond
  · have found := List.getElem?_eq_getElem inside
    simp [holds i _ found, inside]
  · simp [beyond]

theorem args_eq {view : View} {task : BitVec 32} {text : Text}
    (ascii : ∀ c ∈ text, 0 < c.toNat ∧ c.toNat < 0x80)
    (brief : (encodeUtf8 text).length ≤ MAX_BOOT_ARGS)
    (holds : ∀ i byte, (wordsToBytes (bootWords task (encodeUtf8 text).length) ++
      encodeUtf8 text)[i]? = some byte → view (USER_INFO_BASE + i) = some byte) :
    args view = some text := by
  have size : (wordsToBytes (bootWords task (encodeUtf8 text).length)).length = 56 := by
    rw [length_wordsToBytes]
    rfl
  have head : view.read USER_INFO_BASE 56 =
      some (wordsToBytes (bootWords task (encodeUtf8 text).length)) := by
    rw [← size]
    refine View.read_eq fun i byte found => holds i byte ?_
    rw [List.getElem?_append_left (List.getElem?_eq_some_iff.mp found).1]
    exact found
  have tail : view.read (USER_INFO_BASE + 56) (encodeUtf8 text).length =
      some (encodeUtf8 text) := by
    refine View.read_eq fun i byte found => ?_
    rw [Nat.add_assoc]
    refine holds (56 + i) byte ?_
    rw [List.getElem?_append_right (by omega), size, Nat.add_sub_cancel_left]
    exact found
  have magic : wordOf (wordsToBytes (bootWords task (encodeUtf8 text).length)) 0 =
      BOOT_INFO_MAGIC := wordOf_wordsToBytes rfl
  have layout : wordOf (wordsToBytes (bootWords task (encodeUtf8 text).length)) 1 =
      BOOT_INFO_LAYOUT := wordOf_wordsToBytes rfl
  have length : wordOf (wordsToBytes (bootWords task (encodeUtf8 text).length)) 6 =
      BitVec.ofNat 64 (encodeUtf8 text).length := wordOf_wordsToBytes rfl
  have count : min (BitVec.ofNat 64 (encodeUtf8 text).length).toNat MAX_BOOT_ARGS =
      (encodeUtf8 text).length := by
    simp only [MAX_BOOT_ARGS] at brief ⊢
    rw [BitVec.toNat_ofNat]
    omega
  have unpadded : text.rdropWhile (· == '\x00') = text := by
    rw [List.rdropWhile_eq_self_iff]
    intro nonempty last
    have range := ascii _ (List.getLast_mem nonempty)
    rw [beq_iff_eq.mp last] at range
    exact absurd range.1 (by decide)
  have decoded := decodeUtf8_encodeUtf8 fun c mem => (ascii c mem).2
  simp only [args, head, Option.bind_eq_bind, Option.bind_some, magic, layout, and_self, if_true,
    length, count, tail, decoded, Option.getD_some, unpadded]
  rfl

/-! ## From the line to the task -/

theorem toOption_resolve (cap : Text) : (resolve cap).toOption = namedGrant cap := by
  unfold resolve
  split
  next known => rw [known]; rfl
  next unknown => rw [unknown]; rfl

theorem startOne_ok {find : Text → Except Text Meta}
    {stage : Meta → Except Text (BitVec 32 × BitVec 64)} {entry : Entry} {request : Request}
    (prepared : startOne find stage entry = .ok request) :
    request.name = entry.name ∧ entry.caps.map namedGrant = request.grants.map some ∧
      request.args = argText entry.name entry.caps := by
  unfold startOne at prepared
  simp only [except_bind_ok] at prepared
  obtain ⟨file, -, _, -, grants, resolved, staged, -, returned⟩ := prepared
  cases returned
  refine ⟨rfl, ?_, by rw [capsArg_eq]; rfl⟩
  have each := congrArg (List.map Except.toOption) (except_mapM_ok.mp resolved)
  rw [List.map_map, List.map_map] at each
  exact (List.map_congr_left fun cap _ => (toOption_resolve cap).symm).trans each

def Request.pairs (r : Request) : List (BitVec 64 × BitVec 64) :=
  r.grants.map fun g => (g.cap.setWidth 64, g.rights.bits.setWidth 64)

variable {profile : Overflow} {half : Fin 512 → Mm.Table 3} {k k' : Kernel} {request : Request}
  {id : BitVec 32}

theorem SpawnWith.task (started : SpawnWith profile half k request (.ok id) k') :
    ∃ task caps, k'.tasks id = some task ∧ task.caps = Authority.fill caps ∧
      request.grants.length ≤ MAX_SPAWN_GRANTS ∧ request.argBytes.length ≤ MAX_BOOT_ARGS ∧
      request.grants.map (fun g => k.caps.derive g.cap.toNat g.rights) = caps.map some ∧
      ∀ i byte, (wordsToBytes (bootWords id request.argBytes.length) ++ request.argBytes)[i]? =
        some byte → taskReads task.space k'.mem (USER_INFO_BASE + i) = some byte := by
  generalize outcome : (Except.ok id : Except Errno (BitVec 32)) = result at started
  cases started with
  | refused => simp at outcome
  | @called desc name args result _ grants brief descAt nameAt argsAt returned =>
    cases result with
    | error e => simp [Except.map] at outcome
    | ok word =>
      obtain ⟨spec, taskId, asked, rfl, spawned⟩ := Kernel.sysSpawnDesc_ok returned
      have eq : taskId = id := by
        simp only [Except.map, Except.ok.injEq] at outcome
        rw [outcome]
        bv_omega
      subst eq
      have named : request.nameBytes.length ≤ 32 := by
        rw [Request.nameBytes, List.length_take]
        exact Nat.min_le_left _ _
      have counted : request.pairs.length = request.grants.length := by simp [Request.pairs]
      have words : request.grants.flatMap
          (fun g => [g.cap.setWidth 64, g.rights.bits.setWidth 64]) =
          request.pairs.flatMap fun pair => [pair.1, pair.2] := by
        rw [Request.pairs, List.flatMap_map]
      rw [Request.descriptor, words, ← counted] at descAt
      obtain ⟨-, sameArgs, derived⟩ :=
        Kernel.spawnDescRequest_ok descAt nameAt argsAt named (counted ▸ grants) brief asked
      obtain ⟨task, before, st, published, caps, space, mem, written⟩ :=
        Kernel.spawnFromImage_task spawned
      refine ⟨task, spec.grants, published, caps, grants, brief, ?_, fun i byte found => ?_⟩
      · rw [← derived, Request.pairs, List.map_map]
        refine List.map_congr_left fun g _ => ?_
        have narrow : ∀ word : BitVec 32, (word.setWidth 64).setWidth 32 = word := by
          intro word
          bv_omega
        simp only [Function.comp_apply, Kernel.slotOf, narrow]
      · rw [space, mem]
        rw [sameArgs] at written
        exact writeBootInfo_reads brief written found

theorem get_fill {caps : List Capability} (few : caps.length ≤ MAX_SPAWN_GRANTS) (i : Nat) :
    (Authority.fill caps).get i = caps[i]? := by
  have all : caps.take MAX_SLOTS = caps :=
    List.take_of_length_le (Nat.le_trans few (by decide))
  rw [CapTable.get, (Authority.fill_slots caps).1, all, List.getElem?_map]
  cases caps[i]? <;> rfl

theorem derive_some {table : CapTable} {slot : Nat} {mask : Rights} {cap : Capability}
    (derived : table.derive slot mask = some cap) :
    ∃ own, table.get slot = some own ∧ cap = ⟨own.object, own.rights.intersect mask⟩ := by
  obtain ⟨own, looked, rfl⟩ := Option.map_eq_some_iff.mp derived
  exact ⟨own, (Option.filter_eq_some_iff.mp looked).1, rfl⟩

/-- What a line with these names promises to a task: in the slots from 0 on the file service's
capabilities, restricted to the rights of the names, nothing in any other slot, and for each name
the slot where it stands first. -/
structure Provides (k : Kernel) (caps : List Text) (task : Spawn.Task) (mem : Memory) : Prop where
  held : ∀ i name, caps[i]? = some name → ∃ grant own, namedGrant name = some grant ∧
    k.caps.get grant.cap.toNat = some own ∧
    task.caps.get i = some ⟨own.object, own.rights.intersect grant.rights⟩
  nothingElse : ∀ i, caps.length ≤ i → task.caps.get i = none
  found : ∀ name, granted (taskReads task.space mem) name =
    some ((caps.idxOf? name).map (BitVec.ofNat 32))

/-- Every line of every manifest that is accepted and started. -/
theorem started_provides {text : Text} {entry : Entry} {find : Text → Except Text Meta}
    {stage : Meta → Except Text (BitVec 32 × BitVec 64)} (accepted : entry ∈ (parse text).entries)
    (prepared : startOne find stage entry = .ok request)
    (started : SpawnWith profile half k request (.ok id) k') :
    ∃ task, k'.tasks id = some task ∧ Provides k entry.caps task k'.mem := by
  obtain ⟨raw, line, parsed⟩ := parseLine_of_mem accepted
  have visible := (graphic_of_validName (validName_of_parseLine parsed)).1
  obtain ⟨-, resolved, text⟩ := startOne_ok prepared
  obtain ⟨task, caps, published, table, few, brief, derived, page⟩ := started.task
  have sameLength : caps.length = entry.caps.length := by
    have first := congrArg List.length derived
    have second := congrArg List.length resolved
    simp only [List.length_map] at first second
    omega
  have grantsLength : request.grants.length = caps.length := by
    simpa using congrArg List.length derived
  have plain : ∀ cap ∈ entry.caps, Plain cap := by
    intro cap mem
    have listed : namedGrant cap ∈ request.grants.map some := by
      rw [← resolved]
      exact List.mem_map_of_mem mem
    obtain ⟨grant, -, known⟩ := List.mem_map.mp listed
    exact plain_of_named known.symm
  have get : ∀ i, task.caps.get i = caps[i]? := by
    rw [table]
    exact get_fill (grantsLength ▸ few)
  refine ⟨task, published, fun i name listed => ?_, fun i beyond => ?_, fun name => ?_⟩
  · have here := congrArg (fun list => list[i]?) resolved
    simp only [List.getElem?_map, listed, Option.map_some] at here
    obtain ⟨grant, given, known⟩ := Option.map_eq_some_iff.mp here.symm
    have there := congrArg (fun list => list[i]?) derived
    simp only [List.getElem?_map, given, Option.map_some] at there
    obtain ⟨cap, held, taken⟩ := Option.map_eq_some_iff.mp there.symm
    obtain ⟨own, owned, rfl⟩ := derive_some taken.symm
    exact ⟨grant, own, known.symm, owned, by rw [get, held]⟩
  · rw [get, List.getElem?_eq_none (by omega)]
  · have ascii := ascii_argText visible plain
    have read : args (taskReads task.space k'.mem) = some (argText entry.name entry.caps) := by
      rw [Request.argBytes, text] at brief page
      exact args_eq ascii brief page
    have fits : entry.caps.length ≤ 2 ^ 32 := by
      simp only [MAX_SPAWN_GRANTS] at few
      omega
    rw [granted, arg, read, Option.map_some, Option.map_some, findArg_caps visible plain,
      Option.bind_some, findSlot_capsText name plain fits]

/-! A shell that is given the file service and the console. One page of the file
service is mapped, and in it are the descriptor, the name and the arguments. -/

def shell : Entry := ⟨"sh".toList, "SH.ELF".toList, ["fs".toList, "console".toList], 1⟩

def shellRequest : Request :=
  ⟨7, 176, "sh".toList, [⟨CALL, .SEND⟩, ⟨CONSOLE, .MAP_WRITE⟩], argText shell.name shell.caps⟩

def shellMemory (a : Nat) : Byte :=
  if a < 0x5100 then
    (wordsToBytes (shellRequest.descriptor 0x1100 0x1200)).getD (a - 0x5000) 0
  else if a < 0x5200 then shellRequest.nameBytes.getD (a - 0x5100) 0
  else if a < 0x6000 then shellRequest.argBytes.getD (a - 0x5200) 0
  else tinyImage.getD (a - 0x6000) 0

def serviceTable : CapTable :=
  Authority.fill [⟨.endpoint 0, .SEND⟩, ⟨.control, .union .SPAWN .GRANT⟩, ⟨.endpoint 2, .RECV⟩,
    ⟨.endpoint 3, .union .SEND .GRANT⟩, ⟨.endpoint 4, .union .RECV .GRANT⟩,
    ⟨.console, .union .MAP_WRITE .GRANT⟩, ⟨.endpoint 6, .union .SEND .GRANT⟩,
    ⟨.memory 0, .union .MAP_READ .MAP_WRITE⟩]

def fileService : Kernel where
  services := []
  tasks _ := none
  nextId := 1
  frames := ⟨⟨0x6f :: List.replicate 99 0, 6400, 6394, 6400, 4⟩, []⟩
  mem := shellMemory
  objects _ := some [6]
  space := ⟨(Mm.mapTo (.node 0 fun _ => .empty) 1 ⟨5, dataFlags⟩
    ⟨⟨[0x61#64], 16, 13, 16, 0⟩, []⟩).2.1, [], Mm.USER_MMAP_BASE⟩
  caps := serviceTable

def shellSpec : ServiceSpec :=
  ⟨encodeUtf8 "sh".toList, tinyImage, [⟨.endpoint 3, .SEND⟩, ⟨.console, .MAP_WRITE⟩],
    shellRequest.argBytes⟩

theorem shell_asks : fileService.spawnDescRequest 0x1000 = .ok shellSpec := by decide +kernel

def newSpace : Option Mm.AddressSpace × Mm.Frames :=
  Mm.AddressSpace.new (fun _ => .empty) fileService.frames

open Mm.Bitmap (clearBits clearBits_eq lowest isUsed_eq)

theorem valid_of_full {b : Mm.Bitmap} (full : b.frames = 64 * b.bits.length)
    (counted : b.free = (clearBits b.bits 0).length) : b.Valid := by
  have eq : b.lowest = clearBits b.bits 0 := by
    rw [clearBits_eq, lowest, full, List.range_eq_range']
    exact List.filter_congr fun i _ => by simp [isUsed_eq]
  exact ⟨full.le, eq ▸ counted⟩

theorem shell_loads : ∃ space st, newSpace.1 = some space ∧
    load .panics tinyImage ⟨space, newSpace.2, fileService.mem⟩ = some (.ok 0x400010, st) ∧
    Roomy st := by
  have eval : newSpace.1.any (fun space =>
      (load .panics tinyImage ⟨space, newSpace.2, fileService.mem⟩).any fun outcome =>
        decide (outcome.1 = .ok 0x400010 ∧
          outcome.2.frames.map.frames = 64 * outcome.2.frames.map.bits.length ∧
          outcome.2.frames.map.free = (clearBits outcome.2.frames.map.bits 0).length ∧
          Vacant outcome.2 ((USER_STACK_TOP - USER_STACK_PAGES * 4096) / Mm.FRAME_SIZE)
            USER_STACK_PAGES ∧
          Vacant outcome.2 (USER_HEAP_BASE / Mm.FRAME_SIZE) USER_HEAP_PAGES ∧
          Vacant outcome.2 (USER_INFO_BASE / Mm.FRAME_SIZE) 1 ∧
          5 * USER_STACK_PAGES + 5 * USER_HEAP_PAGES + 5 ≤ outcome.2.frames.map.free)) = true := by
    decide +kernel
  obtain ⟨space, made, eval⟩ := (Option.any_eq_true _ _).mp eval
  obtain ⟨⟨result, st⟩, loaded, rfl, full, counted, stack, heap, info, enough⟩ :=
    exists_of_any eval
  exact ⟨space, st, made, loaded, valid_of_full full counted, stack, heap, info, enough⟩

theorem shell_started : ∃ k', fileService.spawnFromImage .panics (fun _ => .empty) shellSpec =
    some (some 1, k') := by
  obtain ⟨space, st, made, loaded, roomy⟩ := shell_loads
  have numbered : Overflow.panics.add fileService.nextId 1 = some 2 := by decide
  have fresh : newSpace = (some space, newSpace.2) := by
    generalize newSpace = pair at made
    rw [← made]
  have named : shellSpec.name ≠ [] := by decide
  have graphic : shellSpec.name.all Kernel.isAsciiGraphic = true := by decide
  exact spawnFromImage_succeeds named graphic (by decide) numbered fresh loaded roomy

theorem shell_spawned : ∃ k',
    fileService.sysSpawnDesc .panics (fun _ => .empty) 0x1000 0 = some (.ok 1, k') := by
  obtain ⟨k', spawned⟩ := shell_started
  exact ⟨k', sysSpawnDesc_succeeds shell_asks spawned⟩

theorem shell_provided : ∃ k' task, shell ∈ (parse "sh SH.ELF fs,console".toList).entries ∧
    SpawnWith .panics (fun _ => .empty) fileService shellRequest (.ok 1) k' ∧
    k'.tasks 1 = some task ∧ Provides fileService shell.caps task k'.mem := by
  have accepted : shell ∈ (parse "sh SH.ELF fs,console".toList).entries := by decide +kernel
  have prepared : startOne (fun _ => .ok ⟨false, 176⟩) (fun _ => .ok (7, 176)) shell =
      .ok shellRequest := by
    rfl
  have descAt : fileService.Stores 0x1000
      (wordsToBytes (shellRequest.descriptor 0x1100 0x1200)) := by
    unfold Kernel.Stores
    decide +kernel
  have nameAt : fileService.Stores 0x1100 shellRequest.nameBytes := by
    unfold Kernel.Stores
    decide +kernel
  have argsAt : fileService.Stores 0x1200 shellRequest.argBytes := by
    unfold Kernel.Stores
    decide +kernel
  obtain ⟨k', returned⟩ := shell_spawned
  have started : SpawnWith .panics (fun _ => .empty) fileService shellRequest (.ok 1) k' :=
    .called (by decide) (by decide +kernel) descAt nameAt argsAt returned
  obtain ⟨task, published, provides⟩ := started_provides accepted prepared started
  exact ⟨k', task, accepted, started, published, provides⟩

end K1K.Manifest
