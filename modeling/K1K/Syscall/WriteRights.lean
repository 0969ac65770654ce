import K1K.Mm.Teardown
import K1K.Syscall.Machine

/-!
# What a task's calls can write

Each frame belongs to the task's address space, to a device or to one memory object, and is then
not free. Every page of the task leads to such a frame, a writable one to an object only if the
task passed the check for `MAP_WRITE`.
-/

namespace K1K.Syscall

open K1K.Lib K1K.Mm K1K.Obj

/-- The part of a call's arguments that names a buffer to be written, with the
length of what is written there. -/
def Call.buffer : Call → Option (Nat × Nat)
  | .recv _ buf _ _ => some (buf, 32)
  | .info buf _ => some (buf, 16)
  | .devInfo _ buf => some (buf, 112)
  | .devConfig _ buf _ => some (buf, 256)
  | .spawnDesc receipt _ _ _ => if receipt ≠ 0 then some (receipt, 72) else none
  | _ => none

namespace Machine

/-- Buffers are writable for the task, contiguous objects are made where the
allocator serves them, and no object goes while a page of the task leads to it. -/
def Fair (m : Machine) : Event → Prop
  | .call (.memCreate pages dma _) => dma = true → m.frames.map.LowestAdjacent pages
  | .call call => ∀ ptr len, call.buffer = some (ptr, len) → userRangeOk ptr len = true →
    BufferWritable m.space ptr len
  | .release id => ∀ page, page < USER_PAGES → ∀ leaf, translate m.space.pml4 page = some leaf →
    ∀ frames, m.objects id = some frames → leaf.frame ∉ frames
  | _ => True

structure Sane (mmio : Nat → Bool) (m : Machine) : Prop where
  valid : m.frames.map.Valid
  busy : ∀ holder frame, m.Holds mmio holder frame → ¬m.frames.map.Free frame
  single : ∀ holder other frame, m.Holds mmio holder frame → m.Holds mmio other frame →
    holder = other
  whole : ∀ id frames, m.objects id = some frames →
    frames.Nodup ∧ ∀ frame ∈ frames, frame < m.frames.map.frames
  mapped : ∀ page, page < USER_PAGES → ∀ leaf, translate m.space.pml4 page = some leaf →
    ∃ holder, m.Holds mmio holder leaf.frame ∧
      ∀ id, holder = .object id → leaf.flags.writable = true → id ∈ m.opened

variable {mmio : Nat → Bool} {m m' : Machine}

structure Lawful (mmio : Nat → Bool) (m m' : Machine) : Prop where
  sane : m'.Sane mmio
  bytes : ∀ id a, id ∉ m.opened → m.Holds mmio (.object id) (a / FRAME_SIZE) → m'.mem a = m.mem a
  touched : ∀ va ∈ m'.touched, writableAt m.space va = true
  opened : ∀ id ∈ m'.opened, id ∈ m.opened ∨ ∃ slot cap,
    m.caps.lookup slot (Rights.MAP_READ.union .MAP_WRITE) = some cap ∧ cap.memory = some id

/-! ## Steps that leave the allocator and the tables alone -/

theorem Sane.congr (sane : m.Sane mmio) (frames : m'.frames = m.frames) (space : m'.space = m.space)
    (objects : m'.objects = m.objects) (opened : m'.opened = m.opened) : m'.Sane mmio := by
  have holds : ∀ holder frame, m'.Holds mmio holder frame ↔ m.Holds mmio holder frame := by
    intro holder frame
    cases holder <;> simp only [Holds, frames, objects]
  refine ⟨?_, ?_, ?_, ?_, ?_⟩
  · rw [frames]
    exact sane.valid
  · simpa only [holds, frames] using sane.busy
  · simpa only [holds] using sane.single
  · simpa only [frames, objects] using sane.whole
  · simpa only [holds, space, opened] using sane.mapped

theorem Lawful.refl (sane : m.Sane mmio) (quiet : m.touched = []) : Lawful mmio m m :=
  ⟨sane, fun _ _ _ _ => rfl, by simp [quiet], fun _ => .inl⟩

theorem Lawful.withCaps (lawful : Lawful mmio m m') (caps : CapTable) :
    Lawful mmio m { m' with caps := caps } :=
  ⟨lawful.sane.congr rfl rfl rfl rfl, lawful.bytes, lawful.touched, lawful.opened⟩

theorem Lawful.insertCap (lawful : Lawful mmio m m') (cap : Capability) :
    Lawful mmio m (m'.insertCap cap).2 := by
  unfold Machine.insertCap
  split
  next slot caps _ => exact lawful.withCaps caps
  next => exact lawful

/-! ## Copies -/

theorem Sane.writable_apart (sane : m.Sane mmio) {id va a : Nat} (closed : id ∉ m.opened)
    (small : va < USER_TOP) (writable : writableAt m.space va = true)
    (held : m.Holds mmio (.object id) (a / FRAME_SIZE)) : translateUser m.space va ≠ some a := by
  intro leads
  obtain ⟨leaf, found, rfl⟩ := Option.map_eq_some_iff.mp leads
  have frame : (leaf.frame * FRAME_SIZE + va % FRAME_SIZE) / FRAME_SIZE = leaf.frame := by
    simp only [FRAME_SIZE]
    omega
  have page : va / FRAME_SIZE < USER_PAGES := by
    simp only [FRAME_SIZE, USER_PAGES, USER_TOP] at *
    omega
  rw [frame] at held
  rw [writableAt, found, Option.any_some] at writable
  obtain ⟨holder, holds, open'⟩ := sane.mapped _ page leaf found
  exact closed (open' id (sane.single _ _ _ holds held) writable)

theorem Lawful.copyOut (lawful : Lawful mmio m m') (space : m'.space = m.space)
    (objects : m'.objects = m.objects) (opened : m'.opened = m.opened) {ptr : Nat}
    {data : List Byte} (writable : userRangeOk ptr data.length = true →
      BufferWritable m.space ptr data.length) : Lawful mmio m (m'.copyOut ptr data).2 := by
  have written : ∀ va, va ∈ (copyToUser m'.space m'.mem ptr data).2.touched →
      writableAt m.space va = true := by
    rw [space]
    exact (copyToUser_writes_writable_iff m'.mem ptr data).mpr writable
  refine ⟨lawful.sane.congr rfl rfl rfl rfl, ?_, written, lawful.opened⟩
  intro id a closed held
  refine (copyToUser_mem m'.mem ptr data fun va touched => ?_).trans (lawful.bytes id a closed held)
  obtain ⟨ok, i, small, -, rfl⟩ := (mem_touched_copyToUser m'.mem ptr data).mp touched
  refine lawful.sane.writable_apart (opened ▸ closed) ?_ (space ▸ written _ touched)
    (by simpa only [Holds, objects] using held)
  simp only [userRangeOk, Bool.and_eq_true, decide_eq_true_eq] at ok
  omega

/-! ## Frames change hands -/

variable {new : List Nat} {map : Bitmap} {result : Except Errno (BitVec 64)}
  {devices : Nat → PciDevice}

theorem Sane.give (sane : m.Sane mmio) {receiver : Holder}
    (gives : m.frames.map.Gives new m'.frames.map)
    (claimed : ∀ holder frame, m'.Holds mmio holder frame →
      m.Holds mmio holder frame ∨ (holder = receiver ∧ frame ∈ new)) :
    (∀ holder frame, m'.Holds mmio holder frame → ¬m'.frames.map.Free frame) ∧
      ∀ holder other frame, m'.Holds mmio holder frame → m'.Holds mmio other frame →
        holder = other := by
  constructor
  · intro holder frame holds free
    rw [Bitmap.Free, gives.frames, gives.used, Bool.or_eq_false_iff] at free
    rcases claimed holder frame holds with was | ⟨-, fresh⟩
    · exact sane.busy holder frame was ⟨free.1, free.2.1⟩
    · simp [fresh] at free
  · intro holder other frame first second
    rcases claimed holder frame first with was | ⟨rfl, fresh⟩
    · rcases claimed other frame second with before' | ⟨rfl, fresh⟩
      · exact sane.single holder other frame was before'
      · exact absurd (gives.free frame fresh) (sane.busy holder frame was)
    · rcases claimed other frame second with before' | ⟨rfl, -⟩
      · exact absurd (gives.free frame fresh) (sane.busy other frame before')
      · rfl

theorem Sane.fresh_apart (sane : m.Sane mmio) (gives : m.frames.map.Gives new map) {id frame : Nat}
    (held : m.Holds mmio (.object id) frame) : frame ∉ new :=
  fun fresh => sane.busy _ _ held (gives.free frame fresh)

theorem Sane.withMap (sane : m.Sane mmio) (valid : map.Valid)
    (count : map.frames = m.frames.map.frames)
    (busy : ∀ holder frame, m.Holds mmio holder frame → ¬map.Free frame) :
    (m.withMap map).Sane mmio where
  valid := valid
  busy := by
    intro holder frame holds
    exact busy holder frame (by cases holder <;> exact holds)
  single := by
    intro holder other frame first second
    exact sane.single holder other frame (by cases holder <;> exact first)
      (by cases other <;> exact second)
  whole id frames found := by
    obtain ⟨nodup, lt⟩ := sane.whole id frames found
    exact ⟨nodup, fun frame mem => count.symm ▸ lt frame mem⟩
  mapped page small leaf found := by
    obtain ⟨holder, holds, open'⟩ := sane.mapped page small leaf found
    exact ⟨holder, by cases holder <;> exact holds, open'⟩

theorem Sane.unchanged (sane : m.Sane mmio) (valid : map.Valid)
    (count : map.frames = m.frames.map.frames)
    (used : ∀ i, map.isUsed i = m.frames.map.isUsed i) : (m.withMap map).Sane mmio := by
  refine sane.withMap valid count fun holder frame holds => ?_
  rw [Bitmap.Free, count, used]
  exact sane.busy holder frame holds

theorem Sane.given (sane : m.Sane mmio)
    (gives : m.frames.map.Gives new map) : (m.withMap map).Sane mmio := by
  refine sane.withMap gives.valid gives.frames fun holder frame holds free => ?_
  rw [Bitmap.Free, gives.frames, gives.used, Bool.or_eq_false_iff] at free
  exact sane.busy holder frame holds ⟨free.1, free.2.1⟩

variable (mmio) in
theorem holds_withObject {id other frame : Nat} {frames : Option (List Nat)} :
    (m.withObject id frames).Holds mmio (.object other) frame ↔
      if other = id then ∃ list, frames = some list ∧ frame ∈ list
      else m.Holds mmio (.object other) frame := by
  by_cases eq : other = id <;> simp [Holds, withObject, eq]

theorem Sane.create (sane : m.Sane mmio) {id : Nat}
    (unused : m.objects id = none) (gives : m.frames.map.Gives new map) :
    ((m.withMap map).withObject id (some new)).Sane mmio := by
  have claimed : ∀ holder frame,
      ((m.withMap map).withObject id (some new)).Holds mmio holder frame →
      m.Holds mmio holder frame ∨ (holder = .object id ∧ frame ∈ new) := by
    intro holder frame holds
    cases holder with
    | space | device => exact .inl holds
    | object other =>
      rw [holds_withObject mmio] at holds
      split at holds
      next eq => exact .inr ⟨by rw [eq], by simpa using holds⟩
      next => exact .inl holds
  have kept : ∀ holder frame, m.Holds mmio holder frame →
      ((m.withMap map).withObject id (some new)).Holds mmio holder frame := by
    intro holder frame holds
    cases holder with
    | space | device => exact holds
    | object other =>
      have ne : other ≠ id := by
        rintro rfl
        simp [Holds, unused] at holds
      rw [holds_withObject mmio, if_neg ne]
      exact holds
  obtain ⟨busy, single⟩ := sane.give gives claimed
  refine ⟨gives.valid, busy, single, ?_, ?_⟩
  · intro other frames found
    have count : ((m.withMap map).withObject id (some new)).frames.map.frames =
        m.frames.map.frames := gives.frames
    rw [count]
    by_cases eq : other = id
    · have made : new = frames := by simpa [withObject, eq] using found
      exact made ▸ ⟨gives.nodup, fun frame mem => (gives.free frame mem).1⟩
    · exact sane.whole other frames (by simpa [withObject, Machine.withMap, eq] using found)
  · intro page small leaf found
    obtain ⟨holder, holds, open'⟩ := sane.mapped page small leaf found
    exact ⟨holder, kept holder leaf.frame holds, open'⟩

theorem Sane.release (sane : m.Sane mmio) {frames : List Nat} {id : Nat}
    (found : m.objects id = some frames)
    (unmapped : ∀ page, page < USER_PAGES → ∀ leaf, translate m.space.pml4 page = some leaf →
      leaf.frame ∉ frames) :
    Sane mmio { (m.withMap (frames.foldl Bitmap.release m.frames.map)).withObject id none with
      opened := m.opened.filter (· ≠ id) } := by
  obtain ⟨nodup, lt⟩ := sane.whole id frames found
  have used : ∀ i ∈ frames, m.frames.map.isUsed i = true := by
    intro i mem
    by_contra unused
    exact sane.busy (.object id) i ⟨frames, found, mem⟩ ⟨lt i mem, by simpa using unused⟩
  obtain ⟨valid, count, freed⟩ := release_all nodup sane.valid lt used
  have was : ∀ holder frame, Holds mmio
      { (m.withMap (frames.foldl Bitmap.release m.frames.map)).withObject id none with
        opened := m.opened.filter (· ≠ id) } holder frame →
      holder ≠ .object id ∧ m.Holds mmio holder frame := by
    intro holder frame holds
    cases holder with
    | space | device => exact ⟨by simp, holds⟩
    | object other =>
      have either := (holds_withObject mmio).mp holds
      split at either
      next => simp at either
      next ne => exact ⟨by simpa using ne, either⟩
  refine ⟨valid, ?_, ?_, ?_, ?_⟩
  · rintro holder frame holds ⟨small, free⟩
    obtain ⟨ne, held⟩ := was holder frame holds
    have kept : frame ∉ frames := fun mem =>
      ne (sane.single _ _ _ held ⟨frames, found, mem⟩)
    have free' : (frames.foldl Bitmap.release m.frames.map).isUsed frame = false := free
    rw [freed] at free'
    exact sane.busy holder frame held ⟨count ▸ small, by simpa [kept] using free'⟩
  · intro holder other frame first second
    exact sane.single _ _ _ (was holder frame first).2 (was other frame second).2
  · intro other list listed
    have ne : other ≠ id := by
      rintro rfl
      simp [withObject] at listed
    rcases sane.whole other list (by simpa [withObject, Machine.withMap, ne] using listed) with
      ⟨nodup', inside'⟩
    exact ⟨nodup', fun frame mem => count.symm ▸ inside' frame mem⟩
  · intro page small leaf translated
    obtain ⟨holder, holds, open'⟩ := sane.mapped page small leaf translated
    cases holder with
    | space => exact ⟨.space, holds, by simp⟩
    | device => exact ⟨.device, holds, by simp⟩
    | object other =>
      have ne : other ≠ id := by
        rintro rfl
        obtain ⟨list, listed, mem⟩ := holds
        rw [found, Option.some.injEq] at listed
        exact unmapped page small leaf translated (listed ▸ mem)
      refine ⟨.object other, (holds_withObject mmio).mpr (by rw [if_neg ne]; exact holds), ?_⟩
      rintro _ ⟨⟩ writes
      simpa [ne] using open' other rfl writes

theorem Sane.withSpace (sane : m.Sane mmio) {s : AddressSpace} {fr : Frames} {opened : List Nat}
    {added : List (Nat × Leaf)} (grown : Extends (m.space.pml4, m.frames) (s.pml4, fr) added)
    (kept : ∀ id ∈ m.opened, id ∈ opened)
    (leads : ∀ pair ∈ added, pair.2.frame ∈ fr.taken ∨ ∃ holder,
      m.Holds mmio holder pair.2.frame ∧
        ∀ id, holder = .object id → pair.2.flags.writable = true → id ∈ opened) :
    Sane mmio { m.withSpace s fr with opened := opened } := by
  obtain ⟨new, takes⟩ := grown.takes
  have claimed : ∀ holder frame,
      Holds mmio { m.withSpace s fr with opened := opened } holder frame →
      m.Holds mmio holder frame ∨ (holder = .space ∧ frame ∈ new) := by
    intro holder frame holds
    cases holder with
    | space =>
      have either : frame ∈ fr.taken := holds
      rw [takes.taken, List.mem_append] at either
      exact either.imp id fun fresh => ⟨rfl, fresh⟩
    | device | object => exact .inl holds
  have still : ∀ holder frame, m.Holds mmio holder frame →
      Holds mmio { m.withSpace s fr with opened := opened } holder frame := by
    intro holder frame holds
    cases holder with
    | space => exact takes.subset holds
    | device | object => exact holds
  obtain ⟨busy, single⟩ := sane.give takes.gives claimed
  refine ⟨takes.gives.valid, busy, single, ?_, ?_⟩
  · intro id frames found
    obtain ⟨nodup, lt⟩ := sane.whole id frames found
    exact ⟨nodup, fun frame mem => takes.gives.frames.symm ▸ lt frame mem⟩
  intro page small leaf found
  rcases grown.translated page small leaf found with now | before
  · rcases leads _ now with taken | ⟨holder, holds, open'⟩
    · exact ⟨.space, taken, by simp⟩
    · exact ⟨holder, still holder _ holds, open'⟩
  · obtain ⟨holder, holds, open'⟩ := sane.mapped page small leaf before
    exact ⟨holder, still holder _ holds, fun id object writable =>
      kept id (open' id object writable)⟩

/-! ## The calls -/

theorem Lawful.withSpace (sane : m.Sane mmio) (quiet : m.touched = []) {s : AddressSpace}
    {fr : Frames} {opened : List Nat} {added : List (Nat × Leaf)}
    (grown : Extends (m.space.pml4, m.frames) (s.pml4, fr) added)
    (kept : ∀ id ∈ m.opened, id ∈ opened) (checked : ∀ id ∈ opened, id ∈ m.opened ∨ ∃ slot cap,
      m.caps.lookup slot (Rights.MAP_READ.union .MAP_WRITE) = some cap ∧ cap.memory = some id)
    (leads : ∀ pair ∈ added, pair.2.frame ∈ fr.taken ∨ ∃ holder,
      m.Holds mmio holder pair.2.frame ∧
        ∀ id, holder = .object id → pair.2.flags.writable = true → id ∈ opened) :
    Lawful mmio m { m.withSpace s fr with opened := opened } := by
  refine ⟨sane.withSpace grown kept leads, ?_, by simp [Machine.withSpace, quiet], checked⟩
  intro id a closed held
  obtain ⟨new, takes⟩ := grown.takes
  have fresh : fr.taken.drop m.frames.taken.length = new := by
    rw [takes.taken]
    simp
  have ne := sane.fresh_apart takes.gives held
  simp [Machine.withSpace, zeroed, fresh, ne]

theorem mapForeign_extends {s s' : AddressSpace} {fr fr' : Frames} {leaves : List Leaf}
    {start : Option Nat} (valid : fr.map.Valid)
    (ran : s.mapForeign leaves fr = some (start, s', fr')) :
    ∃ added, Extends (s.pml4, fr) (s'.pml4, fr') added ∧ ∀ pair ∈ added, pair.2 ∈ leaves := by
  unfold AddressSpace.mapForeign at ran
  split at ran
  next => simp at ran
  next pml4 rest result =>
    cases ran
    exact mapLeaves_extends valid result
  next pml4 rest result =>
    cases ran
    exact mapLeaves_extends valid result

theorem lawful_sysMemMap (sane : m.Sane mmio) (quiet : m.touched = []) {slot writable : Nat}
    (ran : m.sysMemMap slot writable = some (result, m')) : Lawful mmio m m' := by
  unfold sysMemMap at ran
  simp only at ran
  split at ran
  next =>
    cases ran
    exact .refl sane quiet
  next id named =>
    split at ran
    next => simp at ran
    next frames found =>
      generalize access : (writable != 0) = rw at *
      have spec : ∀ {start s fr}, m.space.mapShared frames rw m.frames = some (start, s, fr) →
          Lawful mmio m { m.withSpace s fr with
            opened := if rw then id :: m.opened else m.opened } := by
        intro start s fr mapped
        obtain ⟨added, grown, sub⟩ := mapForeign_extends sane.valid mapped
        refine .withSpace sane quiet grown ?_ ?_ ?_
        · intro other mem
          cases rw <;> simp [mem]
        · intro other mem
          cases rw with
          | false => exact .inl mem
          | true =>
            rcases List.mem_cons.mp mem with rfl | before
            · obtain ⟨cap, looked, memory⟩ := Option.bind_eq_some_iff.mp named
              exact .inr ⟨_, cap, looked, memory⟩
            · exact .inl before
        · intro pair mem
          obtain ⟨frame, listed, leaf⟩ := List.mem_map.mp (sub pair mem)
          refine .inr ⟨.object id, ⟨frames, found, ?_⟩, ?_⟩
          · rw [← leaf]
            exact listed
          rintro other ⟨⟩ writes
          have granted : rw = true := by
            rw [← leaf] at writes
            exact writes
          simp [granted]
      split at ran
      next => simp at ran
      next va s fr mapped =>
        cases ran
        have lawful := spec mapped
        exact ⟨lawful.sane.congr rfl rfl rfl rfl, lawful.bytes, lawful.touched, lawful.opened⟩
      next s fr mapped =>
        cases ran
        exact spec mapped

theorem lawful_sysDevMap (sane : m.Sane mmio) (quiet : m.touched = []) {slot bar : Nat}
    (ran : m.sysDevMap devices mmio slot bar = some (result, m')) : Lawful mmio m m' := by
  unfold sysDevMap at ran
  simp only at ran
  split at ran
  next =>
    cases ran
    exact .refl sane quiet
  next id named =>
    split at ran
    next =>
      cases ran
      exact .refl sane quiet
    next b found =>
      split at ran
      next =>
        cases ran
        exact .refl sane quiet
      split at ran
      next devices =>
        have spec : ∀ {start s fr},
            m.space.mapDevice b.base b.size m.frames = some (start, s, fr) →
            Lawful mmio m (m.withSpace s fr) := by
          intro start s fr mapped
          obtain ⟨⟨start', s', fr'⟩, ran, eq⟩ := Option.map_eq_some_iff.mp mapped
          cases eq
          obtain ⟨added, grown, sub⟩ := mapForeign_extends sane.valid ran
          refine .withSpace sane quiet grown (fun _ was => was) (fun _ => .inl) ?_
          intro pair mem
          obtain ⟨frame, listed, leaf⟩ := List.mem_map.mp (sub pair mem)
          refine .inr ⟨.device, ?_, by simp⟩
          rw [← leaf]
          exact List.all_eq_true.mp devices frame listed
        split at ran
        next => simp at ran
        next va s fr mapped =>
          cases ran
          exact spec mapped
        next s fr mapped =>
          cases ran
          exact spec mapped
      next => simp at ran

theorem makeObject_spec (valid : m.frames.map.Valid) {pages : Nat} {dma : Bool}
    (adjacent : dma = true → m.frames.map.LowestAdjacent pages) :
    (∀ frames, (m.makeObject pages dma).1 = some frames →
      m.frames.map.Gives frames (m.makeObject pages dma).2) ∧
    ((m.makeObject pages dma).1 = none → (m.makeObject pages dma).2.Valid ∧
      (m.makeObject pages dma).2.frames = m.frames.map.frames ∧
      ∀ i, (m.makeObject pages dma).2.isUsed i = m.frames.map.isUsed i) := by
  cases dma with
  | true =>
    obtain ⟨given, refused⟩ := memoryObject_newContiguous valid (adjacent rfl)
    refine ⟨given, fun none => ?_⟩
    have eq : (m.makeObject pages true).2 = m.frames.map := refused none
    rw [eq]
    exact ⟨valid, rfl, fun _ => rfl⟩
  | false => exact memoryObject_new pages (Bitmap.Gives.refl valid)

theorem lawful_sysMemCreate (sane : m.Sane mmio) (quiet : m.touched = []) {pages id : Nat}
    {dma : Bool} (adjacent : dma = true → m.frames.map.LowestAdjacent pages)
    (ran : m.sysMemCreate pages dma id = some (result, m')) : Lawful mmio m m' := by
  have spec := makeObject_spec sane.valid adjacent
  unfold sysMemCreate at ran
  split at ran
  next =>
    cases ran
    exact .refl sane quiet
  split at ran
  next => simp at ran
  next unused =>
    have unused : m.objects id = none := by simpa using unused
    split at ran
    next map made =>
      cases ran
      rw [made] at spec
      obtain ⟨valid, count, used⟩ := spec.2 rfl
      exact ⟨sane.unchanged valid count used, fun _ _ _ _ => rfl,
        by simp [Machine.withMap, quiet], fun _ => .inl⟩
    next frames map made =>
      rw [made] at spec
      have gives := spec.1 frames rfl
      have zero : ∀ other a, m.Holds mmio (.object other) (a / FRAME_SIZE) →
          m.zeroed frames a = m.mem a := by
        intro other a held
        simp [zeroed, sane.fresh_apart gives held]
      split at ran
      next slot caps inserted =>
        cases ran
        refine ⟨(sane.create unused gives).congr rfl rfl rfl rfl,
          fun other a _ held => zero other a held, ?_, fun _ => .inl⟩
        simp [Machine.withMap, withObject, quiet]
      next caps full =>
        cases ran
        obtain ⟨valid, count, used⟩ := give_back gives
        refine ⟨(sane.unchanged valid count used).congr rfl rfl rfl rfl,
          fun other a _ held => zero other a held, ?_, fun _ => .inl⟩
        simp [Machine.withMap, quiet]

theorem lawful_sysSpawnDesc (sane : m.Sane mmio) (quiet : m.touched = []) {receipt pages : Nat}
    {image : Memory} {words : Fin 9 → BitVec 64}
    (writable : receipt ≠ 0 → userRangeOk receipt 72 = true → BufferWritable m.space receipt 72) :
    Lawful mmio m (m.sysSpawnDesc receipt pages image words).2 := by
  unfold sysSpawnDesc
  have spec := memoryObject_new pages (Bitmap.Gives.refl sane.valid)
  split
  next map made =>
    rw [made] at spec
    obtain ⟨valid, count, used⟩ := spec.2 rfl
    exact ⟨sane.unchanged valid count used, fun _ _ _ _ => rfl, by simp [Machine.withMap, quiet],
      fun _ => .inl⟩
  next frames map made =>
    rw [made] at spec
    have gives := spec.1 frames rfl
    have started : Lawful mmio m { m.withMap map with
        mem := fun a => if a / FRAME_SIZE ∈ frames then image a else m.mem a } := by
      refine ⟨(sane.given gives).congr rfl rfl rfl rfl, ?_, by simp [Machine.withMap, quiet],
        fun _ => .inl⟩
      intro other a _ held
      simp [sane.fresh_apart gives held]
    split
    next named =>
      refine started.copyOut rfl rfl rfl ?_
      rw [length_wordsToBytes, List.length_ofFn]
      exact writable named
    next => exact started

theorem lawful_sysRecv (sane : m.Sane mmio) (quiet : m.touched = []) {slot buf nonblock : Nat}
    {found : Option (Ipc.Message (BitVec 32))}
    (writable : userRangeOk buf 32 = true → BufferWritable m.space buf 32)
    (ran : m.sysRecv slot buf nonblock found = some (result, m')) : Lawful mmio m m' := by
  have eq := Lawful.refl sane quiet
  unfold sysRecv at ran
  split at ran
  next =>
    cases ran
    exact eq
  split at ran
  next =>
    cases ran
    exact eq
  split at ran
  next =>
    split at ran
    next =>
      cases ran
      exact eq
    next => simp at ran
  next msg =>
    split at ran
    next =>
      cases ran
      refine (eq.withCaps (m.takeCap msg.cap).2).copyOut rfl rfl rfl ?_
      rw [length_wordsToBytes, List.length_ofFn]
      exact writable
    next => simp at ran

theorem lawful_sysDevInfo (sane : m.Sane mmio) (quiet : m.touched = []) {slot buf : Nat}
    (writable : userRangeOk buf 112 = true → BufferWritable m.space buf 112) :
    Lawful mmio m (m.sysDevInfo devices slot buf).2 := by
  unfold sysDevInfo
  split
  next => exact .refl sane quiet
  next id _ =>
    refine (Lawful.refl sane quiet).copyOut rfl rfl rfl ?_
    have count : (deviceWords (devices id)).length = 14 := by simp [deviceWords]
    rw [length_wordsToBytes, count]
    exact writable

theorem lawful_sysDevConfig (sane : m.Sane mmio) (quiet : m.touched = []) {slot buf : Nat}
    {config : Fin 64 → BitVec 32}
    (writable : userRangeOk buf 256 = true → BufferWritable m.space buf 256) :
    Lawful mmio m (m.sysDevConfig slot buf config).2 := by
  unfold sysDevConfig
  split
  next => exact .refl sane quiet
  refine (Lawful.refl sane quiet).copyOut rfl rfl rfl ?_
  rw [length_flatMap_toLeBytes, List.length_ofFn]
  exact writable

theorem lawful_dispatch {me : BitVec 32} {call : Call} (sane : m.Sane mmio)
    (fair : m.Fair (.call call))
    (ran : m.dispatch devices mmio me call = some (result, m')) : Lawful mmio m m' := by
  have quiet : Sane mmio { m with touched := [] } := sane.congr rfl rfl rfl rfl
  have eq := Lawful.refl quiet rfl
  have lawful : Lawful mmio { m with touched := [] } m' := by
    have gave : ∀ {pair : Except Errno (BitVec 64) × Machine},
        some pair = some (result, m') → pair.2 = m' := by
      rintro _ ⟨⟩
      rfl
    unfold dispatch at ran
    cases call with
    | memCreate pages dma id => exact lawful_sysMemCreate quiet rfl fair ran
    | memMap slot writable => exact lawful_sysMemMap quiet rfl ran
    | devMap slot bar => exact lawful_sysDevMap quiet rfl ran
    | recv slot buf nonblock found => exact lawful_sysRecv quiet rfl (fair buf 32 rfl) ran
    | info buf uptime =>
      rw [← gave ran]
      exact eq.copyOut rfl rfl rfl (fair buf 16 rfl)
    | devInfo slot buf =>
      rw [← gave ran]
      exact lawful_sysDevInfo quiet rfl (fair buf 112 rfl)
    | devConfig slot buf config =>
      rw [← gave ran]
      exact lawful_sysDevConfig quiet rfl (fair buf 256 rfl)
    | spawnDesc receipt pages image words =>
      rw [← gave ran]
      exact lawful_sysSpawnDesc quiet rfl fun named =>
        fair receipt 72 (by simp only [Call.buffer, if_pos named])
    | epCreate | notifyCreate =>
      rw [← gave ran]
      exact eq.insertCap _
    | devIrq slot id =>
      rw [← gave ran]
      unfold sysDevIrq
      simp only
      split
      next => exact eq
      next => exact eq.insertCap _
    | capDrop slot =>
      rw [← gave ran]
      unfold sysCapDrop
      split
      next caps _ => exact eq.withCaps caps
      next caps _ => exact eq.withCaps caps
    | capRevoke slot =>
      rw [← gave ran]
      unfold sysCapRevoke
      split
      next caps _ => exact eq.withCaps caps
      next caps _ => exact eq.withCaps caps
    | other =>
      rw [← gave ran]
      exact eq
  exact ⟨lawful.sane, lawful.bytes, lawful.touched, lawful.opened⟩

/-! ## Whole runs -/

theorem Sane.step {me : BitVec 32} {event : Event}
    (sane : m.Sane mmio) (fair : m.Fair event) (ran : Step devices mmio me m event m') :
    m'.Sane mmio := by
  cases ran with
  | call called => exact (lawful_dispatch sane fair called).sane
  | load mapped =>
    obtain ⟨⟨outcome, pml4, fr⟩, called, eq⟩ := Option.map_eq_some_iff.mp mapped
    cases eq
    obtain ⟨added, grown, taken⟩ := mapUserPages_extends sane.valid called
    exact (sane.withSpace grown (fun _ was => was)
      fun pair mem => .inl (taken pair mem)).congr rfl rfl rfl rfl
  | grant alive =>
    unfold insertCap
    split
    next => exact sane.congr rfl rfl rfl rfl
    next => exact sane
  | create unused gives => exact sane.create unused gives
  | release found _ _ =>
    exact sane.release found fun page small leaf translated =>
      fair page small leaf translated _ found
  | other valid count busy => exact (sane.withMap valid count busy).congr rfl rfl rfl rfl

theorem translate_new (kernel : Fin 512 → Table 3) (frame : Nat) {page : Nat}
    (small : page < USER_PAGES) :
    translate (.node frame fun i => if i.val < 256 then .empty else kernel i) page = none := by
  rw [Mm.translate, pagePath, Radix.lookup, if_pos (pagePath_head small), Radix.lookup]

theorem Sane.start {kernel : Fin 512 → Table 3} {s : AddressSpace} {fr : Frames}
    (mem : Memory) (valid : map.Valid) (reserved : ∀ frame, mmio frame = true → ¬map.Free frame)
    (made : AddressSpace.new kernel ⟨map, []⟩ = (some s, fr)) :
    (Machine.start mem s fr).Sane mmio := by
  unfold AddressSpace.new at made
  split at made
  next frame fr' drawn =>
    cases made
    have takes := Frames.take_takes valid drawn
    have ran : fr.taken = [frame] := takes.taken
    have free := takes.gives.free frame (by simp)
    have held : ∀ holder other, Holds mmio (Machine.start mem
        ⟨.node frame fun i => if i.val < 256 then .empty else kernel i, [], USER_MMAP_BASE⟩ fr)
        holder other → (holder = .space ∧ other = frame) ∨
          (holder = .device ∧ mmio other = true) := by
      intro holder other holds
      cases holder with
      | space => exact .inl ⟨rfl, by simpa [Holds, Machine.start, ran] using holds⟩
      | device => exact .inr ⟨rfl, holds⟩
      | object id => simp [Holds, Machine.start] at holds
    have ne : mmio frame ≠ true := fun device => reserved frame device free
    refine ⟨takes.gives.valid, ?_, ?_, by simp [Machine.start], ?_⟩
    · intro holder other holds stillFree
      have was : map.Free other ∧ other ≠ frame := by
        simpa [Machine.start, Bitmap.Free, takes.gives.frames, takes.gives.used, and_assoc]
          using stillFree
      rcases held holder other holds with ⟨-, rfl⟩ | ⟨-, device⟩
      · exact was.2 rfl
      · exact reserved other device was.1
    · intro holder other place first second
      rcases held holder place first with ⟨rfl, rfl⟩ | ⟨rfl, device⟩
      · rcases held other place second with ⟨rfl, -⟩ | ⟨-, device⟩
        · rfl
        · exact absurd device ne
      · rcases held other place second with ⟨-, rfl⟩ | ⟨rfl, -⟩
        · exact absurd device ne
        · rfl
    · intro page small leaf found
      have missing := translate_new kernel frame small
      simp only [Machine.start, missing] at found
      simp at found
  next => simp at made

/-- Along every fair run, a call writes only through pages that the task could write itself, and
leaves every object alone that the task has not opened for writing, with `MAP_WRITE` on it. -/
theorem calls_respect_rights {devices : Nat → PciDevice} {me : BitVec 32}
    {kernel : Fin 512 → Table 3} {map : Bitmap} {s : AddressSpace} {fr : Frames} {mem : Memory}
    (valid : map.Valid) (reserved : ∀ frame, mmio frame = true → ¬map.Free frame)
    (made : AddressSpace.new kernel ⟨map, []⟩ = (some s, fr)) {events : List Event}
    (run : Run (Guarded Fair (Step devices mmio me)) (.start mem s fr) events m)
    {call : Call} {result : Except Errno (BitVec 64)} (fair : m.Fair (.call call))
    (called : m.dispatch devices mmio me call = some (result, m')) :
    (∀ va ∈ m'.touched, writableAt m.space va = true) ∧
    (∀ id frames, m.objects id = some frames → id ∉ m.opened → ∀ frame ∈ frames,
      ∀ offset, offset < FRAME_SIZE →
        m'.mem (frame * FRAME_SIZE + offset) = m.mem (frame * FRAME_SIZE + offset)) ∧
    ∀ id ∈ m'.opened, id ∈ m.opened ∨ ∃ slot cap,
      m.caps.lookup slot (Rights.MAP_READ.union .MAP_WRITE) = some cap ∧
        cap.memory = some id := by
  have sane : m.Sane mmio := run.invariant (Sane mmio) (.start mem valid reserved made)
    fun _ _ _ sane ran => sane.step ran.1 ran.2
  have lawful := lawful_dispatch sane fair called
  refine ⟨lawful.touched, fun id frames found closed frame member offset small => ?_, lawful.opened⟩
  have place : (frame * FRAME_SIZE + offset) / FRAME_SIZE = frame := by
    simp only [FRAME_SIZE] at *
    omega
  exact lawful.bytes id _ closed ⟨frames, found, place.symm ▸ member⟩

theorem new_of_alloc {kernel : Fin 512 → Table 3} {frame : Nat} (found : map.alloc.1 = some frame) :
    AddressSpace.new kernel ⟨map, []⟩ =
      (some ⟨.node frame fun i => if i.val < 256 then .empty else kernel i, [], USER_MMAP_BASE⟩,
        ⟨map.alloc.2, [frame]⟩) := by
  have split : map.alloc = (some frame, map.alloc.2) := Prod.ext found rfl
  simp only [AddressSpace.new, Frames.take]
  rw [split]
  rfl

/-! Sixteen frames, and a task that may map the object 0 for reading. Its table is in
frame 0, the object in frame 1. -/

def sixteen : Bitmap := ⟨[0#64], 16, 16, 16, 0⟩

theorem sixteen_valid : sixteen.Valid := ⟨by decide, by decide⟩

def vacant : AddressSpace :=
  ⟨.node 0 fun i => if i.val < 256 then .empty else .empty, [], USER_MMAP_BASE⟩

theorem vacant_new :
    AddressSpace.new (fun _ => .empty) ⟨sixteen, []⟩ = (some vacant, ⟨sixteen.alloc.2, [0]⟩) :=
  new_of_alloc (by decide +kernel)

def booted : Machine := .start (fun _ => 0) vacant ⟨sixteen.alloc.2, [0]⟩

def creator : Machine := (booted.withMap sixteen.alloc.2.alloc.2).withObject 0 (some [1])

def reader : Machine := (creator.insertCap ⟨.memory 0, .MAP_READ⟩).2

theorem reader_reached (devices : Nat → PciDevice) :
    Run (Guarded Fair (Step devices (fun _ => false) 7)) booted
      [.create 0, .grant ⟨.memory 0, .MAP_READ⟩] reader := by
  have first : sixteen.Gives [0] sixteen.alloc.2 :=
    Bitmap.alloc_gives sixteen_valid (by decide +kernel)
  have second : sixteen.alloc.2.Gives [1] sixteen.alloc.2.alloc.2 :=
    Bitmap.alloc_gives first.valid (by decide +kernel)
  have given : booted.frames.map.Gives [1] sixteen.alloc.2.alloc.2 := by
    simpa only [booted, Machine.start] using second
  have created : Run (Guarded Fair (Step devices (fun _ => false) 7)) booted [.create 0] creator :=
    .snoc .nil ⟨trivial, .create rfl given⟩
  exact created.snoc ⟨trivial, .grant rfl⟩

def noDevice : PciDevice := ⟨0, 0, 0, 0, 0, 0, 0, fun _ => ⟨0, 0, false⟩⟩

/-- A task with a stack page maps an object for reading and asks for the time on its
stack. -/
theorem calls_respect_rights_of_reader :
    ∃ devices s fr events m m' result,
      AddressSpace.new (fun _ => .empty) ⟨⟨[0#64], 16, 16, 16, 0⟩, []⟩ = (some s, fr) ∧
      Run (Guarded Fair (Step devices (fun _ => false) 7)) (.start (fun _ => 0) s fr) events m ∧
      m.dispatch devices (fun _ => false) 7 (.info 0x400000 5) = some (result, m') ∧
      m.objects 0 = some [1] ∧ 0x400000 ∈ m'.touched ∧
      (∀ va ∈ m'.touched, writableAt m.space va = true) ∧
      m'.mem FRAME_SIZE = m.mem FRAME_SIZE := by
  have eval : ((reader.space.mapUserRange 0x400000 1 ⟨true, true, false, false, false⟩
      reader.frames).bind fun loaded =>
        (reader.withSpace loaded.1 loaded.2).dispatch (fun _ => noDevice) (fun _ => false) 7
          (.memMap 0 0)).any fun mapped =>
      decide (mapped.2.objects 0 = some [1] ∧ 0 ∉ mapped.2.opened ∧
        BufferWritable mapped.2.space 0x400000 16 ∧
        0x400000 ∈ (mapped.2.sysInfo 7 0x400000 5).2.touched) := by
    decide +kernel
  obtain ⟨⟨result, m⟩, reached, object, closed, writable, touched⟩ := exists_of_any eval
  obtain ⟨⟨s', fr⟩, loaded, ran⟩ := Option.bind_eq_some_iff.mp reached
  have loading : reader.Fair (.load 0x400000 1 ⟨true, true, false, false, false⟩) := trivial
  have mapping : (reader.withSpace s' fr).Fair (.call (.memMap 0 0)) := by rintro ptr len ⟨⟩
  have run := ((reader_reached fun _ => noDevice).snoc ⟨loading, .load loaded⟩).snoc
    ⟨mapping, .call ran⟩
  have fair : m.Fair (.call (.info 0x400000 5)) := by
    rintro ptr len ⟨⟩ -
    exact writable
  have respects := calls_respect_rights sixteen_valid (by simp) vacant_new run fair rfl
  exact ⟨_, vacant, _, _, m, _, _, vacant_new, run, rfl, object, touched, respects.1,
    respects.2.1 0 [1] object closed 1 (by simp) 0 (by decide)⟩

/-- An object mapped for reading, and `info` with its address as the buffer: the
clock ends up in the object. -/
theorem info_writes_read_only_object :
    ∃ devices s fr events m m' result,
      AddressSpace.new (fun _ => .empty) ⟨⟨[0#64], 16, 16, 16, 0⟩, []⟩ = (some s, fr) ∧
      Run (Step devices (fun _ => false) 7) (.start (fun _ => 0) s fr) events m ∧
      m.dispatch devices (fun _ => false) 7 (.info USER_MMAP_BASE 5) = some (result, m') ∧
      m.objects 0 = some [1] ∧ 0 ∉ m.opened ∧ USER_MMAP_BASE ∈ m'.touched ∧
      writableAt m.space USER_MMAP_BASE = false ∧ m'.mem FRAME_SIZE ≠ m.mem FRAME_SIZE := by
  have eval : (reader.dispatch (fun _ => noDevice) (fun _ => false) 7 (.memMap 0 0)).any
      fun mapped => decide (mapped.2.objects 0 = some [1] ∧ 0 ∉ mapped.2.opened ∧
        USER_MMAP_BASE ∈ (mapped.2.sysInfo 7 USER_MMAP_BASE 5).2.touched ∧
        writableAt mapped.2.space USER_MMAP_BASE = false ∧
        (mapped.2.sysInfo 7 USER_MMAP_BASE 5).2.mem FRAME_SIZE ≠ mapped.2.mem FRAME_SIZE) := by
    decide +kernel
  obtain ⟨⟨result, m⟩, called, facts⟩ := exists_of_any eval
  have granted := (reader_reached fun _ => noDevice).mono fun _ _ _ ran => ran.2
  exact ⟨_, vacant, _, _, m, _, _, vacant_new, granted.snoc (.call called), rfl, facts⟩

end Machine

end K1K.Syscall
