import K1K.Lib.Run
import K1K.Mm.Ownership

/-!
# Frames come back once

Runs of the mapping calls with the memory objects they share. The frames of the address space
and of the objects form a ledger: all different, all marked used, none a device's.
-/

namespace K1K.Mm

open K1K.Lib

/-! ## Memory objects -/

section Objects

variable {b c : Bitmap} {frames held new : List Nat}

theorem release_all (nodup : frames.Nodup) (valid : b.Valid)
    (lt : ∀ i ∈ frames, i < b.frames) (used : ∀ i ∈ frames, b.isUsed i = true) :
    (frames.foldl Bitmap.release b).Valid ∧
      (frames.foldl Bitmap.release b).frames = b.frames ∧
      ∀ i, (frames.foldl Bitmap.release b).isUsed i = (b.isUsed i && decide (i ∉ frames)) := by
  induction frames generalizing b with
  | nil => simpa using valid
  | cons j rest ih =>
    have parts := List.nodup_cons.mp nodup
    have freed : ∀ i, (b.release j).isUsed i = (b.isUsed i && decide (i ≠ j)) :=
      Bitmap.isUsed_setFree b j
    have first := Bitmap.release_valid valid (lt j List.mem_cons_self) (used j List.mem_cons_self)
    have later : ∀ i ∈ rest, (b.release j).isUsed i = true := by
      intro i mem
      have ne : i ≠ j := fun eq => parts.1 (eq ▸ mem)
      rw [freed i, used i (List.mem_cons_of_mem j mem)]
      simp [ne]
    rcases ih parts.2 first
        (fun i mem => lt i (List.mem_cons_of_mem j mem)) later with
      ⟨valid', frames', released⟩
    refine ⟨valid', frames', fun i => ?_⟩
    rw [List.foldl_cons, released i, freed i, Bool.and_assoc]
    simp [List.mem_cons, not_or]

theorem give_back (gives : c.Gives frames b) : (frames.foldl Bitmap.release b).Valid ∧
      (frames.foldl Bitmap.release b).frames = c.frames ∧
      ∀ i, (frames.foldl Bitmap.release b).isUsed i = c.isUsed i := by
  have lt : ∀ i ∈ frames, i < b.frames := fun i mem => gives.frames ▸ (gives.free i mem).1
  have used : ∀ i ∈ frames, b.isUsed i = true := fun i mem => by
    rw [gives.used i]
    simp [mem]
  obtain ⟨valid, count, released⟩ := release_all gives.nodup gives.valid lt used
  refine ⟨valid, count.trans gives.frames, fun i => ?_⟩
  rw [released i, gives.used i]
  by_cases mem : i ∈ frames
  · simp [mem, (gives.free i mem).2]
  · simp [mem]

theorem memoryObject_new (pages : Nat) (gives : c.Gives frames b) :
    (∀ made, (MemoryObject.new pages frames b).1 = some made →
      c.Gives made (MemoryObject.new pages frames b).2) ∧
    ((MemoryObject.new pages frames b).1 = none →
      (MemoryObject.new pages frames b).2.Valid ∧
      (MemoryObject.new pages frames b).2.frames = c.frames ∧
      ∀ i, (MemoryObject.new pages frames b).2.isUsed i = c.isUsed i) := by
  fun_induction MemoryObject.new pages frames b with
  | case1 => exact ⟨fun made done => Option.some.inj done ▸ gives, nofun⟩
  | case2 pages frames b frame rest allocated ih =>
    have one := Bitmap.alloc_gives (i := frame) gives.valid (by rw [allocated])
    rw [allocated] at one
    exact ih (gives.trans one)
  | case3 pages frames b rest allocated =>
    have unchanged : rest = b := by
      simpa [allocated] using Bitmap.alloc_eq_none (b := b) (by rw [allocated])
    exact ⟨nofun, fun _ => give_back (unchanged ▸ gives)⟩

/-! ## Frames that somebody holds -/

structure Ledger (mmio : Nat → Bool) (b : Bitmap) (held : List Nat) : Prop where
  valid : b.Valid
  nodup : held.Nodup
  used : ∀ frame ∈ held, b.isUsed frame = true
  clean : ∀ frame ∈ held, mmio frame = false
  device : ∀ frame, mmio frame = true → ¬b.Free frame

variable {mmio : Nat → Bool}

theorem Ledger.give (ledger : Ledger mmio b held) (gives : b.Gives new c) :
    Ledger mmio c (held ++ new) where
  valid := gives.valid
  nodup := by
    rw [List.nodup_append]
    refine ⟨ledger.nodup, gives.nodup, ?_⟩
    rintro frame was _ now rfl
    have free := (gives.free frame now).2
    rw [ledger.used frame was] at free
    exact absurd free (by decide)
  used frame member := by
    rw [gives.used frame]
    rcases List.mem_append.mp member with was | now
    · rw [ledger.used frame was, Bool.true_or]
    · simp [now]
  clean frame member := by
    rcases List.mem_append.mp member with was | now
    · exact ledger.clean frame was
    · by_contra device
      exact ledger.device frame (by simpa using device) (gives.free frame now)
  device frame device := by
    intro free
    rw [Bitmap.Free, gives.frames, gives.used, Bool.or_eq_false_iff] at free
    exact ledger.device frame device ⟨free.1, free.2.1⟩

theorem Ledger.same (ledger : Ledger mmio b held) (valid : c.Valid) (frames : c.frames = b.frames)
    (used : ∀ i, c.isUsed i = b.isUsed i) : Ledger mmio c held where
  valid := valid
  nodup := ledger.nodup
  used frame member := (used frame).trans (ledger.used frame member)
  clean := ledger.clean
  device frame device := by
    rw [Bitmap.Free, frames, used]
    exact ledger.device frame device

theorem Ledger.perm {other : List Nat} (ledger : Ledger mmio b held) (perm : held.Perm other) :
    Ledger mmio b other where
  valid := ledger.valid
  nodup := perm.nodup_iff.mp ledger.nodup
  used frame member := ledger.used frame (perm.mem_iff.mpr member)
  clean frame member := ledger.clean frame (perm.mem_iff.mpr member)
  device := ledger.device

end Objects

/-- `MemoryObject::new_contiguous` likewise, where the allocator below it does
what it promises. -/
theorem memoryObject_newContiguous {b : Bitmap} {pages : Nat} (valid : b.Valid)
    (adjacent : b.LowestAdjacent pages) :
    (∀ made, (MemoryObject.newContiguous pages b).1 = some made →
      b.Gives made (MemoryObject.newContiguous pages b).2) ∧
    ((MemoryObject.newContiguous pages b).1 = none →
      (MemoryObject.newContiguous pages b).2 = b) := by
  rcases Nat.eq_zero_or_pos pages with rfl | positive
  · simp [MemoryObject.newContiguous, Bitmap.allocContiguous]
  have serves := adjacent.serves valid positive
  have gives : ∀ start, (b.allocContiguous pages).1 = some start →
      b.Gives (List.range' start pages) (b.allocContiguous pages).2 :=
    fun _ => serves.gives valid
  have refused := serves.2.2
  unfold MemoryObject.newContiguous
  split
  next first map allocated =>
    rw [allocated] at gives
    simpa using gives first rfl
  next map allocated =>
    rw [allocated] at refused
    simpa using refused rfl

/-! ## The whole system -/

namespace AddressSpace

def ForeignFit (s : AddressSpace) (leaves : List Leaf) (fr : Frames) : Prop :=
  ¬Fits s.pml4 (s.mmapNext / FRAME_SIZE) fr ∨ AllFit leaves (s.mmapNext / FRAME_SIZE) s.pml4 fr

instance (s : AddressSpace) (leaves : List Leaf) (fr : Frames) :
    Decidable (s.ForeignFit leaves fr) :=
  inferInstanceAs (Decidable (_ ∨ _))

variable {kernel : Fin 512 → Table 3} {s s' : AddressSpace} {fr fr' : Frames} {leaves : List Leaf}
  {start : Option Nat}

theorem mapForeign_owns (valid : fr.map.Valid) (owns : s.Owns kernel fr.taken)
    (fit : s.ForeignFit leaves fr) (ran : s.mapForeign leaves fr = some (start, s', fr')) :
    s'.Owns kernel fr'.taken ∧ ∃ new, fr.Takes fr' new := by
  have mapped : ∀ {completed pml4 rest},
      mapLeaves leaves (s.mmapNext / FRAME_SIZE) s.pml4 fr = some (completed, pml4, rest) →
      (completed = false ∧ Grows (s.pml4, fr) (pml4, rest) [] []) ∨
      (completed = true ∧ Grows (s.pml4, fr) (pml4, rest)
        ((List.range' (s.mmapNext / FRAME_SIZE) leaves.length).zip leaves)
        (leaves.map Leaf.frame)) := by
    intro completed pml4 rest res
    rcases fit with unfit | fit
    · cases leaves with
      | nil => exact .inr (mapLeaves_grows valid trivial res)
      | cons leaf more => exact .inl (mapLeaves_stops valid unfit res)
    · exact .inr (mapLeaves_grows valid fit res)
  unfold mapForeign at ran
  split at ran
  next => simp at ran
  next pml4 rest res =>
    cases ran
    rcases mapped res with ⟨-, grown⟩ | ⟨impossible, -⟩
    · exact ⟨owns.grow grown, grown.takes⟩
    · simp at impossible
  next pml4 rest res =>
    cases ran
    rcases mapped res with ⟨impossible, -⟩ | ⟨-, grown⟩
    · simp at impossible
    · exact ⟨owns.record grown, grown.takes⟩

end AddressSpace

namespace World

def Careful (w : World) : Op → Prop
  | .newObject _ => True
  | .newContiguous pages => w.frames.map.LowestAdjacent pages
  | .newSpace => True
  | .mapUserRange start count flags => ∀ s ∈ w.space,
    UserFit flags count (start / FRAME_SIZE) s.pml4 w.frames
  | .mapShared object writable => ∀ s ∈ w.space, ∀ frames ∈ w.objects[object]?,
    s.ForeignFit (AddressSpace.sharedLeaves frames writable) w.frames
  | .mapDevice phys size => ∀ s ∈ w.space,
    s.ForeignFit (AddressSpace.deviceLeaves phys size) w.frames

instance (w : World) : (op : Op) → Decidable (w.Careful op)
  | .newObject _ => .isTrue trivial
  | .newContiguous pages => inferInstanceAs (Decidable (w.frames.map.LowestAdjacent pages))
  | .newSpace => .isTrue trivial
  | .mapUserRange _ _ _ => inferInstanceAs (Decidable (∀ s ∈ w.space, _))
  | .mapShared _ _ => inferInstanceAs (Decidable (∀ s ∈ w.space, _))
  | .mapDevice _ _ => inferInstanceAs (Decidable (∀ s ∈ w.space, _))

def CarefulRun (kernel : Fin 512 → Table 3) (mmio : Nat → Bool) (map : Bitmap) :
    List Op → World → Prop :=
  Run (Guarded Careful fun w op w' => w.step kernel mmio op = some w') (boot map)

def held (w : World) : List Nat := w.frames.taken ++ w.objects.flatten

structure Inv (kernel : Fin 512 → Table 3) (mmio : Nat → Bool) (w : World) : Prop where
  ledger : Ledger mmio w.frames.map w.held
  owns : ∀ s, w.space = some s → s.Owns kernel w.frames.taken
  fresh : w.space = none → w.frames.taken = []

variable {kernel : Fin 512 → Table 3} {mmio : Nat → Bool} {w w' : World}

theorem Inv.returned (inv : w.Inv kernel mmio) : w.Returned mmio := by
  have dropped : w.dropSpace.Perm w.frames.taken := by
    cases space : w.space with
    | none => rw [dropSpace, space, inv.fresh space]
    | some s =>
      rw [dropSpace, space]
      exact (inv.owns s space).drop_perm
  have ledger := inv.ledger.perm (dropped.symm.append_right w.objects.flatten)
  exact ⟨dropped, ledger.nodup, ledger.clean⟩

theorem Inv.addObject {made : Option (List Nat) × Bitmap} (inv : w.Inv kernel mmio)
    (given : ∀ frames, made.1 = some frames → w.frames.map.Gives frames made.2)
    (refused : made.1 = none → Ledger mmio made.2 w.held) : (w.addObject made).Inv kernel mmio := by
  refine ⟨?_, inv.owns, inv.fresh⟩
  obtain ⟨frames, map⟩ := made
  cases frames with
  | none => simpa [held, World.addObject] using refused rfl
  | some frames => simpa [held, World.addObject] using inv.ledger.give (given frames rfl)

theorem Inv.mapped {s : AddressSpace} {fr : Frames} {new : List Nat} (inv : w.Inv kernel mmio)
    (owns : s.Owns kernel fr.taken) (takes : w.frames.Takes fr new) :
    Inv kernel mmio { w with space := some s, frames := fr } := by
  refine ⟨(inv.ledger.give takes.gives).perm ?_, ?_, by simp⟩
  · simp only [held, takes.taken, List.append_assoc]
    exact List.perm_append_comm.append_left _
  · rintro _ ⟨⟩
    exact owns

theorem Inv.newSpace (inv : w.Inv kernel mmio) (none : w.space = none) : Inv kernel mmio { w with
      space := (AddressSpace.new kernel w.frames).1
      frames := (AddressSpace.new kernel w.frames).2 } := by
  unfold AddressSpace.new
  split
  next frame fr drawn =>
    exact inv.mapped (.new inv.ledger.valid drawn (inv.fresh none))
      (Frames.take_takes inv.ledger.valid drawn)
  next => exact ⟨inv.ledger, by simp, fun _ => inv.fresh none⟩

theorem Inv.step {op : Op} (inv : w.Inv kernel mmio) (careful : w.Careful op)
    (ran : w.step kernel mmio op = some w') : w'.Inv kernel mmio := by
  have valid := inv.ledger.valid
  cases op with
  | newObject pages =>
    cases ran
    obtain ⟨given, refused⟩ := memoryObject_new pages (Bitmap.Gives.refl valid)
    refine inv.addObject given fun none => ?_
    obtain ⟨valid', frames, used⟩ := refused none
    exact inv.ledger.same valid' frames used
  | newContiguous pages =>
    cases ran
    obtain ⟨given, refused⟩ := memoryObject_newContiguous valid careful
    exact inv.addObject given fun none => (refused none).symm ▸ inv.ledger
  | newSpace =>
    simp only [World.step] at ran
    split at ran
    next => simp at ran
    next space =>
      cases ran
      exact inv.newSpace space
  | mapUserRange start count flags =>
    simp only [World.step] at ran
    split at ran
    next => simp at ran
    next s space =>
      simp only [AddressSpace.mapUserRange, Option.map_map, Option.map_eq_some_iff] at ran
      obtain ⟨⟨res, pml4, fr⟩, called, rfl⟩ := ran
      obtain ⟨added, grown⟩ := mapUserPages_grows valid (careful s space) called
      obtain ⟨new, takes⟩ := grown.takes
      exact inv.mapped ((inv.owns s space).grow grown) takes
  | mapShared object writable =>
    simp only [World.step] at ran
    split at ran
    next s frames space found =>
      simp only [Option.map_eq_some_iff] at ran
      obtain ⟨⟨start, s', fr⟩, called, rfl⟩ := ran
      rcases AddressSpace.mapForeign_owns valid (inv.owns s space)
        (careful s space frames found) called with ⟨owns, new, takes⟩
      exact inv.mapped owns takes
    next => simp at ran
  | mapDevice phys size =>
    simp only [World.step] at ran
    split at ran
    next => simp at ran
    next s space =>
      split at ran
      next devices =>
        simp only [AddressSpace.mapDevice, Option.map_map, Option.map_eq_some_iff] at ran
        obtain ⟨⟨start, s', fr⟩, called, rfl⟩ := ran
        rcases AddressSpace.mapForeign_owns valid (inv.owns s space) (careful s space) called with
          ⟨owns, new, takes⟩
        exact inv.mapped owns takes
      next => simp at ran

theorem Inv.boot {map : Bitmap} (valid : map.Valid)
    (reserved : ∀ frame, mmio frame = true → ¬map.Free frame) :
    (World.boot map).Inv kernel mmio where
  ledger := ⟨valid, List.nodup_nil, by simp [held, World.boot], by simp [held, World.boot],
    reserved⟩
  owns := by simp [World.boot]
  fresh _ := rfl

/-- After any run of careful calls, dropping the address space and then the
objects gives every frame back once. -/
theorem teardown_returns_frames {map : Bitmap} (valid : map.Valid)
    (reserved : ∀ frame, mmio frame = true → ¬map.Free frame) {ops : List Op}
    (run : CarefulRun kernel mmio map ops w) : w.Returned mmio :=
  (run.invariant (Inv kernel mmio) (.boot valid reserved)
    fun _ _ _ inv taken => inv.step taken.1 taken.2).returned

/-- One object of two pages, a user page and the object mapped behind it; frame 15
is a device's. -/
theorem teardown_returns_frames_of_one_object :
    ∃ w, CarefulRun (fun _ => .empty) (· == 15) ⟨[0x8000#64], 16, 15, 16, 0⟩
      [.newContiguous 2, .newSpace, .mapUserRange 0x400000 1 ⟨true, true, false, false, false⟩,
        .mapShared 0 true] w ∧ w.dropSpace.length = 7 ∧ w.Returned (· == 15) := by
  refine exists_guarded_of_replay (fun w => w.dropSpace.length = 7) (by decide +kernel)
    fun w run length => ?_
  refine ⟨length, teardown_returns_frames ⟨by decide, by decide⟩ ?_ run⟩
  intro frame device
  rw [beq_iff_eq.mp device]
  decide

/-- A user page in the way of the second page of an object: the first page stays
mapped without a record, and teardown frees the object's frame. -/
theorem teardown_frees_object_frame :
    ∃ w, Run (fun w op w' => w.step (fun _ => .empty) (fun _ => false) op = some w')
      (boot ⟨[0#64], 16, 16, 16, 0⟩)
      [.newObject 2, .newSpace, .mapUserRange (USER_MMAP_BASE + 4096) 1
        ⟨true, true, false, false, false⟩,
        .mapShared 0 true] w ∧ 0 ∈ w.dropSpace ∧ 0 ∈ w.dropObjects ∧
      ¬w.Returned fun _ => false := by
  refine exists_of_replay (fun w => 0 ∈ w.dropSpace ∧ 0 ∈ w.dropObjects) (by decide +kernel) ?_
  rintro w - ⟨bySpace, byObject⟩
  refine ⟨bySpace, byObject, fun gave => ?_⟩
  exact (List.nodup_append.mp gave.2.1).2.2 0 bySpace 0 byObject rfl

end World

end K1K.Mm
