import K1K.Lib.Traced
import K1K.Mm.Ownership
import K1K.Obj.CapTable
import K1K.Syscall.UserCopy

/-!
# A service and the memory it is handed

`mem_map` puts a memory object's frames side by side into the service's address space, and
`mem_phys` tells where a contiguous object lies. `objects` gives the named objects with their
frames. The bitmap of the frame allocator may change between any two steps, as long as it stays
valid.
-/

namespace K1K.Service

open K1K.Lib K1K.Mm K1K.Obj K1K.Syscall

/-- `MemoryObject`. `sys_mem_create` refuses to make one without pages, and
`new_contiguous` gives one adjacent frames. -/
structure MemoryObject where
  frames : List Nat
  contiguous : Bool
  nonempty : frames ≠ []
  physical : ∀ frame ∈ frames, frame < PHYS_FRAMES
  adjacent : contiguous = true → ∃ first, frames = List.range' first frames.length

def MemoryObject.pages (o : MemoryObject) : Nat := o.frames.length

theorem MemoryObject.pages_pos (o : MemoryObject) : 0 < o.pages :=
  List.length_pos_of_ne_nil o.nonempty

/-- The service's address space, and the allocator that its page tables come from. -/
structure Host where
  space : AddressSpace
  frames : Frames

/-- The memory object that `lookup` finds behind a slot that holds `cap`. -/
def lookupMemory (cap : Capability) (need : Rights) : Option Nat :=
  if cap.rights.contains need then cap.memory else none

theorem memory_of_lookup {cap : Capability} {need : Rights} {id : Nat}
    (found : lookupMemory cap need = some id) : cap.memory = some id := by
  rw [lookupMemory] at found
  split at found
  · exact found
  · simp at found

namespace Host

variable (objects : Nat → MemoryObject)

/-- `sys_mem_map` on a capability that the service holds; `none` where the kernel
panics. -/
def memMap (h : Host) (cap : Capability) (writable : Bool) :
    Option (Except Errno Nat × Host) :=
  let need := if writable then Rights.MAP_READ.union .MAP_WRITE else Rights.MAP_READ
  match lookupMemory cap need with
  | none => some (.error .EPERM, h)
  | some id =>
    match h.space.mapShared (objects id).frames writable h.frames with
    | none => none
    | some (some va, s, fr) => some (.ok va, ⟨s, fr⟩)
    | some (none, s, fr) => some (.error .ENOMEM, ⟨s, fr⟩)

def memPhys (cap : Capability) : Except Errno Nat :=
  match lookupMemory cap .DMA with
  | none => .error .EPERM
  | some id =>
    if (objects id).contiguous then .ok ((objects id).frames.headD 0 * FRAME_SIZE)
    else .error .EINVAL

structure Sound (h : Host) : Prop where
  valid : h.frames.map.Valid
  aligned : h.space.mmapNext % FRAME_SIZE = 0

def Keeps (h h' : Host) : Prop :=
  ∀ page, page < USER_PAGES → ∀ leaf, translate h.space.pml4 page = some leaf →
    translate h'.space.pml4 page = some leaf

theorem Keeps.refl (h : Host) : h.Keeps h := fun _ _ _ found => found

structure Backed (h : Host) (start : Nat) (frames : List Nat) : Prop where
  aligned : start % FRAME_SIZE = 0
  mapped : ∀ i frame, frames[i]? = some frame → start / FRAME_SIZE + i < USER_PAGES ∧
    translate h.space.pml4 (start / FRAME_SIZE + i) =
      some ⟨frame, AddressSpace.sharedFlags true⟩

theorem Backed.keep {h h' : Host} {start : Nat} {frames : List Nat} (backed : h.Backed start frames)
    (keeps : h.Keeps h') : h'.Backed start frames where
  aligned := backed.aligned
  mapped i frame found := by
    obtain ⟨small, translated⟩ := backed.mapped i frame found
    exact ⟨small, keeps _ small _ translated⟩

theorem Backed.reaches {h : Host} {start : Nat} {frames : List Nat} (backed : h.Backed start frames)
    {va : Nat} (covered : Span.Covers ⟨start, frames.length * FRAME_SIZE⟩ va) :
    ∃ leaf, leafAt h.space va = some leaf ∧ leaf.frame ∈ frames := by
  obtain ⟨above, below⟩ := covered
  have split := Nat.div_add_mod start FRAME_SIZE
  rw [backed.aligned, Nat.add_zero] at split
  have page : va / FRAME_SIZE = start / FRAME_SIZE + (va - start) / FRAME_SIZE := by
    simp only [FRAME_SIZE] at *
    omega
  have bound : (va - start) / FRAME_SIZE < frames.length := by
    simp only [FRAME_SIZE] at *
    omega
  obtain ⟨-, translated⟩ := backed.mapped _ _ (List.getElem?_eq_getElem bound)
  exact ⟨_, (congrArg _ page).trans translated, List.getElem_mem bound⟩

end Host

/-! ## What `mem_map` does to the tables -/

section Mapping

variable {pml4 pml4' : Table 4} {fr fr' : Frames} {page : Nat} {leaves : List Leaf}

theorem allFit_of_completed (valid : fr.map.Valid)
    (ran : mapLeaves leaves page pml4 fr = some (true, pml4', fr')) :
    AllFit leaves page pml4 fr := by
  fun_induction mapLeaves leaves page pml4 fr with
  | case1 => trivial
  | case2 | case4 => cases ran
  | case3 leaf rest page pml4 fr inside pml4₁ fr₁ res ih =>
    obtain ⟨added, grown, -⟩ :=
      mapTo_extends pml4 leaf valid (Nat.lt_of_not_ge (not_or.mp inside).1)
    refine ⟨(mapTo_ok_iff leaf valid).mp (by rw [res]), ?_⟩
    rw [res] at grown ⊢
    exact ih grown.valid ran

theorem mapLeaves_keeps {completed : Bool} (valid : fr.map.Valid)
    (ran : mapLeaves leaves page pml4 fr = some (completed, pml4', fr')) {other : Nat}
    (lt : other < USER_PAGES) {leaf : Leaf} (found : translate pml4 other = some leaf) :
    translate pml4' other = some leaf := by
  fun_induction mapLeaves leaves page pml4 fr with
  | case1 =>
    cases ran
    exact found
  | case2 => cases ran
  | case3 first rest page pml4 fr inside pml4₁ fr₁ res ih =>
    have grown := mapTo_grows valid (Nat.lt_of_not_ge (not_or.mp inside).1) (by rw [res])
    have kept := (grown.translated other lt leaf).mpr (.inr found)
    have later := grown.extends.valid
    rw [res] at kept later
    exact ih later ran kept
  | case4 first rest page pml4 fr inside error pml4₁ fr₁ res =>
    cases ran
    have failed : (mapTo pml4 page first fr).1 ≠ .ok () := by
      rw [res]
      rintro ⟨⟩
    have same := mapTo_fails valid (Nat.lt_of_not_ge (not_or.mp inside).1) failed
    have kept := (same.translated other lt leaf).mpr (.inr found)
    rwa [res] at kept

end Mapping

namespace Host

variable {objects : Nat → MemoryObject} {h h' : Host}

theorem mapShared_keeps (sound : h.Sound) {object : List Nat} {writable : Bool}
    {start : Option Nat} {s : AddressSpace} {fr : Frames}
    (ran : h.space.mapShared object writable h.frames = some (start, s, fr)) :
    Sound ⟨s, fr⟩ ∧ h.Keeps ⟨s, fr⟩ := by
  simp only [AddressSpace.mapShared, AddressSpace.mapForeign] at ran
  split at ran
  next => simp at ran
  next pml4 fr' res =>
    cases ran
    obtain ⟨added, grown, -⟩ := mapLeaves_extends sound.valid res
    exact ⟨⟨grown.valid, sound.aligned⟩,
      fun _ small _ found => mapLeaves_keeps sound.valid res small found⟩
  next pml4 fr' res =>
    cases ran
    obtain ⟨added, grown, -⟩ := mapLeaves_extends sound.valid res
    refine ⟨⟨grown.valid, ?_⟩, fun _ small _ found => mapLeaves_keeps sound.valid res small found⟩
    simpa using sound.aligned

theorem mapShared_backed (sound : h.Sound) {object : List Nat} {start : Nat} {s : AddressSpace}
    {fr : Frames} (ran : h.space.mapShared object true h.frames = some (some start, s, fr)) :
    Backed ⟨s, fr⟩ start object := by
  simp only [AddressSpace.mapShared, AddressSpace.mapForeign] at ran
  split at ran
  next => simp at ran
  next => simp at ran
  next pml4 fr' res =>
    cases ran
    have grown := (mapLeaves_grows sound.valid (allFit_of_completed sound.valid res) res).2
    refine ⟨sound.aligned, fun i frame found => ?_⟩
    have mem : (h.space.mmapNext / FRAME_SIZE + i,
        (⟨frame, AddressSpace.sharedFlags true⟩ : Leaf)) ∈
        (List.range' (h.space.mmapNext / FRAME_SIZE)
          (AddressSpace.sharedLeaves object true).length).zip
        (AddressSpace.sharedLeaves object true) := by
      obtain ⟨bound, rfl⟩ := List.getElem?_eq_some_iff.mp found
      refine List.mem_iff_getElem.mpr ⟨i, by simpa [AddressSpace.sharedLeaves] using bound, ?_⟩
      simp [AddressSpace.sharedLeaves]
    have small := grown.inside _ _ mem
    exact ⟨small, (grown.translated _ small _).mpr (.inl mem)⟩

theorem memMap_spec (sound : h.Sound) {cap : Capability} {res : Except Errno Nat}
    (ran : h.memMap objects cap true = some (res, h')) :
    h'.Sound ∧ h.Keeps h' ∧ ∀ start, res = .ok start →
      ∃ id, cap.memory = some id ∧ h'.Backed start (objects id).frames := by
  simp only [memMap] at ran
  split at ran
  next =>
    cases ran
    exact ⟨sound, .refl h, by simp⟩
  next id named =>
    have memory := memory_of_lookup named
    split at ran
    next => simp at ran
    next va s fr mapped =>
      cases ran
      obtain ⟨sound', keeps⟩ := mapShared_keeps sound mapped
      refine ⟨sound', keeps, ?_⟩
      rintro start ⟨⟩
      exact ⟨id, memory, mapShared_backed sound mapped⟩
    next s fr mapped =>
      cases ran
      obtain ⟨sound', keeps⟩ := mapShared_keeps sound mapped
      exact ⟨sound', keeps, by simp⟩

end Host

end K1K.Service
