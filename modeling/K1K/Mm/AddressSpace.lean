import K1K.Lib.Radix
import K1K.Mm.Alloc

/-!
# Address spaces

`AddressSpace` of `kernel/src/mm/vmm.rs` over the frame bitmap, with the memory objects of
`kernel/src/obj/mod.rs`. Page tables are radix trees of height four whose nodes carry their
frame. `map_to` and `unmap` are insertion and removal: missing tables come from the frame
allocator and stay when a later allocation fails.

`taken` records which frames the address space was given. A panic ends a call with `none`.
-/

namespace K1K.Mm

open K1K.Lib

def USER_MMAP_BASE : Nat := 0x1000000000

def USER_PAGES : Nat := 2 ^ 35

def PHYS_FRAMES : Nat := 2 ^ 40

structure Flags where
  writable : Bool
  noExecute : Bool
  noCache : Bool
  writeThrough : Bool
  user : Bool
  deriving DecidableEq, Repr

def Flags.forUser (flags : Flags) : Flags := { flags with user := true }

structure Leaf where
  frame : Nat
  flags : Flags
  deriving DecidableEq, Repr

abbrev Table : Nat → Type := Radix Leaf Nat 512

def pagePath (page : Nat) : List (Fin 512) :=
  [Fin.ofNat 512 (page / 512 ^ 3), Fin.ofNat 512 (page / 512 ^ 2),
    Fin.ofNat 512 (page / 512), Fin.ofNat 512 page]

structure Frames where
  map : Bitmap
  taken : List Nat
  deriving DecidableEq, Repr

def Frames.take (fr : Frames) : Option (Nat × Frames) :=
  match fr.map.alloc with
  | (some frame, map) => some (frame, ⟨map, fr.taken ++ [frame]⟩)
  | (none, _) => none

def mapTo (pml4 : Table 4) (page : Nat) (leaf : Leaf) (fr : Frames) :
    Except Radix.InsertError Unit × Table 4 × Frames :=
  pml4.insert Frames.take leaf (pagePath page) fr

def unmap (pml4 : Table 4) (page : Nat) : Table 4 := (pml4.remove (pagePath page)).2

def translate (pml4 : Table 4) (page : Nat) : Option Leaf := pml4.lookup (pagePath page)

structure SharedMapping where
  start : Nat
  pages : Nat
  deriving DecidableEq, Repr

structure AddressSpace where
  pml4 : Table 4
  shared : List SharedMapping
  mmapNext : Nat

/-- The loop of `map_shared` and `map_device`: one leaf after the other, until
`map_to` fails. -/
def mapLeaves : List Leaf → Nat → Table 4 → Frames → Option (Bool × Table 4 × Frames)
  | [], _, pml4, fr => some (true, pml4, fr)
  | leaf :: rest, page, pml4, fr =>
    if page ≥ USER_PAGES ∨ leaf.frame ≥ PHYS_FRAMES then none
    else
      match mapTo pml4 page leaf fr with
      | (.ok (), pml4, fr) => mapLeaves rest (page + 1) pml4 fr
      | (.error _, pml4, fr) => some (false, pml4, fr)

namespace AddressSpace

def new (kernel : Fin 512 → Table 3) (fr : Frames) : Option AddressSpace × Frames :=
  match fr.take with
  | some (frame, fr) =>
    (some ⟨.node frame fun i => if i.val < 256 then .empty else kernel i, [], USER_MMAP_BASE⟩, fr)
  | none => (none, fr)

/-- What `map_shared` and `map_device` have in common: map the leaves at
`mmap_next`, and record the mapping once they are all there. -/
def mapForeign (s : AddressSpace) (leaves : List Leaf) (fr : Frames) :
    Option (Option Nat × AddressSpace × Frames) :=
  match mapLeaves leaves (s.mmapNext / FRAME_SIZE) s.pml4 fr with
  | none => none
  | some (false, pml4, fr) => some (none, { s with pml4 := pml4 }, fr)
  | some (true, pml4, fr) =>
    some (some s.mmapNext,
      { pml4 := pml4
        shared := s.shared ++ [⟨s.mmapNext, leaves.length⟩]
        mmapNext := s.mmapNext + (leaves.length + 1) * FRAME_SIZE }, fr)

def sharedFlags (writable : Bool) : Flags := ⟨writable, true, false, false, true⟩

def deviceFlags : Flags := ⟨true, true, true, true, true⟩

def sharedLeaves (object : List Nat) (writable : Bool) : List Leaf :=
  object.map fun frame => ⟨frame, sharedFlags writable⟩

def mapShared (s : AddressSpace) (object : List Nat) (writable : Bool) (fr : Frames) :
    Option (Option Nat × AddressSpace × Frames) :=
  s.mapForeign (sharedLeaves object writable) fr

def deviceFrames (phys size : Nat) : List Nat :=
  let first := phys / FRAME_SIZE
  let stop := (phys + size + FRAME_SIZE - 1) / FRAME_SIZE
  List.range' first (stop - first)

def deviceLeaves (phys size : Nat) : List Leaf :=
  (deviceFrames phys size).map fun frame => ⟨frame, deviceFlags⟩

def mapDevice (s : AddressSpace) (phys size : Nat) (fr : Frames) :
    Option (Option Nat × AddressSpace × Frames) :=
  (s.mapForeign (deviceLeaves phys size) fr).map fun (start, s, fr) =>
    (start.map (· + phys % FRAME_SIZE), s, fr)

def mapUserPage (pml4 : Table 4) (page : Nat) (flags : Flags) (fr : Frames) :
    Except Radix.InsertError Unit × Table 4 × Frames :=
  match fr.take with
  | none => (.error .exhausted, pml4, fr)
  | some (frame, fr) => mapTo pml4 page ⟨frame, flags.forUser⟩ fr

def mapUserPages (flags : Flags) :
    Nat → Nat → Table 4 → Frames → Option (Except Radix.InsertError Unit × Table 4 × Frames)
  | 0, _, pml4, fr => some (.ok (), pml4, fr)
  | count + 1, page, pml4, fr =>
    if page ≥ USER_PAGES then none
    else
      match mapUserPage pml4 page flags fr with
      | (.ok (), pml4, fr) => mapUserPages flags count (page + 1) pml4 fr
      | (.error e, pml4, fr) => some (.error e, pml4, fr)

def mapUserRange (s : AddressSpace) (start count : Nat) (flags : Flags) (fr : Frames) :
    Option (AddressSpace × Frames) :=
  (mapUserPages flags count (start / FRAME_SIZE) s.pml4 fr).map fun (_, pml4, fr) =>
    ({ s with pml4 := pml4 }, fr)

def unmapShared (s : AddressSpace) : Table 4 :=
  s.shared.foldl (fun pml4 mapping =>
    (List.range mapping.pages).foldl (fun pml4 i =>
      unmap pml4 (mapping.start / FRAME_SIZE + i)) pml4) s.pml4

/-- `free_table_recursive`: the frames it passes to `free_frame`, in order. -/
def freeTableRecursive {level : Nat} (table : Table level) : List Nat := table.contents Leaf.frame

def freeUserHalf : Table 4 → List Nat
  | .node _ children =>
    ((List.finRange 512).filter (·.val < 256)).flatMap fun i => freeTableRecursive (children i)
  | .empty => []

def pml4Frame : Table 4 → List Nat
  | .node frame _ => [frame]
  | .empty => []

def drop (s : AddressSpace) : List Nat :=
  freeUserHalf s.unmapShared ++ pml4Frame s.pml4

end AddressSpace

/-- `MemoryObject::new`: single frames, all given back when one is missing. -/
def MemoryObject.new : Nat → List Nat → Bitmap → Option (List Nat) × Bitmap
  | 0, frames, b => (some frames, b)
  | pages + 1, frames, b =>
    match b.alloc with
    | (some frame, b) => MemoryObject.new pages (frames ++ [frame]) b
    | (none, b) => (none, frames.foldl Bitmap.release b)

def MemoryObject.newContiguous (pages : Nat) (b : Bitmap) : Option (List Nat) × Bitmap :=
  match b.allocContiguous pages with
  | (some first, b) => (some (List.range' first pages), b)
  | (none, b) => (none, b)

/-! ## Runs -/

structure World where
  frames : Frames
  space : Option AddressSpace
  objects : List (List Nat)

inductive Op where
  | newObject (pages : Nat)
  | newContiguous (pages : Nat)
  | newSpace
  | mapUserRange (start count : Nat) (flags : Flags)
  | mapShared (object : Nat) (writable : Bool)
  | mapDevice (phys size : Nat)
  deriving DecidableEq, Repr

namespace World

def boot (map : Bitmap) : World := ⟨⟨map, []⟩, none, []⟩

def addObject (w : World) (made : Option (List Nat) × Bitmap) : World :=
  { w with
    frames := { w.frames with map := made.2 }
    objects := w.objects ++ made.1.toList }

/-- One call. `none` where it does not apply or the kernel panics. The device ranges are those of
`mmio`, which are not usable memory. -/
def step (kernel : Fin 512 → Table 3) (mmio : Nat → Bool) (w : World) : Op → Option World
  | .newObject pages => some (w.addObject (MemoryObject.new pages [] w.frames.map))
  | .newContiguous pages => some (w.addObject (MemoryObject.newContiguous pages w.frames.map))
  | .newSpace =>
    match w.space with
    | some _ => none
    | none =>
      let (space, fr) := AddressSpace.new kernel w.frames
      some { w with space := space, frames := fr }
  | .mapUserRange start count flags =>
    match w.space with
    | none => none
    | some s => (s.mapUserRange start count flags w.frames).map fun (s, fr) =>
        { w with space := some s, frames := fr }
  | .mapShared object writable =>
    match w.space, w.objects[object]? with
    | some s, some frames => (s.mapShared frames writable w.frames).map fun (_, s, fr) =>
        { w with space := some s, frames := fr }
    | _, _ => none
  | .mapDevice phys size =>
    match w.space with
    | none => none
    | some s =>
      if (AddressSpace.deviceFrames phys size).all mmio then
        (s.mapDevice phys size w.frames).map fun (_, s, fr) =>
          { w with space := some s, frames := fr }
      else none

def dropSpace (w : World) : List Nat :=
  match w.space with
  | some s => s.drop
  | none => []

def dropObjects (w : World) : List Nat := w.objects.flatten

/-- Every frame the address space took comes back once, every frame of an object once, from the
object, and no device frame at all. -/
def Returned (mmio : Nat → Bool) (w : World) : Prop :=
  w.dropSpace.Perm w.frames.taken ∧ (w.dropSpace ++ w.dropObjects).Nodup ∧
    ∀ frame ∈ w.dropSpace ++ w.dropObjects, mmio frame = false

end World

end K1K.Mm
