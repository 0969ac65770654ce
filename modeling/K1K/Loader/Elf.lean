import K1K.Lib.Checked
import K1K.Syscall.UserCopy

/-!
# The ELF loader

`load` of `kernel/src/loader/mod.rs`, with `write_user` of `kernel/src/mm/vmm.rs`, under either
build profile: some sums are checked, the others are not. `usize` has 64 bits. `none` is a
panic: an overflow, a slice out of range, an address that is not canonical, or an unmapped page
in `write_user`.
-/

namespace K1K.Loader

open K1K.Lib K1K.Mm

def ELF_MAGIC : List Byte := [0x7f, 0x45, 0x4c, 0x46]
def ELFCLASS64 : Byte := 2
def ELFDATA2LSB : Byte := 1
def ET_EXEC : BitVec 16 := 2
def EM_X86_64 : BitVec 16 := 0x3e
def PT_LOAD : BitVec 32 := 1
def PF_X : BitVec 32 := 1
def PF_W : BitVec 32 := 2

def USER_MIN : BitVec 64 := 0x400000
def USER_MAX : BitVec 64 := 0x7fff00000000

inductive LoadError where
  | badMagic
  | unsupported
  | truncated
  | badSegment
  | outOfMemory
  deriving DecidableEq, Repr

/-! ## Reading the file -/

def slice (image : List Byte) (start stop : BitVec 64) : Option (List Byte) :=
  if start.toNat ≤ stop.toNat ∧ stop.toNat ≤ image.length then
    some ((image.drop start.toNat).take (stop.toNat - start.toNat))
  else none

def fromLeBytes (width : Nat) (bytes : List Byte) : BitVec width :=
  BitVec.ofNat width (bytes.foldr (fun byte above => byte.toNat + 256 * above) 0)

section Reading

variable (profile : Overflow) (image : List Byte)

/-- What `u16_at`, `u32_at` and `u64_at` have in common, `count` being the size of
the field; their callers turn a missing field into an error. -/
def fieldAt (count : Nat) (off : BitVec 64) : Checked LoadError (BitVec (8 * count)) := do
  let stop ← profile.add off (BitVec.ofNat 64 count)
  match slice image off stop with
  | some bytes => return fromLeBytes (8 * count) bytes
  | none => throw .truncated

def u16At (off : BitVec 64) : Checked LoadError (BitVec 16) := fieldAt profile image 2 off

def u32At (off : BitVec 64) : Checked LoadError (BitVec 32) := fieldAt profile image 4 off

def u64At (off : BitVec 64) : Checked LoadError (BitVec 64) := fieldAt profile image 8 off

structure Header where
  entry : BitVec 64
  phoff : BitVec 64
  phentsize : BitVec 16
  phnum : BitVec 16
  deriving DecidableEq, Repr

def readHeader : Checked LoadError Header := do
  .refuseIf (image.length < 64 ∨ image.take 4 ≠ ELF_MAGIC) .badMagic
  .refuseIf (image.getD 4 0 ≠ ELFCLASS64 ∨ image.getD 5 0 ≠ ELFDATA2LSB) .unsupported
  let eType ← u16At profile image 16
  let eMachine ← u16At profile image 18
  .refuseIf (eType ≠ ET_EXEC ∨ eMachine ≠ EM_X86_64) .unsupported
  let entry ← u64At profile image 24
  let phoff ← u64At profile image 32
  let phentsize ← u16At profile image 54
  let phnum ← u16At profile image 56
  .refuseIf (phentsize.toNat < 56) .unsupported
  return ⟨entry, phoff, phentsize, phnum⟩

structure Segment where
  flags : BitVec 32
  offset : BitVec 64
  vaddr : BitVec 64
  filesz : BitVec 64
  memsz : BitVec 64
  deriving DecidableEq, Repr

/-- The `i`th program header; `none` for one that the loop passes over. -/
def programHeader (h : Header) (i : Nat) : Checked LoadError (Option Segment) := do
  let skip ← profile.mul (BitVec.ofNat 64 i) (h.phentsize.setWidth 64)
  let ph ← profile.add h.phoff skip
  let pType ← u32At profile image ph
  if pType ≠ PT_LOAD then return none
  let pFlags ← u32At profile image (← profile.add ph 4)
  let pOffset ← u64At profile image (← profile.add ph 8)
  let pVaddr ← u64At profile image (← profile.add ph 16)
  let pFilesz ← u64At profile image (← profile.add ph 32)
  let pMemsz ← u64At profile image (← profile.add ph 40)
  if pMemsz = 0 then return none
  return some ⟨pFlags, pOffset, pVaddr, pFilesz, pMemsz⟩

end Reading

def checkedAdd (a b : BitVec 64) : Option (BitVec 64) :=
  if BitVec.uaddOverflow a b then none else some (a + b)

/-- The checks on a segment, which end with the addresses where it ends in memory
and in the file. -/
def Segment.check (seg : Segment) (len : Nat) : Except LoadError (BitVec 64 × BitVec 64) :=
  match checkedAdd seg.vaddr seg.memsz with
  | none => .error .badSegment
  | some stop =>
    if seg.vaddr < USER_MIN ∨ stop > USER_MAX ∨ seg.filesz > seg.memsz then .error .badSegment
    else
      match checkedAdd seg.offset seg.filesz with
      | none => .error .badSegment
      | some fileEnd => if fileEnd.toNat > len then .error .truncated else .ok (stop, fileEnd)

/-! ## Filling the address space -/

/-- What a load changes: the tables, the frame allocator and physical memory. -/
structure Loading where
  space : AddressSpace
  frames : Frames
  mem : Memory

def Loading.grow (st : Loading) (pml4 : Table 4) (fr : Frames) : Loading where
  space := { st.space with pml4 := pml4 }
  frames := fr
  mem a := if a / FRAME_SIZE ∈ fr.taken.drop st.frames.taken.length then 0 else st.mem a

/-- `VirtAddr::new` on an address of the lower half. -/
def virtAddr (va : BitVec 64) : Option Nat := if va.toNat < 2 ^ 47 then some va.toNat else none

/-- `write_user`. Its loop goes through the tables as `copy_to_user` does, but
takes for granted that the pages are mapped. -/
def writeUser (s : AddressSpace) (mem : Memory) (dst : Nat) (data : List Byte) : Option Memory :=
  if dst + data.length > 2 ^ 47 then none
  else
    match Syscall.copyOutLoop s data.length dst data ⟨mem, []⟩ with
    | (.ok (), written) => some written.mem
    | (.error _, _) => none

def Segment.leafFlags (seg : Segment) : Flags where
  writable := decide (seg.flags &&& PF_W ≠ 0)
  noExecute := decide (seg.flags &&& PF_X = 0)
  noCache := false
  writeThrough := false
  user := false

def placeSegment (profile : Overflow) (image : List Byte) (seg : Segment)
    (stop fileEnd : BitVec 64) (st : Loading) : Option (Except LoadError Unit × Loading) := do
  let firstPage := seg.vaddr &&& ~~~(BitVec.ofNat 64 FRAME_SIZE - 1)
  let span ← profile.sub stop firstPage
  let pages := (span.toNat + FRAME_SIZE - 1) / FRAME_SIZE
  let start ← virtAddr firstPage
  match ← AddressSpace.mapUserPages seg.leafFlags pages (start / FRAME_SIZE) st.space.pml4
    st.frames with
  | (.error _, pml4, fr) => return (.error .outOfMemory, st.grow pml4 fr)
  | (.ok (), pml4, fr) =>
    let grown := st.grow pml4 fr
    let data ← slice image seg.offset fileEnd
    let dst ← virtAddr seg.vaddr
    let mem ← writeUser grown.space grown.mem dst data
    return (.ok (), { grown with mem := mem })

def loadLoop (profile : Overflow) (image : List Byte) (h : Header) :
    Nat → Nat → Nat → Loading → Option (Except LoadError Nat × Loading)
  | 0, _, segments, st => some (.ok segments, st)
  | left + 1, i, segments, st =>
    match (programHeader profile image h i).run with
    | none => none
    | some (.error e) => some (.error e, st)
    | some (.ok none) => loadLoop profile image h left (i + 1) segments st
    | some (.ok (some seg)) =>
      match seg.check image.length with
      | .error e => some (.error e, st)
      | .ok bounds =>
        match placeSegment profile image seg bounds.1 bounds.2 st with
        | none => none
        | some (.error e, st) => some (.error e, st)
        | some (.ok (), st) => loadLoop profile image h left (i + 1) (segments + 1) st

def load (profile : Overflow) (image : List Byte) (st : Loading) :
    Option (Except LoadError (BitVec 64) × Loading) :=
  match (readHeader profile image).run with
  | none => none
  | some (.error e) => some (.error e, st)
  | some (.ok h) =>
    match loadLoop profile image h h.phnum.toNat 0 0 st with
    | none => none
    | some (.error e, st) => some (.error e, st)
    | some (.ok segments, st) =>
      if segments = 0 ∨ h.entry < USER_MIN ∨ h.entry ≥ USER_MAX then
        some (.error .badSegment, st)
      else some (.ok h.entry, st)

end K1K.Loader
