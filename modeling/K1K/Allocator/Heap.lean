import K1K.Lib.Memory

/-!
# The block-list allocator

`k1k-alloc` keeps its memory as a doubly linked list of blocks in address order. A header has
four words (`size_flags`, `next`, `prev`, `back`); bit 0 of `size_flags` marks a free block. The
word below a payload holds the distance back to its header.

Sums that a caller's size or alignment goes into are taken modulo `2 ^ 64`; the others stay
inside a region. Null is address zero. A loop over the list carries fuel and answers `none` when
it runs out.
-/

namespace K1K.Allocator

open K1K.Lib

def ALIGN : Nat := 16
def HEADER : Nat := 32
def MIN_SPLIT : Nat := HEADER + ALIGN
def BACK : Nat := 8
def FREE : Nat := 1
def MAX_REGIONS : Nat := 1024

structure Region where
  base : Nat
  len : Nat
  deriving DecidableEq, Repr

class Supply (S : Type) where
  supply : S → Nat → Option Region × S
  reserve : S → Nat → S := fun supplier _ => supplier

inductive Fixed where
  | fixed
  deriving DecidableEq

instance : Supply Fixed where
  supply supplier _ := (none, supplier)

def alignUp (v step : Nat) : Nat :=
  (BitVec.ofNat 64 (v + step - 1) &&& ~~~BitVec.ofNat 64 (step - 1)).toNat

def blockFor (size align : Nat) : Nat :=
  alignUp (size + HEADER + (align - 1)) ALIGN

/-! ## Headers -/

section Header

variable (mem : Memory) (header : Nat)

def sizeFlags : Nat := mem.load64 header
def next : Nat := mem.load64 (header + 8)
def prev : Nat := mem.load64 (header + 16)

def setSizeFlags (value : Nat) : Memory := mem.store64 header value
def setNext (value : Nat) : Memory := mem.store64 (header + 8) value
def setPrev (value : Nat) : Memory := mem.store64 (header + 16) value

def blockSize : Nat := sizeFlags mem header - (sizeFlags mem header &&& FREE)

def isFree : Bool := sizeFlags mem header &&& FREE != 0

end Header

def headerOf (mem : Memory) (payload : Nat) : Nat :=
  payload - mem.load64 (payload - BACK)

def stampBack (mem : Memory) (payload header : Nat) : Memory :=
  mem.store64 (payload - BACK) (payload - header)

/-- Put a free block of `size` at `place`, between `cur` and `after`; a free
`after` is absorbed. -/
@[irreducible] def linkFree (mem : Memory) (cur place size after : Nat) : Memory :=
  let absorbs := after ≠ 0 ∧ isFree mem after
  let total := if absorbs then size + blockSize mem after else size
  let rest := if absorbs then next mem after else after
  let mem := setSizeFlags mem place (total ||| FREE)
  let mem := setNext mem place rest
  let mem := setPrev mem place cur
  let mem := if rest ≠ 0 then setPrev mem rest place else mem
  setNext mem cur place

@[irreducible] def mergeNext (mem : Memory) (cur total : Nat) : Memory :=
  let following := next mem cur
  if following ≠ 0 ∧ isFree mem following then
    let mem := setSizeFlags mem cur ((total + blockSize mem following) ||| FREE)
    let mem := setNext mem cur (next mem following)
    if next mem cur ≠ 0 then setPrev mem (next mem cur) cur else mem
  else mem

/-- The part of `give_block` that lets a free block before `cur` take it in. -/
@[irreducible] def mergePrev (mem : Memory) (cur : Nat) : Memory :=
  let previous := prev mem cur
  if previous ≠ 0 ∧ isFree mem previous then
    let mem := setSizeFlags mem previous ((blockSize mem previous + blockSize mem cur) ||| FREE)
    let mem := setNext mem previous (next mem cur)
    if next mem cur ≠ 0 then setPrev mem (next mem cur) previous else mem
  else mem

@[irreducible] def giveBlock (mem : Memory) (cur : Nat) : Memory :=
  let total := blockSize mem cur
  let mem := setSizeFlags mem cur (total ||| FREE)
  mergePrev (mergeNext mem cur total) cur

/-- Cut `cur`, which has `total` bytes, down to `keep` and link the rest as a
free block. -/
def cutTail (mem : Memory) (cur keep total after : Nat) : Memory :=
  linkFree (setSizeFlags mem cur keep) cur (cur + keep) (total - keep) after

@[irreducible] def splitTail (mem : Memory) (cur keep : Nat) : Nat × Memory :=
  let total := blockSize mem cur
  if total < keep + MIN_SPLIT then (0, mem)
  else (total - keep, cutTail mem cur keep total (next mem cur))

def takeFrom (mem : Memory) (need : Nat) : Nat → Nat → Option (Option Nat × Memory)
  | 0, _ => none
  | fuel + 1, cur =>
    if cur = 0 then some (none, mem)
    else if isFree mem cur ∧ need ≤ blockSize mem cur then
      let total := blockSize mem cur
      if MIN_SPLIT ≤ total - need then
        some (some cur, cutTail mem cur need total (next mem cur))
      else some (some cur, setSizeFlags mem cur total)
    else takeFrom mem need fuel (next mem cur)

def tailFrom (mem : Memory) : Nat → Nat → Option Nat
  | 0, _ => none
  | fuel + 1, cur => if next mem cur = 0 then some cur else tailFrom mem fuel (next mem cur)

/-- Take over as much of the free block after `cur` as `need` asks for; the
result counts the bytes that came from it. -/
@[irreducible] def absorbNext (mem : Memory) (cur oldTotal need : Nat) : Nat × Memory :=
  let following := next mem cur
  if following = 0 ∨ ¬isFree mem following then (0, mem)
  else
    let extra := blockSize mem following
    if oldTotal + extra < need then (0, mem)
    else
      let after := next mem following
      let take := need - oldTotal
      if MIN_SPLIT ≤ extra - take then
        (take, linkFree (setSizeFlags mem cur need) cur (cur + need) (extra - take) after)
      else
        let mem := setSizeFlags mem cur (oldTotal + extra)
        let mem := setNext mem cur after
        (extra, if after ≠ 0 then setPrev mem after cur else mem)

/-! ## The heap -/

structure Heap (S : Type) where
  mem : Memory
  regions : List Region
  head : Nat
  supply : S
  inUse : Nat
  peak : Nat
  live : Nat
  allocs : Nat
  frees : Nat
  failures : Nat

namespace Heap

variable {S : Type}

def new (mem : Memory) (supply : S) : Heap S where
  mem := mem
  regions := []
  head := 0
  supply := supply
  inUse := 0
  peak := 0
  live := 0
  allocs := 0
  frees := 0
  failures := 0

variable (h : Heap S)

def regionBytes : Nat := (h.regions.map Region.len).sum

def fuel : Nat := h.regionBytes + 1

def overlaps (region : Region) : Bool :=
  h.regions.any fun r => region.base < r.base + r.len && r.base < region.base + region.len

def tail : Option Nat :=
  if h.head = 0 then some 0 else tailFrom h.mem h.fuel h.head

def takeBlock (need : Nat) : Option (Option Nat × Memory) :=
  takeFrom h.mem need h.fuel h.head

def record (region : Region) : Heap S := { h with regions := h.regions ++ [region] }

def linkRegion (region : Region) (last : Nat) : Heap S :=
  if last ≠ 0 ∧ last + blockSize h.mem last = region.base ∧ isFree h.mem last then
    { h with mem := setSizeFlags h.mem last ((blockSize h.mem last + region.len) ||| FREE) }
  else
    let first := region.base
    let mem := setSizeFlags h.mem first (region.len ||| FREE)
    let mem := setPrev mem first last
    let mem := setNext mem first 0
    if last = 0 then { h with mem := mem, head := first }
    else { h with mem := setNext mem last first }

def addRegion (region : Region) : Option (Bool × Heap S) :=
  if region.len < MIN_SPLIT ∨ region.base % ALIGN ≠ 0 ∨ MAX_REGIONS ≤ h.regions.length then
    some (false, h)
  else if h.overlaps region then some (false, h)
  else
    (h.record region).tail.map fun last => (true, (h.record region).linkRegion region last)

def handOut (mem : Memory) (cur payload : Nat) : Heap S :=
  let mem := stampBack mem payload cur
  let inUse := h.inUse + blockSize mem cur
  { h with
    mem := mem
    inUse := inUse
    live := h.live + 1
    allocs := h.allocs + 1
    peak := max h.peak inUse }

def fail : Heap S := { h with failures := h.failures + 1 }

/-- `alloc` with a bound on how often it may ask the supplier and try again. -/
def allocWithin [Supply S] : Nat → Heap S → Nat → Nat → Option (Nat × Heap S)
  | 0, _, _, _ => none
  | rounds + 1, h, size, requested =>
    let align := max requested ALIGN
    if align.isPowerOfTwo then
      let want := max size 1
      let need := blockFor want align
      match h.takeBlock need with
      | none => none
      | some (some cur, mem) =>
        let payload := alignUp (cur + HEADER) align
        some (payload, h.handOut mem cur payload)
      | some (none, _) =>
        match Supply.supply h.supply need with
        | (none, supply) => some (0, { h with supply := supply }.fail)
        | (some region, supply) =>
          match { h with supply := supply }.addRegion region with
          | none => none
          | some (false, refused) => some (0, refused.fail)
          | some (true, grown) => allocWithin rounds grown want align
    else some (0, h)

def alloc [Supply S] (size align : Nat) : Option (Nat × Heap S) :=
  allocWithin (MAX_REGIONS + 1) h size align

def dealloc (ptr : Nat) : Heap S :=
  if ptr = 0 then h
  else
    let cur := headerOf h.mem ptr
    { h with
      inUse := h.inUse - blockSize h.mem cur
      live := h.live - 1
      frees := h.frees + 1
      mem := giveBlock h.mem cur }

def copy (src dst count : Nat) : Heap S :=
  { h with mem := h.mem.write dst (h.mem.read src count) }

def realloc [Supply S] (ptr oldSize align newSize : Nat) : Option (Nat × Heap S) :=
  if newSize = 0 then some (0, h.dealloc ptr)
  else
    let cur := headerOf h.mem ptr
    let oldTotal := blockSize h.mem cur
    let offset := ptr - cur
    let need := alignUp (offset + max newSize 1) ALIGN
    if need ≤ oldTotal then
      let (given, mem) := splitTail h.mem cur need
      some (ptr, { h with inUse := h.inUse - given, mem := mem })
    else
      let (absorbed, mem) := absorbNext h.mem cur oldTotal need
      if 0 < absorbed then
        some (ptr, { h with inUse := h.inUse + absorbed, mem := mem })
      else
        match h.alloc newSize (max align ALIGN) with
        | none => none
        | some (fresh, moved) =>
          if fresh = 0 then some (0, moved)
          else some (fresh, (moved.copy ptr fresh (min oldSize newSize)).dealloc ptr)

def reserveSupply [Supply S] (bytes : Nat) : Heap S :=
  { h with supply := Supply.reserve h.supply bytes }

end Heap

end K1K.Allocator
