import K1K.Lib.Bits

/-!
# The frame bitmap

`kernel/src/mm/pmm.rs`: one bit per 4 KiB frame, set while the frame is used. The `static`
behind its lock is passed from call to call.
-/

namespace K1K.Mm

open K1K.Lib

def FRAME_SIZE : Nat := 4096

structure Bitmap where
  bits : List (BitVec 64)
  frames : Nat
  free : Nat
  totalUsable : Nat
  nextHint : Nat
  deriving DecidableEq, Repr

/-- How a scan for adjacent frames ends: it found them, it met a clear bit past the last frame, or
it ran out of bits. -/
inductive Scan where
  | found (start idx : Nat)
  | outside
  | more (run start : Nat)
  deriving DecidableEq, Repr

namespace Bitmap

def isUsed (b : Bitmap) (i : Nat) : Bool :=
  b.bits.getD (i / 64) 0 &&& (1#64 <<< (i % 64)) != 0

def setUsed (b : Bitmap) (i : Nat) : Bitmap :=
  { b with bits := b.bits.modify (i / 64) fun word => word ||| (1#64 <<< (i % 64)) }

def setFree (b : Bitmap) (i : Nat) : Bitmap :=
  { b with bits := b.bits.modify (i / 64) fun word => word &&& ~~~(1#64 <<< (i % 64)) }

/-- One turn of `alloc`: the lowest clear bit of the word `step` words after
the hint, unless the word is full or the bit lies past the last frame. -/
def candidate (b : Bitmap) (step : Nat) : Option Nat :=
  let w := (b.nextHint / 64 + step) % b.bits.length
  let word := b.bits.getD w 0
  if word != BitVec.allOnes 64 then
    let idx := w * 64 + (~~~word).ctz.toNat
    if idx ≥ b.frames then none else some idx
  else none

def alloc (b : Bitmap) : Option Nat × Bitmap :=
  match (List.range b.bits.length).findSome? b.candidate with
  | some idx => (some idx, { b.setUsed idx with free := b.free - 1, nextHint := idx + 1 })
  | none => (none, b)

/-- The inner loop of `alloc_contiguous` over the clear bits of one word. A
word has at most 64 of them, which is the `fuel` it is started with. -/
def scanWord (frames count w : Nat) : Nat → BitVec 64 → Nat → Nat → Scan
  | 0, _, run, start => .more run start
  | fuel + 1, free, run, start =>
    if free = 0 then .more run start
    else
      let idx := w * 64 + free.ctz.toNat
      if idx ≥ frames then .outside
      else
        let start := if run = 0 then idx else start
        let run := run + 1
        if run = count then .found start idx
        else scanWord frames count w fuel (free &&& (free - 1#64)) run start

def scanWords (frames count : Nat) : List (BitVec 64) → Nat → Nat → Nat → Scan
  | [], _, run, start => .more run start
  | word :: rest, w, run, start =>
    match scanWord frames count w 64 (~~~word) run start with
    | .more run start => scanWords frames count rest (w + 1) run start
    | ended => ended

def markUsed (b : Bitmap) (start idx : Nat) : Bitmap :=
  (List.range' start (idx + 1 - start)).foldl setUsed b

def allocContiguous (b : Bitmap) (count : Nat) : Option Nat × Bitmap :=
  if count = 0 ∨ count > b.frames then (none, b)
  else
    match scanWords b.frames count b.bits 0 0 0 with
    | .found start idx => (some start, { b.markUsed start idx with free := b.free - count })
    | _ => (none, b)

def release (b : Bitmap) (i : Nat) : Bitmap :=
  { b.setFree i with
    free := b.free + 1
    nextHint := if i < b.nextHint then i else b.nextHint }

/-! ## Reading bits back -/

theorem and_shift_ne_zero (word : BitVec 64) {k : Nat} (inWord : k < 64) :
    (word &&& (1#64 <<< k) != 0) = word.getLsbD k := by
  rw [← BitVec.twoPow_eq, BitVec.and_twoPow]
  by_cases bit : word.getLsbD k = true
  · have nonzero : BitVec.twoPow 64 k ≠ 0#64 := by
      intro zero
      have := congrArg (fun v => BitVec.getLsbD v k) zero
      simp [inWord] at this
    simp [bit, nonzero]
  · simp [bit]

theorem isUsed_eq (b : Bitmap) (i : Nat) : b.isUsed i = (b.bits.getD (i / 64) 0).getLsbD (i % 64) :=
  and_shift_ne_zero _ (Nat.mod_lt _ (by decide))

theorem getLsbD_or_shift (word : BitVec 64) (k i : Nat) (inWord : i < 64) :
    (word ||| (1#64 <<< k)).getLsbD i = (word.getLsbD i || decide (i = k)) := by
  rw [← BitVec.twoPow_eq]
  simp only [BitVec.getLsbD_or, BitVec.getLsbD_twoPow]
  by_cases eq : i = k
  · simp [eq, eq ▸ inWord]
  · simp [eq, Ne.symm eq]

@[simp]
theorem setUsed_frames (b : Bitmap) (i : Nat) : (b.setUsed i).frames = b.frames := rfl

@[simp]
theorem setUsed_length (b : Bitmap) (i : Nat) : (b.setUsed i).bits.length = b.bits.length := by
  simp [setUsed]

theorem isUsed_setUsed (b : Bitmap) {i : Nat} (covered : i < 64 * b.bits.length) (j : Nat) :
    (b.setUsed i).isUsed j = (b.isUsed j || decide (j = i)) := by
  have inRange : i / 64 < b.bits.length := by omega
  rw [isUsed_eq, isUsed_eq, setUsed]
  simp only [List.getD_eq_getElem?_getD, List.getElem?_modify]
  by_cases sameWord : i / 64 = j / 64
  · have within : j % 64 < 64 := Nat.mod_lt _ (by decide)
    have sameBit : j % 64 = i % 64 ↔ j = i := by omega
    simp [sameWord, sameWord ▸ inRange, getLsbD_or_shift _ _ _ within, sameBit]
  have ne : j ≠ i := by
    rintro rfl
    exact sameWord rfl
  simp [sameWord, ne]

theorem isUsed_foldl_setUsed (b : Bitmap) (marked : List Nat)
    (covered : ∀ i ∈ marked, i < 64 * b.bits.length) (j : Nat) :
    (marked.foldl setUsed b).isUsed j = (b.isUsed j || decide (j ∈ marked)) := by
  induction marked generalizing b with
  | nil => simp
  | cons i rest ih =>
    rw [List.foldl_cons, ih _ fun k mem => by
      simpa using covered k (List.mem_cons_of_mem _ mem)]
    rw [isUsed_setUsed b (covered i (by simp)), Bool.or_assoc]
    simp

end Bitmap

end K1K.Mm
