import K1K.Loader.Elf
import K1K.Mm.Ranges
import K1K.Syscall.Copies

/-!
# The loader returns

`load` returns an image or an error for every file whose first program header does not start in
the last bytes of the address space. That address computation is not checked; every later one is
bounded by the length of the file.
-/

namespace K1K.Loader

open K1K.Lib K1K.Mm
open Checked (bind_isSome bind_ok_iff lift_isSome lift_ok_iff refuseIf_isSome)

def word (image : List Byte) (count off : Nat) : BitVec (8 * count) :=
  fromLeBytes (8 * count) ((image.drop off).take count)

/-- A slice has at most `isize::MAX` bytes. -/
def Slice (image : List Byte) : Prop := image.length < 2 ^ 63

section Fields

variable {profile : Overflow} {image : List Byte} {count : Nat} {off : BitVec 64}

theorem slice_some {start stop : BitVec 64} {bytes : List Byte}
    (found : slice image start stop = some bytes) :
    start.toNat ≤ stop.toNat ∧ stop.toNat ≤ image.length ∧
      bytes = (image.drop start.toNat).take (stop.toNat - start.toNat) := by
  unfold slice at found
  split at found
  next bounds => exact ⟨bounds.1, bounds.2, (Option.some.inj found).symm⟩
  next => simp at found

theorem fieldAt_ok (small : count ≤ 8) {value : BitVec (8 * count)}
    (read : (fieldAt profile image count off).run = some (.ok value)) :
    off.toNat + count ≤ image.length ∧ value = word image count off.toNat := by
  obtain ⟨stop, added, sliced⟩ := bind_ok_iff.mp read
  have sum := Overflow.add_some (lift_ok_iff.mp added)
  have narrow : (BitVec.ofNat 64 count).toNat = count := by
    rw [BitVec.toNat_ofNat]
    omega
  have total : stop.toNat = (off.toNat + count) % 2 ^ 64 := by rw [sum, BitVec.toNat_add, narrow]
  cases found : slice image off stop with
  | none => simp [found] at sliced
  | some bytes =>
    obtain ⟨ordered, lt, rfl⟩ := slice_some found
    have exact : stop.toNat = off.toNat + count := by
      have := off.isLt
      omega
    rw [found] at sliced
    simp only [ExceptT.run_pure, Option.pure_def, Option.some.injEq, Except.ok.injEq] at sliced
    refine ⟨by omega, ?_⟩
    rw [← sliced, word, exact, Nat.add_sub_cancel_left]

theorem fieldAt_isSome (fits : off.toNat + count < 2 ^ 64) :
    (fieldAt profile image count off).run.isSome := by
  have narrow : (BitVec.ofNat 64 count).toNat = count := by
    rw [BitVec.toNat_ofNat]
    omega
  refine bind_isSome ?_ fun stop _ => ?_
  · rw [lift_isSome, profile.add_eq (by rw [narrow]; exact fits)]
    rfl
  · split <;> rfl

theorem fieldAt_far (small : count ≤ 8) (far : 2 ^ 64 ≤ off.toNat + count) :
    (fieldAt profile image count off).run =
      if profile = .panics then none else some (.error .truncated) := by
  have narrow : (BitVec.ofNat 64 count).toNat = count := by
    rw [BitVec.toNat_ofNat]
    omega
  cases profile with
  | panics =>
    rw [fieldAt, Overflow.add_eq_none (by omega)]
    rfl
  | wraps =>
    have sum : Overflow.wraps.add off (BitVec.ofNat 64 count) =
        some (off + BitVec.ofNat 64 count) := by simp [Overflow.add]
    have backwards : slice image off (off + BitVec.ofNat 64 count) = none := by
      have := off.isLt
      rw [slice, if_neg (by rw [BitVec.toNat_add, narrow]; omega)]
    rw [fieldAt, sum]
    simp [backwards]

end Fields

/-! ## Program headers -/

def Header.entryAt (h : Header) (i : Nat) : Nat := h.phoff.toNat + i * h.phentsize.toNat

/-- The `i`th program header of the file, if it describes something to load. -/
def loadable (image : List Byte) (h : Header) (i : Nat) : Option Segment :=
  if word image 4 (h.entryAt i) = PT_LOAD ∧ word image 8 (h.entryAt i + 40) ≠ 0 then
    some ⟨word image 4 (h.entryAt i + 4), word image 8 (h.entryAt i + 8),
      word image 8 (h.entryAt i + 16), word image 8 (h.entryAt i + 32),
      word image 8 (h.entryAt i + 40)⟩
  else none

section Headers

variable {profile : Overflow} {image : List Byte} {h : Header} {i : Nat}

theorem skip_toNat (index : i < 2 ^ 16) :
    (BitVec.ofNat 64 i).toNat * (h.phentsize.setWidth 64).toNat = i * h.phentsize.toNat ∧
      i * h.phentsize.toNat < 2 ^ 32 := by
  have bound := h.phentsize.isLt
  have product : i * h.phentsize.toNat ≤ (2 ^ 16 - 1) * (2 ^ 16 - 1) :=
    Nat.mul_le_mul (by omega) (by omega)
  rw [BitVec.toNat_ofNat, BitVec.toNat_setWidth, Nat.mod_eq_of_lt (by omega),
    Nat.mod_eq_of_lt (by omega)]
  exact ⟨rfl, by omega⟩

theorem fieldAt_within {ph at_ : BitVec 64} {count k : Nat} {value : BitVec (8 * count)}
    (slice : Slice image) (started : ph.toNat ≤ image.length) (near : k < 2 ^ 32)
    (small : count ≤ 8) (added : profile.add ph (BitVec.ofNat 64 k) = some at_)
    (read : (fieldAt profile image count at_).run = some (.ok value)) :
    value = word image count (ph.toNat + k) := by
  have sum : at_.toNat = ph.toNat + k := by
    rw [Overflow.add_some added, BitVec.toNat_add, BitVec.toNat_ofNat]
    unfold Slice at slice
    omega
  rw [← sum]
  exact (fieldAt_ok small read).2

theorem programHeader_ok {found : Option Segment} (slice : Slice image) (index : i < 2 ^ 16)
    (fits : h.entryAt i < 2 ^ 64)
    (read : (programHeader profile image h i).run = some (.ok found)) :
    found = loadable image h i ∧ h.entryAt i + 4 ≤ image.length := by
  obtain ⟨skip, skipped, read⟩ := bind_ok_iff.mp read
  obtain ⟨ph, placed, read⟩ := bind_ok_iff.mp read
  obtain ⟨pType, typed, read⟩ := bind_ok_iff.mp read
  have pos : ph.toNat = h.entryAt i := by
    rw [Overflow.add_some (lift_ok_iff.mp placed),
      Overflow.mul_some (lift_ok_iff.mp skipped), BitVec.toNat_add, BitVec.toNat_mul,
      (skip_toNat index).1, Nat.mod_eq_of_lt ((skip_toNat index).2.trans (by decide))]
    exact Nat.mod_eq_of_lt fits
  obtain ⟨lt, typeRead⟩ := fieldAt_ok (by omega) typed
  rw [pos] at lt typeRead
  have started : ph.toNat ≤ image.length := by omega
  refine ⟨?_, lt⟩
  rw [loadable, ← typeRead]
  by_cases load : pType = PT_LOAD
  · rw [if_neg (by simp [load])] at read
    obtain ⟨at4, added4, read⟩ := bind_ok_iff.mp read
    obtain ⟨pFlags, flagsRead, read⟩ := bind_ok_iff.mp read
    obtain ⟨at8, added8, read⟩ := bind_ok_iff.mp read
    obtain ⟨pOffset, offsetRead, read⟩ := bind_ok_iff.mp read
    obtain ⟨at16, added16, read⟩ := bind_ok_iff.mp read
    obtain ⟨pVaddr, vaddrRead, read⟩ := bind_ok_iff.mp read
    obtain ⟨at32, added32, read⟩ := bind_ok_iff.mp read
    obtain ⟨pFilesz, fileszRead, read⟩ := bind_ok_iff.mp read
    obtain ⟨at40, added40, read⟩ := bind_ok_iff.mp read
    obtain ⟨pMemsz, memszRead, read⟩ := bind_ok_iff.mp read
    have field {at_ : BitVec 64} {count k : Nat} {value : BitVec (8 * count)} (near : k < 2 ^ 32)
        (small : count ≤ 8) (added : (liftM (profile.add ph (BitVec.ofNat 64 k)) :
          Checked LoadError (BitVec 64)).run = some (.ok at_))
        (read : (fieldAt profile image count at_).run = some (.ok value)) :
        value = word image count (h.entryAt i + k) := by
      rw [← pos]
      exact fieldAt_within slice started near small (lift_ok_iff.mp added) read
    have flags := field (k := 4) (by omega) (by omega) added4 flagsRead
    have offset := field (k := 8) (by omega) (by omega) added8 offsetRead
    have vaddr := field (k := 16) (by omega) (by omega) added16 vaddrRead
    have filesz := field (k := 32) (by omega) (by omega) added32 fileszRead
    have memsz := field (k := 40) (by omega) (by omega) added40 memszRead
    rw [← flags, ← offset, ← vaddr, ← filesz, ← memsz]
    by_cases empty : pMemsz = 0
    · rw [if_pos empty] at read
      rw [if_neg fun both => both.2 empty]
      exact (Except.ok.inj (Option.some.inj read)).symm
    · rw [if_neg empty] at read
      rw [if_pos ⟨load, empty⟩]
      exact (Except.ok.inj (Option.some.inj read)).symm
  · rw [if_pos load] at read
    rw [if_neg fun both => load both.1]
    exact (Except.ok.inj (Option.some.inj read)).symm

theorem near_isSome {α : Type} {ph : BitVec 64} {f : BitVec 64 → Checked LoadError α}
    (slice : Slice image) (lt : ph.toNat ≤ image.length) (k : Nat) (near : k < 2 ^ 32)
    (later : ∀ at_ : BitVec 64, at_.toNat < 2 ^ 63 + 2 ^ 32 → (f at_).run.isSome) :
    ((liftM (profile.add ph (BitVec.ofNat 64 k)) : Checked LoadError (BitVec 64)) >>=
      f).run.isSome := by
  unfold Slice at slice
  have narrow : (BitVec.ofNat 64 k).toNat = k := by
    rw [BitVec.toNat_ofNat]
    omega
  refine bind_isSome ?_ fun at_ added => later at_ ?_
  · rw [lift_isSome, profile.add_eq (by omega)]
    rfl
  · rw [Overflow.add_some (lift_ok_iff.mp added), BitVec.toNat_add, narrow]
    omega

theorem programHeader_isSome (profile : Overflow) (slice : Slice image) (index : i < 2 ^ 16)
    (fits : h.entryAt i + 4 < 2 ^ 64) : (programHeader profile image h i).run.isSome := by
  have product := skip_toNat (h := h) index
  refine bind_isSome ?_ fun skip skipped => ?_
  · rw [lift_isSome, profile.mul_eq (by omega)]
    rfl
  have skipValue : skip.toNat = i * h.phentsize.toNat := by
    rw [Overflow.mul_some (lift_ok_iff.mp skipped), BitVec.toNat_mul, product.1]
    exact Nat.mod_eq_of_lt (product.2.trans (by decide))
  have sum : h.phoff.toNat + skip.toNat = h.entryAt i := by rw [skipValue, Header.entryAt]
  refine bind_isSome ?_ fun ph placed => ?_
  · rw [lift_isSome, profile.add_eq (by omega)]
    rfl
  have pos : ph.toNat = h.entryAt i := by
    rw [Overflow.add_some (lift_ok_iff.mp placed), BitVec.toNat_add, sum]
    exact Nat.mod_eq_of_lt (by omega)
  refine bind_isSome (fieldAt_isSome (by omega)) fun pType typed => ?_
  have started : ph.toNat + 4 ≤ image.length := (fieldAt_ok (by omega) typed).1
  have le : ph.toNat ≤ image.length := by omega
  split
  · rfl
  refine near_isSome slice le 4 (by omega) fun at4 bound => ?_
  refine bind_isSome (fieldAt_isSome (by omega)) fun pFlags _ => ?_
  refine near_isSome slice le 8 (by omega) fun at8 bound => ?_
  refine bind_isSome (fieldAt_isSome (by omega)) fun pOffset _ => ?_
  refine near_isSome slice le 16 (by omega) fun at16 bound => ?_
  refine bind_isSome (fieldAt_isSome (by omega)) fun pVaddr _ => ?_
  refine near_isSome slice le 32 (by omega) fun at32 bound => ?_
  refine bind_isSome (fieldAt_isSome (by omega)) fun pFilesz _ => ?_
  refine near_isSome slice le 40 (by omega) fun at40 bound => ?_
  refine bind_isSome (fieldAt_isSome (by omega)) fun pMemsz _ => ?_
  split <;> rfl

theorem programHeader_far (far : 2 ^ 64 ≤ h.phoff.toNat + 4) :
    (programHeader profile image h 0).run =
      if profile = .panics then none else some (.error .truncated) := by
  have skip : profile.mul (BitVec.ofNat 64 0) (h.phentsize.setWidth 64) = some 0#64 := by
    rw [profile.mul_eq (by simp)]
    simp
  have placed : profile.add h.phoff 0#64 = some h.phoff := by
    rw [profile.add_eq (by simpa using h.phoff.isLt)]
    simp
  have typed := @fieldAt_far profile image 4 h.phoff (by decide) far
  cases profile <;> simp [programHeader, u32At, skip, placed, typed]

theorem readHeader_isSome (profile : Overflow) (image : List Byte) :
    (readHeader profile image).run.isSome := by
  refine bind_isSome refuseIf_isSome fun _ _ => ?_
  refine bind_isSome refuseIf_isSome fun _ _ => ?_
  refine bind_isSome (fieldAt_isSome (by decide)) fun eType _ => ?_
  refine bind_isSome (fieldAt_isSome (by decide)) fun eMachine _ => ?_
  refine bind_isSome refuseIf_isSome fun _ _ => ?_
  refine bind_isSome (fieldAt_isSome (by decide)) fun entry _ => ?_
  refine bind_isSome (fieldAt_isSome (by decide)) fun phoff _ => ?_
  refine bind_isSome (fieldAt_isSome (by decide)) fun phentsize _ => ?_
  refine bind_isSome (fieldAt_isSome (by decide)) fun phnum _ => ?_
  refine bind_isSome refuseIf_isSome fun _ _ => ?_
  rfl

end Headers

/-! ## Segments -/

namespace Segment

/-- The pages a segment touches: from this one up to, but not including, `stopPage`. -/
def firstPage (seg : Segment) : Nat := seg.vaddr.toNat / FRAME_SIZE

def stopPage (seg : Segment) : Nat :=
  (seg.vaddr.toNat + seg.memsz.toNat + FRAME_SIZE - 1) / FRAME_SIZE

/-- What the checks leave: the segment lies in the user area and its bytes in the
file. -/
structure Sound (seg : Segment) (len : Nat) : Prop where
  above : USER_MIN.toNat ≤ seg.vaddr.toNat
  below : seg.vaddr.toNat + seg.memsz.toNat ≤ USER_MAX.toNat
  shorter : seg.filesz.toNat ≤ seg.memsz.toNat
  inFile : seg.offset.toNat + seg.filesz.toNat ≤ len

end Segment

theorem checkedAdd_some {a b c : BitVec 64} (added : checkedAdd a b = some c) :
    c.toNat = a.toNat + b.toNat := by
  unfold checkedAdd at added
  split at added
  next => simp at added
  next fits =>
    rw [← Option.some.inj added]
    exact BitVec.toNat_add_of_not_uaddOverflow (by simpa using fits)

theorem Segment.check_ok {seg : Segment} {len : Nat} {bounds : BitVec 64 × BitVec 64}
    (checked : seg.check len = .ok bounds) :
    seg.Sound len ∧ bounds.1.toNat = seg.vaddr.toNat + seg.memsz.toNat ∧
      bounds.2.toNat = seg.offset.toNat + seg.filesz.toNat := by
  unfold check at checked
  split at checked
  next => simp at checked
  next stop stopped =>
    split at checked
    next => simp at checked
    next allowed =>
      split at checked
      next => simp at checked
      next fileEnd ended =>
        split at checked
        next => simp at checked
        next lt =>
          have memory := checkedAdd_some stopped
          have file := checkedAdd_some ended
          cases checked
          simp only [BitVec.lt_def, gt_iff_lt, not_or, Nat.not_lt] at allowed lt
          exact ⟨⟨allowed.1, by omega, allowed.2.2, by omega⟩, memory, file⟩

theorem pageMask_toNat (w : BitVec 64) :
    (w &&& ~~~(BitVec.ofNat 64 FRAME_SIZE - 1)).toNat = w.toNat / FRAME_SIZE * FRAME_SIZE := by
  have mask : ∀ i : Fin 64, (~~~(BitVec.ofNat 64 FRAME_SIZE - 1)).getLsbD i =
      decide (12 ≤ i.val) := by
    decide
  have shifted : w &&& ~~~(BitVec.ofNat 64 FRAME_SIZE - 1) = w >>> 12 <<< 12 := by
    refine BitVec.eq_of_getLsbD_eq fun i small => ?_
    have bit := mask ⟨i, small⟩
    simp only at bit
    rw [BitVec.getLsbD_and, bit, BitVec.getLsbD_shiftLeft, BitVec.getLsbD_ushiftRight]
    by_cases high : 12 ≤ i
    · simp [high, small, Nat.add_sub_cancel' high]
    · simp [high, small]
  rw [shifted, BitVec.toNat_shiftLeft, BitVec.toNat_ushiftRight, Nat.shiftRight_eq_div_pow,
    Nat.shiftLeft_eq]
  have := w.isLt
  simp only [FRAME_SIZE]
  omega

namespace Segment

variable {seg : Segment} {len : Nat}

def data (seg : Segment) (image : List Byte) : List Byte :=
  (image.drop seg.offset.toNat).take seg.filesz.toNat

theorem Sound.length_data {image : List Byte} (sound : seg.Sound image.length) :
    (seg.data image).length = seg.filesz.toNat := by
  have inFile := sound.inFile
  rw [data, List.length_take, List.length_drop]
  omega

theorem Sound.pages_inside (sound : seg.Sound len) :
    seg.firstPage ≤ seg.stopPage ∧ seg.stopPage ≤ USER_PAGES ∧
      USER_MIN.toNat ≤ seg.firstPage * FRAME_SIZE ∧ seg.stopPage * FRAME_SIZE ≤ USER_MAX.toNat := by
  have above := sound.above
  have below := sound.below
  have min : USER_MIN.toNat = 0x400000 := rfl
  have max : USER_MAX.toNat = 0x7fff00000000 := rfl
  simp only [firstPage, stopPage, USER_PAGES, FRAME_SIZE, min, max] at *
  omega

theorem page_of_address (seg : Segment) (va : Nat) (above : seg.vaddr.toNat ≤ va)
    (below : va < seg.vaddr.toNat + seg.memsz.toNat) :
    seg.firstPage ≤ va / FRAME_SIZE ∧ va / FRAME_SIZE < seg.stopPage := by
  simp only [firstPage, stopPage, FRAME_SIZE] at *
  omega

end Segment

theorem placeSegment_eq {profile : Overflow} {image : List Byte} {seg : Segment}
    {stop fileEnd : BitVec 64} (sound : seg.Sound image.length)
    (stops : stop.toNat = seg.vaddr.toNat + seg.memsz.toNat)
    (ends : fileEnd.toNat = seg.offset.toNat + seg.filesz.toNat) (st : Loading) :
    placeSegment profile image seg stop fileEnd st =
      match AddressSpace.mapUserPages seg.leafFlags (seg.stopPage - seg.firstPage) seg.firstPage
        st.space.pml4 st.frames with
      | none => none
      | some (.error _, pml4, fr) => some (.error .outOfMemory, st.grow pml4 fr)
      | some (.ok (), pml4, fr) =>
        (writeUser (st.grow pml4 fr).space (st.grow pml4 fr).mem seg.vaddr.toNat
          (seg.data image)).map fun mem => (.ok (), { st.grow pml4 fr with mem := mem }) := by
  have above := sound.above
  have below := sound.below
  have max : USER_MAX.toNat = 0x7fff00000000 := rfl
  have page := pageMask_toNat seg.vaddr
  have floor := Nat.div_mul_le_self seg.vaddr.toNat FRAME_SIZE
  have difference : profile.sub stop (seg.vaddr &&& ~~~(BitVec.ofNat 64 FRAME_SIZE - 1)) =
      some (stop - (seg.vaddr &&& ~~~(BitVec.ofNat 64 FRAME_SIZE - 1))) :=
    profile.sub_eq (by omega)
  have span : (stop - (seg.vaddr &&& ~~~(BitVec.ofNat 64 FRAME_SIZE - 1))).toNat =
      seg.vaddr.toNat + seg.memsz.toNat - seg.firstPage * FRAME_SIZE := by
    rw [BitVec.toNat_sub_of_le (BitVec.le_def.mpr (by omega)), stops, page]
    rfl
  have count : (seg.vaddr.toNat + seg.memsz.toNat - seg.firstPage * FRAME_SIZE + FRAME_SIZE - 1) /
      FRAME_SIZE = seg.stopPage - seg.firstPage := by
    simp only [Segment.firstPage, Segment.stopPage, FRAME_SIZE] at *
    omega
  have start : virtAddr (seg.vaddr &&& ~~~(BitVec.ofNat 64 FRAME_SIZE - 1)) =
      some (seg.firstPage * FRAME_SIZE) := by
    rw [virtAddr, page, if_pos (by omega)]
    rfl
  have target : virtAddr seg.vaddr = some seg.vaddr.toNat := by rw [virtAddr, if_pos (by omega)]
  have bytes : slice image seg.offset fileEnd = some (seg.data image) := by
    rw [slice, if_pos ⟨by omega, by rw [ends]; exact sound.inFile⟩, ends, Nat.add_sub_cancel_left]
    rfl
  simp only [placeSegment, difference, start, Option.bind_eq_bind, Option.bind_some, span, count]
  rw [Nat.mul_div_cancel _ (by decide)]
  cases AddressSpace.mapUserPages seg.leafFlags (seg.stopPage - seg.firstPage) seg.firstPage
    st.space.pml4 st.frames with
  | none => rfl
  | some outcome =>
    rcases outcome with ⟨_ | _, pml4, fr⟩
    · rfl
    · simp only [Option.bind_some, bytes, target]
      cases writeUser (st.grow pml4 fr).space (st.grow pml4 fr).mem seg.vaddr.toNat
        (seg.data image) <;> rfl

/-! ## The whole load -/

section Loading

variable {profile : Overflow} {image : List Byte} {h : Header} {seg : Segment} {st st' : Loading}

theorem writeUser_isSome {s : AddressSpace} {mem : Memory} {dst : Nat} {data : List Byte}
    (canonical : dst + data.length ≤ 2 ^ 47)
    (mapped : ∀ i < data.length, (Syscall.leafAt s (dst + i)).isSome) :
    (writeUser s mem dst data).isSome := by
  have copied := (Syscall.copyBytes_ok_iff dst data ⟨mem, []⟩).mpr mapped
  rw [writeUser, if_neg (by omega), Syscall.copyOutLoop_eq le_rfl]
  split
  next => rfl
  next failed =>
    rw [failed] at copied
    simp at copied

theorem placeSegment_returns (profile : Overflow) {bounds : BitVec 64 × BitVec 64}
    (valid : st.frames.map.Valid) (checked : seg.check image.length = .ok bounds) :
    ∃ res st', placeSegment profile image seg bounds.1 bounds.2 st = some (res, st') ∧
      st'.frames.map.Valid := by
  obtain ⟨sound, stops, ends⟩ := Segment.check_ok checked
  obtain ⟨ordered, lt, -⟩ := sound.pages_inside
  rw [placeSegment_eq sound stops ends]
  have gave : (AddressSpace.mapUserPages seg.leafFlags (seg.stopPage - seg.firstPage)
      seg.firstPage st.space.pml4 st.frames).isSome := mapUserPages_isSome (by omega)
  obtain ⟨⟨res, pml4, fr⟩, called⟩ := Option.isSome_iff_exists.mp gave
  obtain ⟨added, extended, -⟩ := mapUserPages_extends valid called
  rw [called]
  rcases res with e | _
  · exact ⟨_, _, rfl, extended.valid⟩
  obtain ⟨given, ran, range⟩ := mapUserPages_mapsRange valid called
  have below := sound.below
  have shorter := sound.shorter
  have max : USER_MAX.toNat = 0x7fff00000000 := rfl
  have written : (writeUser (st.grow pml4 fr).space (st.grow pml4 fr).mem seg.vaddr.toNat
      (seg.data image)).isSome := by
    refine writeUser_isSome (by rw [sound.length_data]; omega) fun i small => ?_
    rw [sound.length_data] at small
    have page := Segment.page_of_address seg (seg.vaddr.toNat + i) (by omega) (by omega)
    have mapped := range.mapped _ page.1 (by omega)
    rw [Syscall.leafAt]
    exact Option.isSome_iff_exists.mpr ⟨_, mapped⟩
  obtain ⟨mem, wrote⟩ := Option.isSome_iff_exists.mp written
  exact ⟨.ok (), { st.grow pml4 fr with mem := mem }, by simp only [wrote, Option.map_some],
    extended.valid⟩

/-- The header table starts where its first field can be addressed, or inside the
file. -/
def Header.Placed (h : Header) (len i : Nat) : Prop :=
  i = 0 ∧ h.phoff.toNat + 4 < 2 ^ 64 ∨ h.phoff.toNat + 4 ≤ len

theorem Header.Placed.fits {i : Nat} (placed : h.Placed image.length i) (slice : Slice image)
    (index : i < 2 ^ 16) : h.entryAt i + 4 < 2 ^ 64 := by
  have skip := (skip_toNat (h := h) index).2
  unfold Slice at slice
  rcases placed with ⟨rfl, fits⟩ | inside
  · rw [entryAt, Nat.zero_mul]
    omega
  · rw [entryAt]
    omega

theorem loadLoop_isSome (profile : Overflow) {left i : Nat} (segments : Nat) (slice : Slice image)
    (valid : st.frames.map.Valid) (index : i + left ≤ 2 ^ 16)
    (placed : left = 0 ∨ h.Placed image.length i) :
    (loadLoop profile image h left i segments st).isSome := by
  induction left generalizing i segments st with
  | zero => rfl
  | succ left ih =>
    have fits := (placed.resolve_left (by omega)).fits slice (by omega)
    have read := programHeader_isSome profile slice (by omega) fits
    obtain ⟨outcome, reading⟩ := Option.isSome_iff_exists.mp read
    rw [loadLoop, reading]
    rcases outcome with e | found
    · rfl
    have lt := (programHeader_ok slice (by omega) (by omega) reading).2
    have later : h.Placed image.length (i + 1) := by
      rw [Header.entryAt] at lt
      exact .inr (by omega)
    rcases found with _ | seg
    · exact ih _ valid (by omega) (.inr later)
    simp only
    split
    next => rfl
    next bounds checked =>
      rcases placeSegment_returns profile valid checked with
        ⟨res, st', ran, valid'⟩
      rw [ran]
      rcases res with e | _
      · rfl
      · exact ih _ valid' (by omega) (.inr later)

/-- `load` returns an image or an error, for every file and address space, exactly if overflow does
not panic or the first program header, if there is one, can be addressed. -/
theorem load_returns (slice : Slice image) (valid : st.frames.map.Valid) :
    (∃ result st', load profile image st = some (result, st')) ↔
      ∀ h, (readHeader profile image).run = some (.ok h) → profile = .panics →
        h.phnum = 0 ∨ h.phoff.toNat + 4 < 2 ^ 64 := by
  obtain ⟨outcome, reading⟩ := Option.isSome_iff_exists.mp (readHeader_isSome profile image)
  rcases outcome with e | h
  · simp [load, reading]
  by_cases addressable : h.phnum.toNat = 0 ∨ h.phoff.toNat + 4 < 2 ^ 64
  · have placed : h.phnum.toNat = 0 ∨ h.Placed image.length 0 :=
      addressable.imp_right fun fits => .inl ⟨rfl, fits⟩
    have looped := loadLoop_isSome profile 0 slice valid (by have := h.phnum.isLt; omega) placed
    obtain ⟨⟨result, st'⟩, ran⟩ := Option.isSome_iff_exists.mp looped
    refine iff_of_true ?_ fun h' reading' _ => ?_
    · simp only [load, reading, ran]
      rcases result with e | segments
      · exact ⟨_, _, rfl⟩
      · simp only
        split <;> exact ⟨_, _, rfl⟩
    · cases reading.symm.trans reading'
      exact addressable.imp_left BitVec.eq_of_toNat_eq
  · obtain ⟨left, count⟩ := Nat.exists_eq_succ_of_ne_zero fun none => addressable (.inl none)
    have far := @programHeader_far profile image h (by omega)
    cases profile with
    | panics =>
      refine iff_of_false (by simp [load, reading, count, loadLoop, far]) fun all => ?_
      exact addressable ((all h reading rfl).imp_left fun none => by rw [none]; rfl)
    | wraps => simp [load, reading, count, loadLoop, far]

end Loading

/-- A file of 176 bytes with two program headers. They ask for a page of code at the lowest address
allowed, with the header as its contents, and for a page of zeros further up. -/
def tinyImage : List Byte :=
  ELF_MAGIC ++ [2, 1, 1, 0] ++ List.replicate 8 0 ++ [2, 0, 0x3e, 0, 1, 0, 0, 0] ++
    [0x10, 0, 0x40, 0, 0, 0, 0, 0] ++ [64, 0, 0, 0, 0, 0, 0, 0] ++ List.replicate 12 0 ++
    [64, 0, 56, 0, 2, 0] ++ List.replicate 6 0 ++
    [1, 0, 0, 0, 5, 0, 0, 0] ++ List.replicate 8 0 ++ [0, 0, 0x40, 0, 0, 0, 0, 0] ++
    List.replicate 8 0 ++ [64, 0, 0, 0, 0, 0, 0, 0] ++ [0, 1, 0, 0, 0, 0, 0, 0] ++
    List.replicate 8 0 ++ [1, 0, 0, 0, 6, 0, 0, 0] ++ List.replicate 8 0 ++
    [0, 0x20, 0x40, 0, 0, 0, 0, 0] ++ List.replicate 16 0 ++ [0x80, 0, 0, 0, 0, 0, 0, 0] ++
    List.replicate 8 0

def emptyLoading : Loading where
  space := ⟨.node 0 fun _ => .empty, [], USER_MMAP_BASE⟩
  frames := ⟨⟨[1#64], 13, 12, 13, 1⟩, [0]⟩
  mem _ := 0

theorem emptyLoading_valid : emptyLoading.frames.map.Valid := ⟨by decide, by decide⟩

theorem tinyImage_header :
    (readHeader .panics tinyImage).run = some (.ok ⟨0x400010, 64, 56, 2⟩) := by decide +kernel

theorem load_returns_tiny :
    ∃ result st', load .panics tinyImage emptyLoading = some (result, st') :=
  (load_returns (show tinyImage.length < _ by decide +kernel) emptyLoading_valid).mpr
    fun h reading _ => by
      rw [tinyImage_header] at reading
      cases reading
      exact .inr (by decide)

def wildImage : List Byte :=
  tinyImage.take 32 ++ List.replicate 8 0xff ++ (tinyImage.drop 40).take 24

theorem wild_offset_panics : load .panics wildImage = fun _ => none := by
  funext st
  have header : (readHeader .panics wildImage).run =
      some (.ok ⟨0x400010, BitVec.allOnes 64, 56, 2⟩) := by decide +kernel
  have entry : (programHeader .panics wildImage ⟨0x400010, BitVec.allOnes 64, 56, 2⟩ 0).run =
      none := by decide +kernel
  have two : (2 : BitVec 16).toNat = 1 + 1 := rfl
  rw [load, header]
  simp only [two, loadLoop, entry]

end K1K.Loader
