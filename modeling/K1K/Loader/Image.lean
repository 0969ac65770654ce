import K1K.Lib.Run
import K1K.Loader.Robust

/-!
# What a loaded file looks like in memory

`load` fails or leaves exactly the image that the program headers describe. Its loop keeps this
for the headers seen so far, and the segments apart in physical memory: a frame behind a user
page is not free, and no two pages share one.
-/

namespace K1K.Loader

open K1K.Lib K1K.Mm K1K.Syscall

def fileHeader (image : List Byte) : Header :=
  ⟨word image 8 24, word image 8 32, word image 2 54, word image 2 56⟩

def Segment.byteAt (seg : Segment) (image : List Byte) (va : Nat) : Byte :=
  if seg.vaddr.toNat ≤ va ∧ va < seg.vaddr.toNat + seg.filesz.toNat then
    image.getD (seg.offset.toNat + (va - seg.vaddr.toNat)) 0
  else 0

def Segment.Covers (seg : Segment) (page : Nat) : Prop :=
  seg.firstPage ≤ page ∧ page < seg.stopPage

/-- The address space holds the segments of the first `count` program headers and
nothing else. -/
structure Holds (image : List Byte) (h : Header) (count : Nat) (st : Loading) : Prop where
  sound : ∀ i < count, ∀ seg, loadable image h i = some seg → seg.Sound image.length
  mapped : ∀ i < count, ∀ seg, loadable image h i = some seg → ∀ page, seg.Covers page →
    ∃ leaf, translate st.space.pml4 page = some leaf ∧
      leaf.flags.writable = decide (seg.flags &&& PF_W ≠ 0) ∧
      leaf.flags.noExecute = decide (seg.flags &&& PF_X = 0) ∧ leaf.flags.user = true
  bytes : ∀ i < count, ∀ seg, loadable image h i = some seg → ∀ va,
    seg.Covers (va / FRAME_SIZE) →
      taskReads st.space st.mem va = some (seg.byteAt image va)
  only : ∀ page < USER_PAGES, (translate st.space.pml4 page).isSome →
    ∃ i < count, ∃ seg, loadable image h i = some seg ∧ seg.Covers page
  disjoint : ∀ i < count, ∀ j < count, ∀ seg other, loadable image h i = some seg →
    loadable image h j = some other → ∀ page, seg.Covers page → other.Covers page → i = j

structure Separate (st : Loading) : Prop where
  valid : st.frames.map.Valid
  used : ∀ page < USER_PAGES, ∀ leaf, translate st.space.pml4 page = some leaf →
    st.frames.map.isUsed leaf.frame = true
  distinct : ∀ page < USER_PAGES, ∀ other < USER_PAGES, ∀ leaf leaf',
    translate st.space.pml4 page = some leaf → translate st.space.pml4 other = some leaf' →
    leaf.frame = leaf'.frame → page = other

section Steps

variable {profile : Overflow} {image : List Byte} {h : Header} {seg : Segment} {st st' : Loading}
  {pml4 : Table 4} {fr : Frames} {first count : Nat} {flags : Flags} {given : Nat → Nat}
  {taken : List Nat}

theorem Separate.address_injective (separate : Separate st) {va va' pa : Nat}
    (low : va / FRAME_SIZE < USER_PAGES) (low' : va' / FRAME_SIZE < USER_PAGES)
    (here : translateUser st.space va = some pa) (there : translateUser st.space va' = some pa) :
    va = va' := by
  obtain ⟨leaf, found, place⟩ := Option.map_eq_some_iff.mp here
  obtain ⟨leaf', found', place'⟩ := Option.map_eq_some_iff.mp there
  have frames : leaf.frame = leaf'.frame := by
    simp only [FRAME_SIZE] at *
    omega
  have pages := separate.distinct _ low _ low' leaf leaf' found found' frames
  simp only [FRAME_SIZE] at *
  omega

theorem Separate.grow (separate : Separate st)
    (range : MapsRange flags first count (st.space.pml4, st.frames) (pml4, fr) given taken) :
    Separate (st.grow pml4 fr) := by
  have inRange (page : Nat) :
      (first ≤ page ∧ page < first + count) ∨ (page < first ∨ first + count ≤ page) := by omega
  have stillUsed (frame : Nat) : fr.map.isUsed frame =
      (st.frames.map.isUsed frame || decide (frame ∈ taken)) := range.takes.gives.used frame
  have fresh (page : Nat) (above : first ≤ page) (below : page < first + count) :
      st.frames.map.isUsed (given page) = false :=
    (range.takes.gives.free _ (range.drawn page above below)).2
  refine ⟨range.takes.gives.valid, ?_, ?_⟩
  · intro page low leaf found
    change translate pml4 page = some leaf at found
    change fr.map.isUsed leaf.frame = true
    rw [stillUsed]
    rcases inRange page with ⟨above, below⟩ | outside
    · rw [range.mapped page above below] at found
      cases found
      simp [range.drawn page above below]
    · rw [range.others page low outside] at found
      simp [separate.used page low leaf found]
  · intro page low other low' leaf leaf' found found' eq
    change translate pml4 page = some leaf at found
    change translate pml4 other = some leaf' at found'
    rcases inRange page with ⟨above, below⟩ | outside <;>
      rcases inRange other with ⟨above', below'⟩ | outside'
    · rw [range.mapped page above below] at found
      rw [range.mapped other above' below'] at found'
      cases found
      cases found'
      exact range.apart page other above below above' below' eq
    · rw [range.mapped page above below] at found
      rw [range.others other low' outside'] at found'
      cases found
      have busy := separate.used other low' leaf' found'
      rw [← eq, fresh page above below] at busy
      cases busy
    · rw [range.others page low outside] at found
      rw [range.mapped other above' below'] at found'
      cases found'
      have busy := separate.used page low leaf found
      rw [eq, fresh other above' below'] at busy
      cases busy
    · rw [range.others page low outside] at found
      rw [range.others other low' outside'] at found'
      exact separate.distinct page low other low' leaf leaf' found found' eq

theorem writeUser_some {s : AddressSpace} {mem mem' : Memory} {dst : Nat} {data : List Byte}
    (wrote : writeUser s mem dst data = some mem') (spread : Spread s dst data.length) :
    (∀ i byte, data[i]? = some byte → ∃ pa, translateUser s (dst + i) = some pa ∧ mem' pa = byte) ∧
      ∀ a, (∀ i < data.length, translateUser s (dst + i) ≠ some a) → mem' a = mem a := by
  unfold writeUser at wrote
  split at wrote
  next => simp at wrote
  rw [copyOutLoop_eq le_rfl] at wrote
  split at wrote
  next written copied =>
    cases wrote
    refine ⟨fun i byte found => copyBytes_at copied spread found, fun a ne => ?_⟩
    have out := copyBytes_outside dst data ⟨mem, []⟩ ne
    rw [copied] at out
    exact out
  next => simp at wrote

theorem frame_of_address (frame va : Nat) :
    (frame * FRAME_SIZE + va % FRAME_SIZE) / FRAME_SIZE = frame := by
  simp only [FRAME_SIZE]
  omega

theorem grow_mem (takes : st.frames.Takes fr taken) (a : Nat) :
    (st.grow pml4 fr).mem a = if a / FRAME_SIZE ∈ taken then 0 else st.mem a := by
  rw [Loading.grow, takes.taken, List.drop_left]

theorem data_getElem? (sound : seg.Sound image.length) {i : Nat} (small : i < seg.filesz.toNat) :
    (seg.data image)[i]? = some (image.getD (seg.offset.toNat + i) 0) := by
  have inFile := sound.inFile
  have lt : seg.offset.toNat + i < image.length := by omega
  rw [Segment.data, List.getElem?_take_of_lt small, List.getElem?_drop,
    List.getElem?_eq_getElem lt, List.getD_eq_getElem _ _ lt]

section Write

variable {mem : Memory} (separate : Separate st) (sound : seg.Sound image.length)
  (range : MapsRange seg.leafFlags.forUser seg.firstPage (seg.stopPage - seg.firstPage)
    (st.space.pml4, st.frames) (pml4, fr) given taken)
  (wrote : writeUser (st.grow pml4 fr).space (st.grow pml4 fr).mem seg.vaddr.toNat
    (seg.data image) = some mem)

include sound in
theorem file_covered {va : Nat}
    (inFile : seg.vaddr.toNat ≤ va ∧ va < seg.vaddr.toNat + seg.filesz.toNat) :
    seg.Covers (va / FRAME_SIZE) :=
  seg.page_of_address va inFile.1 (by have := sound.shorter; omega)

include sound in
theorem covered_low {page : Nat} (covers : seg.Covers page) : page < USER_PAGES :=
  covers.2.trans_le sound.pages_inside.2.1

include sound in
theorem covered_range {page : Nat} (covers : seg.Covers page) :
    page < seg.firstPage + (seg.stopPage - seg.firstPage) := by
  rw [Nat.add_sub_cancel' sound.pages_inside.1]
  exact covers.2

include sound in
theorem uncovered_range {page : Nat} (out : ¬ seg.Covers page) :
    page < seg.firstPage ∨ seg.firstPage + (seg.stopPage - seg.firstPage) ≤ page := by
  rw [Nat.add_sub_cancel' sound.pages_inside.1]
  unfold Segment.Covers at out
  omega

include separate sound range wrote in
theorem write_lands : (∀ i < seg.filesz.toNat, ∃ pa,
      translateUser (st.grow pml4 fr).space (seg.vaddr.toNat + i) = some pa ∧
        mem pa = image.getD (seg.offset.toNat + i) 0) ∧ ∀ va pa, va / FRAME_SIZE < USER_PAGES →
      translateUser (st.grow pml4 fr).space va = some pa →
      ¬ (seg.vaddr.toNat ≤ va ∧ va < seg.vaddr.toNat + seg.filesz.toNat) →
      mem pa = (st.grow pml4 fr).mem pa := by
  have grown := separate.grow range
  have low (i : Nat) (small : i < (seg.data image).length) :
      (seg.vaddr.toNat + i) / FRAME_SIZE < USER_PAGES := by
    rw [sound.length_data] at small
    exact covered_low sound (file_covered sound ⟨by omega, by omega⟩)
  have spread : Spread (st.grow pml4 fr).space seg.vaddr.toNat (seg.data image).length := by
    intro i j pa small small' differ here there
    have eq := grown.address_injective (low i small) (low j small') here there
    omega
  obtain ⟨written, untouched⟩ := writeUser_some wrote spread
  refine ⟨fun i small => written i _ (data_getElem? sound small), ?_⟩
  intro va pa lt place out
  refine untouched pa fun i small there => out ?_
  have eq := grown.address_injective lt (low i small) place there
  rw [sound.length_data] at small
  omega

include separate sound range wrote in
theorem reads_inside {va : Nat} (covers : seg.Covers (va / FRAME_SIZE)) :
    taskReads (st.grow pml4 fr).space mem va = some (seg.byteAt image va) := by
  obtain ⟨lands, untouched⟩ := write_lands separate sound range wrote
  by_cases inFile : seg.vaddr.toNat ≤ va ∧ va < seg.vaddr.toNat + seg.filesz.toNat
  · rw [Segment.byteAt, if_pos inFile]
    obtain ⟨i, rfl⟩ := Nat.exists_eq_add_of_le inFile.1
    obtain ⟨pa, place, byte⟩ := lands i (by omega)
    rw [taskReads, place, Option.map_some, byte, Nat.add_sub_cancel_left]
  · have found : leafAt (st.grow pml4 fr).space va =
        some ⟨given (va / FRAME_SIZE), seg.leafFlags.forUser⟩ :=
      range.mapped _ covers.1 (covered_range sound covers)
    have place : translateUser (st.grow pml4 fr).space va =
        some (given (va / FRAME_SIZE) * FRAME_SIZE + va % FRAME_SIZE) := by
      rw [translateUser, found, Option.map_some]
    have drawn := range.drawn _ covers.1 (covered_range sound covers)
    rw [Segment.byteAt, if_neg inFile, taskReads, place, Option.map_some,
      untouched va _ (covered_low sound covers) place inFile, grow_mem range.takes,
      frame_of_address, if_pos drawn]

include separate sound range wrote in
theorem reads_outside {va : Nat} (low : va / FRAME_SIZE < USER_PAGES)
    (out : ¬ seg.Covers (va / FRAME_SIZE)) :
    taskReads (st.grow pml4 fr).space mem va = taskReads st.space st.mem va := by
  have eq : leafAt (st.grow pml4 fr).space va = leafAt st.space va :=
    range.others _ low (uncovered_range sound out)
  have place : translateUser (st.grow pml4 fr).space va = translateUser st.space va := by
    rw [translateUser, eq, translateUser]
  rw [taskReads, place, taskReads]
  cases found : translateUser st.space va with
  | none => rfl
  | some pa =>
    obtain ⟨leaf, looked, address⟩ := Option.map_eq_some_iff.mp found
    have notTaken : leaf.frame ∉ taken := by
      intro member
      have free := (range.takes.gives.free _ member).2
      rw [separate.used _ low leaf looked] at free
      cases free
    have kept := (write_lands separate sound range wrote).2 va pa low (place.trans found)
      fun inFile => out (file_covered sound inFile)
    rw [Option.map_some, Option.map_some, kept, grow_mem range.takes, ← address, frame_of_address,
      if_neg notTaken]

end Write

structure Placed (image : List Byte) (seg : Segment) (st st' : Loading) : Prop where
  separate : Separate st'
  unmapped : ∀ page, seg.Covers page → translate st.space.pml4 page = none
  mapped : ∀ page, seg.Covers page →
    ∃ frame, translate st'.space.pml4 page = some ⟨frame, seg.leafFlags.forUser⟩
  others : ∀ page < USER_PAGES, ¬ seg.Covers page →
    translate st'.space.pml4 page = translate st.space.pml4 page
  bytes : ∀ va, seg.Covers (va / FRAME_SIZE) →
    taskReads st'.space st'.mem va = some (seg.byteAt image va)
  kept : ∀ va, va / FRAME_SIZE < USER_PAGES → ¬ seg.Covers (va / FRAME_SIZE) →
    taskReads st'.space st'.mem va = taskReads st.space st.mem va

theorem placeSegment_placed {bounds : BitVec 64 × BitVec 64} (separate : Separate st)
    (checked : seg.check image.length = .ok bounds)
    (ran : placeSegment profile image seg bounds.1 bounds.2 st = some (.ok (), st')) :
    Placed image seg st st' := by
  obtain ⟨sound, stops, ends⟩ := Segment.check_ok checked
  rw [placeSegment_eq sound stops ends] at ran
  split at ran
  next => simp at ran
  next => simp at ran
  next pml4 fr mapped =>
    obtain ⟨mem, wrote, finished⟩ := Option.map_eq_some_iff.mp ran
    simp only [Prod.mk.injEq, true_and] at finished
    obtain ⟨given, taken, range⟩ := mapUserPages_mapsRange separate.valid mapped
    have grown := separate.grow range
    rw [← finished]
    exact {
      separate := ⟨grown.valid, grown.used, grown.distinct⟩
      unmapped := fun page covers => range.unmapped page covers.1 (covered_range sound covers)
      mapped := fun page covers => ⟨_, range.mapped page covers.1 (covered_range sound covers)⟩
      others := fun page low out => range.others page low (uncovered_range sound out)
      bytes := fun va => reads_inside separate sound range wrote
      kept := fun va => reads_outside separate sound range wrote }

theorem Holds.uncovered {i j : Nat} {other : Segment} (holds : Holds image h i st)
    (placed : Placed image seg st st') (lt : j < i) (found : loadable image h j = some other)
    {page : Nat} (covers : other.Covers page) : ¬ seg.Covers page := by
  intro both
  obtain ⟨leaf, mapped, -⟩ := holds.mapped j lt other found page covers
  rw [placed.unmapped page both] at mapped
  cases mapped

theorem Holds.place {i : Nat} (holds : Holds image h i st) (found : loadable image h i = some seg)
    (sound : seg.Sound image.length) (placed : Placed image seg st st') :
    Holds image h (i + 1) st' := by
  have this (j : Nat) (other : Segment) (below : j < i + 1)
      (loads : loadable image h j = some other) : j < i ∨ j = i ∧ other = seg := by
    rcases Nat.lt_succ_iff_lt_or_eq.mp below with old | rfl
    · exact .inl old
    · exact .inr ⟨rfl, Option.some.inj (loads.symm.trans found)⟩
  refine ⟨?_, ?_, ?_, ?_, ?_⟩
  · intro j below other loads
    rcases this j other below loads with old | ⟨rfl, rfl⟩
    · exact holds.sound j old other loads
    · exact sound
  · intro j below other loads page covers
    rcases this j other below loads with old | ⟨rfl, rfl⟩
    · have low := covered_low (holds.sound j old other loads) covers
      rw [placed.others page low (holds.uncovered placed old loads covers)]
      exact holds.mapped j old other loads page covers
    · obtain ⟨frame, mapped⟩ := placed.mapped page covers
      exact ⟨_, mapped, rfl, rfl, rfl⟩
  · intro j below other loads va covers
    rcases this j other below loads with old | ⟨rfl, rfl⟩
    · have low := covered_low (holds.sound j old other loads) covers
      rw [placed.kept va low (holds.uncovered placed old loads covers)]
      exact holds.bytes j old other loads va covers
    · exact placed.bytes va covers
  · intro page low mapped
    by_cases covers : seg.Covers page
    · exact ⟨i, Nat.lt_succ_self i, seg, found, covers⟩
    · rw [placed.others page low covers] at mapped
      obtain ⟨j, old, other, loads, covers⟩ := holds.only page low mapped
      exact ⟨j, Nat.lt_succ_of_lt old, other, loads, covers⟩
  · intro j below k below' one other loads loads' page covers covers'
    rcases this j one below loads with old | ⟨rfl, rfl⟩ <;>
      rcases this k other below' loads' with earlier' | ⟨rfl, rfl⟩
    · exact holds.disjoint j old k earlier' one other loads loads' page covers covers'
    · exact absurd covers' (holds.uncovered placed old loads covers)
    · exact absurd covers (holds.uncovered placed earlier' loads' covers')
    · rfl

theorem Holds.skip {i : Nat} (holds : Holds image h i st) (nothing : loadable image h i = none) :
    Holds image h (i + 1) st := by
  have this (j : Nat) (other : Segment) (below : j < i + 1)
      (loads : loadable image h j = some other) : j < i := by
    rcases Nat.lt_succ_iff_lt_or_eq.mp below with old | rfl
    · exact old
    · rw [nothing] at loads
      cases loads
  refine ⟨?_, ?_, ?_, ?_, ?_⟩
  · exact fun j below other loads => holds.sound j (this j other below loads) other loads
  · exact fun j below other loads => holds.mapped j (this j other below loads) other loads
  · exact fun j below other loads => holds.bytes j (this j other below loads) other loads
  · intro page low mapped
    obtain ⟨j, old, rest⟩ := holds.only page low mapped
    exact ⟨j, Nat.lt_succ_of_lt old, rest⟩
  · exact fun j below k below' one other loads loads' =>
      holds.disjoint j (this j one below loads) k
        (this k other below' loads') one other loads loads'

theorem loadLoop_holds {left i segments segments' : Nat} (slice : Slice image)
    (index : i + left ≤ 2 ^ 16) (placed : i = 0 ∨ h.phoff.toNat + 4 ≤ image.length)
    (separate : Separate st) (holds : Holds image h i st)
    (looped : loadLoop profile image h left i segments st = some (.ok segments', st')) :
    Holds image h (i + left) st' := by
  have fits {i : Nat} (low : i < 2 ^ 16) (placed : i = 0 ∨ h.phoff.toNat + 4 ≤ image.length) :
      h.entryAt i < 2 ^ 64 := by
    have skip := (skip_toNat (h := h) (i := i) low).2
    have bound := h.phoff.isLt
    unfold Slice at slice
    rw [Header.entryAt]
    rcases placed with rfl | inside <;> omega
  fun_induction loadLoop profile image h left i segments st with
  | case1 =>
    cases looped
    exact holds
  | case4 left i segments st read ih =>
    obtain ⟨nothing, inside⟩ := programHeader_ok slice (by omega) (fits (by omega) placed) read
    rw [Header.entryAt] at inside
    have onward := ih (by omega) (.inr (by omega)) separate (holds.skip nothing.symm) looped
    rwa [Nat.add_right_comm] at onward
  | case8 left i segments st seg read bounds checked st₁ ran ih =>
    obtain ⟨found, inside⟩ := programHeader_ok slice (by omega) (fits (by omega) placed) read
    rw [Header.entryAt] at inside
    have segmentPlaced := placeSegment_placed separate checked ran
    have onward := ih (by omega) (.inr (by omega)) segmentPlaced.separate
      (holds.place found.symm (Segment.check_ok checked).1 segmentPlaced) looped
    rwa [Nat.add_right_comm] at onward
  | _ => cases looped

theorem readHeader_ok (read : (readHeader profile image).run = some (.ok h)) :
    h = fileHeader image := by
  obtain ⟨_, _, read⟩ := Checked.bind_ok_iff.mp read
  obtain ⟨_, _, read⟩ := Checked.bind_ok_iff.mp read
  obtain ⟨eType, _, read⟩ := Checked.bind_ok_iff.mp read
  obtain ⟨eMachine, _, read⟩ := Checked.bind_ok_iff.mp read
  obtain ⟨_, _, read⟩ := Checked.bind_ok_iff.mp read
  obtain ⟨entry, entryRead, read⟩ := Checked.bind_ok_iff.mp read
  obtain ⟨phoff, phoffRead, read⟩ := Checked.bind_ok_iff.mp read
  obtain ⟨phentsize, phentsizeRead, read⟩ := Checked.bind_ok_iff.mp read
  obtain ⟨phnum, phnumRead, read⟩ := Checked.bind_ok_iff.mp read
  obtain ⟨_, _, read⟩ := Checked.bind_ok_iff.mp read
  have entries := (fieldAt_ok (by omega) entryRead).2
  have offsets := (fieldAt_ok (by omega) phoffRead).2
  have sizes := (fieldAt_ok (by omega) phentsizeRead).2
  have counts := (fieldAt_ok (by omega) phnumRead).2
  rw [← Except.ok.inj (Option.some.inj read), entries, offsets, sizes, counts]
  rfl

end Steps

structure Fresh (st : Loading) : Prop where
  valid : st.frames.map.Valid
  unmapped : ∀ page < USER_PAGES, translate st.space.pml4 page = none

theorem fresh_of_new {kernel : Fin 512 → Table 3} {fr fr' : Frames} {s : AddressSpace}
    (mem : Memory) (valid : fr.map.Valid) (made : AddressSpace.new kernel fr = (some s, fr')) :
    Fresh ⟨s, fr', mem⟩ := by
  unfold AddressSpace.new at made
  split at made
  next frame fr₁ taken =>
    cases made
    refine ⟨(Frames.take_takes valid taken).gives.valid, fun page low => ?_⟩
    have user : (Fin.ofNat 512 (page / 512 ^ 3)).val < 256 := pagePath_head low
    rw [Mm.translate, pagePath, Radix.lookup, if_pos user]
    rfl
  next => simp at made

/-- An address space that `load` has filled from a fresh one holds exactly the
segments of the file, and the entry point lies in the user area. -/
theorem load_image {profile : Overflow} {image : List Byte} {st st' : Loading}
    {entry : BitVec 64} (slice : Slice image) (fresh : Fresh st)
    (loaded : load profile image st = some (.ok entry, st')) :
    Holds image (fileHeader image) (fileHeader image).phnum.toNat st' ∧
      (∀ i < (fileHeader image).phnum.toNat, ∀ seg,
        loadable image (fileHeader image) i = some seg → ∀ page, seg.Covers page →
          USER_MIN.toNat ≤ page * FRAME_SIZE ∧ (page + 1) * FRAME_SIZE ≤ USER_MAX.toNat) ∧
      entry = (fileHeader image).entry ∧ USER_MIN ≤ entry ∧ entry < USER_MAX := by
  unfold load at loaded
  split at loaded
  next => simp at loaded
  next => simp at loaded
  next h read =>
    have header := readHeader_ok read
    subst header
    split at loaded
    next => simp at loaded
    next => simp at loaded
    next segments last looped =>
      split at loaded
      next => simp at loaded
      next accepted =>
        simp only [Option.some.injEq, Prod.mk.injEq, Except.ok.injEq] at loaded
        obtain ⟨rfl, rfl⟩ := loaded
        have separate : Separate st := by
          refine ⟨fresh.valid, ?_, ?_⟩
          · intro page low leaf found
            rw [fresh.unmapped page low] at found
            cases found
          · intro page low other low' leaf leaf' found
            rw [fresh.unmapped page low] at found
            cases found
        have empty : Holds image (fileHeader image) 0 st := by
          refine ⟨by simp, by simp, by simp, fun page low mapped => ?_, by simp⟩
          rw [fresh.unmapped page low] at mapped
          cases mapped
        have bound := (fileHeader image).phnum.isLt
        have holds := loadLoop_holds slice (by omega) (.inl rfl) separate empty looped
        rw [Nat.zero_add] at holds
        simp only [not_or, BitVec.not_lt, ge_iff_le, BitVec.not_le] at accepted
        refine ⟨holds, fun i below seg found page covers => ?_, rfl, accepted.2⟩
        obtain ⟨-, -, above, beneath⟩ := (holds.sound i below seg found).pages_inside
        unfold Segment.Covers at covers
        simp only [FRAME_SIZE] at *
        omega

/-- The two pages of the small file, in a new address space. -/
theorem load_image_tiny : ∃ st', load .panics tinyImage emptyLoading = some (.ok 0x400010, st') ∧
    Holds tinyImage (fileHeader tinyImage) (fileHeader tinyImage).phnum.toNat st' := by
  have eval : (load .panics tinyImage emptyLoading).any
      (fun outcome => decide (outcome.1 = .ok 0x400010)) = true := by decide +kernel
  obtain ⟨⟨_, st'⟩, loaded, rfl⟩ := exists_of_any eval
  have drawn : Frames.take ⟨⟨[0#64], 13, 13, 13, 0⟩, []⟩ = some (0, emptyLoading.frames) := by
    decide +kernel
  have made : AddressSpace.new (fun _ => .empty) ⟨⟨[0#64], 13, 13, 13, 0⟩, []⟩ =
      (some emptyLoading.space, emptyLoading.frames) := by
    simp only [AddressSpace.new, drawn, ite_self]
    rfl
  have fresh : Fresh emptyLoading := fresh_of_new (fun _ => 0) ⟨by decide, by decide⟩ made
  exact ⟨st', loaded, (load_image (show tinyImage.length < _ by decide +kernel) fresh loaded).1⟩

end K1K.Loader
