import K1K.Allocator.FrameSupply
import K1K.Mm.Ownership

/-!
# How the kernel heap grows

`FrameSupply::supply` with `map_kernel_pages_deferred` of `kernel/src/mm/vmm.rs`. The loop gives
up at the first frame it cannot get, for the page or for a table. Nothing takes the pages back
that were mapped before, so the next attempt finds its first page mapped already.

The global bit of the leaves is left out.
-/

namespace K1K.Allocator

open K1K.Lib K1K.Mm

/-- `Flags::WRITABLE | Flags::NO_EXECUTE`. -/
def heapFlags : Flags := ⟨true, true, false, false, false⟩

def mapKernelPagesDeferred (flags : Flags) :
    Nat → Nat → Table 4 → Frames → Except Radix.InsertError Unit × Table 4 × Frames
  | 0, _, pml4, fr => (.ok (), pml4, fr)
  | count + 1, page, pml4, fr =>
    match fr.take with
    | none => (.error .exhausted, pml4, fr)
    | some (frame, fr) =>
      match mapTo pml4 page ⟨frame, flags⟩ fr with
      | (.ok (), pml4, fr) => mapKernelPagesDeferred flags count (page + 1) pml4 fr
      | (.error e, pml4, fr) => (.error e, pml4, fr)

structure Supplier where
  top : Nat
  limit : Nat
  mapped : Nat
  ready : Bool
  pml4 : Table 4
  frames : Frames

namespace Supplier

variable (s : Supplier)

def bytes (want : Nat) : Nat := FrameSupply.growth want (s.limit - s.top)

def mapping (want : Nat) : Except Radix.InsertError Unit × Table 4 × Frames :=
  mapKernelPagesDeferred heapFlags (s.bytes want / PAGE) (s.top / PAGE) s.pml4 s.frames

def supply (want : Nat) : Option Region × Supplier :=
  if !s.ready then (none, s)
  else if s.limit < s.top then (none, s)
  else if s.limit - s.top < PAGE then (none, s)
  else
    match s.mapping want with
    | (.ok (), pml4, frames) =>
      (some ⟨s.top, s.bytes want⟩, { s with
        top := s.top + s.bytes want
        mapped := s.mapped + s.bytes want
        pml4 := pml4
        frames := frames })
    | (.error _, pml4, frames) => (none, { s with pml4 := pml4, frames := frames })

def Clear : Prop :=
  ∀ page, s.top / PAGE ≤ page → page < s.limit / PAGE → translate s.pml4 page = none

structure Ready : Prop where
  ready : s.ready = true
  room : s.top + PAGE ≤ s.limit
  topPages : PAGE ∣ s.top
  limitPages : PAGE ∣ s.limit
  window : s.limit ≤ s.top + HEAP_RESERVE

structure Exhausts (want : Nat) (after : Supplier) : Prop where
  ready : s.Ready
  failed : (s.mapping want).1 = .error .exhausted
  supplied : s.supply want = (none, after)

/-- What a failed growth may leave behind: no page in the window, no frame missing but those of
tables, and nothing that stops a later growth. -/
structure Harmless (after : Supplier) : Prop where
  unmapped : after.Clear
  returned : ∀ frame, s.frames.map.Free frame →
    after.frames.map.Free frame ∨ frame ∈ after.pml4.tags
  recovers : ∀ (fr : Frames) (want : Nat), fr.map.Valid →
    5 * (after.bytes want / PAGE) ≤ fr.map.free →
    ({ after with frames := fr }.supply want).1.isSome

end Supplier

/-! ## Mapping with frames enough -/

theorem pagePath_ne {p q : Nat} (ne : p ≠ q) (close : p < q + 2 ^ 36) (near : q < p + 2 ^ 36) :
    pagePath p ≠ pagePath q := by
  intro eq
  simp only [pagePath, List.cons.injEq, Fin.ext_iff, Fin.val_ofNat, and_true] at eq
  omega

variable {flags : Flags} {pml4 pml4' : Table 4} {fr fr' : Frames} {page : Nat} {leaf : Leaf}

theorem translate_mapTo {other : Nat} (mapped : (mapTo pml4 page leaf fr).1 = .ok ())
    (ne : other ≠ page) (close : other < page + 2 ^ 36) (near : page < other + 2 ^ 36) :
    translate (mapTo pml4 page leaf fr).2.1 other = translate pml4 other := by
  have inserted := (Radix.insert_inserts Frames.take leaf (pagePath page) pml4 fr rfl).1 mapped
  unfold Mm.translate
  rw [mapTo, inserted.2 (pagePath other) rfl, if_neg (pagePath_ne ne close near)]

theorem mapKernelPagesDeferred_ok {count : Nat} (valid : fr.map.Valid)
    (enough : 5 * count ≤ fr.map.free) (few : count < 2 ^ 36)
    (clear : ∀ i < count, translate pml4 (page + i) = none) :
    (mapKernelPagesDeferred flags count page pml4 fr).1 = .ok () := by
  induction count generalizing page pml4 fr with
  | zero => rfl
  | succ count ih =>
    have some_left : fr.map.free ≠ 0 := by omega
    cases drawn : fr.take with
    | none => exact absurd ((Frames.take_none_iff valid).mp drawn) some_left
    | some pair =>
      obtain ⟨frame, left⟩ := pair
      have takes := Frames.take_takes valid drawn
      have fewer : fr.map.free = left.map.free + 1 := takes.gives.counted valid
      have fits : Mm.Fits pml4 page left :=
        ⟨clear 0 (Nat.succ_pos _), (Radix.missing_le _ _).trans (by omega)⟩
      have mapped := (mapTo_ok_iff ⟨frame, flags⟩ takes.gives.valid).mpr fits
      obtain ⟨new, more⟩ : ∃ new, left.Takes (mapTo pml4 page ⟨frame, flags⟩ left).2.2 new :=
        takes_mapTo takes.gives.valid
      have cost := free_mapTo pml4 page ⟨frame, flags⟩ takes.gives.valid
      have still : ∀ i < count, translate (mapTo pml4 page ⟨frame, flags⟩ left).2.1 (page + 1 + i) =
          none := by
        intro i small
        rw [translate_mapTo mapped (by omega) (by omega) (by omega), Nat.add_assoc,
          Nat.add_comm 1 i]
        exact clear (i + 1) (by omega)
      have later := ih more.gives.valid (by omega) (by omega) still
      rw [mapKernelPagesDeferred, drawn]
      simp only
      split
      next pml4₁ fr₁ res =>
        rw [res] at later
        exact later
      next e pml4₁ fr₁ res =>
        rw [res] at mapped
        cases mapped

theorem translate_mapTo_ne_none {other : Nat} (found : translate pml4 other ≠ none)
    (close : other < page + 2 ^ 36) (near : page < other + 2 ^ 36) :
    translate (mapTo pml4 page leaf fr).2.1 other ≠ none := by
  have inserted := Radix.insert_inserts Frames.take leaf (pagePath page) pml4 fr rfl
  by_cases mapped : (mapTo pml4 page leaf fr).1 = .ok ()
  · have ne : other ≠ page := fun eq => found (eq ▸ (inserted.1 mapped).1)
    rwa [translate_mapTo mapped ne close near]
  · unfold Mm.translate at found ⊢
    rwa [mapTo, inserted.2 mapped (pagePath other) rfl]

theorem mapKernelPagesDeferred_keeps {count other : Nat} (found : translate pml4 other ≠ none)
    (before : other < page) (close : page + count ≤ other + 2 ^ 36) :
    translate (mapKernelPagesDeferred flags count page pml4 fr).2.1 other ≠ none := by
  induction count generalizing page pml4 fr with
  | zero => exact found
  | succ count ih =>
    rw [mapKernelPagesDeferred]
    cases fr.take with
    | none => exact found
    | some pair =>
      have kept : translate (mapTo pml4 page ⟨pair.1, flags⟩ pair.2).2.1 other ≠ none :=
        translate_mapTo_ne_none found (by omega) (by omega)
      simp only
      split
      next res =>
        rw [res] at kept
        exact ih kept (by omega) (by omega)
      next res =>
        rw [res] at kept
        exact kept

/-- The frame of a page that could not be mapped is neither free nor in the tables. -/
theorem lost_of_mapTo {frame : Nat} {left : Frames} (valid : fr.map.Valid)
    (drawn : fr.take = some (frame, left)) (apart : frame ∉ bag pml4)
    (failed : (mapTo pml4 page ⟨frame, flags⟩ left).1 ≠ .ok ()) :
    ¬(mapTo pml4 page ⟨frame, flags⟩ left).2.2.map.Free frame ∧
      frame ∉ bag (mapTo pml4 page ⟨frame, flags⟩ left).2.1 := by
  have takes := Frames.take_takes valid drawn
  obtain ⟨new, more⟩ := @takes_mapTo pml4 left page ⟨frame, flags⟩ takes.gives.valid
  have used : left.map.isUsed frame = true := by simp [takes.gives.used]
  have balance := balance_mapTo pml4 left page ⟨frame, flags⟩
  rw [if_neg failed, more.taken, add_zero, ← Multiset.coe_add, add_comm (left.taken : Multiset Nat),
    ← add_assoc, add_right_cancel_iff] at balance
  refine ⟨fun free => ?_, ?_⟩
  · simp [Bitmap.Free, more.gives.used, used] at free
  · rw [balance, Multiset.mem_add, not_or]
    exact ⟨apart, fun mem => by simpa [used] using (more.gives.free frame mem).2⟩

/-! ## One attempt -/

namespace Supplier

variable {s after : Supplier} {want : Nat}

theorem Ready.pages (ready : s.Ready) (want : Nat) :
    0 < s.bytes want / PAGE ∧ s.top / PAGE + s.bytes want / PAGE ≤ s.limit / PAGE ∧
      s.bytes want / PAGE < 2 ^ 36 := by
  have left : PAGE ∣ s.limit - s.top := Nat.dvd_sub ready.limitPages ready.topPages
  have room : PAGE ≤ s.limit - s.top := Nat.le_sub_of_add_le' ready.room
  obtain ⟨_, least, most⟩ := @FrameSupply.growth_spec want _ left room
  have window := ready.window
  have bounds := ready.room
  have known : s.bytes want = FrameSupply.growth want (s.limit - s.top) := rfl
  obtain ⟨low, top⟩ := ready.topPages
  obtain ⟨high, limit⟩ := ready.limitPages
  rw [← known] at least most
  simp only [PAGE, HEAP_RESERVE] at *
  omega

theorem Ready.supplies (ready : s.Ready) (clear : s.Clear) (valid : s.frames.map.Valid)
    (enough : 5 * (s.bytes want / PAGE) ≤ s.frames.map.free) : (s.supply want).1.isSome := by
  obtain ⟨_, lt, few⟩ := ready.pages want
  have mapped : (s.mapping want).1 = .ok () :=
    mapKernelPagesDeferred_ok valid enough few fun i small =>
      clear _ (Nat.le_add_right _ _) (Nat.lt_of_lt_of_le (Nat.add_lt_add_left small _) lt)
  have ordered : ¬s.limit < s.top := by
    have room := ready.room
    omega
  have room : ¬s.limit - s.top < PAGE := Nat.not_lt.mpr (Nat.le_sub_of_add_le' ready.room)
  rw [supply, ready.ready, if_neg (by decide), if_neg ordered, if_neg room]
  split
  next => rfl
  next res =>
    rw [res] at mapped
    cases mapped

theorem supply_none (failed : (s.mapping want).1 ≠ .ok ()) : (s.supply want).1 = none := by
  rw [supply]
  split
  next => rfl
  split
  next => rfl
  split
  next => rfl
  split
  next res =>
    rw [res] at failed
    exact absurd rfl failed
  next => rfl

theorem Ready.exhausts (ready : s.Ready) (failed : (s.mapping want).1 = .error .exhausted) :
    s.Exhausts want (s.supply want).2 :=
  ⟨ready, failed, Prod.ext (supply_none (by simp [failed])) rfl⟩

theorem supply_stuck (ready : s.Ready) (valid : s.frames.map.Valid)
    (mapped : translate s.pml4 (s.top / PAGE) ≠ none) (want : Nat) : (s.supply want).1 = none := by
  have failed : (s.mapping want).1 ≠ .ok () := by
    obtain ⟨count, pages⟩ := Nat.exists_eq_succ_of_ne_zero (ready.pages want).1.ne'
    rw [mapping, pages, mapKernelPagesDeferred]
    cases drawn : s.frames.take with
    | none => simp
    | some pair =>
      obtain ⟨frame, left⟩ := pair
      have refused : (mapTo s.pml4 (s.top / PAGE) ⟨frame, heapFlags⟩ left).1 ≠ .ok () :=
        fun accepted =>
        mapped ((mapTo_ok_iff _ (Frames.take_takes valid drawn).gives.valid).mp accepted).1
      simp only
      split
      next res =>
        rw [res] at refused
        exact absurd rfl refused
      next => simp
  exact supply_none failed

theorem Exhausts.after_eq (exhausts : s.Exhausts want after) :
    after = { s with pml4 := (s.mapping want).2.1, frames := (s.mapping want).2.2 } := by
  have room := exhausts.ready.room
  have supplied := congrArg Prod.snd exhausts.supplied
  have failed := exhausts.failed
  rw [supply, exhausts.ready.ready, if_neg (by decide), if_neg (by omega),
    if_neg (Nat.not_lt.mpr (Nat.le_sub_of_add_le' room))] at supplied
  rcases gave : s.mapping want with ⟨_ | _, pml4, fr⟩
  · rw [gave] at supplied
    rw [exhausts.ready.ready]
    exact supplied.symm
  · rw [gave] at failed
    cases failed

theorem Exhausts.unchanged (exhausts : s.Exhausts want after) (valid : s.frames.map.Valid)
    (empty : s.frames.map.free = 0) : after = s := by
  obtain ⟨count, pages⟩ := Nat.exists_eq_succ_of_ne_zero (exhausts.ready.pages want).1.ne'
  rw [exhausts.after_eq, mapping, pages, mapKernelPagesDeferred,
    (Frames.take_none_iff valid).mpr empty]

theorem Exhausts.ready_after (exhausts : s.Exhausts want after) (fr : Frames) :
    { after with frames := fr }.Ready := by
  rw [exhausts.after_eq]
  exact { exhausts.ready with }

theorem Exhausts.not_harmless (exhausts : s.Exhausts want after)
    (mapped : translate after.pml4 (after.top / PAGE) ≠ none) : ¬s.Harmless after := by
  intro harmless
  have ready := exhausts.ready_after after.frames
  have room := (ready.pages want).1.trans_le (Nat.le_sub_of_add_le' (ready.pages want).2.1)
  exact mapped (harmless.unmapped _ le_rfl (Nat.lt_of_sub_pos room))

/-- The first page stays mapped, or its frame is lost. -/
theorem Exhausts.not_harmless_of_free (exhausts : s.Exhausts want after)
    (valid : s.frames.map.Valid) (apart : ∀ frame, s.frames.map.Free frame → frame ∉ bag s.pml4)
    (some_left : s.frames.map.free ≠ 0) : ¬s.Harmless after := by
  obtain ⟨-, -, few⟩ := exhausts.ready.pages want
  obtain ⟨count, pages⟩ := Nat.exists_eq_succ_of_ne_zero (exhausts.ready.pages want).1.ne'
  obtain ⟨⟨frame, left⟩, drawn⟩ := Option.ne_none_iff_exists'.mp
    (mt (Frames.take_none_iff valid).mp some_left)
  have eq := exhausts.after_eq
  rw [mapping, pages, mapKernelPagesDeferred, drawn] at eq
  simp only at eq
  rcases gave : mapTo s.pml4 (s.top / PAGE) ⟨frame, heapFlags⟩ left with ⟨e | _, pml4, fr⟩
  · have free : s.frames.map.Free frame :=
      (Frames.take_takes valid drawn).gives.free frame (by simp)
    obtain ⟨used, absent⟩ := lost_of_mapTo valid drawn (apart frame free)
      (by rw [gave]; simp : (mapTo s.pml4 (s.top / PAGE) ⟨frame, heapFlags⟩ left).1 ≠ .ok ())
    rw [gave] at eq used absent
    intro harmless
    rcases eq ▸ harmless.returned frame free with back | table
    · exact used back
    · exact absent (Multiset.mem_coe.mpr (Radix.tags_subset _ _ table))
  · refine exhausts.not_harmless ?_
    have mapped : translate pml4 (s.top / PAGE) ≠ none := by
      have found := ((Radix.insert_inserts Frames.take (⟨frame, heapFlags⟩ : Leaf)
        (pagePath (s.top / PAGE)) s.pml4 left rfl).1 (congrArg Prod.fst gave)).2
          (pagePath (s.top / PAGE)) rfl
      rw [mapTo] at gave
      rw [gave, if_pos rfl] at found
      simp [Mm.translate, found]
    rw [gave] at eq
    rw [eq]
    exact mapKernelPagesDeferred_keeps mapped (Nat.lt_succ_self _)
      (show s.top / PAGE + 1 + count ≤ s.top / PAGE + 2 ^ 36 by omega)

end Supplier

/-- A growth that fails for want of a frame leaves the window as it was, keeps no frame but those of
tables, and lets a later growth succeed with frames enough, exactly if there was no frame at all. -/
theorem failed_growth_harmless {s after : Supplier} {want : Nat} (valid : s.frames.map.Valid)
    (clear : s.Clear) (apart : ∀ frame, s.frames.map.Free frame → frame ∉ bag s.pml4)
    (exhausts : s.Exhausts want after) : s.Harmless after ↔ s.frames.map.free = 0 := by
  refine ⟨fun harmless => ?_, fun empty => ?_⟩
  · by_contra some_left
    exact exhausts.not_harmless_of_free valid apart some_left harmless
  rw [exhausts.unchanged valid empty]
  refine ⟨clear, fun frame free => .inl free, fun fr want valid enough => ?_⟩
  have ready : { s with frames := fr }.Ready := { exhausts.ready with }
  exact ready.supplies clear valid enough

/-- The supplier after boot, over the kernel's top table with one further table for the
window and over the given allocator. -/
def Supplier.booted (map : Bitmap) : Supplier where
  top := HEAP_START
  limit := HEAP_START + HEAP_RESERVE
  mapped := 0
  ready := true
  pml4 := .node 10 fun i => if i.val = 288 then .node 11 fun _ => .empty else .empty
  frames := ⟨map, []⟩

theorem Supplier.booted_ready (map : Bitmap) : (booted map).Ready where
  ready := rfl
  room := show HEAP_START + PAGE ≤ HEAP_START + HEAP_RESERVE by decide
  topPages := show PAGE ∣ HEAP_START by decide
  limitPages := show PAGE ∣ HEAP_START + HEAP_RESERVE by decide
  window := le_rfl

theorem Supplier.booted_clear (map : Bitmap) : (booted map).Clear := by
  intro page _ _
  simp only [booted, Mm.translate, pagePath, Radix.lookup]
  split
  next => rfl
  next => rfl

def lowestFree (count : Nat) : Bitmap := ⟨[BitVec.allOnes 64 <<< count], 64, count, 64, 0⟩

theorem growth_without_frames :
    ∃ (s after : Supplier) (want : Nat), s.frames.map.Valid ∧ s.Clear ∧ s.Exhausts want after ∧
      s.frames.map.free = 0 ∧ s.Harmless after := by
  have valid : (lowestFree 0).Valid := ⟨by decide, by decide +kernel⟩
  have clear := Supplier.booted_clear (lowestFree 0)
  have failed : ((Supplier.booted (lowestFree 0)).mapping 1).1 = .error .exhausted := by
    decide +kernel
  have exhausts := (Supplier.booted_ready (lowestFree 0)).exhausts failed
  have none : ∀ frame < 64, (lowestFree 0).isUsed frame = true := by decide +kernel
  have harmless := failed_growth_harmless valid clear
    (fun frame free => by cases (none frame free.1).symm.trans free.2) exhausts
  exact ⟨_, _, _, valid, clear, exhausts, rfl, harmless.mpr rfl⟩

/-- With four frames the first two pages and their tables come through, the third does not. From
then on no growth succeeds, however many frames there are. -/
theorem growth_fails_for_ever :
    ∃ (s after : Supplier) (want : Nat), s.frames.map.Valid ∧ s.Clear ∧ s.Exhausts want after ∧
      ¬s.Harmless after ∧
      ∀ (fr : Frames) (later : Nat), fr.map.Valid →
        ({ after with frames := fr }.supply later).1 = none := by
  have valid : (lowestFree 4).Valid := ⟨by decide, by decide +kernel⟩
  have failed : ((Supplier.booted (lowestFree 4)).mapping 1).1 = .error .exhausted := by
    decide +kernel
  have exhausts := (Supplier.booted_ready (lowestFree 4)).exhausts failed
  have mapped : translate ((Supplier.booted (lowestFree 4)).supply 1).2.pml4
      (((Supplier.booted (lowestFree 4)).supply 1).2.top / PAGE) ≠ none := by
    decide +kernel
  generalize ((Supplier.booted (lowestFree 4)).supply 1).2 = after at exhausts mapped
  exact ⟨_, after, _, valid, Supplier.booted_clear _, exhausts, exhausts.not_harmless mapped,
    fun fr later valid => Supplier.supply_stuck (exhausts.ready_after fr) valid mapped later⟩

end K1K.Allocator
