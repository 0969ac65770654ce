import K1K.Allocator.Contract

/-!
# What happens to the callers' bytes

What `realloc` answers with begins with the bytes of the payload it replaces.
-/

namespace K1K.Allocator

open K1K.Lib

def Op.given : Op → Option Nat
  | .addRegion _ => none
  | .reserveSupply _ => none
  | .alloc _ => none
  | .dealloc ptr => some ptr
  | .realloc ptr _ _ => some ptr
  | .write ptr _ _ => some ptr

namespace System

variable {S : Type} {s t : System S}

structure Untouched (s t : System S) (ptr : Nat) (layout : Layout) : Prop where
  before : s.live ptr = some layout
  after : t.live ptr = some layout
  bytes : ∀ i < layout.size, t.heap.mem (ptr + i) = s.heap.mem (ptr + i)

structure Replaced (s t : System S) (ptr : Nat) (layout new : Layout) (result : Nat) : Prop where
  after : t.live result = some new
  aligned : layout.align ∣ result
  bytes : ∀ i < min layout.size new.size, t.heap.mem (result + i) = s.heap.mem (ptr + i)

variable [Supply S] [Window S] {op : Op} {ptr result : Nat} {layout wanted : Layout}

theorem Inv.untouched (inv : s.Inv) (permitted : s.Permitted op) (ran : s.step op = some t)
    (held : s.live ptr = some layout) (other : op.given ≠ some ptr) : Untouched s t ptr layout := by
  obtain ⟨ar, sim⟩ := inv
  have ne : ∀ given, op.given = some given → ptr ≠ given := by
    rintro given found rfl
    exact other found
  have heldStill : ∀ given, op.given = some given →
      Function.update s.live given none ptr = some layout := fun given found => by
    rw [Function.update_of_ne (ne given found), held]
  cases op with
  | addRegion region =>
    rcases sim.addRegion permitted.1 permitted.2 with
      ⟨-, refused⟩ | ⟨grown, ar', -, added, -, -, -, kept⟩
    · simp only [System.step, refused, Option.map_some, Option.some_inj] at ran
      subst ran
      exact ⟨held, held, fun _ _ => rfl⟩
    · simp only [System.step, added, Option.map_some, Option.some_inj] at ran
      subst ran
      exact ⟨held, held, kept ptr layout held⟩
  | reserveSupply bytes =>
    cases ran
    exact ⟨held, held, fun _ _ => rfl⟩
  | alloc layout' =>
    obtain ⟨fresh, after, gave, served, kept⟩ := sim.alloc permitted layout' rfl
    simp only [System.step, gave, Option.map_some, Option.some_inj] at ran
    subst ran
    refine ⟨held, ?_, kept ptr layout held⟩
    rcases served.outcome with ⟨null, -⟩ | ⟨reached, unused, -⟩
    · simpa [null] using held
    have differ : ptr ≠ fresh := by
      rintro rfl
      simp [held] at unused
    simpa [reached, Function.update_of_ne differ] using held
  | dealloc given =>
    obtain ⟨layout', heldGiven⟩ := permitted
    obtain ⟨ar', -, -, kept⟩ := sim.dealloc heldGiven
    cases ran
    have still := heldStill given rfl
    exact ⟨held, still, kept ptr layout still⟩
  | realloc given layout' new =>
    obtain ⟨heldGiven, sameAlign, inStep⟩ := permitted
    obtain ⟨result, after, gave, -, -, carried⟩ := sim.realloc inStep heldGiven sameAlign
    simp only [System.step, gave, Option.map_some, Option.some_inj] at ran
    subst ran
    have still := heldStill given rfl
    refine ⟨held, ?_, carried.others ptr layout still⟩
    by_cases empty : new.size = 0
    · simpa [reallocated, empty] using still
    by_cases null : result = 0
    · simpa [reallocated, empty, null] using held
    have differ : ptr ≠ result := by
      rcases carried.place with zero | rfl | unused
      · exact absurd zero null
      · exact ne _ rfl
      · rintro rfl
        simp [held] at unused
    simpa [reallocated, empty, null, Function.update_of_ne differ] using still
  | write given offset data =>
    obtain ⟨layout', heldGiven, lt⟩ := permitted
    cases ran
    exact ⟨held, held, sim.write_kept heldGiven offset data lt ptr layout (heldStill given rfl)⟩

theorem Inv.replaced (inv : s.Inv) (permitted : s.Permitted (.realloc ptr layout wanted))
    (ran : s.step (.realloc ptr layout wanted) = some t) (more : wanted.size ≠ 0) {after : Heap S}
    (answered : s.heap.realloc ptr layout.size layout.align wanted.size = some (result, after)) :
    (result ≠ 0 → Replaced s t ptr layout wanted result) ∧
      (result = 0 → Untouched s t ptr layout) := by
  obtain ⟨ar, sim⟩ := inv
  obtain ⟨held, sameAlign, inStep⟩ := permitted
  obtain ⟨result', after', gave, -, ⟨ar', refines'⟩, carried⟩ :=
    sim.realloc inStep held sameAlign
  obtain ⟨rfl, rfl⟩ : result = result' ∧ after = after' := by
    simpa using answered.symm.trans gave
  simp only [System.step, gave, Option.map_some, Option.some_inj] at ran
  subst ran
  constructor
  · intro reached
    have heldNew : reallocated s.live ptr wanted result result = some wanted := by
      simp [reallocated, more, reached]
    obtain ⟨cur, mem, holds⟩ := (refines'.tracks ⟨result, wanted⟩).mp heldNew
    exact ⟨heldNew, sameAlign ▸ (ar'.within mem holds).aligned, carried.carried reached⟩
  · rintro rfl
    exact ⟨held, by simpa [reallocated, more] using held, carried.refused more rfl ptr layout held⟩

/-- After every run of permitted calls, one more call leaves the payloads it is not given alone; a
`realloc` that answers has carried the bytes along, and one that does not has left the payload as
it was. -/
theorem contents_kept {mem : Memory} {supply : S} {ops : List Op}
    (run : Run (Guarded Permitted fun s op t => s.step op = some t) (new mem supply) ops s)
    (permitted : s.Permitted op) (stepped : s.step op = some t) :
    (∀ ptr layout, s.live ptr = some layout → op.given ≠ some ptr → Untouched s t ptr layout) ∧
    ∀ ptr layout wanted result after, op = .realloc ptr layout wanted → wanted.size ≠ 0 →
      s.heap.realloc ptr layout.size layout.align wanted.size = some (result, after) →
      (result ≠ 0 → Replaced s t ptr layout wanted result) ∧
        (result = 0 → Untouched s t ptr layout) := by
  have inv := inv_of_run run
  refine ⟨fun ptr layout held other => inv.untouched permitted stepped held other, ?_⟩
  rintro ptr layout wanted result after rfl more answered
  exact inv.replaced permitted stepped more answered

theorem contents_kept_by_move : ∃ s t : System Fixed,
    Run (Guarded Permitted fun s op t => s.step op = some t) (new (fun _ => 0) .fixed)
      (churn.take 7) s ∧
    s.step (.realloc 4128 ⟨80, 8, by decide, by decide⟩ ⟨200, 8, by decide, by decide⟩) = some t ∧
    s.heap.mem (4128 + 73) = 2 ∧
    Untouched s t 4352 ⟨16, 64, by decide, by decide⟩ ∧
    Replaced s t 4128 ⟨80, 8, by decide, by decide⟩ ⟨200, 8, by decide, by decide⟩ 4432 := by
  let large : Layout := ⟨80, 8, by decide, by decide⟩
  let huge : Layout := ⟨200, 8, by decide, by decide⟩
  let aside : Layout := ⟨16, 64, by decide, by decide⟩
  have eval : ((churn.take 7).foldlM
      (fun (s : System Fixed) op => if s.Permitted op then s.step op else none)
      (new (fun _ => 0) .fixed)).any
      (fun s : System Fixed => decide (s.heap.mem (4128 + 73) = 2 ∧ s.live 4128 = some large ∧
        s.live 4352 = some aside ∧
        (s.heap.realloc 4128 80 8 200).map Prod.fst = some 4432)) := by
    decide +kernel
  obtain ⟨s, run, written, held, heldAside, answer⟩ :=
    exists_guarded_of_replay _ eval fun _ _ facts => facts
  obtain ⟨⟨result, after⟩, answered, place⟩ := Option.map_eq_some_iff.mp answer
  have place : result = 4432 := place
  subst place
  have permitted : s.Permitted (.realloc 4128 large huge) := ⟨held, rfl, s.heap.inStep_fixed⟩
  have ran : s.step (.realloc 4128 large huge) =
      some ⟨after, reallocated s.live 4128 huge 4432⟩ := by
    have answered : s.heap.realloc 4128 large.size large.align huge.size = some (4432, after) :=
      answered
    simp only [step, answered, Option.map_some]
  obtain ⟨others, replaced⟩ := contents_kept run permitted ran
  exact ⟨s, _, run, ran, written, others 4352 aside heldAside (by decide),
    (replaced 4128 large huge 4432 after rfl (by decide) answered).1 (by decide)⟩

end System

end K1K.Allocator
