import K1K.Allocator.Contract

/-!
# The window of the kernel heap

`FrameSupply` hands the kernel heap a gibibyte of address space from the bottom up, mapping
pages as it goes: a `Window`, in step with the heap that `heap::init` leaves.
-/

namespace K1K.Allocator

open K1K.Lib

def HEAP_START : Nat := 0xffff900000000000
def HEAP_RESERVE : Nat := 1024 * 1024 * 1024
def HEAP_GROW_MIN : Nat := 1024 * 1024
def HEAP_GROW_MAX : Nat := 16 * 1024 * 1024
def HEAP_AT_BOOT : Nat := 16 * 1024 * 1024
def PAGE : Nat := 4096

structure FrameSupply where
  top : Nat
  limit : Nat
  mapped : Nat
  /-- `HEAP_READY`. -/
  ready : Bool
  /-- Whether each further attempt to map pages succeeds. -/
  mappings : List Bool
  deriving DecidableEq

namespace FrameSupply

def new (mappings : List Bool) : FrameSupply where
  top := HEAP_START
  limit := HEAP_START + HEAP_RESERVE
  mapped := 0
  ready := true
  mappings := mappings

def growth (want left : Nat) : Nat :=
  (min (min (max want HEAP_GROW_MIN) HEAP_GROW_MAX) left + (PAGE - 1)) / PAGE * PAGE

def grow (s : FrameSupply) (bytes : Nat) (later : List Bool) : Option Region × FrameSupply :=
  (some ⟨s.top, bytes⟩, { s with
    top := s.top + bytes
    mapped := s.mapped + bytes
    mappings := later })

instance : Supply FrameSupply where
  supply s want :=
    if !s.ready then (none, s)
    else if s.limit < s.top then (none, s)
    else if s.limit - s.top < PAGE then (none, s)
    else
      match s.mappings with
      | [] => (none, s)
      | false :: later => (none, { s with mappings := later })
      | true :: later => s.grow (growth want (s.limit - s.top)) later
  reserve s bytes := { s with top := s.top + bytes, mapped := s.mapped + bytes }

structure Lies (s : FrameSupply) : Prop where
  nonzero : 0 < s.top
  pages : PAGE ∣ s.top
  limitPages : PAGE ∣ s.limit
  bounded : s.limit < 2 ^ 64

theorem growth_spec {want left : Nat} (pages : PAGE ∣ left) (enough : PAGE ≤ left) :
    PAGE ∣ growth want left ∧ PAGE ≤ growth want left ∧ growth want left ≤ left := by
  obtain ⟨k, rfl⟩ := pages
  simp only [growth, PAGE, HEAP_GROW_MIN, HEAP_GROW_MAX] at *
  refine ⟨Nat.dvd_mul_left _ _, ?_, ?_⟩ <;> omega

theorem grow_lies {s : FrameSupply} {bytes : Nat} {later : List Bool} (lies : s.Lies)
    (pages : PAGE ∣ bytes) : (s.grow bytes later).2.Lies :=
  ⟨Nat.lt_of_lt_of_le lies.nonzero (Nat.le_add_right _ _), Nat.dvd_add lies.pages pages,
    lies.limitPages, lies.bounded⟩

theorem good_of_pages {s : FrameSupply} (lies : s.Lies) {bytes : Nat} (pages : PAGE ∣ bytes)
    (least : PAGE ≤ bytes) (most : s.top + bytes ≤ s.limit) : (Region.mk s.top bytes).Good where
  nonzero := lies.nonzero
  aligned := Nat.dvd_trans (by decide) lies.pages
  whole := Nat.dvd_trans (by decide) pages
  room := Nat.le_trans (by decide) least
  bounded := Nat.lt_of_le_of_lt most lies.bounded

instance : Window FrameSupply where
  At s a := s.top = a ∧ s.Lies
  supplied := by
    rintro s s' a want r ⟨rfl, lies⟩ given
    simp only [Supply.supply] at given
    split at given
    · cases given
    split at given
    · cases given
    split at given
    · cases given
    next within room =>
      have pages : PAGE ∣ s.limit - s.top := Nat.dvd_sub lies.limitPages lies.pages
      obtain ⟨whole, least, most⟩ := @growth_spec want _ pages (Nat.not_lt.mp room)
      split at given
      · cases given
      · cases given
      · cases given
        exact ⟨good_of_pages lies whole least (by omega), rfl, rfl, grow_lies lies whole⟩
  refused := by
    rintro s s' a want ⟨rfl, lies⟩ given
    simp only [Supply.supply] at given
    split at given
    · cases given
      exact ⟨rfl, lies⟩
    split at given
    · cases given
      exact ⟨rfl, lies⟩
    split at given
    · cases given
      exact ⟨rfl, lies⟩
    split at given
    · cases given
      exact ⟨rfl, lies⟩
    · cases given
      exact ⟨rfl, ⟨lies.nonzero, lies.pages, lies.limitPages, lies.bounded⟩⟩
    · cases given

end FrameSupply

namespace System

/-- `heap::init`: the first part of the window is added at once, if it could be
mapped. -/
def init (s : System FrameSupply) (mapped : Bool) : Option (System FrameSupply) :=
  if mapped then
    (s.heap.addRegion ⟨HEAP_START, HEAP_AT_BOOT⟩).map fun answer =>
      ⟨if answer.1 then answer.2.reserveSupply HEAP_AT_BOOT else answer.2, s.live⟩
  else some s

/-- What callers owe once the kernel is up. Nobody but the supplier brings
regions any more. -/
def Called (s : System FrameSupply) : Op → Prop
  | .addRegion _ => False
  | .reserveSupply _ => False
  | .alloc _ => True
  | .dealloc ptr => ∃ layout, s.live ptr = some layout
  | .realloc ptr layout new => s.live ptr = some layout ∧ new.align = layout.align
  | .write ptr offset data =>
    ∃ layout, s.live ptr = some layout ∧ offset + data.length ≤ layout.size

theorem Called.permitted {s : System FrameSupply} {op : Op} (call : s.Called op)
    (inStep : s.heap.InStep) : s.Permitted op := by
  cases op with
  | addRegion | reserveSupply => exact call.elim
  | alloc => exact inStep
  | dealloc | write => exact call
  | realloc => exact ⟨call.1, call.2, inStep⟩

theorem Called.inStep {s t : System FrameSupply} {op : Op} (called : s.Called op) (inv : s.Inv)
    (inStep : s.heap.InStep) (ran : s.step op = some t) : t.heap.InStep := by
  obtain ⟨ar, sim⟩ := inv
  cases op with
  | addRegion | reserveSupply => exact called.elim
  | alloc layout =>
    obtain ⟨ptr, after, gave, served, -⟩ := sim.alloc inStep layout rfl
    simp only [step, gave, Option.map_some, Option.some.injEq] at ran
    exact ran ▸ served.inStep
  | dealloc ptr =>
    cases ran
    exact dealloc_inStep inStep ptr
  | realloc ptr layout new =>
    obtain ⟨res, after, gave, kept, -⟩ := sim.realloc inStep called.1 called.2
    simp only [step, gave, Option.map_some, Option.some.injEq] at ran
    exact ran ▸ kept
  | write ptr offset data =>
    cases ran
    exact inStep

theorem new_lies (mappings : List Bool) : (FrameSupply.new mappings).Lies where
  nonzero := show 0 < HEAP_START by decide
  pages := show PAGE ∣ HEAP_START by decide
  limitPages := show PAGE ∣ HEAP_START + HEAP_RESERVE by decide
  bounded := show HEAP_START + HEAP_RESERVE < 2 ^ 64 by decide

theorem init_inStep (mem : Memory) (mappings : List Bool) (mapped : Bool) :
    ∃ s, (new mem (.new mappings)).init mapped = some s ∧ s.Inv ∧ s.heap.InStep := by
  obtain ⟨ar, sim⟩ := inv_new mem (FrameSupply.new mappings)
  have lies := new_lies mappings
  cases mapped with
  | false => exact ⟨_, rfl, ⟨ar, sim⟩, fun _ => ⟨HEAP_START, ⟨rfl, lies⟩, nofun⟩⟩
  | true =>
    have good : (Region.mk HEAP_START HEAP_AT_BOOT).Good :=
      ⟨by decide, by decide, by decide, by decide, by decide⟩
    rcases sim.addRegion good nofun with
      ⟨full, -⟩ | ⟨grown, ar', -, added, refines', regions, supply, -⟩
    · exact absurd full (show ¬MAX_REGIONS ≤ 0 by decide)
    refine ⟨⟨grown.reserveSupply HEAP_AT_BOOT, fun _ => none⟩, ?_,
      ⟨ar', { refines' with }⟩, fun _ => ?_⟩
    · simp only [init, if_true, added, Option.map_some]
      rfl
    refine ⟨HEAP_START + HEAP_AT_BOOT, ⟨?_, ?_⟩, fun top known => ?_⟩
    · simp [Heap.reserveSupply, Supply.reserve, supply, new, Heap.new, FrameSupply.new]
    · simp only [Heap.reserveSupply, Supply.reserve, supply]
      exact ⟨show 0 < HEAP_START + HEAP_AT_BOOT by decide,
        show PAGE ∣ HEAP_START + HEAP_AT_BOOT by decide, lies.limitPages, lies.bounded⟩
    · simp [Heap.top, Heap.reserveSupply, regions, new, Heap.new] at known
      exact known.symm

theorem kernel_inv {mem : Memory} {mappings : List Bool} {mapped : Bool}
    {booted s : System FrameSupply} {ops : List Op}
    (up : (new mem (.new mappings)).init mapped = some booted)
    (run : Run (Guarded Called fun s op t => s.step op = some t) booted ops s) :
    s.Inv ∧ s.heap.InStep := by
  have start : booted.Inv ∧ booted.heap.InStep := by
    obtain ⟨s, came, kept⟩ := init_inStep mem mappings mapped
    exact Option.some.inj (came.symm.trans up) ▸ kept
  refine run.invariant (fun s => s.Inv ∧ s.heap.InStep) start fun s op t kept taken => ?_
  obtain ⟨called, ran⟩ := taken
  obtain ⟨next, gave, inv⟩ := kept.1.step (called.permitted kept.2)
  refine ⟨?_, called.inStep kept.1 kept.2 ran⟩
  exact Option.some.inj (gave.symm.trans ran) ▸ inv

/-- The kernel's heap, from `heap::init` on. -/
theorem kernel_list_audited {mem : Memory} {mappings : List Bool} {mapped : Bool}
    {booted s : System FrameSupply} {ops : List Op}
    (up : (new mem (.new mappings)).init mapped = some booted)
    (run : Run (Guarded Called fun s op t => s.step op = some t) booted ops s) :
    (∃ headers, Audit s.heap s.live headers) ∧ ∀ op, s.Called op → (s.step op).isSome := by
  obtain ⟨inv, inStep⟩ := kernel_inv up run
  constructor
  · obtain ⟨ar, sim⟩ := inv
    exact ⟨_, sim.audit⟩
  · intro op ran
    obtain ⟨next, gave, -⟩ := inv.step (ran.permitted inStep)
    simp [gave]

instance calledDecidable (s : System FrameSupply) (op : Op) : Decidable (s.Called op) :=
  match op with
  | .addRegion _ | .reserveSupply _ => .isFalse id
  | .alloc _ => .isTrue trivial
  | .dealloc ptr => decidable_of_iff (s.live ptr).isSome Option.isSome_iff_exists
  | .realloc ptr layout new =>
    inferInstanceAs (Decidable (s.live ptr = some layout ∧ new.align = layout.align))
  | .write ptr offset data =>
    decidable_of_iff (∃ layout ∈ s.live ptr, offset + data.length ≤ layout.size) Iff.rfl

/-- Twenty mebibytes come from the rest of the first sixteen and one growth; the small
payload then moves behind them. -/
theorem kernel_list_audited_after_growth :
    let small : Layout := ⟨64, 16, ⟨4, rfl⟩, by decide⟩
    let ops := [.alloc small, .alloc ⟨20971520, 16, ⟨4, rfl⟩, by decide⟩,
      .realloc (HEAP_START + 32) small ⟨128, 16, ⟨4, rfl⟩, by decide⟩,
      .dealloc (HEAP_START + 144)]
    ∃ booted, (new (fun _ => 0) (.new [true])).init true = some booted ∧
      ∃ s, Run (Guarded Called fun s op t => s.step op = some t) booted ops s ∧
        s.heap.supply.top = HEAP_START + HEAP_AT_BOOT + HEAP_GROW_MAX ∧ s.heap.live = 1 ∧
        ∃ headers, Audit s.heap s.live headers := by
  intro small ops
  have eval : ((new (fun _ => 0) (.new [true])).init true).any fun booted =>
      (ops.foldlM (fun s op => if Called s op then s.step op else none) booted).any fun s =>
        decide (s.heap.supply.top = HEAP_START + HEAP_AT_BOOT + HEAP_GROW_MAX ∧
          s.heap.live = 1) := by
    decide +kernel
  obtain ⟨booted, up, eval⟩ := (Option.any_eq_true _ _).mp eval
  refine ⟨booted, up, exists_guarded_of_replay _ eval ?_⟩
  rintro s run ⟨grown, one⟩
  exact ⟨grown, one, (kernel_list_audited up run).1⟩

end System

end K1K.Allocator
