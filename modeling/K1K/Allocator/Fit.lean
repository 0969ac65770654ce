import K1K.Allocator.Contract

/-!
# When a request is refused

Free are the addresses of the regions outside the blocks of live payloads.
-/

namespace K1K.Allocator

open K1K.Lib

section Free

variable {S : Type} (h : Heap S) (live : Live)

def Allocated (a : Nat) : Prop :=
  ∃ ptr layout, live ptr = some layout ∧ headerOf h.mem ptr ≤ a ∧
    a < headerOf h.mem ptr + blockSize h.mem (headerOf h.mem ptr)

def Spare (a : Nat) : Prop :=
  (∃ r ∈ h.regions, r.base ≤ a ∧ a < r.base + r.len) ∧ ¬Allocated h live a

end Free

section Stretch

variable {S : Type} {h : Heap S} {live : Live} {ar : Arena}

theorem Refines.allocated_iff (sim : Refines h live ar) {a : Nat} :
    Allocated h live a ↔ ∃ b ∈ ar.blocks, b.free = false ∧ Extent.Covers b a := by
  constructor
  · rintro ⟨ptr, layout, held, above, below⟩
    obtain ⟨cur, mem, -, header⟩ := sim.home held
    obtain ⟨mem, ran⟩ := mem_used.mp mem
    rw [header] at above below
    rw [sim.blockSize mem] at below
    exact ⟨cur, mem, ran, above, below⟩
  · rintro ⟨b, mem, ran, above, below⟩
    obtain ⟨p, holds⟩ : ∃ p, b.use = some p := by
      simpa [Block.free, Option.isSome_iff_exists] using ran
    have held := (sim.tracks p).mpr ⟨b, mem_used.mpr ⟨mem, ran⟩, holds⟩
    obtain ⟨cur, memberCur, holdsCur, header⟩ := sim.home held
    have pastB := (ar.within (mem_used.mpr ⟨mem, ran⟩) holds).past
    have insideB := (ar.within (mem_used.mpr ⟨mem, ran⟩) holds).inside
    have pastC := (ar.within memberCur holdsCur).past
    have insideC := (ar.within memberCur holdsCur).inside
    simp only at pastC insideC
    have eq : cur = b := ar.tiles.eq_of_covers (a := p.ptr) (mem_used.mp memberCur).1 mem
      ⟨by change cur.addr ≤ p.ptr; omega, by change p.ptr < cur.addr + cur.size; omega⟩
      ⟨by change b.addr ≤ p.ptr; omega, by change p.ptr < b.addr + b.size; omega⟩
    subst eq
    refine ⟨p.ptr, p.layout, held, ?_, ?_⟩
    · rw [header]
      exact above
    · rw [header, sim.blockSize mem]
      exact below

theorem Refines.spare_iff (sim : Refines h live ar) {a : Nat} :
    Spare h live a ↔ ∃ b ∈ ar.blocks, b.free = true ∧ Extent.Covers b a := by
  have owned : (∃ r ∈ h.regions, r.base ≤ a ∧ a < r.base + r.len) ↔
      ∃ b ∈ ar.blocks, Extent.Covers b a :=
    sim.regions.covers_iff.trans ar.tiles.covers_iff.symm
  rw [Spare, owned, sim.allocated_iff]
  constructor
  · rintro ⟨⟨b, mem, covers⟩, unused⟩
    refine ⟨b, mem, ?_, covers⟩
    cases free : b.free with
    | true => rfl
    | false => exact absurd ⟨b, mem, free, covers⟩ unused
  · rintro ⟨b, mem, free, covers⟩
    refine ⟨⟨b, mem, covers⟩, ?_⟩
    rintro ⟨c, memberC, ran, coversC⟩
    rw [ar.tiles.eq_of_covers mem memberC covers coversC, ran] at free
    cases free

theorem Refines.stretch_iff (sim : Refines h live ar) {lo len : Nat} :
    Stretch (Spare h live) lo len ↔ .hole lo len ∈ ar.blocks := by
  have nonempty : ∀ b ∈ ar.blocks, 0 < b.size := fun b mem => by
    have room := (ar.sound b mem).room
    simp only [MIN_SPLIT, HEADER, ALIGN] at room
    omega
  rw [Stretch.congr fun _ => sim.spare_iff]
  refine (ar.tiles.stretch_iff nonempty ar.coalesced).trans ⟨?_, ?_⟩
  · rintro ⟨b, mem, free, rfl, rfl⟩
    have unused : b.use = none := by simpa [Block.free] using free
    have eq : b = .hole b.addr b.size := by
      cases b
      cases unused
      rfl
    exact eq ▸ mem
  · exact fun mem => ⟨_, mem, rfl, rfl, rfl⟩

end Stretch

/-! ## Refusals -/

section Refusal

variable {S : Type} [Supply S] {h : Heap S} {live : Live} {ar : Arena} {size align : Nat}

def Fits (size align : Nat) : Prop :=
  max size 1 + HEADER + (max align ALIGN - 1) + ALIGN ≤ 2 ^ 64

instance : Decidable (Fits size align) := inferInstanceAs (Decidable (_ ≤ _))

theorem payload_ne_zero (fits : Fits size align) (power : (max align ALIGN).isPowerOfTwo)
    {addr : Nat} (bounded : addr + blockFor (max size 1) (max align ALIGN) < 2 ^ 64) :
    alignUp (addr + HEADER) (max align ALIGN) ≠ 0 := by
  have room : max size 1 + HEADER + (max align ALIGN - 1) ≤
      blockFor (max size 1) (max align ALIGN) := (alignUp_ALIGN fits).2.1
  have above := (alignUp_spec (v := addr + HEADER) power (by omega)).2.1
  simp only [HEADER] at above ⊢
  omega

theorem Refines.alloc_found (sim : Refines h live ar) (fits : Fits size align)
    (power : (max align ALIGN).isPowerOfTwo) {b : Block} (mem : b ∈ ar.blocks) (free : b.free)
    (large : blockFor (max size 1) (max align ALIGN) ≤ b.size) :
    ∃ ptr after, h.alloc size align = some (ptr, after) ∧ ptr ≠ 0 := by
  rcases takeFrom_eq (blockFor (max size 1) (max align ALIGN)) ar.sound sim.chain sim.fuel
    with ⟨short, -⟩ | ⟨front, cur, back, split, -, -, enough, res⟩
  · exact absurd (short b mem free) (Nat.not_lt.mpr large)
  have bounded := (ar.sound cur (by simp [split])).bounded
  rw [← sim.entry] at res
  have answer : ∃ after, h.alloc size align =
      some (alignUp (cur.addr + HEADER) (max align ALIGN), after) := by
    simp only [Heap.alloc, Heap.allocWithin, if_pos power, Heap.takeBlock, res]
    exact ⟨_, rfl⟩
  obtain ⟨after, answered⟩ := answer
  exact ⟨_, after, answered, payload_ne_zero fits power (Nat.lt_of_le_of_lt
    (Nat.add_le_add_left enough _) bounded)⟩

theorem Refines.alloc_refused (sim : Refines h live ar) (power : (max align ALIGN).isPowerOfTwo)
    (short : ∀ b ∈ ar.blocks, b.free → b.size < blockFor (max size 1) (max align ALIGN))
    (nothing : (Supply.supply h.supply (blockFor (max size 1) (max align ALIGN))).1 = none) :
    ∃ after, h.alloc size align = some (0, after) := by
  rcases takeFrom_eq (blockFor (max size 1) (max align ALIGN)) ar.sound sim.chain sim.fuel
    with ⟨-, res⟩ | ⟨front, cur, back, split, -, free, enough, -⟩
  · rw [← sim.entry] at res
    cases given : Supply.supply h.supply (blockFor (max size 1) (max align ALIGN)) with
    | mk answer supply =>
      rw [given] at nothing
      cases nothing
      exact ⟨{ h with supply := supply }.fail, by
        simp only [Heap.alloc, Heap.allocWithin, if_pos power, Heap.takeBlock, res, given]⟩
  · exact absurd (short cur (by simp [split]) free) (Nat.not_lt.mpr enough)

theorem Refines.refused_iff (sim : Refines h live ar) (fits : Fits size align)
    (nothing : (Supply.supply h.supply (blockFor (max size 1) (max align ALIGN))).1 = none) :
    (∃ after, h.alloc size align = some (0, after)) ↔
      ¬(max align ALIGN).isPowerOfTwo ∨ ∀ lo len, Stretch (Spare h live) lo len →
        len < blockFor (max size 1) (max align ALIGN) := by
  by_cases power : (max align ALIGN).isPowerOfTwo
  · rw [or_iff_right (not_not.mpr power)]
    constructor
    · rintro ⟨after, refused⟩ lo len stretch
      by_contra long
      obtain ⟨ptr, after', answered, reached⟩ := sim.alloc_found fits power
        (sim.stretch_iff.mp stretch) rfl (Nat.not_lt.mp long)
      rw [refused] at answered
      cases answered
      exact reached rfl
    · intro short
      refine sim.alloc_refused power (fun b mem free => ?_) nothing
      obtain ⟨addr, size, use⟩ := b
      cases use with
      | none => exact short addr size (sim.stretch_iff.mpr mem)
      | some p => cases free
  · exact ⟨fun _ => .inl power, fun _ => ⟨h, by simp [Heap.alloc, Heap.allocWithin, power]⟩⟩

omit [Supply S] in
theorem Refines.one_block (sim : Refines h live ar) (idle : ∀ ptr, live ptr = none)
    (memory : 0 < h.regionBytes) : ar.blocks = [.hole ar.base h.regionBytes] := by
  have free : ∀ b ∈ ar.blocks, b.use = none := by
    intro b mem
    cases uses : b.use with
    | none => rfl
    | some p =>
      have held := (sim.tracks p).mpr ⟨b, mem_used.mpr ⟨mem, by simp [Block.free, uses]⟩, uses⟩
      rw [idle] at held
      cases held
  have total : ar.base + h.regionBytes = ar.top := sim.regions.sum_length
  have tiles := ar.tiles
  have coalesced := ar.coalesced
  rcases blocks : ar.blocks with - | ⟨b, - | ⟨c, rest⟩⟩
  · rw [blocks] at tiles
    have empty : ar.base = ar.top := tiles
    omega
  · obtain ⟨addr, size, use⟩ := b
    have unused : use = none := free ⟨addr, size, use⟩ (by simp [blocks])
    rw [blocks] at tiles
    obtain ⟨start, stop⟩ := tiles
    have start : addr = ar.base := start
    have stop : ar.base + size = ar.top := stop
    have length : size = h.regionBytes := by omega
    rw [unused, start, length]
  · rw [blocks] at coalesced
    refine absurd ?_ (List.isChain_cons_cons.mp coalesced).1
    simp [Block.free, free b (by simp [blocks]), free c (by simp [blocks])]

omit [Supply S] in
theorem Refines.idle (sim : Refines h live ar) (zero : h.live = 0) (ptr : Nat) :
    live ptr = none := by
  have nothing : used ar.blocks = [] :=
    List.eq_nil_of_length_eq_zero (sim.count.symm.trans zero)
  cases held : live ptr with
  | none => rfl
  | some layout =>
    obtain ⟨b, mem, -⟩ := (sim.tracks ⟨ptr, layout⟩).mp held
    simp [nothing] at mem

end Refusal

/-! ## Every run -/

namespace System

variable {S : Type} [Supply S] [Window S]

/-- After every run of permitted calls, a request that the supplier has nothing for is refused
exactly when no stretch of free memory is long enough; and when nothing is live, one free block
serves every request up to its size. -/
theorem refusal_exact {mem : Memory} {supply : S} {ops : List Op} {s : System S}
    (run : Run (Guarded Permitted fun s op t => s.step op = some t) (new mem supply) ops s) :
    (∀ size align, Fits size align →
      (Supply.supply s.heap.supply (blockFor (max size 1) (max align ALIGN))).1 = none →
      ((∃ after, s.heap.alloc size align = some (0, after)) ↔
        ¬(max align ALIGN).isPowerOfTwo ∨ ∀ lo len, Stretch (Spare s.heap s.live) lo len →
          len < blockFor (max size 1) (max align ALIGN))) ∧
    ((∀ ptr, s.live ptr = none) → 0 < s.heap.regionBytes →
      (walk s.heap.mem s.heap.fuel s.heap.head = some [s.heap.head] ∧
        isFree s.heap.mem s.heap.head ∧
        blockSize s.heap.mem s.heap.head = s.heap.regionBytes) ∧
      ∀ size align, Fits size align → (max align ALIGN).isPowerOfTwo →
        blockFor (max size 1) (max align ALIGN) ≤ s.heap.regionBytes →
        ∃ ptr after, s.heap.alloc size align = some (ptr, after) ∧ ptr ≠ 0) := by
  obtain ⟨ar, refines⟩ := inv_of_run run
  refine ⟨fun size align fits nothing => refines.refused_iff fits nothing, fun idle memory => ?_⟩
  have blocks := refines.one_block idle memory
  have member : .hole ar.base s.heap.regionBytes ∈ ar.blocks := by simp [blocks]
  have head : s.heap.head = ar.base := by
    rw [refines.entry, blocks]
    rfl
  have walked := refines.audit.walked
  rw [blocks, List.map_singleton] at walked
  rw [head]
  refine ⟨⟨head ▸ walked, ?_, ?_⟩, fun size align fits power small =>
    refines.alloc_found fits power member rfl small⟩
  · exact refines.isFree member
  · exact refines.blockSize member

/-- The payloads that `churn` leaves are freed as well. -/
theorem refusal_exact_after_churn : ∃ s : System Fixed,
    Run (Guarded Permitted fun s op t => s.step op = some t) (new (fun _ => 0) .fixed)
      (churn ++ [.dealloc 4352, .dealloc 4432]) s ∧
    blockSize s.heap.mem s.heap.head = 1024 ∧
    (∃ ptr after, s.heap.alloc 960 32 = some (ptr, after) ∧ ptr ≠ 0) ∧
    ((∃ after, s.heap.alloc 1000 16 = some (0, after)) ↔
      ¬Nat.isPowerOfTwo 16 ∨ ∀ lo len, Stretch (Spare s.heap s.live) lo len → len < 1056) := by
  refine exists_guarded_of_replay (fun s => s.heap.live = 0 ∧ s.heap.regionBytes = 1024)
    (by decide +kernel) ?_
  rintro s run ⟨count, memory⟩
  obtain ⟨ar, refines⟩ := inv_of_run run
  obtain ⟨exact, free⟩ := refusal_exact run
  obtain ⟨⟨-, -, size⟩, served⟩ := free (refines.idle count) (by omega)
  exact ⟨by rw [size, memory], served 960 32 (by decide) ⟨5, rfl⟩ (by rw [memory]; decide),
    exact 1000 16 (by decide) rfl⟩

/-- `alloc` looks for a block with the alignment raised to `ALIGN`. -/
theorem refused_with_room : ∃ s : System Fixed,
    Run (Guarded Permitted fun s op t => s.step op = some t) (new (fun _ => 0) .fixed)
      [.addRegion ⟨4096, 64⟩] s ∧
    (∃ after, s.heap.alloc 24 8 = some (0, after)) ∧
    Stretch (Spare s.heap s.live) 4096 64 ∧ blockFor 24 8 = 64 := by
  refine exists_guarded_of_replay (fun s => s.heap.live = 0 ∧ s.heap.regionBytes = 64 ∧
    s.heap.head = 4096 ∧ (s.heap.alloc 24 8).map Prod.fst = some 0) (by decide +kernel) ?_
  rintro s run ⟨count, memory, head, answer⟩
  obtain ⟨⟨res, after⟩, answered, null⟩ := Option.map_eq_some_iff.mp answer
  have null : res = 0 := null
  obtain ⟨ar, refines⟩ := inv_of_run run
  have blocks := refines.one_block (refines.idle count) (by omega)
  have base : ar.base = 4096 := by
    rw [← head, refines.entry, blocks]
    rfl
  refine ⟨⟨after, null ▸ answered⟩, refines.stretch_iff.mpr ?_, by decide⟩
  rw [blocks, base, memory]
  exact List.mem_singleton_self _

end System

end K1K.Allocator
