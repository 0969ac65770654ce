import K1K.Allocator.Refinement

/-!
# The operations of the heap

`add_region`, `alloc` and `realloc` on a heap that stands for an arena return, and leave one
that stands for an arena with the live payloads brought up to date.
-/

namespace K1K.Allocator

open K1K.Lib
open Function (update update_idem update_of_ne update_self)
open Gap (carve carvedSize)

section HandOut

variable {S : Type} {h : Heap S} {live : Live} {ar : Arena} {front back : List Block}
  {cur : Block} {p : Payload} {keep : Nat} {mem : Memory}

theorem stamp_chain (split : ar.blocks = front ++ cur :: back)
    (room : (ar.opened split).Room p keep) (turns : Turns h.mem mem (carve room).blocks) :
    Chain (stampBack mem p.ptr cur.addr) 0 (nodes (carve room).blocks) 0 := by
  have member : ⟨cur.addr, carvedSize cur.size keep, some p⟩ ∈
      used (carve room).blocks := by
    rw [Gap.used_carve room]
    exact List.mem_append_right _ List.mem_cons_self
  have past := room.within.past
  refine turns.chain.congr fun n memberN a above below => mem.store64_outside ?_
  by_contra reached
  simp only [HEADER, BACK] at past reached
  have body := body_of_back (a := a) member rfl (by simp only [BACK]; omega) (by omega)
  have := (carve room).outside_of_body body n memberN
  omega

theorem stamp_stamped (sim : Refines h live ar) (split : ar.blocks = front ++ cur :: back)
    (free : cur.free) (room : (ar.opened split).Room p keep)
    (turns : Turns h.mem mem (carve room).blocks) :
    ∀ b ∈ used (carve room).blocks, ∀ q ∈ b.use,
      (stampBack mem p.ptr cur.addr).load64 (q.ptr - BACK) = q.ptr - b.addr := by
  have usedAfter := Gap.used_carve room
  have was : used ar.blocks = used front ++ used back := by
    rw [split, used_append, used_cons_free free]
  obtain ⟨-, fromNew, across⟩ :=
    List.pairwise_append.mp (usedAfter ▸ (carve room).used_pairwise)
  have new : ⟨cur.addr, carvedSize cur.size keep, some p⟩ ∈ used (carve room).blocks := by
    rw [usedAfter]
    exact List.mem_append_right _ List.mem_cons_self
  have within := (carve room).within new rfl
  have past := within.past
  have lt := within.inside
  intro b memberB q uses
  have old := turns.back memberB uses
  have pastB := ((carve room).within memberB uses).past
  have insideB := ((carve room).within memberB uses).inside
  simp only [HEADER] at past lt pastB
  -- the stamp of another block lies below or above the new block
  have elsewhere : b ∈ used ar.blocks → b.addr + b.size ≤ cur.addr ∨
      cur.addr + carvedSize cur.size keep ≤ b.addr →
      (stampBack mem p.ptr cur.addr).load64 (q.ptr - BACK) = q.ptr - b.addr := by
    intro member ne
    rw [stampBack, Memory.load64_store64_apart _ (by simp only [BACK]; omega), old]
    exact sim.stamped b member q uses
  rw [usedAfter, List.mem_append, List.mem_cons] at memberB
  rcases memberB with inFront | rfl | inBack
  · exact elsewhere (was ▸ List.mem_append_left _ inFront)
      (.inl (across b inFront ⟨cur.addr, _, some p⟩ List.mem_cons_self))
  · cases uses
    have bounded := ((carve room).sound _ (mem_used.mp new).1).bounded
    exact Memory.load64_store64_same _ (by simp only at bounded insideB ⊢; omega)
  · exact elsewhere (was ▸ List.mem_append_right _ inBack)
      (.inr ((List.pairwise_cons.mp fromNew).1 b inBack))

theorem stamp_kept (sim : Refines h live ar) (split : ar.blocks = front ++ cur :: back)
    (free : cur.free) (room : (ar.opened split).Room p keep)
    (turns : Turns h.mem mem (carve room).blocks) :
    Kept live h.mem (stampBack mem p.ptr cur.addr) := by
  have usedAfter : used (carve room).blocks = used front ++
      ⟨cur.addr, carvedSize cur.size keep, some p⟩ :: used back := Gap.used_carve room
  have was : used ar.blocks = used front ++ used back := by
    rw [split, used_append, used_cons_free free]
  intro ptr layout held i lt
  obtain ⟨b, member, holds⟩ := (sim.tracks ⟨ptr, layout⟩).mp held
  have stays : b ∈ used (carve room).blocks := by
    rw [was, List.mem_append] at member
    rw [usedAfter]
    rcases member with inFront | inBack <;> simp [*]
  have new : ⟨cur.addr, carvedSize cur.size keep, some p⟩ ∈ used (carve room).blocks := by
    simp [usedAfter]
  refine Eq.trans (mem.store64_outside ?_)
    (turns.kept _ (body_of_payload (p := ⟨ptr, layout⟩) stays holds lt))
  by_contra reached
  have within := (carve room).within stays holds
  have withinNew := (carve room).within new rfl
  have past := within.past
  have ends := within.inside
  have pastNew := withinNew.past
  have endsNew := withinNew.inside
  simp only [HEADER, BACK] at past ends pastNew endsNew reached
  have eq : b = ⟨cur.addr, carvedSize cur.size keep, some p⟩ :=
    (carve room).tiles.eq_of_covers (a := ptr + i) (mem_used.mp stays).1 (mem_used.mp new).1
      ⟨by change b.addr ≤ ptr + i; omega, by change ptr + i < b.addr + b.size; omega⟩
      ⟨by change cur.addr ≤ ptr + i; omega,
        by change ptr + i < cur.addr + carvedSize cur.size keep; omega⟩
  rw [eq] at holds
  have here : p.ptr = ptr := congrArg Payload.ptr (Option.some.inj holds)
  omega

theorem Refines.handOut (sim : Refines h live ar) (split : ar.blocks = front ++ cur :: back)
    (free : cur.free) (room : (ar.opened split).Room p keep)
    (turns : Turns h.mem mem (carve room).blocks) :
    Refines (h.handOut mem cur.addr p.ptr) (update live p.ptr (some p.layout))
        (carve room) ∧ live p.ptr = none ∧
      Kept live h.mem (h.handOut mem cur.addr p.ptr).mem := by
  have usedAfter : used (carve room).blocks = used front ++
      ⟨cur.addr, carvedSize cur.size keep, some p⟩ :: used back := Gap.used_carve room
  have was : used ar.blocks = used front ++ used back := by
    rw [split, used_append, used_cons_free free]
  have ne : ∀ c ∈ used front ++ used back, ∀ q : Payload, c.use = some q → q.ptr ≠ p.ptr :=
    fun c member q => (carve room).ptr_ne usedAfter rfl member
  have carved := Gap.carve_range room
  have chain := stamp_chain split room turns
  have new : ⟨cur.addr, carvedSize cur.size keep, some p⟩ ∈ (carve room).blocks :=
    (mem_used.mp (by rw [usedAfter]; exact List.mem_append_right _ List.mem_cons_self)).1
  have size : blockSize (stampBack mem p.ptr cur.addr) cur.addr = carvedSize cur.size keep :=
    blockSize_eq ((carve room).sound _ new) (chain.tag_of_mem (List.mem_map_of_mem new))
  refine ⟨?_, ?_, stamp_kept sim split free room turns⟩
  · refine sim.rearranged carved ⟨rfl, rfl⟩ chain
      (stamp_stamped sim split free room turns) ?_ ?_ ?_
    · simp only [Heap.handOut, size, sim.inUse, was, usedAfter, bytes_append, bytes_cons]
      omega
    · simp only [Heap.handOut, sim.count, was, usedAfter, List.length_append, List.length_cons]
      omega
    · rw [usedAfter]
      exact (was ▸ sim.tracks : Tracks live _).insert rfl ne
  · cases held : live p.ptr with
    | none => rfl
    | some layout =>
      obtain ⟨c, member, uses⟩ := (sim.tracks ⟨p.ptr, layout⟩).mp held
      exact absurd rfl (ne c (was ▸ member) ⟨p.ptr, layout⟩ uses)

end HandOut

/-! ## Regions -/

structure Region.Good (r : Region) : Prop where
  nonzero : 0 < r.base
  aligned : ALIGN ∣ r.base
  whole : ALIGN ∣ r.len
  room : MIN_SPLIT ≤ r.len
  bounded : r.base + r.len < 2 ^ 64

theorem Region.good_iff {r : Region} :
    r.Good ↔ 0 < r.base ∧ ALIGN ∣ r.base ∧ ALIGN ∣ r.len ∧ MIN_SPLIT ≤ r.len ∧
      r.base + r.len < 2 ^ 64 :=
  ⟨fun good => ⟨good.nonzero, good.aligned, good.whole, good.room, good.bounded⟩,
    fun ⟨nonzero, aligned, whole, room, bounded⟩ => ⟨nonzero, aligned, whole, room, bounded⟩⟩

instance (r : Region) : Decidable r.Good := decidable_of_iff _ Region.good_iff.symm

theorem Region.Good.hole {r : Region} (good : r.Good) : (Block.hole r.base r.len).Sound where
  nonzero := good.nonzero
  aligned := good.aligned
  whole := good.whole
  room := good.room
  bounded := good.bounded
  holds := by simp

section AddRegion

variable {S : Type} {h : Heap S} {live : Live} {ar : Arena} {region : Region}

def Heap.top (h : Heap S) : Option Nat := h.regions.getLast?.map fun r => r.base + r.len

theorem Refines.top_eq (sim : Refines h live ar) {top : Nat} (known : h.top = some top) :
    ar.top = top := by
  have tiles := sim.regions
  rcases List.eq_nil_or_concat' h.regions with empty | ⟨init, last, ends⟩
  · simp [Heap.top, empty] at known
  rw [ends] at tiles
  obtain ⟨mid, -, start, ends'⟩ := tiles_append.mp tiles
  have known : last.base + last.len = top := by simpa [Heap.top, ends] using known
  have start : last.base = mid := start
  have ends' : mid + last.len = ar.top := ends'
  omega

theorem Refines.rebased (sim : Refines h live ar) (empty : h.regions = []) (base : Nat) :
    Refines h live (Arena.empty base) := by
  have range : ar.base = ar.top := tiles_nil.mp (empty ▸ sim.regions)
  have count := ar.length_le
  simp only [MIN_SPLIT, HEADER, ALIGN] at count
  have nothing : ar.blocks = [] := List.eq_nil_of_length_eq_zero (by omega)
  have entry := sim.entry
  have inUse := sim.inUse
  have count := sim.count
  have tracks := sim.tracks
  rw [nothing] at entry inUse count tracks
  exact {
    few := sim.few
    regions := by
      rw [empty]
      rfl
    entry := entry
    chain := trivial
    stamped := by simp [Arena.empty]
    inUse := inUse
    count := count
    tracks := tracks }

theorem Refines.fuel (sim : Refines h live ar) : ar.blocks.length < h.fuel := by
  have total := sim.regions.sum_length
  have count := ar.length_le
  have total : ar.base + h.regionBytes = ar.top := total
  simp only [MIN_SPLIT, HEADER, ALIGN] at count
  simp only [Heap.fuel]
  omega

theorem tail_eq {mem : Memory} {head fuel : Nat} {blocks : List Block}
    (sound : ∀ b ∈ blocks, b.Sound) (chain : Chain mem 0 (nodes blocks) 0)
    (entry : head = Chain.entry (nodes blocks) 0) (enough : blocks.length < fuel) :
    (if head = 0 then some 0 else tailFrom mem fuel head) =
      some (Chain.final 0 (nodes blocks)) := by
  cases blocks with
  | nil => simp [entry]
  | cons b rest =>
    have reached : head ≠ 0 := by
      rw [entry]
      exact Nat.ne_of_gt (sound b List.mem_cons_self).nonzero
    rw [if_neg reached, entry]
    refine tailFrom_eq chain ?_ ?_
    · simp only [List.forall_mem_map]
      exact fun c member => (sound c (List.mem_cons_of_mem _ member)).nonzero
    · simp only [List.length_map, List.length_cons] at enough ⊢
      omega

variable (h region) in
theorem linkRegion_frame (last : Nat) : (h.linkRegion region last).regions = h.regions ∧
      (h.linkRegion region last).supply = h.supply ∧
      (h.linkRegion region last).inUse = h.inUse ∧ (h.linkRegion region last).live = h.live := by
  unfold Heap.linkRegion
  split
  · exact ⟨rfl, rfl, rfl, rfl⟩
  · split <;> exact ⟨rfl, rfl, rfl, rfl⟩

theorem Refines.overlaps (sim : Refines h live ar) (adjacent : ar.top = region.base) :
    h.overlaps region = false := by
  simp only [Heap.overlaps, List.any_eq_false, Bool.and_eq_true, decide_eq_true_eq, not_and]
  intro r mem below
  have bound := (sim.regions.bounds mem).2
  have bound : r.base + r.len ≤ ar.top := bound
  omega

theorem Refines.linkRegion (sim : Refines h live ar) (good : region.Good)
    (adjacent : ar.top = region.base) (few : h.regions.length < MAX_REGIONS) :
    Refines ((h.record region).linkRegion region (Chain.final 0 (nodes ar.blocks))) live
        (ar.openedTop region adjacent good.hole).close ∧
      Kept live h.mem
        ((h.record region).linkRegion region (Chain.final 0 (nodes ar.blocks))).mem := by
  have entry : (h.record region).head = Chain.entry (nodes ar.blocks) 0 := sim.entry
  obtain ⟨turns, head⟩ := linkRegion_turns entry sim.chain adjacent good.hole
  obtain ⟨regions, -, inUse, count⟩ :=
    linkRegion_frame (h.record region) region (Chain.final 0 (nodes ar.blocks))
  have sameUsed : used (ar.openedTop region adjacent good.hole).close.blocks = used ar.blocks :=
    (Gap.used_close _).trans (List.append_nil _)
  have tracks : Tracks live (used (ar.openedTop region adjacent good.hole).close.blocks) :=
    sameUsed.symm ▸ sim.tracks
  refine ⟨?_, turns.keeps tracks⟩
  exact {
    few := by
      rw [regions, Heap.record, List.length_append]
      exact few
    regions := by
      have was : Tiles ar.base h.regions region.base := adjacent ▸ sim.regions
      rw [regions]
      exact tiles_append.mpr ⟨region.base, was, rfl, rfl⟩
    entry := head
    chain := turns.chain
    stamped := fun b mem p uses => by
      rw [turns.back mem uses]
      exact sim.stamped b (sameUsed ▸ mem) p uses
    inUse := by
      rw [inUse, sameUsed]
      exact sim.inUse
    count := by
      rw [count, sameUsed]
      exact sim.count
    tracks := tracks }

theorem Refines.reaching (sim : Refines h live ar) {base : Nat}
    (follows : ∀ top, h.top = some top → top = base) :
    ∃ ar', Refines h live ar' ∧ ar'.top = base := by
  cases known : h.top with
  | none =>
    have empty : h.regions = [] := by simpa [Heap.top] using known
    exact ⟨Arena.empty base, sim.rebased empty base, rfl⟩
  | some top => exact ⟨ar, sim, (sim.top_eq known).trans (follows top known)⟩

theorem Refines.addRegion (sim : Refines h live ar) (good : region.Good)
    (follows : ∀ top, h.top = some top → top = region.base) :
    (MAX_REGIONS ≤ h.regions.length ∧ h.addRegion region = some (false, h)) ∨
    ∃ grown ar', h.regions.length < MAX_REGIONS ∧ h.addRegion region = some (true, grown) ∧
      Refines grown live ar' ∧ grown.regions = h.regions ++ [region] ∧
      grown.supply = h.supply ∧ Kept live h.mem grown.mem := by
  by_cases full : MAX_REGIONS ≤ h.regions.length
  · exact .inl ⟨full, by simp [Heap.addRegion, full]⟩
  obtain ⟨ar, sim, adjacent⟩ := sim.reaching follows
  have few := Nat.not_le.mp full
  have aligned : region.base % ALIGN = 0 := Nat.mod_eq_zero_of_dvd good.aligned
  have enough : ar.blocks.length < (h.record region).fuel := by
    have fuel := sim.fuel
    simp only [Heap.fuel, Heap.regionBytes, Heap.record, List.map_append, List.sum_append]
      at fuel ⊢
    omega
  have last : (h.record region).tail = some (Chain.final 0 (nodes ar.blocks)) :=
    tail_eq ar.sound sim.chain sim.entry enough
  have added : h.addRegion region = some (true,
      (h.record region).linkRegion region (Chain.final 0 (nodes ar.blocks))) := by
    simp [Heap.addRegion, Nat.not_lt.mpr good.room, aligned, full, sim.overlaps adjacent, last]
  obtain ⟨regions, supply, -⟩ :=
    linkRegion_frame (h.record region) region (Chain.final 0 (nodes ar.blocks))
  obtain ⟨linked, kept⟩ := sim.linkRegion good adjacent few
  exact .inr ⟨_, _, few, added, linked, regions, supply, kept⟩

end AddRegion

/-! ## Resizing -/

theorem Payload.Within.resized {ptr addr size : Nat} {layout new : Layout}
    (within : (Payload.mk ptr layout).Within addr size) (sameAlign : new.align = layout.align) :
    ALIGN ∣ alignUp (ptr - addr + max new.size 1) ALIGN ∧
      MIN_SPLIT ≤ alignUp (ptr - addr + max new.size 1) ALIGN ∧
      (Payload.mk ptr new).Within addr (alignUp (ptr - addr + max new.size 1) ALIGN) := by
  have past := within.past
  have near := within.near
  have fits := new.fits
  simp only [HEADER, ALIGN] at past near
  have rounded := alignUp_ALIGN (v := ptr - addr + max new.size 1) (by simp only [ALIGN]; omega)
  obtain ⟨⟨k, multiple⟩, above, -⟩ := rounded
  refine ⟨⟨k, multiple⟩, ?_, ?_⟩
  · simp only [MIN_SPLIT, HEADER, ALIGN] at multiple above ⊢
    omega
  exact {
    past := within.past
    near := by
      rw [sameAlign]
      exact within.near
    inside := by
      simp only
      omega
    aligned := by
      rw [sameAlign]
      exact within.aligned
    word := within.word }

section Resize

variable {S : Type} {h : Heap S} {live : Live} {ar : Arena} {ptr : Nat} {layout new : Layout}
  {front back : List Block} {cur : Block} {keep : Nat}

theorem Refines.le_inUse (sim : Refines h live ar) (split : ar.blocks = front ++ cur :: back)
    {p : Payload} (holds : cur.use = some p) : cur.size ≤ h.inUse := by
  rw [sim.inUse, used_split split holds, bytes_append, bytes_cons]
  omega

theorem carvedSize_le {total : Nat} (fits : keep ≤ total) : carvedSize total keep ≤ total := by
  unfold carvedSize
  split <;> omega

theorem Refines.shrunk (sim : Refines h live ar) (split : ar.blocks = front ++ cur :: back)
    (holds : cur.use = some ⟨ptr, layout⟩) (room : (ar.opened split).Room ⟨ptr, new⟩ keep) :
    Refines { h with
        inUse := h.inUse - (splitTail h.mem cur.addr keep).1
        mem := (splitTail h.mem cur.addr keep).2 }
      (update live ptr (some new)) (carve room) ∧
      Kept (update live ptr (some new)) h.mem (splitTail h.mem cur.addr keep).2 := by
  have ran : cur.free = false := by simp [Block.free, holds]
  obtain ⟨given, turns⟩ := Arena.splitTail_turns split ran room sim.chain
  have counted := sim.le_inUse split holds
  have smaller : carvedSize cur.size keep ≤ cur.size := carvedSize_le room.fits
  refine sim.resized ⟨rfl, rfl⟩ rfl (used_split split holds) holds room turns ?_
  rw [given]
  change _ = h.inUse + carvedSize cur.size keep
  omega

theorem Refines.widened (sim : Refines h live ar) {following : Block}
    (split : ar.blocks = front ++ cur :: following :: back) (free : following.free)
    (holds : cur.use = some ⟨ptr, layout⟩) (grows : cur.size < keep)
    (room : (ar.openedBoth split).Room ⟨ptr, new⟩ keep) :
    0 < (absorbNext h.mem cur.addr cur.size keep).1 ∧
      Refines { h with
          inUse := h.inUse + (absorbNext h.mem cur.addr cur.size keep).1
          mem := (absorbNext h.mem cur.addr cur.size keep).2 }
        (update live ptr (some new)) (carve room) ∧
      Kept (update live ptr (some new)) h.mem
        (absorbNext h.mem cur.addr cur.size keep).2 := by
  obtain ⟨absorbed, turns⟩ := Arena.absorbNext_turns split free room grows sim.chain
  have fits : keep ≤ cur.size + following.size := room.fits
  have larger : keep ≤ carvedSize (cur.size + following.size) keep := by
    unfold carvedSize
    split <;> omega
  have usedBefore : used ar.blocks = used front ++ cur :: used back := by
    rw [used_split split holds, used_cons_free free]
  refine ⟨by omega, sim.resized ⟨rfl, rfl⟩ rfl usedBefore holds room turns ?_⟩
  rw [absorbed]
  change _ = h.inUse + carvedSize (cur.size + following.size) keep
  omega

theorem Refines.moved {moved : Heap S} {fresh : Nat} (held : live ptr = some layout)
    (unused : live fresh = none) (sim : Refines moved (update live fresh (some new)) ar) :
    ∃ ar', Refines ((moved.copy ptr fresh (min layout.size new.size)).dealloc ptr)
        (update (update live ptr none) fresh (some new)) ar' ∧
      Kept (update live ptr none) moved.mem
        ((moved.copy ptr fresh (min layout.size new.size)).dealloc ptr).mem ∧
      ∀ i < min layout.size new.size,
        ((moved.copy ptr fresh (min layout.size new.size)).dealloc ptr).mem (fresh + i) =
          moved.mem (ptr + i) := by
  have ne : ptr ≠ fresh := by
    rintro rfl
    simp [held] at unused
  have stillHeld : update live fresh (some new) ptr = some layout := by
    rw [update_of_ne ne, held]
  have short : 0 + (moved.mem.read ptr (min layout.size new.size)).length ≤ new.size := by
    rw [Nat.zero_add, Memory.length_read]
    exact Nat.min_le_right _ _
  have heldFresh := update_self fresh (some new) live
  have copied : Refines (moved.copy ptr fresh (min layout.size new.size)) _ ar :=
    sim.write heldFresh 0 _ short
  have written : Kept (update live fresh none) moved.mem
      (moved.copy ptr fresh (min layout.size new.size)).mem := by
    have kept := sim.write_kept heldFresh 0 _ short
    rwa [update_idem] at kept
  obtain ⟨ar', -, freed, kept⟩ := copied.dealloc stillHeld
  rw [Function.update_comm ne.symm] at freed kept
  refine ⟨ar', freed, ?_, ?_⟩
  · intro other layout' held' i lt
    have differ : other ≠ fresh := by
      rintro rfl
      simp [update_of_ne ne.symm, unused] at held'
    have differ' : other ≠ ptr := by
      rintro rfl
      simp at held'
    rw [kept other layout' (by rwa [update_of_ne differ]) i lt]
    refine written other layout' ?_ i lt
    rwa [update_of_ne differ, ← update_of_ne differ' none live]
  · intro i lt
    rw [kept fresh new (update_self ..) i (Nat.lt_of_lt_of_le lt (Nat.min_le_right _ _))]
    exact Memory.write_read _ lt

end Resize

/-! ## Allocation -/

class Window (S : Type) [Supply S] where
  /-- The next region, if there is one, begins at this address. -/
  At : S → Nat → Prop
  supplied : ∀ {s s' : S} {a want : Nat} {r : Region}, At s a →
    Supply.supply s want = (some r, s') → r.Good ∧ r.base = a ∧ At s' (a + r.len)
  refused : ∀ {s s' : S} {a want : Nat}, At s a → Supply.supply s want = (none, s') → At s' a

instance : Window Fixed where
  At _ _ := True
  supplied _ given := by cases given
  refused _ _ := trivial

section Alloc

variable {S : Type} [Supply S] [Window S] {h : Heap S} {live : Live} {ar : Arena}

/-- The supplier goes on where the regions of the heap end, as long as the heap
can take a region at all. -/
def Heap.InStep (h : Heap S) : Prop :=
  h.regions.length < MAX_REGIONS →
    ∃ a, Window.At h.supply a ∧ ∀ top, h.top = some top → top = a

theorem Heap.inStep_fixed (h : Heap Fixed) : h.InStep := by
  intro _
  refine ⟨h.top.getD 0, trivial, fun top known => ?_⟩
  simp [known]

structure Served (live : Live) (layout : Layout) (ptr : Nat) (after : Heap S) : Prop where
  inStep : after.InStep
  outcome : (ptr = 0 ∧ ∃ ar, Refines after live ar) ∨
    (ptr ≠ 0 ∧ live ptr = none ∧
      ∃ ar, Refines after (Function.update live ptr (some layout)) ar)

theorem Refines.served (sim : Refines h live ar) (inStep : h.InStep) (layout : Layout)
    {front back : List Block} {cur : Block} (split : ar.blocks = front ++ cur :: back)
    (free : cur.free) (large : blockFor (max layout.size 1) (max layout.align ALIGN) ≤ cur.size) :
    Served live layout (alignUp (cur.addr + HEADER) (max layout.align ALIGN))
      (h.handOut (if MIN_SPLIT ≤ cur.size - blockFor (max layout.size 1) (max layout.align ALIGN)
        then cutTail h.mem cur.addr (blockFor (max layout.size 1) (max layout.align ALIGN))
          cur.size (Chain.entry (nodes back) 0)
        else setSizeFlags h.mem cur.addr cur.size) cur.addr
        (alignUp (cur.addr + HEADER) (max layout.align ALIGN))) ∧
      Kept live h.mem
        (h.handOut (if MIN_SPLIT ≤ cur.size - blockFor (max layout.size 1) (max layout.align ALIGN)
          then cutTail h.mem cur.addr (blockFor (max layout.size 1) (max layout.align ALIGN))
            cur.size (Chain.entry (nodes back) 0)
          else setSizeFlags h.mem cur.addr cur.size) cur.addr
          (alignUp (cur.addr + HEADER) (max layout.align ALIGN))).mem := by
  have sound := ar.sound cur (by simp [split])
  have bounded := sound.bounded
  have within := payload_within cur.addr layout (by omega)
  obtain ⟨whole, enough⟩ := blockFor_spec layout
  have room : (ar.opened split).Room
      ⟨alignUp (cur.addr + HEADER) (max layout.align ALIGN), layout⟩
      (blockFor (max layout.size 1) (max layout.align ALIGN)) :=
    { whole := whole
      room := by
        simp only [MIN_SPLIT, HEADER, ALIGN] at enough ⊢
        omega
      within := within
      fits := large }
  obtain ⟨handed, fresh, kept⟩ :=
    sim.handOut split free room (ar.take_turns split room sim.chain)
  have past := within.past
  have notNull : alignUp (cur.addr + HEADER) (max layout.align ALIGN) ≠ 0 := by
    have := sound.nonzero
    simp only at past
    omega
  exact ⟨⟨inStep, .inr ⟨notNull, fresh, _, handed⟩⟩, kept⟩

theorem Refines.unserved (sim : Refines h live ar) (inStep : h.InStep) (layout : Layout)
    {need : Nat} {supply : S} (given : Supply.supply h.supply need = (none, supply)) :
    Served live layout 0 { h with supply := supply }.fail := by
  refine ⟨fun few => ?_, .inl ⟨rfl, ar, { sim with }⟩⟩
  obtain ⟨a, reached, follows⟩ := inStep few
  exact ⟨a, Window.refused reached given, follows⟩

theorem Refines.supplied (sim : Refines h live ar) (inStep : h.InStep) {need : Nat} {supply : S}
    {region : Region} (given : Supply.supply h.supply need = (some region, supply)) :
    (MAX_REGIONS ≤ h.regions.length ∧
      { h with supply := supply }.addRegion region = some (false, { h with supply := supply })) ∨
    ∃ grown ar', { h with supply := supply }.addRegion region = some (true, grown) ∧
      Refines grown live ar' ∧ grown.regions.length = h.regions.length + 1 ∧ grown.InStep ∧
      Kept live h.mem grown.mem := by
  by_cases full : MAX_REGIONS ≤ h.regions.length
  · exact .inl ⟨full, by simp [Heap.addRegion, full]⟩
  obtain ⟨a, reached, follows⟩ := inStep (Nat.not_le.mp full)
  obtain ⟨good, base, further⟩ := Window.supplied reached given
  have moved : Refines { h with supply := supply } live ar := { sim with }
  rcases moved.addRegion good fun top known => (follows top known).trans base.symm with
    ⟨isFull, -⟩ | ⟨grown, ar', -, added, refines', regions, sameSupply, kept⟩
  · exact absurd isFull full
  refine .inr ⟨grown, ar', added, refines', by simp [regions],
    fun _ => ⟨a + region.len, ?_, ?_⟩, kept⟩
  · rw [sameSupply]
    exact further
  · intro top known
    have last : region.base + region.len = top := by simpa [Heap.top, regions] using known
    omega

/-- Every request returns. A round that ends without an answer has added a
region, so the rounds are bounded by the regions there is room for. -/
theorem Refines.allocWithin (layout : Layout) {rounds size align : Nat}
    (sim : Refines h live ar) (inStep : h.InStep) (enough : MAX_REGIONS < rounds + h.regions.length)
    (sameSize : max size 1 = max layout.size 1)
    (sameAlign : max align ALIGN = max layout.align ALIGN) :
    ∃ ptr after, Heap.allocWithin rounds h size align = some (ptr, after) ∧
      Served live layout ptr after ∧ Kept live h.mem after.mem := by
  induction rounds generalizing h ar size align with
  | zero =>
    have := sim.few
    omega
  | succ rounds ih =>
    have power := max_align_power layout.power
    rcases takeFrom_eq (blockFor (max layout.size 1) (max layout.align ALIGN)) ar.sound
      sim.chain sim.fuel with ⟨-, res⟩ | ⟨front, cur, back, split, -, free, large, res⟩
    · rw [← sim.entry] at res
      cases given : Supply.supply h.supply
          (blockFor (max layout.size 1) (max layout.align ALIGN)) with
      | mk answer supply =>
        cases answer with
        | none =>
          refine ⟨_, _, ?_, sim.unserved inStep layout given, fun _ _ _ _ _ => rfl⟩
          simp only [Heap.allocWithin, sameSize, sameAlign, if_pos power, Heap.takeBlock, res,
            given]
        | some region =>
          rcases sim.supplied inStep given with
            ⟨full, refused⟩ | ⟨grown, ar', added, refines', regions, inStep', kept⟩
          · refine ⟨0, { h with supply := supply }.fail, ?_, ⟨fun few => absurd full ?_,
              .inl ⟨rfl, ar, { sim with }⟩⟩, fun _ _ _ _ _ => rfl⟩
            · simp only [Heap.allocWithin, sameSize, sameAlign, if_pos power, Heap.takeBlock,
                res, given, refused]
            · exact Nat.not_le.mpr few
          · obtain ⟨ptr, after, gave, served, later⟩ := ih refines' inStep'
              (by omega) (Nat.max_eq_left (Nat.le_max_right layout.size 1))
              (Nat.max_eq_left (Nat.le_max_right layout.align ALIGN))
            refine ⟨ptr, after, ?_, served, kept.trans later⟩
            simp only [Heap.allocWithin, sameSize, sameAlign, if_pos power, Heap.takeBlock, res,
              given, added, gave]
    · rw [← sim.entry] at res
      refine ⟨_, _, ?_, sim.served inStep layout split free large⟩
      simp only [Heap.allocWithin, sameSize, sameAlign, if_pos power, Heap.takeBlock, res]

theorem Refines.alloc (sim : Refines h live ar) (inStep : h.InStep) (layout : Layout)
    {align : Nat} (eq : max align ALIGN = max layout.align ALIGN) :
    ∃ ptr after, h.alloc layout.size align = some (ptr, after) ∧ Served live layout ptr after ∧
      Kept live h.mem after.mem :=
  sim.allocWithin layout inStep (by omega) rfl eq

/-! ## Reallocation -/

def reallocated (live : Live) (ptr : Nat) (new : Layout) (result : Nat) : Live :=
  if new.size = 0 then Function.update live ptr none
  else if result = 0 then live
  else Function.update (Function.update live ptr none) result (some new)

theorem dealloc_inStep (inStep : h.InStep) (ptr : Nat) : (h.dealloc ptr).InStep := by
  unfold Heap.dealloc
  split <;> exact inStep

variable {ptr : Nat} {layout new : Layout}

/-- What a `realloc` that answered `result` has done to the bytes of the payloads. -/
structure Carried (live : Live) (ptr : Nat) (layout new : Layout) (result : Nat)
    (before later : Memory) : Prop where
  /-- An answer is the payload itself or one that nobody held. -/
  place : result = 0 ∨ result = ptr ∨ live result = none
  others : Kept (Function.update live ptr none) before later
  carried : result ≠ 0 → ∀ i < min layout.size new.size, later (result + i) = before (ptr + i)
  refused : new.size ≠ 0 → result = 0 → Kept live before later

theorem Carried.inPlace {old later : Memory} (notNull : ptr ≠ 0)
    (kept : Kept (update live ptr (some new)) old later) :
    Carried live ptr layout new ptr old later where
  place := .inr (.inl rfl)
  others := by
    have others := kept.released ptr
    rwa [update_idem] at others
  carried _ i inside := kept ptr new (update_self ..) i
    (Nat.lt_of_lt_of_le inside (Nat.min_le_right _ _))
  refused _ null := absurd null notNull

theorem Refines.realloc (sim : Refines h live ar) (inStep : h.InStep)
    (held : live ptr = some layout) (sameAlign : new.align = layout.align) :
    ∃ res after, h.realloc ptr layout.size layout.align new.size = some (res, after) ∧
      after.InStep ∧ (∃ ar', Refines after (reallocated live ptr new res) ar') ∧
      Carried live ptr layout new res h.mem after.mem := by
  by_cases empty : new.size = 0
  · obtain ⟨ar', -, freed, kept⟩ := sim.dealloc held
    refine ⟨0, h.dealloc ptr, by simp [Heap.realloc, empty], dealloc_inStep inStep ptr, ⟨ar', ?_⟩,
      .inl rfl, kept, fun answered => absurd rfl answered, fun more => absurd empty more⟩
    simpa [reallocated, empty] using freed
  · obtain ⟨front, cur, back, split, holds, header⟩ := sim.find held
    have mem : cur ∈ used ar.blocks := by simp [used_split split holds]
    have within := ar.within mem holds
    have size : blockSize h.mem cur.addr = cur.size :=
      blockSize_eq (ar.sound cur (by simp [split])) (Arena.chain_split split sim.chain).2.1.tag
    have notNull : ptr ≠ 0 := by
      have past := within.past
      simp only [HEADER] at past
      omega
    have inPlace : reallocated live ptr new ptr = update live ptr (some new) := by
      simp [reallocated, empty, notNull]
    obtain ⟨whole, roomy, fits⟩ := within.resized sameAlign
    generalize needed : alignUp (ptr - cur.addr + max new.size 1) ALIGN = need at whole roomy fits
    by_cases shrinks : need ≤ cur.size
    · have room : (ar.opened split).Room ⟨ptr, new⟩ need := ⟨whole, roomy, fits, shrinks⟩
      obtain ⟨shrunk, kept⟩ := sim.shrunk split holds room
      refine ⟨ptr, _, ?_, ?_, ⟨carve room, inPlace ▸ shrunk⟩, .inPlace notNull kept⟩
      · simp only [Heap.realloc, if_neg empty, header, size, needed, if_pos shrinks]
      · exact inStep
    · rcases Arena.absorbNext_cases need split sim.chain with
        nothing | ⟨following, rest, rfl, free, large⟩
      · have eq : max (max layout.align ALIGN) ALIGN = max new.align ALIGN := by
          rw [sameAlign]
          exact Nat.max_eq_left (Nat.le_max_right layout.align ALIGN)
        obtain ⟨fresh, moved, gave, served, kept⟩ := sim.alloc inStep new eq
        have unfolded : h.realloc ptr layout.size layout.align new.size =
            if fresh = 0 then some (0, moved)
            else some (fresh, (moved.copy ptr fresh (min layout.size new.size)).dealloc ptr) := by
          simp only [Heap.realloc, if_neg empty, header, size, needed, if_neg shrinks, nothing,
            Nat.lt_irrefl, if_false, gave]
        rcases served.outcome with ⟨rfl, ar', refines'⟩ | ⟨reached, unused, ar', refines'⟩
        · refine ⟨0, moved, by rw [unfolded, if_pos rfl], served.inStep, ⟨ar', ?_⟩, .inl rfl,
            kept.released ptr, fun answered => absurd rfl answered, fun _ _ => kept⟩
          simpa [reallocated, empty] using refines'
        obtain ⟨ar'', freed, others, copied⟩ := refines'.moved held unused
        have inStep' : (moved.copy ptr fresh (min layout.size new.size)).InStep := served.inStep
        refine ⟨fresh, (moved.copy ptr fresh (min layout.size new.size)).dealloc ptr,
          by rw [unfolded, if_neg reached], dealloc_inStep inStep' ptr, ⟨ar'', ?_⟩,
          .inr (.inr unused), (kept.released ptr).trans others, fun _ i lt => ?_,
          fun _ null => absurd null reached⟩
        · simpa [reallocated, empty, reached] using freed
        · rw [copied i lt]
          exact kept ptr layout held i (Nat.lt_of_lt_of_le lt (Nat.min_le_left _ _))
      · have room : (ar.openedBoth split).Room ⟨ptr, new⟩ need := ⟨whole, roomy, fits, large⟩
        obtain ⟨pos, widened, kept⟩ :=
          sim.widened split free holds (Nat.not_le.mp shrinks) room
        refine ⟨ptr, _, ?_, ?_, ⟨carve room, inPlace ▸ widened⟩, .inPlace notNull kept⟩
        · simp only [Heap.realloc, if_neg empty, header, size, needed, if_neg shrinks, if_pos pos]
        · exact inStep

end Alloc

end K1K.Allocator
