import K1K.Allocator.Operations
import K1K.Lib.Run

/-!
# The allocator over whole runs

A system is a heap with what its callers hold. They add regions, allocate, free, resize and
write to payloads. After every run the list passes an audit that reads nothing but headers and
compares them with the regions, the counters and the live payloads.
-/

namespace K1K.Allocator

open K1K.Lib

/-! ## Auditing the list -/

def walk (mem : Memory) : Nat → Nat → Option (List Nat)
  | 0, _ => none
  | fuel + 1, cur => if cur = 0 then some [] else (walk mem fuel (next mem cur)).map (cur :: ·)

section Audit

variable {S : Type} (h : Heap S) (live : Live)

def usedHeaders (headers : List Nat) : List Nat := headers.filter fun x => !isFree h.mem x

structure Audit (headers : List Nat) : Prop where
  walked : walk h.mem h.fuel h.head = some headers
  backwards : headers.map (prev h.mem) = (0 :: headers).dropLast
  ordered : headers.Pairwise fun x y => x + blockSize h.mem x ≤ y
  covers : ∀ a, (∃ x ∈ headers, x ≤ a ∧ a < x + blockSize h.mem x) ↔
    ∃ r ∈ h.regions, r.base ≤ a ∧ a < r.base + r.len
  sizes : ∀ x ∈ headers, ALIGN ∣ blockSize h.mem x ∧ MIN_SPLIT ≤ blockSize h.mem x
  coalesced : headers.IsChain fun x y => ¬(isFree h.mem x ∧ isFree h.mem y)
  inUse : h.inUse = ((usedHeaders h headers).map (blockSize h.mem)).sum
  count : h.live = (usedHeaders h headers).length
  payloads : ∀ ptr layout, live ptr = some layout →
    headerOf h.mem ptr ∈ usedHeaders h headers ∧ layout.align ∣ ptr ∧
      headerOf h.mem ptr + HEADER ≤ ptr ∧
      ptr + layout.size ≤ headerOf h.mem ptr + blockSize h.mem (headerOf h.mem ptr)
  separate : ∀ ptr other, (live ptr).isSome → (live other).isSome →
    headerOf h.mem ptr = headerOf h.mem other → ptr = other

end Audit

section Read

variable {S : Type} {h : Heap S} {live : Live} {ar : Arena}

theorem walk_eq {mem : Memory} {blocks : List Block} {prev fuel : Nat}
    (sound : ∀ b ∈ blocks, b.Sound) (chain : Chain mem prev (nodes blocks) 0)
    (enough : blocks.length < fuel) :
    walk mem fuel (Chain.entry (nodes blocks) 0) = some (blocks.map Block.addr) := by
  induction blocks generalizing prev fuel with
  | nil =>
    obtain ⟨fuel, rfl⟩ := Nat.exists_eq_add_of_lt enough
    simp [walk]
  | cons b rest ih =>
    obtain ⟨fuel, rfl⟩ := Nat.exists_eq_add_of_lt enough
    have reached : b.addr ≠ 0 := Nat.ne_of_gt (sound b List.mem_cons_self).nonzero
    have reach : next mem b.addr = Chain.entry (nodes rest) 0 := chain.1.next
    have left : rest.length < (b :: rest).length + fuel :=
      Nat.lt_of_lt_of_le (Nat.lt_succ_self _) (Nat.le_add_right _ _)
    have further := ih (fun c member => sound c (List.mem_cons_of_mem _ member)) chain.2 left
    rw [nodes_cons, Chain.entry_cons, Block.node_addr, walk, if_neg reached, reach, further]
    rfl

theorem prev_eq {mem : Memory} {blocks : List Block} {before : Nat}
    (chain : Chain mem before (nodes blocks) 0) :
    (blocks.map Block.addr).map (prev mem) = (before :: blocks.map Block.addr).dropLast := by
  induction blocks generalizing before with
  | nil => rfl
  | cons b rest ih =>
    have here : prev mem b.addr = before := chain.1.prev
    rw [List.map_cons, List.map_cons, ih chain.2, here, List.dropLast_cons_cons]
    rfl

theorem Refines.blockSize (sim : Refines h live ar) {b : Block} (mem : b ∈ ar.blocks) :
    blockSize h.mem b.addr = b.size :=
  blockSize_eq (ar.sound b mem) (sim.chain.tag_of_mem (List.mem_map_of_mem mem))

theorem Refines.isFree (sim : Refines h live ar) {b : Block} (mem : b ∈ ar.blocks) :
    isFree h.mem b.addr = b.free :=
  isFree_eq (ar.sound b mem) (sim.chain.tag_of_mem (List.mem_map_of_mem mem))

theorem Refines.usedHeaders (sim : Refines h live ar) :
    usedHeaders h (ar.blocks.map Block.addr) = (used ar.blocks).map Block.addr := by
  rw [Allocator.usedHeaders, List.filter_map, used]
  congr 1
  exact List.filter_congr fun b mem => by simp [sim.isFree mem]

theorem Refines.home (sim : Refines h live ar) {ptr : Nat} {layout : Layout}
    (held : live ptr = some layout) :
    ∃ cur ∈ used ar.blocks, cur.use = some ⟨ptr, layout⟩ ∧ headerOf h.mem ptr = cur.addr := by
  obtain ⟨front, cur, back, split, holds, header⟩ := sim.find held
  exact ⟨cur, by simp [used_split split holds], holds, header⟩

theorem Arena.eq_of_addr (ar : Arena) {b c : Block} (memberB : b ∈ ar.blocks)
    (memberC : c ∈ ar.blocks) (eq : b.addr = c.addr) : b = c := by
  have roomB := (ar.sound b memberB).room
  have roomC := (ar.sound c memberC).room
  simp only [MIN_SPLIT, HEADER, ALIGN] at roomB roomC
  refine ar.tiles.eq_of_covers (a := b.addr) memberB memberC ⟨Nat.le_refl _, ?_⟩ ⟨?_, ?_⟩
  · change b.addr < b.addr + b.size
    omega
  · exact Nat.le_of_eq eq.symm
  · change b.addr < c.addr + c.size
    omega

theorem Refines.audit (sim : Refines h live ar) : Audit h live (ar.blocks.map Block.addr) where
  walked := by
    rw [sim.entry]
    exact walk_eq ar.sound sim.chain sim.fuel
  backwards := prev_eq sim.chain
  ordered := by
    rw [List.pairwise_map]
    refine ar.tiles.pairwise.imp_of_mem fun {b c} mem _ order => ?_
    rw [sim.blockSize mem]
    exact order
  covers a := by
    have blocks : (∃ x ∈ ar.blocks.map Block.addr, x ≤ a ∧ a < x + Allocator.blockSize h.mem x) ↔
        ∃ b ∈ ar.blocks, Extent.Covers b a := by
      simp only [List.mem_map, exists_exists_and_eq_and]
      refine exists_congr fun b => and_congr_right fun mem => ?_
      rw [sim.blockSize mem]
      rfl
    exact blocks.trans (ar.tiles.covers_iff.trans sim.regions.covers_iff.symm)
  sizes := by
    simp only [List.forall_mem_map]
    intro b mem
    rw [sim.blockSize mem]
    exact ⟨(ar.sound b mem).whole, (ar.sound b mem).room⟩
  coalesced := by
    refine (List.isChain_map Block.addr).mpr (ar.coalesced.imp_of_mem_imp ?_)
    intro b c memberB memberC ne
    rw [sim.isFree memberB, sim.isFree memberC]
    exact ne
  inUse := by
    rw [sim.usedHeaders, sim.inUse, List.map_map, bytes]
    congr 1
    exact List.map_congr_left fun b mem => (sim.blockSize (mem_used.mp mem).1).symm
  count := by
    rw [sim.usedHeaders, List.length_map]
    exact sim.count
  payloads ptr layout held := by
    obtain ⟨cur, mem, holds, header⟩ := sim.home held
    have within := ar.within mem holds
    have lt := within.inside
    rw [header, sim.usedHeaders, sim.blockSize (mem_used.mp mem).1]
    exact ⟨List.mem_map_of_mem mem, within.aligned, within.past, by simp only at lt; omega⟩
  separate ptr other held heldOther same := by
    obtain ⟨layout, held⟩ := Option.isSome_iff_exists.mp held
    obtain ⟨layout', heldOther⟩ := Option.isSome_iff_exists.mp heldOther
    obtain ⟨cur, mem, holds, header⟩ := sim.home held
    obtain ⟨cur', member', holds', header'⟩ := sim.home heldOther
    have sameBlock : cur = cur' := ar.eq_of_addr (mem_used.mp mem).1 (mem_used.mp member').1
      (header.symm.trans (same.trans header'))
    subst sameBlock
    rw [holds] at holds'
    exact congrArg Payload.ptr (Option.some.inj holds')

end Read

/-! ## Runs -/

structure System (S : Type) where
  heap : Heap S
  live : Live

inductive Op where
  | addRegion (region : Region)
  | reserveSupply (bytes : Nat)
  | alloc (layout : Layout)
  | dealloc (ptr : Nat)
  | realloc (ptr : Nat) (layout new : Layout)
  | write (ptr offset : Nat) (data : List Byte)

namespace System

variable {S : Type} [Supply S]

def new (mem : Memory) (supply : S) : System S := ⟨Heap.new mem supply, fun _ => none⟩

/-- One call, with the callers' view brought up to date; `none` stands for a call
that does not return. -/
def step (s : System S) : Op → Option (System S)
  | .addRegion region => (s.heap.addRegion region).map fun answer => ⟨answer.2, s.live⟩
  | .reserveSupply bytes => some ⟨s.heap.reserveSupply bytes, s.live⟩
  | .alloc layout => (s.heap.alloc layout.size layout.align).map fun answer =>
    ⟨answer.2, if answer.1 = 0 then s.live else Function.update s.live answer.1 (some layout)⟩
  | .dealloc ptr => some ⟨s.heap.dealloc ptr, Function.update s.live ptr none⟩
  | .realloc ptr layout new =>
    (s.heap.realloc ptr layout.size layout.align new.size).map fun answer =>
      ⟨answer.2, reallocated s.live ptr new answer.1⟩
  | .write ptr offset data =>
    some ⟨{ s.heap with mem := s.heap.mem.write (ptr + offset) data }, s.live⟩

variable [Window S]

/-- What callers owe: regions that begin where the last one ended, whoever they
come from, and calls on live payloads with the layouts they have. -/
def Permitted (s : System S) : Op → Prop
  | .addRegion region => region.Good ∧ ∀ top, s.heap.top = some top → top = region.base
  | .reserveSupply _ => True
  | .alloc _ => s.heap.InStep
  | .dealloc ptr => ∃ layout, s.live ptr = some layout
  | .realloc ptr layout new => s.live ptr = some layout ∧ new.align = layout.align ∧ s.heap.InStep
  | .write ptr offset data =>
    ∃ layout, s.live ptr = some layout ∧ offset + data.length ≤ layout.size

def Inv (s : System S) : Prop := ∃ ar, Refines s.heap s.live ar

omit [Supply S] [Window S] in
theorem inv_new (mem : Memory) (supply : S) : (new mem supply).Inv :=
  ⟨Arena.empty 0, {
    few := Nat.zero_le _
    regions := rfl
    entry := rfl
    chain := trivial
    stamped := by simp [Arena.empty]
    inUse := rfl
    count := rfl
    tracks := fun p => by simp [new, Arena.empty] }⟩

theorem Inv.step {s : System S} (inv : s.Inv) {op : Op} (permitted : s.Permitted op) :
    ∃ t, s.step op = some t ∧ t.Inv := by
  obtain ⟨ar, sim⟩ := inv
  cases op with
  | addRegion region =>
    rcases sim.addRegion permitted.1 permitted.2 with
      ⟨-, refused⟩ | ⟨grown, ar', -, added, refines', -⟩
    · exact ⟨⟨s.heap, s.live⟩, by simp [System.step, refused], ar, sim⟩
    · exact ⟨⟨grown, s.live⟩, by simp [System.step, added], ar', refines'⟩
  | reserveSupply bytes => exact ⟨_, rfl, ar, { sim with }⟩
  | alloc layout =>
    obtain ⟨ptr, after, gave, served, -⟩ := sim.alloc permitted layout rfl
    refine ⟨_, by rw [System.step, gave]; rfl, ?_⟩
    rcases served.outcome with ⟨null, ar', refines'⟩ | ⟨reached, -, ar', refines'⟩
    · exact ⟨ar', by simpa [null] using refines'⟩
    · exact ⟨ar', by simpa [reached] using refines'⟩
  | dealloc ptr =>
    obtain ⟨layout, held⟩ := permitted
    obtain ⟨ar', -, freed, -⟩ := sim.dealloc held
    exact ⟨_, rfl, ar', freed⟩
  | realloc ptr layout new =>
    obtain ⟨held, sameAlign, inStep⟩ := permitted
    obtain ⟨res, after, gave, -, ⟨ar', refines'⟩, -⟩ :=
      sim.realloc inStep held sameAlign
    exact ⟨_, by rw [System.step, gave]; rfl, ar', refines'⟩
  | write ptr offset data =>
    obtain ⟨layout, held, lt⟩ := permitted
    exact ⟨_, rfl, ar, sim.write held offset data lt⟩

theorem inv_of_run {mem : Memory} {supply : S} {ops : List Op} {s : System S}
    (run : Run (Guarded Permitted fun s op t => s.step op = some t) (new mem supply) ops s) :
    s.Inv := by
  refine run.invariant Inv (inv_new mem supply) fun s op t inv taken => ?_
  obtain ⟨permitted, ran⟩ := taken
  obtain ⟨next, gave, kept⟩ := inv.step permitted
  rw [gave] at ran
  exact Option.some.inj ran ▸ kept

/-- After every run of permitted calls the list passes the audit, and every
permitted call returns. -/
theorem list_audited {mem : Memory} {supply : S} {ops : List Op} {s : System S}
    (run : Run (Guarded Permitted fun s op t => s.step op = some t) (new mem supply) ops s) :
    (∃ headers, Audit s.heap s.live headers) ∧ ∀ op, s.Permitted op → (s.step op).isSome := by
  have inv := inv_of_run run
  constructor
  · obtain ⟨ar, refines⟩ := inv
    exact ⟨_, refines.audit⟩
  · intro op permitted
    obtain ⟨next, gave, -⟩ := inv.step permitted
    simp [gave]

/-! A service's heap: one region and no supplier. -/

instance (s : System Fixed) : DecidablePred s.Permitted
  | .addRegion region =>
    decidable_of_iff (region.Good ∧ ∀ top ∈ s.heap.top, top = region.base) Iff.rfl
  | .reserveSupply _ => isTrue trivial
  | .alloc _ => isTrue s.heap.inStep_fixed
  | .dealloc ptr => decidable_of_iff (s.live ptr).isSome Option.isSome_iff_exists
  | .realloc ptr layout new =>
    decidable_of_iff (s.live ptr = some layout ∧ new.align = layout.align)
      ⟨fun owed => ⟨owed.1, owed.2, s.heap.inStep_fixed⟩, fun owed => ⟨owed.1, owed.2.1⟩⟩
  | .write ptr offset data =>
    decidable_of_iff (∃ layout ∈ s.live ptr, offset + data.length ≤ layout.size) Iff.rfl

/-- A payload in the middle is freed, the one before it grows into the hole, grows
again and has to move. -/
def churn : List Op :=
  let small : Layout := ⟨40, 8, by decide, by decide⟩
  let page : Layout := ⟨16, 64, by decide, by decide⟩
  let large : Layout := ⟨80, 8, by decide, by decide⟩
  [.addRegion ⟨4096, 1024⟩, .alloc small, .alloc small, .alloc page, .dealloc 4224,
    .realloc 4128 small large, .write 4128 72 [1, 2, 3],
    .realloc 4128 large ⟨200, 8, by decide, by decide⟩]

theorem list_audited_after_churn : ∃ s : System Fixed,
    Run (Guarded Permitted fun s op t => s.step op = some t) (new (fun _ => 0) .fixed) churn s ∧
      (s.heap.live = 2 ∧ s.live 4128 = none) ∧ (∃ headers, Audit s.heap s.live headers) ∧
      ∀ op, s.Permitted op → (s.step op).isSome := by
  refine exists_guarded_of_replay (fun s => s.heap.live = 2 ∧ s.live 4128 = none)
    (by decide +kernel) fun s run count => ?_
  exact ⟨count, list_audited run⟩

end System

end K1K.Allocator
