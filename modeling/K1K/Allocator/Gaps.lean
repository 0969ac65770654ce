import K1K.Allocator.Contract

/-!
# Regions with gaps between them

`add_region` puts the block of a new region at the end of the list. `link_free`, `give_block`
and `realloc` join neighbours in the list, which are neighbours in memory as long as every
region begins where the last one ended.
-/

namespace K1K.Allocator

open K1K.Lib

structure Inside {S : Type} (h : Heap S) (headers : List Nat) : Prop where
  walked : walk h.mem h.fuel h.head = some headers
  owned : ∀ x ∈ headers, ∀ a, x ≤ a → a < x + blockSize h.mem x →
    ∃ r ∈ h.regions, r.base ≤ a ∧ a < r.base + r.len
  adjacent : headers.IsChain fun x y => x + blockSize h.mem x = y

theorem Refines.inside {S : Type} {h : Heap S} {live : Live} {ar : Arena}
    (sim : Refines h live ar) : Inside h (ar.blocks.map Block.addr) where
  walked := sim.audit.walked
  owned x mem a above below := (sim.audit.covers a).mp ⟨x, mem, above, below⟩
  adjacent := by
    refine (List.isChain_map Block.addr).mpr (ar.tiles.isChain.imp_of_mem_imp ?_)
    intro b c mem _ meet
    rw [sim.blockSize mem]
    exact meet

namespace System

variable {S : Type} [Supply S]

/-- Regions come in any order, as long as `add_region` accepts them; payloads that are
passed in are live. -/
def Accepted (s : System S) : Op → Prop
  | .addRegion region => ALIGN ∣ region.len ∧ ((s.heap.addRegion region).any fun answer => answer.1)
  | .reserveSupply _ => True
  | .alloc _ => True
  | .dealloc ptr => ∃ layout, s.live ptr = some layout
  | .realloc ptr layout new => s.live ptr = some layout ∧ new.align = layout.align
  | .write ptr offset data =>
    ∃ layout, s.live ptr = some layout ∧ offset + data.length ≤ layout.size

/-- After every run in which each region begins where the last one ended, the blocks
lie in the regions and neighbours in the list are neighbours in memory. -/
theorem blocks_inside [Window S] {mem : Memory} {supply : S} {ops : List Op} {s : System S}
    (run : Run (Guarded Permitted fun s op t => s.step op = some t) (new mem supply) ops s) :
    ∃ headers, Inside s.heap headers := by
  obtain ⟨ar, refines⟩ := inv_of_run run
  exact ⟨_, refines.inside⟩

theorem blocks_inside_after_churn : ∃ s : System Fixed,
    Run (Guarded Permitted fun s op t => s.step op = some t) (new (fun _ => 0) .fixed) churn s ∧
      s.heap.live = 2 ∧ ∃ headers, Inside s.heap headers := by
  refine exists_guarded_of_replay (fun s => s.heap.live = 2) (by decide +kernel)
    fun s run count => ?_
  exact ⟨count, blocks_inside run⟩

instance acceptedDecidable (s : System S) (op : Op) : Decidable (s.Accepted op) :=
  match op with
  | .addRegion region => inferInstanceAs (Decidable (ALIGN ∣ region.len ∧ _ = true))
  | .reserveSupply _ => .isTrue trivial
  | .alloc _ => .isTrue trivial
  | .dealloc ptr => decidable_of_iff (s.live ptr).isSome Option.isSome_iff_exists
  | .realloc ptr layout new =>
    inferInstanceAs (Decidable (s.live ptr = some layout ∧ new.align = layout.align))
  | .write ptr offset data =>
    decidable_of_iff (∃ layout ∈ s.live ptr, offset + data.length ≤ layout.size) Iff.rfl

theorem eight_power : Nat.isPowerOfTwo 8 := by decide

/-- Two regions a page apart. The payload takes all of the first; when it comes back, its block is
joined with the second region's and reaches into the gap. -/
def across : List Op :=
  [.addRegion ⟨4096, 64⟩, .addRegion ⟨8192, 64⟩, .alloc ⟨16, 8, eight_power, by decide⟩,
    .dealloc 4128]

theorem block_outside_regions : ∃ s : System Fixed,
    Run (Guarded Accepted fun s op t => s.step op = some t) (new (fun _ => 0) .fixed) across s ∧
      walk s.heap.mem s.heap.fuel s.heap.head = some [4096] ∧
      4096 ≤ 4160 ∧ 4160 < 4096 + blockSize s.heap.mem 4096 ∧
      ¬∃ r ∈ s.heap.regions, r.base ≤ 4160 ∧ 4160 < r.base + r.len := by
  exact exists_guarded_of_replay _ (by decide +kernel) fun _ _ facts => facts

end System

end K1K.Allocator
