import K1K.Allocator.Surgery

/-!
# Rounding and walking

The arithmetic of `align_up` and `block_for`, what `tail` and `take_block` find, and what one
round of `alloc` comes to.
-/

namespace K1K.Allocator

open K1K.Lib

/-! ## Rounding up -/

theorem alignUp_eq {v step k : Nat} (power : step = 2 ^ k) (small : v + step ≤ 2 ^ 64) :
    alignUp v step = (v + step - 1) / step * step := by
  subst power
  have pos : 0 < 2 ^ k := Nat.two_pow_pos k
  have fits : v + 2 ^ k - 1 < 2 ^ 64 := by omega
  have mask : 2 ^ k - 1 < 2 ^ 64 := by omega
  unfold alignUp
  rw [BitVec.toNat_and, BitVec.toNat_not, BitVec.toNat_ofNat, BitVec.toNat_ofNat,
    Nat.mod_eq_of_lt fits, Nat.mod_eq_of_lt mask]
  generalize v + 2 ^ k - 1 = x at fits
  -- both sides are `x` with its lowest `k` bits cleared
  apply Nat.eq_of_testBit_eq
  intro i
  rw [Nat.testBit_and, Nat.testBit_mul_two_pow, Nat.testBit_div_two_pow, Nat.sub_sub,
    Nat.add_comm 1, Nat.testBit_two_pow_sub_succ mask, Nat.testBit_two_pow_sub_one]
  by_cases low : k ≤ i
  · by_cases high : i < 64
    · simp [low, high, Nat.not_lt.mpr low]
    · have bound : x < 2 ^ i :=
        Nat.lt_of_lt_of_le fits (Nat.pow_le_pow_right (by decide) (Nat.not_lt.mp high))
      simp [low, Nat.testBit_lt_two_pow bound]
  · simp [low, Nat.not_le.mp low]

theorem alignUp_spec {v step : Nat} (power : step.isPowerOfTwo) (small : v + step ≤ 2 ^ 64) :
    step ∣ alignUp v step ∧ v ≤ alignUp v step ∧ alignUp v step < v + step := by
  obtain ⟨k, rfl⟩ := power
  rw [alignUp_eq rfl small]
  have pos : 0 < 2 ^ k := Nat.two_pow_pos k
  have split := Nat.div_add_mod (v + 2 ^ k - 1) (2 ^ k)
  have rest := Nat.mod_lt (v + 2 ^ k - 1) pos
  rw [Nat.mul_comm] at split
  refine ⟨Nat.dvd_mul_left _ _, ?_, ?_⟩ <;> omega

theorem alignUp_ALIGN {v : Nat} (small : v + ALIGN ≤ 2 ^ 64) :
    ALIGN ∣ alignUp v ALIGN ∧ v ≤ alignUp v ALIGN ∧ alignUp v ALIGN < v + ALIGN :=
  alignUp_spec ⟨4, rfl⟩ small

theorem max_align_power {align : Nat} (power : align.isPowerOfTwo) :
    (max align ALIGN).isPowerOfTwo := by
  rcases Nat.le_total align ALIGN with small | large
  · rw [Nat.max_eq_right small]
    exact ⟨4, rfl⟩
  · rwa [Nat.max_eq_left large]

theorem dvd_max_align {align : Nat} (power : align.isPowerOfTwo) :
    align ∣ max align ALIGN ∧ ALIGN ∣ max align ALIGN := by
  obtain ⟨k, rfl⟩ := power
  have sixteen : ALIGN = 2 ^ 4 := rfl
  rcases Nat.le_total k 4 with small | large
  · have dvd := Nat.pow_dvd_pow 2 small
    rw [sixteen, Nat.max_eq_right (Nat.le_of_dvd (by decide) dvd)]
    exact ⟨dvd, Nat.dvd_refl _⟩
  · have dvd := Nat.pow_dvd_pow 2 large
    rw [sixteen, Nat.max_eq_left (Nat.le_of_dvd (Nat.two_pow_pos k) dvd)]
    exact ⟨Nat.dvd_refl _, dvd⟩

theorem blockFor_spec (layout : Layout) :
    ALIGN ∣ blockFor (max layout.size 1) (max layout.align ALIGN) ∧
      max layout.size 1 + HEADER + (max layout.align ALIGN - 1) ≤
        blockFor (max layout.size 1) (max layout.align ALIGN) := by
  have fits := layout.fits
  have rounded := alignUp_ALIGN
    (v := max layout.size 1 + HEADER + (max layout.align ALIGN - 1))
    (by simp only [ALIGN, HEADER]; omega)
  exact ⟨rounded.1, rounded.2.1⟩

theorem payload_within (addr : Nat) (layout : Layout)
    (bounded : addr + blockFor (max layout.size 1) (max layout.align ALIGN) < 2 ^ 64) :
    (Payload.mk (alignUp (addr + HEADER) (max layout.align ALIGN)) layout).Within addr
      (blockFor (max layout.size 1) (max layout.align ALIGN)) := by
  obtain ⟨-, room⟩ := blockFor_spec layout
  obtain ⟨aligned, above, near⟩ := alignUp_spec (v := addr + HEADER)
    (max_align_power layout.power) (by omega)
  obtain ⟨divides, word⟩ := dvd_max_align layout.power
  exact ⟨above, near, by simp only; omega, Nat.dvd_trans divides aligned,
    Nat.dvd_trans word aligned⟩

/-! ## The two loops -/

theorem tailFrom_eq {mem : Memory} {rest : List Node} {node : Node} {prev fuel : Nat}
    (chain : Chain mem prev (node :: rest) 0) (nonzero : ∀ n ∈ rest, 0 < n.addr)
    (enough : rest.length < fuel) :
    tailFrom mem fuel node.addr = some (Chain.final node.addr rest) := by
  induction rest generalizing node prev fuel with
  | nil =>
    obtain ⟨fuel, rfl⟩ := Nat.exists_eq_add_of_lt enough
    have ends : next mem node.addr = 0 := chain.1.next
    simp [tailFrom, ends]
  | cons following rest ih =>
    obtain ⟨fuel, rfl⟩ := Nat.exists_eq_add_of_lt enough
    have reach : next mem node.addr = following.addr := chain.1.next
    have reached : following.addr ≠ 0 := Nat.ne_of_gt (nonzero following List.mem_cons_self)
    rw [tailFrom, reach, if_neg reached]
    exact ih chain.2 (fun n member => nonzero n (List.mem_cons_of_mem _ member))
      (by simp only [List.length_cons]; omega)

theorem takeFrom_eq {mem : Memory} {prev fuel : Nat} {blocks : List Block} (need : Nat)
    (sound : ∀ b ∈ blocks, b.Sound) (chain : Chain mem prev (nodes blocks) 0)
    (enough : blocks.length < fuel) : ((∀ b ∈ blocks, b.free → b.size < need) ∧
      takeFrom mem need fuel (Chain.entry (nodes blocks) 0) = some (none, mem)) ∨
    ∃ front cur back, blocks = front ++ cur :: back ∧ (∀ b ∈ front, b.free → b.size < need) ∧
      cur.free ∧ need ≤ cur.size ∧
      takeFrom mem need fuel (Chain.entry (nodes blocks) 0) =
        some (some cur.addr, if MIN_SPLIT ≤ cur.size - need then
          cutTail mem cur.addr need cur.size (Chain.entry (nodes back) 0)
        else setSizeFlags mem cur.addr cur.size) := by
  induction blocks generalizing prev fuel with
  | nil =>
    obtain ⟨fuel, rfl⟩ := Nat.exists_eq_add_of_lt enough
    exact .inl ⟨by simp, by simp [takeFrom]⟩
  | cons b rest ih =>
    obtain ⟨fuel, rfl⟩ := Nat.exists_eq_add_of_lt enough
    obtain ⟨linked, second⟩ := chain
    have bSound := sound b List.mem_cons_self
    have reached : b.addr ≠ 0 := Nat.ne_of_gt bSound.nonzero
    have size := blockSize_eq bSound linked.tag
    have free := isFree_eq bSound linked.tag
    have reach : next mem b.addr = Chain.entry (nodes rest) 0 := linked.next
    rw [nodes_cons, Chain.entry_cons, Block.node_addr, takeFrom, if_neg reached, size, free, reach]
    by_cases fit : b.free ∧ need ≤ b.size
    · refine .inr ⟨[], b, rest, rfl, by simp, fit.1, fit.2, ?_⟩
      rw [if_pos fit]
      by_cases large : MIN_SPLIT ≤ b.size - need
      · simp only [if_pos large]
      · simp only [if_neg large]
    · rw [if_neg fit]
      have small : b.free → b.size < need := fun isFree =>
        Nat.not_le.mp fun large => fit ⟨isFree, large⟩
      have left : rest.length < (b :: rest).length + fuel :=
        Nat.lt_of_lt_of_le (Nat.lt_succ_self _) (Nat.le_add_right _ _)
      rcases ih (fun c member => sound c (List.mem_cons_of_mem _ member)) second
        left with ⟨none, res⟩ | ⟨front, cur, back, rfl, was, curFree, large, res⟩
      · exact .inl ⟨List.forall_mem_cons.mpr ⟨small, none⟩, res⟩
      · exact .inr ⟨b :: front, cur, back, rfl, List.forall_mem_cons.mpr ⟨small, was⟩, curFree,
          large, res⟩

/-! ## One round of `alloc` -/

section Round

variable {S : Type} {h : Heap S}

theorem addRegion_frame {region : Region} {accepted : Bool} {grown : Heap S}
    (added : h.addRegion region = some (accepted, grown)) :
    grown.supply = h.supply ∧ grown.inUse = h.inUse ∧ grown.peak = h.peak := by
  unfold Heap.addRegion at added
  split at added
  · cases added
    exact ⟨rfl, rfl, rfl⟩
  split at added
  · cases added
    exact ⟨rfl, rfl, rfl⟩
  obtain ⟨last, -, linked⟩ := Option.map_eq_some_iff.mp added
  cases linked
  unfold Heap.linkRegion
  split
  · exact ⟨rfl, rfl, rfl⟩
  · split <;> exact ⟨rfl, rfl, rfl⟩

variable [Supply S]

/-- How a round of `alloc` that needs `need` bytes ends: with the answer, or with the
heap that the next round starts from. -/
inductive Round (h : Heap S) (need align : Nat) : Nat × Heap S ⊕ Heap S → Prop where
  | misaligned (power : ¬align.isPowerOfTwo) : Round h need align (.inl (0, h))
  | found {cur : Nat} {mem : Memory} (taken : h.takeBlock need = some (some cur, mem)) :
    Round h need align
      (.inl (alignUp (cur + HEADER) align, h.handOut mem cur (alignUp (cur + HEADER) align)))
  | nothing {mem : Memory} {supply : S} (searched : h.takeBlock need = some (none, mem))
    (given : Supply.supply h.supply need = (none, supply)) :
    Round h need align (.inl (0, { h with supply := supply }.fail))
  | refused {mem : Memory} {supply : S} {region : Region} {after : Heap S}
    (searched : h.takeBlock need = some (none, mem))
    (given : Supply.supply h.supply need = (some region, supply))
    (added : { h with supply := supply }.addRegion region = some (false, after)) :
    Round h need align (.inl (0, after.fail))
  | grown {mem : Memory} {supply : S} {region : Region} {after : Heap S}
    (searched : h.takeBlock need = some (none, mem))
    (given : Supply.supply h.supply need = (some region, supply))
    (added : { h with supply := supply }.addRegion region = some (true, after)) :
    Round h need align (.inr after)

theorem allocWithin_round {rounds size align ptr : Nat} {after : Heap S}
    (gave : Heap.allocWithin (rounds + 1) h size align = some (ptr, after)) :
    Round h (blockFor (max size 1) (max align ALIGN)) (max align ALIGN) (.inl (ptr, after)) ∨
      ∃ grown, Round h (blockFor (max size 1) (max align ALIGN)) (max align ALIGN) (.inr grown) ∧
        Heap.allocWithin rounds grown (max size 1) (max align ALIGN) = some (ptr, after) := by
  simp only [Heap.allocWithin] at gave
  split at gave
  · split at gave
    · cases gave
    next cur mem ran =>
      cases gave
      exact .inl (.found ran)
    next mem searched =>
      split at gave
      next supply given =>
        cases gave
        exact .inl (.nothing searched given)
      next region supply given =>
        split at gave
        · cases gave
        next refused added =>
          cases gave
          exact .inl (.refused searched given added)
        next grown added => exact .inr ⟨grown, .grown searched given added, gave⟩
  next power =>
    cases gave
    exact .inl (.misaligned power)

end Round

end K1K.Allocator
