import Mathlib

/-!
# Scanning words for set bits

A loop that takes the lowest set bit of a word with `ctz` and clears it with
`w &&& (w - 1)` visits the positions of the set bits in increasing order.
-/

namespace K1K.Lib

def setBits {n : Nat} (w : BitVec n) : List Nat :=
  (List.range n).filter w.getLsbD

theorem length_setBits_le {n : Nat} (w : BitVec n) : (setBits w).length ≤ n := by
  have bound := List.length_filter_le w.getLsbD (List.range n)
  rwa [List.length_range] at bound

@[simp]
theorem setBits_zero {n : Nat} : setBits (0#n) = [] := by
  simp [setBits]

theorem filter_range_eq_cons {n k : Nat} {p : Nat → Bool} (inRange : k < n) (hit : p k = true)
    (low : ∀ i, i < k → p i = false) : (List.range n).filter p =
      k :: (List.range n).filter (fun i => p i && decide (i ≠ k)) := by
  have split : List.range n = List.range k ++ k :: List.range' (k + 1) (n - k - 1) := by
    have bound : n = k + (n - k - 1 + 1) := by omega
    conv_lhs => rw [bound, List.range_add]
    rw [List.range_succ_eq_map, List.map_cons, List.map_map, List.range'_eq_map_range]
    simp [Function.comp_def, Nat.add_comm, Nat.add_left_comm]
  have nothing : (List.range k).filter p = [] := by
    rw [List.filter_eq_nil_iff]
    intro i mem
    simp [low i (List.mem_range.mp mem)]
  have nothing' : (List.range k).filter (fun i => p i && decide (i ≠ k)) = [] := by
    rw [List.filter_eq_nil_iff]
    intro i mem
    simp [low i (List.mem_range.mp mem)]
  have eq : (List.range' (k + 1) (n - k - 1)).filter (fun i => p i && decide (i ≠ k)) =
      (List.range' (k + 1) (n - k - 1)).filter p := by
    apply List.filter_congr
    intro i mem
    have later : i ≠ k := by
      have := (List.mem_range'_1.mp mem).1
      omega
    simp [later]
  rw [split, List.filter_append, List.filter_append, nothing, nothing', List.nil_append,
    List.nil_append, List.filter_cons_of_pos hit, List.filter_cons_of_neg (by simp), eq]

theorem toNat_eq_of_ctz {n : Nat} {w : BitVec n} (nonzero : w ≠ 0#n) :
    ∃ m, w.toNat = 2 ^ (w.ctz.toNat + 1) * m + 2 ^ w.ctz.toNat := by
  generalize pos : w.ctz.toNat = k
  have low : w.toNat % 2 ^ k = 0 := by
    apply Nat.eq_of_testBit_eq
    intro i
    rw [Nat.testBit_mod_two_pow, Nat.zero_testBit]
    by_cases below : i < k
    · have clear : w.getLsbD i = false := BitVec.getLsbD_false_of_lt_ctz (pos ▸ below)
      simpa [BitVec.getLsbD] using fun _ => clear
    · simp [below]
  have bit : w.toNat.testBit k = true := by
    have := BitVec.getLsbD_true_ctz_of_ne_zero nonzero
    rwa [pos] at this
  have odd : w.toNat / 2 ^ k % 2 = 1 := by simpa [Nat.testBit_eq_decide_div_mod_eq] using bit
  refine ⟨w.toNat / 2 ^ k / 2, ?_⟩
  have outer := Nat.div_add_mod w.toNat (2 ^ k)
  have inner := Nat.div_add_mod (w.toNat / 2 ^ k) 2
  rw [odd] at inner
  rw [low, Nat.add_zero] at outer
  calc w.toNat = 2 ^ k * (w.toNat / 2 ^ k) := outer.symm
    _ = 2 ^ k * (2 * (w.toNat / 2 ^ k / 2) + 1) := by rw [inner]
    _ = 2 ^ (k + 1) * (w.toNat / 2 ^ k / 2) + 2 ^ k := by
      rw [Nat.pow_succ, Nat.mul_add, Nat.mul_one, Nat.mul_assoc]

theorem getLsbD_clear_lowest {n : Nat} {w : BitVec n} (nonzero : w ≠ 0#n) (i : Nat) :
    (w &&& (w - 1#n)).getLsbD i = (w.getLsbD i && decide (i ≠ w.ctz.toNat)) := by
  obtain ⟨m, value⟩ := toNat_eq_of_ctz nonzero
  generalize w.ctz.toNat = k at value ⊢
  have pos : 0 < 2 ^ k := Nat.two_pow_pos k
  have inWidth : w.toNat < 2 ^ n := w.isLt
  have wide : 1 < 2 ^ n := by
    have : 1 ≤ w.toNat := by omega
    omega
  have predecessor : (w - 1#n).toNat = 2 ^ (k + 1) * m + (2 ^ k - 1) := by
    rw [BitVec.toNat_sub_of_le]
    · simp only [BitVec.toNat_ofNat, Nat.mod_eq_of_lt wide]
      omega
    · simp only [BitVec.le_def, BitVec.toNat_ofNat, Nat.mod_eq_of_lt wide]
      omega
  have smaller : 2 ^ k < 2 ^ (k + 1) := by
    rw [Nat.pow_succ]
    omega
  rw [BitVec.getLsbD_and]
  simp only [BitVec.getLsbD, predecessor, value]
  rw [Nat.testBit_two_pow_mul_add _ smaller, Nat.testBit_two_pow_mul_add _ (by omega)]
  by_cases below : i < k + 1
  · simp only [below, if_true, Nat.testBit_two_pow, Nat.testBit_two_pow_sub_one]
    by_cases eq : i = k
    · simp [eq]
    · simp [eq, Ne.symm eq]
  · have ne : i ≠ k := by omega
    simp [below, ne]

theorem setBits_eq_cons {n : Nat} {w : BitVec n} (nonzero : w ≠ 0#n) :
    setBits w = w.ctz.toNat :: setBits (w &&& (w - 1#n)) := by
  have hit := BitVec.getLsbD_true_ctz_of_ne_zero nonzero
  have inRange : w.ctz.toNat < n := BitVec.lt_of_getLsbD hit
  unfold setBits
  rw [filter_range_eq_cons inRange hit fun i below => BitVec.getLsbD_false_of_lt_ctz below]
  congr 1
  apply List.filter_congr
  intro i _
  rw [getLsbD_clear_lowest nonzero]

end K1K.Lib
