import Mathlib

/-!
# Circular buffers

The contents of a ring of `cap` cells, oldest first, and what writing behind the
last or giving up the first of them does to it.
-/

namespace K1K.Lib

universe u

variable {Item : Type u} {cells : Nat → Item} {cap head len : Nat}

def ringContents (cells : Nat → Item) (cap head len : Nat) : List Item :=
  (List.range len).map fun i => cells ((head + i) % cap)

@[simp]
theorem length_ringContents : (ringContents cells cap head len).length = len := by
  simp [ringContents]

theorem ring_index_injective {i j : Nat} (iSmall : i < cap) (jSmall : j < cap)
    (eq : (head + i) % cap = (head + j) % cap) : i = j := by
  have congruent : i ≡ j [MOD cap] := Nat.ModEq.add_left_cancel' head eq
  rwa [Nat.ModEq, Nat.mod_eq_of_lt iSmall, Nat.mod_eq_of_lt jSmall] at congruent

theorem ringContents_push (item : Item) (room : len < cap) :
    ringContents (Function.update cells ((head + len) % cap) item) cap head (len + 1) =
      ringContents cells cap head len ++ [item] := by
  rw [ringContents, List.range_succ, List.map_append, List.map_singleton, Function.update_self]
  congr 1
  apply List.map_congr_left
  intro i mem
  have lt : i < len := List.mem_range.mp mem
  refine Function.update_of_ne (fun eq => ?_) ..
  have := ring_index_injective (by omega) room eq
  omega

variable (cells cap head len) in
theorem ringContents_pop : ringContents cells cap head (len + 1) =
      cells (head % cap) :: ringContents cells cap ((head + 1) % cap) len := by
  rw [ringContents, List.range_succ_eq_map, List.map_cons, List.map_map]
  congr 1
  apply List.map_congr_left
  intro i _
  simp only [Function.comp_apply, Nat.mod_add_mod]
  congr 2
  omega

end K1K.Lib
