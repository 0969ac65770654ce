import Mathlib

/-!
# Parts of a list at a position

`Placed whole i part` says that `part` begins at position `i`, as a parser that walks over a
list by index meets it.
-/

namespace K1K.Lib

variable {α : Type*}

def slice (whole : List α) (i len : Nat) : Option (List α) :=
  if i + len ≤ whole.length then some ((whole.drop i).take len) else none

def Placed (whole : List α) (i : Nat) (part : List α) : Prop := part <+: whole.drop i

theorem placed_self (whole : List α) : Placed whole 0 whole := by
  rw [Placed, List.drop_zero]

namespace Placed

variable {whole first second part : List α} {i : Nat}

theorem left (placed : Placed whole i (first ++ second)) : Placed whole i first :=
  (List.prefix_append first second).trans placed

theorem right (placed : Placed whole i (first ++ second)) :
    Placed whole (i + first.length) second := by
  obtain ⟨rest, split⟩ := placed
  refine ⟨rest, ?_⟩
  rw [← List.drop_drop, ← split, List.append_assoc, List.drop_left]

theorem head {x : α} {rest : List α} (placed : Placed whole i (x :: rest)) :
    whole[i]? = some x := by
  obtain ⟨after, split⟩ := placed
  rw [← List.head?_drop, ← split]
  rfl

theorem tail {x : α} {rest : List α} (placed : Placed whole i (x :: rest)) :
    Placed whole (i + 1) rest := by
  have split : Placed whole i ([x] ++ rest) := placed
  exact split.right

theorem length_le (placed : Placed whole i part) (nonempty : part ≠ []) :
    i + part.length ≤ whole.length := by
  have short := List.IsPrefix.length_le placed
  have pos := List.length_pos_of_ne_nil nonempty
  rw [List.length_drop] at short
  omega

theorem slice_eq (placed : Placed whole i part) (nonempty : part ≠ []) :
    slice whole i part.length = some part := by
  rw [slice, if_pos (placed.length_le nonempty)]
  exact congrArg some (List.prefix_iff_eq_take.mp placed).symm

end Placed

end K1K.Lib
