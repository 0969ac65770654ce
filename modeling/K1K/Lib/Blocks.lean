import K1K.Lib.Memory

/-!
# Data in pieces

Blocks of equal size, one after the other: where each of them begins, and how a
part of the whole is put together from parts of the blocks.
-/

namespace K1K.Lib

section Blocks

variable {α : Type} {blocks : List (List α)} {size : Nat}

theorem drop_flatten (uniform : ∀ block ∈ blocks, block.length = size) (j : Nat) :
    blocks.flatten.drop (j * size) = (blocks.drop j).flatten := by
  induction j generalizing blocks with
  | zero => simp
  | succ j ih =>
    cases blocks with
    | nil => simp
    | cons block rest =>
      rw [List.forall_mem_cons] at uniform
      rw [List.flatten_cons, List.drop_succ_cons, ← ih uniform.2, Nat.succ_mul,
        Nat.add_comm, ← List.drop_drop, List.drop_left' uniform.1]

theorem length_flatten_uniform (uniform : ∀ block ∈ blocks, block.length = size) :
    blocks.flatten.length = blocks.length * size := by
  induction blocks with
  | nil => simp
  | cons block rest ih =>
    rw [List.forall_mem_cons] at uniform
    rw [List.flatten_cons, List.length_append, ih uniform.2, uniform.1,
      List.length_cons, Nat.succ_mul, Nat.add_comm]

theorem take_drop_flatten (uniform : ∀ block ∈ blocks, block.length = size) {j : Nat}
    {block : List α} (found : blocks[j]? = some block) {pos n : Nat} (within : pos + n ≤ size) :
    (blocks.flatten.drop (j * size + pos)).take n = (block.drop pos).take n := by
  obtain ⟨lt, rfl⟩ := List.getElem?_eq_some_iff.mp found
  have length := uniform _ (List.getElem_mem lt)
  rw [← List.drop_drop, drop_flatten uniform, List.drop_eq_getElem_cons lt, List.flatten_cons,
    List.drop_append_of_le_length (by omega), List.take_append_of_le_length (by simp; omega)]

end Blocks

section Patch

variable {α : Type} {out first : List α} {i : Nat}

def patch (out : List α) (i : Nat) (piece : List α) : List α :=
  out.take i ++ piece ++ out.drop (i + piece.length)

theorem length_patch {piece : List α} (fits : i + piece.length ≤ out.length) :
    (patch out i piece).length = out.length := by
  simp only [patch, List.length_append, List.length_take, List.length_drop]
  omega

@[simp]
theorem patch_nil (out : List α) (i : Nat) : patch out i [] = out := by simp [patch]

theorem patch_patch (fits : i + first.length ≤ out.length) (second : List α) :
    patch (patch out i first) (i + first.length) second = patch out i (first ++ second) := by
  have front : (out.take i ++ first).length = i + first.length := by
    rw [List.length_append, List.length_take, Nat.min_eq_left (by omega)]
  rw [patch, patch, patch, List.take_left' front, ← List.drop_drop, List.drop_left' front,
    List.drop_drop, List.length_append, Nat.add_assoc, List.append_assoc (out.take i)]

end Patch

theorem Memory.read_add (mem : Memory) (addr first second : Nat) :
    mem.read addr (first + second) = mem.read addr first ++ mem.read (addr + first) second := by
  simp [Memory.read, List.range_add, Nat.add_assoc]

end K1K.Lib
