import Mathlib

/-!
# Pointwise updates

A step rewrites one entry of a state record. What the old and the new entry agree on is
unchanged everywhere, and a total over all entries changes by that share.
-/

namespace K1K.Lib

variable {Index Entry Total : Type*} [DecidableEq Index]

theorem apply_update_eq {View : Type*} (view : Entry → View) {entries : Index → Entry}
    {i : Index} {entry : Entry} (eq : view entry = view (entries i)) (j : Index) :
    view (Function.update entries i entry j) = view (entries j) := by
  rw [Function.apply_update (fun _ => view), eq]
  exact congrFun (Function.update_eq_self i fun j => view (entries j)) j

variable [Fintype Index] [AddCommMonoid Total]

theorem sum_update_add (weight : Entry → Total) (entries : Index → Entry) (i : Index)
    (entry : Entry) : (∑ j, weight (Function.update entries i entry j)) + weight (entries i) =
      (∑ j, weight (entries j)) + weight entry := by
  have updated : (fun j => weight (Function.update entries i entry j)) =
      Function.update (fun j => weight (entries j)) i (weight entry) :=
    funext fun j => Function.apply_update (fun _ => weight) entries i entry j
  rw [updated, Finset.sum_update_of_mem (Finset.mem_univ i),
    Finset.sum_eq_add_sum_sdiff_singleton_of_mem (Finset.mem_univ i) fun j => weight (entries j)]
  abel

end K1K.Lib
