import Mathlib

/-!
# Sorting and searching

`qsort` and `bsearch` of `libc/src/stdlib.c`. The array has `n` elements, each copied as a
whole; an access to any other element is `none`, as is `abort`.
-/

namespace K1K.Libc

open Function (update update_of_ne update_self)

variable {α : Type} (cmp : α → α → Int) {n : Nat} {a b : Nat → α}

def load (n : Nat) (a : Nat → α) (i : Nat) : Option α := if i < n then some (a i) else none

def store (n : Nat) (a : Nat → α) (i : Nat) (x : α) : Option (Nat → α) :=
  if i < n then some (update a i x) else none

/-- The innermost loop of `qsort` from `j` on, and the copy of `tmp` after it. -/
def settle (n gap : Nat) (tmp : α) : Nat → Nat → (Nat → α) → Option (Nat → α)
  | 0, _, _ => none
  | fuel + 1, j, a =>
    if gap ≤ j then
      (load n a (j - gap)).bind fun x =>
        if cmp x tmp > 0 then (store n a j x).bind (settle n gap tmp fuel (j - gap))
        else store n a j tmp
    else store n a j tmp

def pass (n gap : Nat) (a : Nat → α) : Option (Nat → α) :=
  (List.range' gap (n - gap)).foldlM
    (fun a i => (load n a i).bind fun tmp => settle cmp n gap tmp (i + 1) i a) a

def gaps : Nat → Nat → List Nat
  | 0, _ => []
  | fuel + 1, gap => if gap > 0 then gap :: gaps fuel (gap / 2) else []

def qsort (n size : Nat) (a : Nat → α) : Option (Nat → α) :=
  if size > 64 then none
  else if n < 2 then some a
  else (gaps n (n / 2)).foldlM (fun a gap => pass cmp n gap a) a

def bsearchLoop (key : α) (n : Nat) (a : Nat → α) : Nat → Nat → Nat → Option (Option Nat)
  | 0, _, _ => none
  | fuel + 1, lo, hi =>
    if lo < hi then
      let mid := lo + (hi - lo) / 2
      (load n a mid).bind fun x =>
        let c := cmp key x
        if c = 0 then some (some mid)
        else if c < 0 then bsearchLoop key n a fuel lo mid
        else bsearchLoop key n a fuel (mid + 1) hi
    else some none

def bsearch (key : α) (n : Nat) (a : Nat → α) : Option (Option Nat) :=
  bsearchLoop cmp key n a (n + 1) 0 n

structure TotalPreorder : Prop where
  sign : ∀ x y, cmp x y ≤ 0 ↔ 0 ≤ cmp y x
  trans : ∀ x y z, cmp x y ≤ 0 → cmp y z ≤ 0 → cmp x z ≤ 0

def SortedTo (n : Nat) (a : Nat → α) : Prop := ∀ i j, i ≤ j → j < n → cmp (a i) (a j) ≤ 0

/-- The elements of the array in some order, and everything else as it was. -/
def Rearranged (n : Nat) (a b : Nat → α) : Prop :=
  ∃ σ : Equiv.Perm Nat, (∀ i, n ≤ i → σ i = i) ∧ b = a ∘ σ

variable {cmp}

theorem Rearranged.trans {c : Nat → α} (first : Rearranged n a b) (second : Rearranged n b c) :
    Rearranged n a c := by
  obtain ⟨σ, fixed, rfl⟩ := first
  obtain ⟨τ, fixed', rfl⟩ := second
  exact ⟨τ.trans σ, fun i out => by simp [fixed' i out, fixed i out], rfl⟩

theorem rearranged_hole {i j : Nat} (apart : i ≠ j) (hi : i < n) (hj : j < n) (tmp : α) :
    Rearranged n (update a j tmp) (update (update a j (a i)) i tmp) := by
  refine ⟨Equiv.swap i j, fun k out => Equiv.swap_apply_of_ne_of_ne (by omega) (by omega), ?_⟩
  funext k
  by_cases atI : k = i
  · subst atI
    simp
  by_cases atJ : k = j
  · subst atJ
    simp [atI, apart]
  · simp [atI, atJ, Equiv.swap_apply_of_ne_of_ne atI atJ]

theorem settle_rearranges {gap : Nat} (pos : 0 < gap) (tmp : α) (fuel : Nat) :
    ∀ {j : Nat} {a : Nat → α}, j < fuel → j < n →
      ∃ b, settle cmp n gap tmp fuel j a = some b ∧ Rearranged n (update a j tmp) b := by
  induction fuel with
  | zero =>
    intro j a enough
    omega
  | succ fuel ih =>
    intro j a enough lt
    have stop : ∃ b, store n a j tmp = some b ∧ Rearranged n (update a j tmp) b :=
      ⟨_, if_pos lt, 1, fun _ _ => rfl, rfl⟩
    rw [settle]
    split
    next far =>
      rw [load, if_pos (by omega), Option.bind_some]
      split
      · obtain ⟨b, ran, moved⟩ := ih (j := j - gap) (a := update a j (a (j - gap)))
          (by omega) (by omega)
        refine ⟨b, ?_, (rearranged_hole (by omega) (by omega) lt tmp).trans moved⟩
        rw [store, if_pos lt, Option.bind_some, ran]
      · exact stop
    · exact stop

section Order

variable (order : TotalPreorder cmp)

include order

theorem le_refl_of (x : α) : cmp x x ≤ 0 := by
  have sign := order.sign x x
  omega

/-- With gap 1, the elements up to `i` other than the hole are in order, and those after
the hole do not come before `tmp`. -/
theorem settle_sorts (tmp : α) (fuel : Nat) : ∀ {i j : Nat} {a b : Nat → α}, j ≤ i →
    (∀ x y, x < y → y ≤ i → x ≠ j → y ≠ j → cmp (a x) (a y) ≤ 0) →
    (∀ y, j < y → y ≤ i → cmp tmp (a y) ≤ 0) →
    settle cmp n 1 tmp fuel j a = some b → SortedTo cmp (i + 1) b := by
  induction fuel with
  | zero =>
    intro i j a b _ _ _ ran
    cases ran
  | succ fuel ih =>
    intro i j a b inside ordered above ran
    have stop : (∀ x, x < j → cmp (a x) tmp ≤ 0) → store n a j tmp = some b →
        SortedTo cmp (i + 1) b := by
      intro below stored x y le small
      obtain ⟨-, ⟨⟩⟩ := Option.ite_none_right_eq_some.mp stored
      by_cases atX : x = j
      · subst atX
        by_cases atY : y = x
        · simp [atY, le_refl_of order]
        · simpa [atY] using above y (by omega) (by omega)
      · by_cases atY : y = j
        · simpa [atX, atY] using below x (by omega)
        · rcases Nat.eq_or_lt_of_le le with rfl | lt
          · exact le_refl_of order _
          · simpa [atX, atY] using ordered x y lt (by omega) atX atY
    rw [settle] at ran
    split at ran
    next far =>
      obtain ⟨x, loaded, ran⟩ := Option.bind_eq_some_iff.mp ran
      obtain ⟨-, ⟨⟩⟩ := Option.ite_none_right_eq_some.mp loaded
      split at ran
      next greater =>
        obtain ⟨a', stored, ran⟩ := Option.bind_eq_some_iff.mp ran
        obtain ⟨-, ⟨⟩⟩ := Option.ite_none_right_eq_some.mp stored
        refine ih (i := i) (by omega) (fun x y lt small atX atY => ?_) (fun y later small => ?_) ran
        · by_cases xj : x = j
          · simpa [xj, show y ≠ j by omega] using
              ordered (j - 1) y (by omega) small (by omega) (by omega)
          · by_cases yj : y = j
            · simpa [xj, yj] using ordered x (j - 1) (by omega) (by omega) xj (by omega)
            · simpa [xj, yj] using ordered x y lt small xj yj
        · by_cases yj : y = j
          · simpa [yj] using (order.sign _ _).mpr (Int.le_of_lt greater)
          · simpa [yj] using above y (by omega) small
      next least =>
        refine stop (fun x lt => ?_) ran
        by_cases last : x = j - 1
        · exact last ▸ Int.not_lt.mp least
        · exact order.trans _ _ _ (ordered x (j - 1) (by omega) (by omega) (by omega) (by omega))
            (Int.not_lt.mp least)
    next near => exact stop (fun x lt => by omega) ran

theorem foldlM_range {gap : Nat} (pos : 0 < gap) (count : Nat) :
    ∀ {i : Nat} {a : Nat → α}, i + count ≤ n → ∃ b, (List.range' i count).foldlM
      (fun a i => (load n a i).bind fun tmp => settle cmp n gap tmp (i + 1) i a) a = some b ∧
      Rearranged n a b ∧ (gap = 1 → SortedTo cmp i a → SortedTo cmp (i + count) b) := by
  induction count with
  | zero => exact fun _ => ⟨_, rfl, ⟨1, fun _ _ => rfl, rfl⟩, fun _ sorted => sorted⟩
  | succ count ih =>
    intro i a inside
    obtain ⟨c, ran, moved⟩ : ∃ c, settle cmp n gap (a i) (i + 1) i a = some c ∧ _ :=
      settle_rearranges pos (a i) (i + 1) (Nat.lt_succ_self i) (by omega : i < n)
    rw [Function.update_eq_self] at moved
    obtain ⟨b, rest, moved', sorts⟩ := ih (i := i + 1) (a := c) (by omega)
    refine ⟨b, ?_, moved.trans moved', fun one sorted => ?_⟩
    · rw [List.range'_succ, List.foldlM_cons, load, if_pos (by omega), Option.bind_some, ran]
      exact rest
    subst one
    rw [← Nat.add_assoc, Nat.add_right_comm]
    refine sorts rfl (settle_sorts order (a i) (i + 1) (Nat.le_refl i) ?_ (by omega) ran)
    exact fun x y lt le atX atY => sorted x y (by omega) (by omega)

theorem gaps_sort (fuel : Nat) : ∀ {gap : Nat} {a : Nat → α}, 0 < gap → gap ≤ fuel → gap < n →
    ∃ b, (gaps fuel gap).foldlM (fun a gap => pass cmp n gap a) a = some b ∧
      Rearranged n a b ∧ SortedTo cmp n b := by
  induction fuel with
  | zero => omega
  | succ fuel ih =>
    intro gap a pos enough small
    obtain ⟨c, ran, moved, sorts⟩ := foldlM_range order (n := n) pos (n - gap) (i := gap)
      (a := a) (by omega)
    rw [gaps, if_pos pos, List.foldlM_cons, pass, ran, Option.bind_eq_bind, Option.bind_some]
    by_cases one : gap = 1
    · subst one
      refine ⟨c, by cases fuel <;> rfl, moved, ?_⟩
      have first : SortedTo cmp 1 a := fun i j le lt => by
        obtain ⟨rfl, rfl⟩ : i = 0 ∧ j = 0 := by omega
        exact le_refl_of order _
      exact Nat.add_sub_cancel' (Nat.le_of_lt small) ▸ sorts rfl first
    · obtain ⟨b, rest, moved', sorted⟩ := @ih (gap / 2) c (by omega) (by omega) (by omega)
      exact ⟨b, rest, moved.trans moved', sorted⟩

theorem bsearchLoop_finds (key : α) (sorted : SortedTo cmp n a) (fuel : Nat) : ∀ {lo hi : Nat},
    hi - lo < fuel → hi ≤ n → (∀ i, i < lo → 0 < cmp key (a i)) →
    (∀ i, hi ≤ i → i < n → cmp key (a i) < 0) →
    ∃ found, bsearchLoop cmp key n a fuel lo hi = some found ∧
      (∀ m, found = some m → m < n ∧ cmp key (a m) = 0) ∧
      (found = none → ∀ i, i < n → cmp key (a i) ≠ 0) := by
  induction fuel with
  | zero => omega
  | succ fuel ih =>
    intro lo hi enough inside below above
    rw [bsearchLoop]
    split
    next active =>
      simp only [load, show lo + (hi - lo) / 2 < n by omega, if_true, Option.bind_some]
      generalize middle : lo + (hi - lo) / 2 = mid
      by_cases hit : cmp key (a mid) = 0
      · refine ⟨some mid, if_pos hit, fun m eq => ?_, nofun⟩
        cases eq
        exact ⟨by omega, hit⟩
      simp only [if_neg hit]
      split
      next less =>
        refine ih (by omega) (by omega) below fun i le lt => ?_
        by_contra ge
        have back := order.trans _ _ _ (sorted mid i le lt)
          ((order.sign _ _).mpr (Int.not_lt.mp ge))
        exact absurd ((order.sign _ _).mp back) (Int.not_le.mpr less)
      next greater =>
        refine ih (by omega) inside (fun i lt => ?_) above
        by_contra le
        have through := order.trans _ _ _ (Int.not_lt.mp le) (sorted i mid (by omega) (by omega))
        omega
    next done =>
      refine ⟨none, rfl, nofun, fun _ i lt => ?_⟩
      by_cases low : i < lo
      · exact (below i low).ne'
      · exact (above i (by omega) lt).ne

end Order

theorem sort_and_search (order : TotalPreorder cmp) {size : Nat} (small : size ≤ 64)
    (n : Nat) (a : Nat → α) :
    (∃ b, qsort cmp n size a = some b ∧ Rearranged n a b ∧ SortedTo cmp n b) ∧
    ∀ key, SortedTo cmp n a → ∃ found, bsearch cmp key n a = some found ∧
      (∀ m, found = some m → m < n ∧ cmp key (a m) = 0) ∧
      (found = none → ∀ i, i < n → cmp key (a i) ≠ 0) := by
  refine ⟨?_, fun key sorted => bsearchLoop_finds order key sorted _ (Nat.lt_succ_self _)
    (Nat.le_refl n) (by omega) (by omega)⟩
  rw [qsort, if_neg (Nat.not_lt.mpr small)]
  split
  next few =>
    refine ⟨a, rfl, ⟨1, fun _ _ => rfl, rfl⟩, fun i j le lt => ?_⟩
    obtain ⟨rfl, rfl⟩ : i = 0 ∧ j = 0 := by omega
    exact le_refl_of order _
  next many => exact gaps_sort order n (by omega) (by omega) (by omega)

theorem sort_and_search_five : ∃ b, qsort (fun x y : Int => x - y) 5 8
    (fun i => [3, 1, 2, 1, 0].getD i 7) = some b ∧ SortedTo (fun x y : Int => x - y) 5 b ∧
    (List.range 6).map b = [0, 1, 1, 2, 3, 7] := by
  have order : TotalPreorder fun x y : Int => x - y := ⟨by omega, by omega⟩
  obtain ⟨b, ran, -, sorted⟩ := (sort_and_search order (by decide : 8 ≤ 64) 5 fun i =>
    [3, 1, 2, 1, 0].getD i 7).1
  refine ⟨b, ran, sorted, ?_⟩
  have eval : (qsort (fun x y : Int => x - y) 5 8 fun i => [3, 1, 2, 1, 0].getD i 7).any fun b =>
      decide ((List.range 6).map b = [0, 1, 1, 2, 3, 7]) := by decide +kernel
  rw [ran] at eval
  exact of_decide_eq_true eval

end K1K.Libc
