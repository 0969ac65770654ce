import Mathlib

/-!
# Tilings of an address range

A list of extents tiles a range when each starts where the one before ended. A tiling covers
exactly its range, and its members never overlap. When no two neighbours are marked, the
stretches that marked members cover are those members.
-/

namespace K1K.Lib

universe u

class Extent (α : Type u) where
  start : α → Nat
  length : α → Nat

open Extent (start length)

variable {α : Type u} [Extent α]

def Extent.Covers (x : α) (a : Nat) : Prop :=
  start x ≤ a ∧ a < start x + length x

def Tiles : Nat → List α → Nat → Prop
  | lo, [], hi => lo = hi
  | lo, x :: rest, hi => start x = lo ∧ Tiles (lo + length x) rest hi

@[simp] theorem tiles_nil {lo hi : Nat} : Tiles lo ([] : List α) hi ↔ lo = hi := Iff.rfl

@[simp] theorem tiles_cons {lo hi : Nat} {x : α} {rest : List α} :
    Tiles lo (x :: rest) hi ↔ start x = lo ∧ Tiles (lo + length x) rest hi := Iff.rfl

theorem tiles_append {lo hi : Nat} {front back : List α} :
    Tiles lo (front ++ back) hi ↔ ∃ mid, Tiles lo front mid ∧ Tiles mid back hi := by
  induction front generalizing lo with
  | nil => simp
  | cons x rest ih => simp [ih, and_assoc]

namespace Tiles

variable {lo hi : Nat} {xs : List α}

theorem le (tiles : Tiles lo xs hi) : lo ≤ hi := by
  induction xs generalizing lo with
  | nil => exact Nat.le_of_eq tiles
  | cons x rest ih => exact Nat.le_trans (Nat.le_add_right _ _) (ih tiles.2)

theorem bounds (tiles : Tiles lo xs hi) {x : α} (member : x ∈ xs) :
    lo ≤ start x ∧ start x + length x ≤ hi := by
  induction xs generalizing lo with
  | nil => cases member
  | cons y rest ih =>
    obtain ⟨rfl, after⟩ := tiles
    rcases List.mem_cons.mp member with rfl | member
    · exact ⟨Nat.le_refl _, after.le⟩
    · have := ih after member
      omega

theorem exists_covers (tiles : Tiles lo xs hi) {a : Nat} (above : lo ≤ a) (below : a < hi) :
    ∃ x ∈ xs, Extent.Covers x a := by
  induction xs generalizing lo with
  | nil => exact absurd (tiles ▸ below) (Nat.not_lt.mpr above)
  | cons y rest ih =>
    obtain ⟨rfl, after⟩ := tiles
    by_cases here : a < start y + length y
    · exact ⟨y, List.mem_cons_self, above, here⟩
    · obtain ⟨x, mem, covers⟩ := ih after (Nat.not_lt.mp here)
      exact ⟨x, List.mem_cons_of_mem _ mem, covers⟩

theorem covers_iff (tiles : Tiles lo xs hi) {a : Nat} :
    (∃ x ∈ xs, Extent.Covers x a) ↔ lo ≤ a ∧ a < hi := by
  refine ⟨?_, fun range => tiles.exists_covers range.1 range.2⟩
  rintro ⟨x, mem, starts, ends⟩
  have := tiles.bounds mem
  omega

theorem pairwise (tiles : Tiles lo xs hi) :
    xs.Pairwise fun x y => start x + length x ≤ start y := by
  induction xs generalizing lo with
  | nil => exact .nil
  | cons x rest ih =>
    obtain ⟨rfl, after⟩ := tiles
    exact .cons (fun y mem => (after.bounds mem).1) (ih after)

theorem isChain (tiles : Tiles lo xs hi) :
    xs.IsChain fun x y => start x + length x = start y := by
  induction xs generalizing lo with
  | nil => exact .nil
  | cons x rest ih =>
    obtain ⟨rfl, after⟩ := tiles
    refine List.isChain_cons.mpr ⟨fun y first => ?_, ih after⟩
    cases rest with
    | nil => cases first
    | cons z more =>
      cases first
      exact after.1.symm

theorem eq_of_covers (tiles : Tiles lo xs hi) {x y : α} {a : Nat} (memberX : x ∈ xs)
    (memberY : y ∈ xs) (coversX : Extent.Covers x a) (coversY : Extent.Covers y a) : x = y := by
  induction xs generalizing lo with
  | nil => cases memberX
  | cons z rest ih =>
    obtain ⟨rfl, after⟩ := tiles
    rcases List.mem_cons.mp memberX with rfl | restX <;>
      rcases List.mem_cons.mp memberY with rfl | restY
    · rfl
    · exact absurd (after.bounds restY).1 (by have := coversX.2; have := coversY.1; omega)
    · exact absurd (after.bounds restX).1 (by have := coversX.1; have := coversY.2; omega)
    · exact ih after restX restY

theorem sum_length (tiles : Tiles lo xs hi) : lo + (xs.map length).sum = hi := by
  induction xs generalizing lo with
  | nil => exact tiles
  | cons x rest ih =>
    rw [List.map_cons, List.sum_cons, ← Nat.add_assoc]
    exact ih tiles.2

theorem length_le (tiles : Tiles lo xs hi) {least : Nat}
    (each : ∀ x ∈ xs, least ≤ length x) : lo + least * xs.length ≤ hi := by
  induction xs generalizing lo with
  | nil => exact Nat.le_of_eq tiles
  | cons x rest ih =>
    have here := each x List.mem_cons_self
    have others := ih tiles.2 fun y mem => each y (List.mem_cons_of_mem _ mem)
    rw [List.length_cons, Nat.mul_succ]
    omega

end Tiles

/-! ## Stretches of addresses -/

/-- Neither end of the `len` addresses from `lo` on, which all satisfy `p`, can be
moved out. -/
structure Stretch (p : Nat → Prop) (lo len : Nat) : Prop where
  nonempty : 0 < len
  inside : ∀ a, lo ≤ a → a < lo + len → p a
  below : ∀ a, a + 1 = lo → ¬p a
  above : ¬p (lo + len)

namespace Stretch

variable {p q : Nat → Prop} {lo len lo' len' : Nat}

theorem congr (eq : ∀ a, p a ↔ q a) : Stretch p lo len ↔ Stretch q lo len := by
  rw [funext fun a => propext (eq a)]

theorem start_le (first : Stretch p lo len) (second : Stretch p lo' len') {a : Nat}
    (above : lo ≤ a) (below' : a < lo' + len') : lo ≤ lo' := by
  by_contra later
  refine first.below (lo - 1) (by omega) (second.inside _ (by omega) (by omega))

theorem stop_le (first : Stretch p lo len) (second : Stretch p lo' len') {a : Nat}
    (above' : lo' ≤ a) (below : a < lo + len) : lo' + len' ≤ lo + len := by
  by_contra old
  exact first.above (second.inside _ (by omega) (by omega))

theorem unique (first : Stretch p lo len) (second : Stretch p lo' len') {a : Nat}
    (above : lo ≤ a) (below : a < lo + len) (above' : lo' ≤ a) (below' : a < lo' + len') :
    lo = lo' ∧ len = len' := by
  have starts := first.start_le second above below'
  have starts' := second.start_le first above' below
  have stops := first.stop_le second above' below
  have stops' := second.stop_le first above below'
  omega

end Stretch

namespace Tiles

variable {lo hi : Nat} {xs : List α} {marked : α → Prop}

theorem stretch_of_mem (tiles : Tiles lo xs hi) (nonempty : ∀ x ∈ xs, 0 < length x)
    (ne : xs.IsChain fun x y => ¬(marked x ∧ marked y)) {x : α} (member : x ∈ xs)
    (isMarked : marked x) :
    Stretch (fun a => ∃ y ∈ xs, marked y ∧ Extent.Covers y a) (start x)
      (length x) := by
  obtain ⟨front, back, rfl⟩ := List.append_of_mem member
  have long := nonempty x member
  obtain ⟨mid, first, rfl, second⟩ := tiles_append.mp tiles
  refine ⟨long, fun a above below => ⟨x, member, isMarked, above, below⟩, ?_, ?_⟩
  · rintro a was ⟨y, memberY, markedY, covers⟩
    -- the last member of the front ends where `x` starts
    rcases List.eq_nil_or_concat' front with rfl | ⟨init, last, rfl⟩
    · have := (tiles.bounds memberY).1
      have start : start x = lo := (tiles_nil.mp first).symm
      have := covers.1
      omega
    · obtain ⟨_, -, startLast, stop⟩ := tiles_append.mp first
      have stop : start last + length last = start x := by
        rw [startLast]
        exact stop
      have memberLast : last ∈ init ++ [last] ++ x :: back := by simp
      have longLast := nonempty last memberLast
      have eq : y = last := tiles.eq_of_covers (a := a) memberY memberLast covers
        ⟨by omega, by omega⟩
      subst eq
      rw [List.append_assoc, List.singleton_append] at ne
      exact (List.isChain_cons_cons.mp (List.isChain_append.mp ne).2.1).1 ⟨markedY, isMarked⟩
  · rintro ⟨y, memberY, markedY, covers⟩
    cases back with
    | nil =>
      have stop : start x + length x = hi := second
      have := (tiles.bounds memberY).2
      have := covers.2
      omega
    | cons following rest =>
      obtain ⟨begins, -⟩ := second
      have memberF : following ∈ front ++ x :: following :: rest := by simp
      have longF := nonempty following memberF
      have eq : y = following := tiles.eq_of_covers
        (a := start x + length x) memberY memberF covers ⟨by omega, by omega⟩
      subst eq
      exact (List.isChain_cons_cons.mp (List.isChain_append.mp ne).2.1).1 ⟨isMarked, markedY⟩

theorem stretch_iff (tiles : Tiles lo xs hi) (nonempty : ∀ x ∈ xs, 0 < length x)
    (ne : xs.IsChain fun x y => ¬(marked x ∧ marked y)) {start len : Nat} :
    Stretch (fun a => ∃ y ∈ xs, marked y ∧ Extent.Covers y a) start len ↔
      ∃ x ∈ xs, marked x ∧ Extent.start x = start ∧ length x = len := by
  constructor
  · intro stretch
    obtain ⟨x, mem, isMarked, covers⟩ :=
      stretch.inside start (Nat.le_refl _) (Nat.lt_add_of_pos_right stretch.nonempty)
    have here := tiles.stretch_of_mem nonempty ne mem isMarked
    exact ⟨x, mem, isMarked, here.unique stretch covers.1 covers.2 (Nat.le_refl _)
      (Nat.lt_add_of_pos_right stretch.nonempty)⟩
  · rintro ⟨x, mem, isMarked, rfl, rfl⟩
    exact tiles.stretch_of_mem nonempty ne mem isMarked

end Tiles

end K1K.Lib
