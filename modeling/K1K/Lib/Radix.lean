import Mathlib

/-!
# Radix trees built from a supply of nodes

A tree of fixed height whose inner nodes carry a tag, such as the block of storage they live in.
Insertion takes the tags of missing nodes from a supply and may run out half-way; the nodes made
so far stay. Each operation is described by what it does to `lookup` and to `contents`, the tags
in the tree.

Statements about `contents` are equations of multisets without subtraction.
-/

namespace K1K.Lib

open Function (update update_of_ne update_self)

inductive Radix (Leaf Tag : Type) (width : Nat) : Nat → Type where
  | empty {height : Nat} : Radix Leaf Tag width height
  | leaf (value : Leaf) : Radix Leaf Tag width 0
  | node {height : Nat} (tag : Tag) (children : Fin width → Radix Leaf Tag width height) :
      Radix Leaf Tag width (height + 1)

namespace Radix

variable {Leaf Tag Supply : Type} {width height : Nat}

inductive InsertError where
  | occupied
  | exhausted
  deriving DecidableEq, Repr

def lookup : {height : Nat} → Radix Leaf Tag width height → List (Fin width) → Option Leaf
  | _, .empty, _ => none
  | _, .leaf value, _ => some value
  | _, .node _ _, [] => none
  | _, .node _ children, i :: rest => (children i).lookup rest

/-- Put a value at the end of a path, making the nodes that are missing on it. -/
def insert (take : Supply → Option (Tag × Supply)) (value : Leaf) :
    {height : Nat} → Radix Leaf Tag width height → List (Fin width) → Supply →
      Except InsertError Unit × Radix Leaf Tag width height × Supply
  | 0, .empty, _, supply => (.ok (), .leaf value, supply)
  | 0, .leaf old, _, supply => (.error .occupied, .leaf old, supply)
  | _ + 1, tree, [], supply => (.error .occupied, tree, supply)
  | _ + 1, .node tag children, i :: rest, supply =>
    let (result, child, supply) := insert take value (children i) rest supply
    (result, .node tag (update children i child), supply)
  | _ + 1, .empty, i :: rest, supply =>
    match take supply with
    | none => (.error .exhausted, .empty, supply)
    | some (tag, supply) =>
      let (result, child, supply) := insert take value .empty rest supply
      (result, .node tag (update (fun _ => .empty) i child), supply)

def remove : {height : Nat} → Radix Leaf Tag width height → List (Fin width) →
    Option Leaf × Radix Leaf Tag width height
  | _, .empty, _ => (none, .empty)
  | _, .leaf value, _ => (some value, .empty)
  | _, .node tag children, [] => (none, .node tag children)
  | _, .node tag children, i :: rest =>
    let (removed, child) := (children i).remove rest
    (removed, .node tag (update children i child))

def missing : {height : Nat} → Radix Leaf Tag width height → List (Fin width) → Nat
  | height, .empty, _ => height
  | _, .leaf _, _ => 0
  | _, .node _ _, [] => 0
  | _, .node _ children, i :: rest => (children i).missing rest

def contents (tagOf : Leaf → Tag) : {height : Nat} → Radix Leaf Tag width height → List Tag
  | _, .empty => []
  | _, .leaf value => [tagOf value]
  | _, .node tag children =>
    (List.finRange width).flatMap (fun i => (children i).contents tagOf) ++ [tag]

def tags : {height : Nat} → Radix Leaf Tag width height → List Tag
  | _, .empty => []
  | _, .leaf _ => []
  | _, .node tag children => tag :: (List.finRange width).flatMap fun i => (children i).tags

theorem tags_subset (tagOf : Leaf → Tag) : {height : Nat} → (tree : Radix Leaf Tag width height) →
    tree.tags ⊆ tree.contents tagOf
  | _, .empty | _, .leaf _ => List.nil_subset _
  | _, .node tag children => by
    simp only [tags, contents, List.cons_subset, List.mem_append, List.mem_singleton, or_true,
      true_and]
    intro frame mem
    obtain ⟨i, here, mem⟩ := List.mem_flatMap.mp mem
    exact List.mem_append_left _
      (List.mem_flatMap.mpr ⟨i, here, tags_subset tagOf (children i) mem⟩)

theorem missing_le (path : List (Fin width)) :
    ∀ {height : Nat} (tree : Radix Leaf Tag width height), tree.missing path ≤ height := by
  induction path with
  | nil => intro height tree; cases tree <;> simp [missing]
  | cons i rest ih =>
    intro height tree
    cases tree with
    | empty | leaf => exact le_rfl
    | node tag children => exact (ih (children i)).trans (Nat.le_succ _)

/-! ## Replacing one child -/

theorem flatMap_update {Index Item : Type} [DecidableEq Index] (f : Index → List Item)
    (i : Index) (items : List Item) (indices : List Index) (nodup : indices.Nodup)
    (mem : i ∈ indices) : (↑(indices.flatMap (update f i items)) + ↑(f i) : Multiset Item) =
      ↑(indices.flatMap f) + ↑items := by
  induction indices with
  | nil => exact absurd mem List.not_mem_nil
  | cons j rest ih =>
    have parts := List.nodup_cons.mp nodup
    simp only [List.flatMap_cons, ← Multiset.coe_add]
    by_cases here : j = i
    · subst here
      have untouched : rest.flatMap (update f j items) = rest.flatMap f := by
        refine List.flatMap_congr fun k inRest => ?_
        have ne : k ≠ j := fun eq => parts.1 (eq ▸ inRest)
        rw [update_of_ne ne]
      rw [update_self, untouched]
      abel
    · have later : i ∈ rest := by
        rcases List.mem_cons.mp mem with eq | inRest
        · exact absurd eq.symm here
        · exact inRest
      rw [update_of_ne here, add_assoc, ih parts.2 later, add_assoc]

theorem contents_update (tagOf : Leaf → Tag) (tag : Tag)
    (children : Fin width → Radix Leaf Tag width height) (i : Fin width)
    (child : Radix Leaf Tag width height) :
    (↑((node tag (update children i child)).contents tagOf) +
        ↑((children i).contents tagOf) : Multiset Tag) =
      ↑((node tag children).contents tagOf) + ↑(child.contents tagOf) := by
  have moved : (fun j => (update children i child j).contents tagOf) =
      update (fun j => (children j).contents tagOf) i (child.contents tagOf) :=
    funext fun j => Function.apply_update (fun _ => contents tagOf) children i child j
  have exchanged := flatMap_update (fun j => (children j).contents tagOf) i
    (child.contents tagOf) (List.finRange width) (List.nodup_finRange width) (List.mem_finRange i)
  simp only [contents, moved, ← Multiset.coe_add]
  rw [add_right_comm, exchanged, add_right_comm]

theorem contents_of_empty (tagOf : Leaf → Tag) (tag : Tag) :
    (node tag fun _ : Fin width => (empty : Radix Leaf Tag width height)).contents tagOf =
      [tag] := by
  simp [contents]

/-! ## Insertion -/

section Insert

variable (take : Supply → Option (Tag × Supply)) (value : Leaf)

/-- What an insertion does to `lookup`: at a free path it makes the value found
there and leaves every other path alone; where it fails no path changes. -/
def Inserts (tree : Radix Leaf Tag width height) (path : List (Fin width))
    (outcome : Except InsertError Unit × Radix Leaf Tag width height × Supply) : Prop :=
  (outcome.1 = .ok () → tree.lookup path = none ∧ ∀ query, query.length = height →
    outcome.2.1.lookup query = if query = path then some value else tree.lookup query) ∧
  (outcome.1 ≠ .ok () → ∀ query, query.length = height →
    outcome.2.1.lookup query = tree.lookup query)

theorem inserts_node (tag : Tag) {children : Fin width → Radix Leaf Tag width height}
    {i : Fin width} {path : List (Fin width)} {result : Except InsertError Unit}
    {child : Radix Leaf Tag width height} {supply : Supply}
    (below : Inserts value (children i) path (result, child, supply)) :
    Inserts value (node tag children) (i :: path)
      (result, node tag (update children i child), supply) := by
  refine ⟨fun inserted => ⟨(below.1 inserted).1, ?_⟩, fun failed => ?_⟩
  · rintro (_ | ⟨j, query⟩) long
    · simp at long
    have short : query.length = height := by simpa using long
    by_cases eq : j = i
    · subst eq
      simpa [lookup] using (below.1 inserted).2 query short
    · simp [lookup, eq]
  · rintro (_ | ⟨j, query⟩) long
    · simp at long
    have short : query.length = height := by simpa using long
    by_cases eq : j = i
    · subst eq
      simpa [lookup] using below.2 failed query short
    · simp [lookup, eq]

theorem lookup_childless (tag : Tag) {path : List (Fin width)} :
    (node tag fun _ => (empty : Radix Leaf Tag width height)).lookup path = none := by
  cases path <;> rfl

theorem insert_inserts (path : List (Fin width)) (tree : Radix Leaf Tag width height)
    (supply : Supply) (fits : path.length = height) :
    Inserts value tree path (tree.insert take value path supply) := by
  fun_induction insert take value tree path supply with
  | case1 path supply =>
    refine ⟨fun _ => ⟨rfl, fun query short => ?_⟩, fun failed => absurd rfl failed⟩
    simp [lookup, List.eq_nil_of_length_eq_zero short, List.eq_nil_of_length_eq_zero fits]
  | case2 | case3 | case5 => exact ⟨nofun, fun _ _ _ => rfl⟩
  | case4 _ tag children i rest supply _ _ _ made ih =>
    exact inserts_node value tag (made ▸ ih (Nat.succ.inj fits))
  | case6 _ i rest supply tag _ drawn _ _ _ made ih =>
    have opened := @inserts_node _ _ _ _ _ value tag (fun _ => empty) i _ _ _ _
      (made ▸ ih (Nat.succ.inj fits))
    simpa only [Inserts, lookup_childless, lookup] using opened

/-- What an insertion does to `contents`, when `given` lists what the supply has
handed out. -/
def Accounts (tagOf : Leaf → Tag) (given : Supply → List Tag)
    (tree : Radix Leaf Tag width height) (supply : Supply)
    (outcome : Except InsertError Unit × Radix Leaf Tag width height × Supply) : Prop :=
  (↑(outcome.2.1.contents tagOf) + ↑(given supply) : Multiset Tag) =
    ↑(tree.contents tagOf) + ↑(given outcome.2.2) +
      if outcome.1 = .ok () then {tagOf value} else 0

theorem accounts_node (tagOf : Leaf → Tag) (given : Supply → List Tag) (tag : Tag)
    {children : Fin width → Radix Leaf Tag width height} {i : Fin width}
    {result : Except InsertError Unit} {child : Radix Leaf Tag width height} {supply rest : Supply}
    (below : Accounts value tagOf given (children i) supply (result, child, rest)) :
    Accounts value tagOf given (node tag children) supply
      (result, node tag (update children i child), rest) := by
  have exchanged := contents_update tagOf tag children i child
  unfold Accounts at *
  refine add_right_cancel (b := (↑((children i).contents tagOf) : Multiset Tag)) ?_
  calc _ = (↑((node tag children).contents tagOf) : Multiset Tag) +
          (↑(child.contents tagOf) + ↑(given supply)) := by
        rw [add_right_comm, exchanged, add_assoc]
    _ = _ := by
      rw [below]
      abel

theorem insert_accounts (tagOf : Leaf → Tag) (given : Supply → List Tag)
    (logged : ∀ supply tag rest, take supply = some (tag, rest) →
      given rest = given supply ++ [tag]) (path : List (Fin width))
    (tree : Radix Leaf Tag width height) (supply : Supply) :
    Accounts value tagOf given tree supply (tree.insert take value path supply) := by
  fun_induction insert take value tree path supply with
  | case1 => simp [Accounts, contents, add_comm]
  | case2 | case3 | case5 => simp [Accounts]
  | case4 _ tag children i rest supply _ _ _ made ih =>
    exact accounts_node value tagOf given tag (made ▸ ih)
  | case6 _ i rest supply tag left drawn _ _ _ made ih =>
    have opened := @accounts_node _ _ _ _ _ value tagOf given tag (fun _ => empty) i _ _ _ _
      (made ▸ ih)
    unfold Accounts at *
    rw [logged supply tag left drawn, contents_of_empty, ← Multiset.coe_add] at opened
    refine add_right_cancel (b := (↑[tag] : Multiset Tag)) ?_
    rw [add_assoc, opened]
    simp only [contents, Multiset.coe_nil]
    abel

section Supply

variable (holds : Supply → Prop)
  (kept : ∀ supply tag rest, holds supply → take supply = some (tag, rest) → holds rest)
  (path : List (Fin width)) (tree : Radix Leaf Tag width height) (supply : Supply)

include kept

/-- What holds of the supply and is kept by drawing from it is kept by an
insertion. -/
theorem insert_supply (was : holds supply) :
    holds (tree.insert take value path supply).2.2 := by
  fun_induction insert take value tree path supply with
  | case1 | case2 | case3 | case5 => exact was
  | case4 _ _ _ _ _ _ _ _ _ made ih =>
    rw [made] at ih
    exact ih was
  | case6 _ _ _ supply tag left drawn _ _ _ made ih =>
    rw [made] at ih
    exact ih (kept supply tag left was drawn)

variable (left : Supply → Nat)
  (used : ∀ supply tag rest, holds supply → take supply = some (tag, rest) →
    left supply = left rest + 1)

include used

/-- Insertion succeeds exactly at a free path for which the supply, holding
`left` tags, can make every missing node. -/
theorem insert_ok_iff (empty_iff : ∀ supply, holds supply → (take supply = none ↔ left supply = 0))
    (was : holds supply) (fits : path.length = height) :
    (tree.insert take value path supply).1 = .ok () ↔
      tree.lookup path = none ∧ tree.missing path ≤ left supply := by
  fun_induction insert take value tree path supply with
  | case1 => simp [lookup, missing]
  | case2 => simp [lookup]
  | case3 => simp at fits
  | case4 _ _ _ _ _ _ _ _ _ made ih =>
    rw [made] at ih
    exact ih was (Nat.succ.inj fits)
  | case5 _ _ _ supply drawn => simp [missing, (empty_iff supply was).mp drawn]
  | case6 _ _ rest supply tag remaining drawn _ _ _ made ih =>
    have below := ih (kept supply tag remaining was drawn) (Nat.succ.inj fits)
    rw [made] at below
    simp only [lookup, missing, true_and, used supply tag remaining was drawn] at below ⊢
    rw [below]
    exact Nat.succ_le_succ_iff.symm

theorem insert_draws (was : holds supply) :
    left supply ≤ left (tree.insert take value path supply).2.2 + tree.missing path := by
  fun_induction insert take value tree path supply with
  | case1 | case2 | case3 | case5 => exact Nat.le_add_right _ _
  | case4 _ _ _ _ _ _ _ _ _ made ih =>
    rw [made] at ih
    exact ih was
  | case6 _ _ _ supply tag remaining drawn _ _ _ made ih =>
    have below := ih (kept supply tag remaining was drawn)
    rw [made] at below
    rw [used supply tag remaining was drawn]
    exact Nat.succ_le_succ below

end Supply

end Insert

/-! ## Removal -/

theorem remove_eq (path : List (Fin width)) (tree : Radix Leaf Tag width height)
    (fits : path.length = height) :
    (tree.remove path).1 = tree.lookup path ∧ ∀ query, query.length = height →
      (tree.remove path).2.lookup query = if query = path then none else tree.lookup query := by
  fun_induction remove tree path with
  | case1 => simp [lookup]
  | case2 value path =>
    refine ⟨rfl, fun query short => ?_⟩
    simp [lookup, List.eq_nil_of_length_eq_zero short, List.eq_nil_of_length_eq_zero fits]
  | case3 => simp at fits
  | case4 height tag children i rest removed child made ih =>
    have below := ih (Nat.succ.inj fits)
    rw [made] at below
    refine ⟨below.1, ?_⟩
    rintro (_ | ⟨j, query⟩) long
    · simp at long
    have short : query.length = height := by simpa using long
    by_cases eq : j = i
    · subst eq
      simpa [lookup] using below.2 query short
    · simp [lookup, eq]

theorem contents_remove (tagOf : Leaf → Tag) (path : List (Fin width))
    (tree : Radix Leaf Tag width height) : (↑(tree.contents tagOf) : Multiset Tag) =
      ↑((tree.remove path).2.contents tagOf) + ↑((tree.lookup path).toList.map tagOf) := by
  fun_induction remove tree path with
  | case1 | case3 => simp [lookup]
  | case2 => simp [lookup, contents]
  | case4 _ tag children i rest removed child made ih =>
    rw [made] at ih
    have exchanged := contents_update tagOf tag children i child
    refine add_right_cancel (b := (↑((children i).contents tagOf) : Multiset Tag)) ?_
    simp only [lookup]
    rw [add_right_comm, exchanged, ih]
    abel

end Radix

end K1K.Lib
