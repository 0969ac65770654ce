import Mathlib

/-!
# Who holds what

Owners hold lists of things, each with a tag that says what is known about it. Where everything
has at most one owner, an owner changes its own list only.
-/

namespace K1K.Lib

open Function (update update_of_ne update_self)

variable {Owner Thing Tag : Type}

abbrev names (list : List (Thing × Tag)) : List Thing := list.map Prod.fst

theorem mem_names {list : List (Thing × Tag)} {entry : Thing × Tag} (mem : entry ∈ list) :
    entry.1 ∈ names list :=
  List.mem_map_of_mem mem

structure Held (fits : Tag → Thing → Prop) (holds : Owner → List (Thing × Tag)) : Prop where
  once : ∀ o, (names (holds o)).Nodup
  unique : ∀ {o o' x}, x ∈ names (holds o) → x ∈ names (holds o') → o = o'
  true_of : ∀ {o entry}, entry ∈ holds o → fits entry.2 entry.1

def Unheld (holds : Owner → List (Thing × Tag)) (x : Thing) : Prop := ∀ o, x ∉ names (holds o)

namespace Held

variable {fits fits' : Tag → Thing → Prop} {holds : Owner → List (Thing × Tag)} {o : Owner}
  {x : Thing} {tag : Tag}

theorem mono (held : Held fits holds)
    (kept : ∀ o entry, entry ∈ holds o → fits entry.2 entry.1 → fits' entry.2 entry.1) :
    Held fits' holds where
  once := held.once
  unique := held.unique
  true_of member := kept _ _ member (held.true_of member)

variable [DecidableEq Owner]

theorem put (held : Held fits holds) {list : List (Thing × Tag)} (once : (names list).Nodup)
    (own : ∀ x ∈ names list, ∀ o', x ∈ names (holds o') → o' = o)
    (others : ∀ o', o' ≠ o → ∀ entry ∈ holds o', fits entry.2 entry.1 → fits' entry.2 entry.1)
    (new : ∀ entry ∈ list, fits' entry.2 entry.1) : Held fits' (update holds o list) where
  once o' := by
    by_cases eq : o' = o
    · subst eq
      simpa using once
    · simpa [eq] using held.once o'
  unique {a b y} left right := by
    by_cases first : a = o <;> by_cases second : b = o
    · rw [first, second]
    · subst first
      rw [update_self] at left
      rw [update_of_ne second] at right
      exact (own y left b right).symm
    · subst second
      rw [update_self] at right
      rw [update_of_ne first] at left
      exact own y right a left
    · rw [update_of_ne first] at left
      rw [update_of_ne second] at right
      exact held.unique left right
  true_of {a entry} member := by
    by_cases eq : a = o
    · subst eq
      rw [update_self] at member
      exact new entry member
    · rw [update_of_ne eq] at member
      exact others a eq entry member (held.true_of member)

theorem exchange (held : Held fits holds) {o₁ o₂ : Owner} (ne : o₁ ≠ o₂)
    {list₁ list₂ : List (Thing × Tag)}
    (shared : (names (list₁ ++ list₂)).Perm (names (holds o₁ ++ holds o₂)))
    (new : ∀ entry ∈ list₁ ++ list₂, fits entry.2 entry.1) :
    Held fits (update (update holds o₁ list₁) o₂ list₂) := by
  have within : ∀ x ∈ names (list₁ ++ list₂), x ∈ names (holds o₁) ∨ x ∈ names (holds o₂) :=
    fun x mem => by simpa [names] using shared.mem_iff.mp mem
  have once : (names (list₁ ++ list₂)).Nodup := by
    rw [shared.nodup_iff, names, List.map_append, List.nodup_append']
    exact ⟨held.once o₁, held.once o₂, fun x left right => ne (held.unique left right)⟩
  simp only [names, List.map_append, List.mem_append] at once within new
  obtain ⟨once₁, once₂, disjoint⟩ := List.nodup_append'.mp once
  have emptied : Held fits (update holds o₂ []) :=
    held.put List.nodup_nil nofun (fun _ _ _ _ kept => kept) nofun
  have first : Held fits (update (update holds o₂ []) o₁ list₁) := by
    refine emptied.put once₁ (fun x mem o' other => ?_) (fun _ _ _ _ kept => kept)
      fun entry mem => new entry (.inl mem)
    by_cases eq : o' = o₂
    · simp [eq] at other
    rw [update_of_ne eq] at other
    rcases within x (.inl mem) with before | before
    · exact held.unique other before
    · exact absurd (held.unique other before) eq
  have shape : update (update holds o₁ list₁) o₂ list₂ =
      update (update (update holds o₂ []) o₁ list₁) o₂ list₂ := by
    funext o
    by_cases gone : o = o₂ <;> by_cases eq : o = o₁ <;> simp [Function.update_apply, gone, eq]
  rw [shape]
  refine first.put once₂ (fun x mem o' other => ?_) (fun _ _ _ _ kept => kept)
    fun entry mem => new entry (.inr mem)
  by_cases eq : o' = o₁
  · subst eq
    rw [update_self] at other
    exact absurd mem (disjoint other)
  rw [update_of_ne eq] at other
  by_cases gone : o' = o₂
  · exact gone
  rw [update_of_ne gone] at other
  rcases within x (.inr mem) with before | before
  · exact absurd (held.unique other before) eq
  · exact held.unique other before

end Held

end K1K.Lib
