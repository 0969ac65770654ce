import Mathlib

/-!
# Computations that touch memory

A traced computation returns a value with the stretches of addresses it read or wrote. `Within`
says that they lie inside one stretch.
-/

namespace K1K.Lib

structure Span where
  start : Nat
  len : Nat
  deriving DecidableEq, Repr

namespace Span

def Covers (sp : Span) (a : Nat) : Prop := sp.start ≤ a ∧ a < sp.start + sp.len

def Inside (inner outer : Span) : Prop :=
  outer.start ≤ inner.start ∧ inner.start + inner.len ≤ outer.start + outer.len

instance (sp : Span) (a : Nat) : Decidable (sp.Covers a) := inferInstanceAs (Decidable (_ ∧ _))

theorem Inside.covers {inner outer : Span} (sub : inner.Inside outer) {a : Nat}
    (covered : inner.Covers a) : outer.Covers a :=
  ⟨Nat.le_trans sub.1 covered.1, Nat.lt_of_lt_of_le covered.2 sub.2⟩

end Span

structure Traced (α : Type) where
  value : α
  spans : List Span

namespace Traced

variable {α β : Type}

instance : Monad Traced where
  pure value := ⟨value, []⟩
  bind t f := ⟨(f t.value).value, t.spans ++ (f t.value).spans⟩

def touch (sp : Span) : Traced Unit := ⟨(), [sp]⟩

@[simp]
theorem value_pure (value : α) : (pure value : Traced α).value = value := rfl

@[simp]
theorem value_bind (t : Traced α) (f : α → Traced β) : (t >>= f).value = (f t.value).value := rfl

@[simp]
theorem spans_pure (value : α) : (pure value : Traced α).spans = [] := rfl

@[simp]
theorem spans_bind (t : Traced α) (f : α → Traced β) :
    (t >>= f).spans = t.spans ++ (f t.value).spans := rfl

theorem bind_congr_value {t : Traced α} {f g : α → Traced β} (eq : f t.value = g t.value) :
    t >>= f = t >>= g := by
  change (⟨(f t.value).value, _⟩ : Traced β) = ⟨(g t.value).value, _⟩
  rw [eq]

def Within (outer : Span) (t : Traced α) : Prop := ∀ sp ∈ t.spans, sp.Inside outer

variable {outer : Span}

theorem within_pure (value : α) : Within outer (pure value) := by
  rintro sp ⟨⟩

theorem within_touch {sp : Span} (sub : sp.Inside outer) : Within outer (touch sp) := by
  intro other mem
  rw [List.mem_singleton.mp mem]
  exact sub

theorem Within.bind {t : Traced α} {f : α → Traced β} (first : Within outer t)
    (second : Within outer (f t.value)) : Within outer (t >>= f) := by
  intro sp mem
  rcases List.mem_append.mp mem with early | late
  · exact first sp early
  · exact second sp late

end Traced

end K1K.Lib
