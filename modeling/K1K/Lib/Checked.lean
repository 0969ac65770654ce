import Mathlib

/-!
# Unsigned arithmetic under two build profiles

An operation whose exact result does not fit a word panics or keeps the low bits, depending on
the build. A computation returns an option, `none` for a panic, with an error inside if it can
fail.
-/

namespace K1K.Lib

inductive Overflow where
  | panics
  | wraps
  deriving DecidableEq, Repr

namespace Overflow

variable {width : Nat} (profile : Overflow) (a b : BitVec width)

def add : Option (BitVec width) :=
  if BitVec.uaddOverflow a b ∧ profile = .panics then none else some (a + b)

def mul : Option (BitVec width) :=
  if BitVec.umulOverflow a b ∧ profile = .panics then none else some (a * b)

def sub : Option (BitVec width) :=
  if BitVec.usubOverflow a b ∧ profile = .panics then none else some (a - b)

variable {a b}

theorem add_eq (fits : a.toNat + b.toNat < 2 ^ width) : profile.add a b = some (a + b) := by
  have exact : BitVec.uaddOverflow a b = false := by simp [BitVec.uaddOverflow, fits]
  simp [add, exact]

theorem mul_eq (fits : a.toNat * b.toNat < 2 ^ width) : profile.mul a b = some (a * b) := by
  have exact : BitVec.umulOverflow a b = false := by simp [BitVec.umulOverflow, fits]
  simp [mul, exact]

theorem sub_eq (fits : b.toNat ≤ a.toNat) : profile.sub a b = some (a - b) := by
  have exact : BitVec.usubOverflow a b = false := by simp [BitVec.usubOverflow, fits]
  simp [sub, exact]

theorem add_eq_none (large : 2 ^ width ≤ a.toNat + b.toNat) : panics.add a b = none := by
  simp [add, BitVec.uaddOverflow, large]

variable {profile} {c : BitVec width}

theorem add_some (added : profile.add a b = some c) : c = a + b := by
  unfold add at added
  split at added
  next => simp at added
  next => exact (Option.some.inj added).symm

theorem mul_some (multiplied : profile.mul a b = some c) : c = a * b := by
  unfold mul at multiplied
  split at multiplied
  next => simp at multiplied
  next => exact (Option.some.inj multiplied).symm

theorem sub_some (subtracted : panics.sub a b = some c) : b.toNat ≤ a.toNat ∧ c = a - b := by
  unfold sub at subtracted
  split at subtracted
  next => simp at subtracted
  next exact =>
    refine ⟨?_, (Option.some.inj subtracted).symm⟩
    simpa [BitVec.usubOverflow] using exact

/-! What does not panic does not depend on the profile. -/

theorem add_of_panics (profile : Overflow) (added : panics.add a b = some c) :
    profile.add a b = some c := by
  cases profile with
  | panics => exact added
  | wraps => rw [add_some added]; simp [add]

theorem mul_of_panics (profile : Overflow) (multiplied : panics.mul a b = some c) :
    profile.mul a b = some c := by
  cases profile with
  | panics => exact multiplied
  | wraps => rw [mul_some multiplied]; simp [mul]

theorem sub_of_panics (profile : Overflow) (subtracted : panics.sub a b = some c) :
    profile.sub a b = some c := by
  cases profile with
  | panics => exact subtracted
  | wraps => rw [(sub_some subtracted).2]; simp [sub]

end Overflow

abbrev Checked (ε α : Type) : Type := ExceptT ε Option α

namespace Checked

variable {ε α β : Type} {x : Checked ε α} {f : α → Checked ε β}

theorem bind_ok_iff {b : β} :
    (x >>= f).run = some (.ok b) ↔ ∃ a, x.run = some (.ok a) ∧ (f a).run = some (.ok b) := by
  rw [ExceptT.run_bind]
  rcases x.run with _ | _ | a
  · simp
  · simp
  · simp

theorem bind_isSome (first : x.run.isSome) (later : ∀ a, x.run = some (.ok a) → (f a).run.isSome) :
    (x >>= f).run.isSome := by
  rw [ExceptT.run_bind]
  cases gave : x.run with
  | none => simp [gave] at first
  | some outcome =>
    cases outcome with
    | error e => rfl
    | ok a => exact later a gave

theorem lift_ok_iff {y : Option α} {a : α} :
    (liftM y : Checked ε α).run = some (.ok a) ↔ y = some a := by
  cases y <;> simp [liftM, monadLift, MonadLift.monadLift, ExceptT.lift, ExceptT.run, ExceptT.mk]

theorem lift_isSome {y : Option α} : (liftM y : Checked ε α).run.isSome = y.isSome := by
  cases y <;> rfl

def refuseIf (p : Prop) [Decidable p] (e : ε) : Checked ε Unit := if p then throw e else pure ()

theorem refuseIf_ok_iff {p : Prop} [Decidable p] {e : ε} {u : Unit} :
    (refuseIf p e).run = some (.ok u) ↔ ¬ p := by
  unfold refuseIf
  split
  next holds => simp [holds]
  next fails => simp [fails]

theorem refuseIf_isSome {p : Prop} [Decidable p] {e : ε} : (refuseIf p e).run.isSome := by
  unfold refuseIf
  split <;> rfl

end Checked

/-! ## Computations that only fail -/

section Fallible

variable {ε α β : Type}

theorem except_bind_ok {x : Except ε α} {f : α → Except ε β} {b : β} :
    x >>= f = .ok b ↔ ∃ a, x = .ok a ∧ f a = .ok b := by
  cases x with
  | error | ok => simp [bind, Except.bind]

theorem except_mapM_ok {f : α → Except ε β} {list : List α} {out : List β} :
    list.mapM f = .ok out ↔ list.map f = out.map .ok := by
  induction list generalizing out with
  | nil => cases out <;> simp [pure, Except.pure]
  | cons head rest ih =>
    simp only [List.mapM_cons, except_bind_ok, ih]
    cases out with
    | nil | cons => simp [pure, Except.pure]

end Fallible

end K1K.Lib
