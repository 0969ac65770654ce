import Mathlib

/-!
# Finite runs of labelled transition systems

A system is a relation `step state action next`. Runs carry their actions, oldest first.
Invariants are proved once per step and lifted here to whole runs.
-/

namespace K1K.Lib

universe u v

variable {State : Type u} {Action : Type v}

inductive Run (step : State → Action → State → Prop) (start : State) :
    List Action → State → Prop where
  | nil : Run step start [] start
  | snoc {actions : List Action} {state next : State} {action : Action} :
      Run step start actions state → step state action next →
      Run step start (actions ++ [action]) next

/-- Restrict a transition relation to the steps that meet a condition on the
action and the state it is taken in. -/
def Guarded (guard : State → Action → Prop) (step : State → Action → State → Prop) :
    State → Action → State → Prop :=
  fun state action next => guard state action ∧ step state action next

namespace Run

variable {step : State → Action → State → Prop} {start state : State} {actions : List Action}

theorem invariant (inv : State → Prop) (initial : inv start)
    (kept : ∀ s a t, inv s → step s a t → inv t) (run : Run step start actions state) :
    inv state := by
  induction run with
  | nil => exact initial
  | snoc _ ran ih => exact kept _ _ _ ih ran

theorem mono {larger : State → Action → State → Prop}
    (included : ∀ s a t, step s a t → larger s a t) (run : Run step start actions state) :
    Run larger start actions state := by
  induction run with
  | nil => exact .nil
  | snoc _ ran ih => exact .snoc ih (included _ _ _ ran)

end Run

variable {step : State → Action → Option State}

theorem replay_append {start middle state : State}
    {front back : List Action} (first : front.foldlM step start = some middle)
    (second : back.foldlM step middle = some state) :
    (front ++ back).foldlM step start = some state := by
  rw [List.foldlM_append, first]
  exact second

theorem run_of_replay {start state : State}
    {actions : List Action} (eval : actions.foldlM step start = some state) :
    Run (fun s a t => step s a = some t) start actions state := by
  induction actions using List.reverseRecOn generalizing state with
  | nil =>
    cases eval
    exact .nil
  | append_singleton actions action ih =>
    rw [List.foldlM_append] at eval
    obtain ⟨middle, was, last⟩ := Option.bind_eq_some_iff.mp eval
    exact .snoc (ih was) (by simpa using last)

theorem guarded_of_replay {start state : State}
    {guard : State → Action → Prop} [∀ s a, Decidable (guard s a)] {actions : List Action}
    (eval : actions.foldlM (fun s a => if guard s a then step s a else none) start =
      some state) : Run (Guarded guard fun s a t => step s a = some t) start actions state := by
  refine (run_of_replay eval).mono fun s a t ran => ?_
  by_cases met : guard s a
  · exact ⟨met, by simpa [met] using ran⟩
  · simp [met] at ran

theorem exists_of_any {α : Type u} {answer : Option α} {property : α → Prop}
    [DecidablePred property] (eval : answer.any fun a => decide (property a)) :
    ∃ a, answer = some a ∧ property a := by
  obtain ⟨a, found, facts⟩ := (Option.any_eq_true _ _).mp eval
  exact ⟨a, found, of_decide_eq_true facts⟩

section Evaluation

variable {start : State} {actions : List Action} {goal : State → Prop} (property : State → Prop)
  [DecidablePred property]

/-- A replay that is evaluated to a state with some property is a run to that state. -/
theorem exists_of_replay (eval : (actions.foldlM step start).any fun s => decide (property s))
    (shown : ∀ s, Run (fun s a t => step s a = some t) start actions s → property s → goal s) :
    ∃ s, Run (fun s a t => step s a = some t) start actions s ∧ goal s := by
  obtain ⟨s, replayed, facts⟩ := exists_of_any eval
  have run := run_of_replay replayed
  exact ⟨s, run, shown s run facts⟩

theorem exists_guarded_of_replay {guard : State → Action → Prop} [∀ s a, Decidable (guard s a)]
    (eval : (actions.foldlM (fun s a => if guard s a then step s a else none) start).any
      fun s => decide (property s))
    (shown : ∀ s, Run (Guarded guard fun s a t => step s a = some t) start actions s →
      property s → goal s) :
    ∃ s, Run (Guarded guard fun s a t => step s a = some t) start actions s ∧ goal s := by
  obtain ⟨s, replayed, facts⟩ := exists_of_any eval
  have run := guarded_of_replay replayed
  exact ⟨s, run, shown s run facts⟩

end Evaluation

theorem guarded_of_forall {start state : State}
    {guard : State → Action → Prop} {actions : List Action}
    (met : ∀ action ∈ actions, ∀ s, guard s action)
    (eval : actions.foldlM step start = some state) :
    Run (Guarded guard fun s a t => step s a = some t) start actions state := by
  have run := run_of_replay eval
  clear eval
  induction run with
  | nil => exact .nil
  | @snoc actions middle _ action _ last ih =>
    have old := ih fun other mem => met other (List.mem_append_left _ mem)
    exact .snoc old ⟨met action (by simp) middle, last⟩

end K1K.Lib
