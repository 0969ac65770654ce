import K1K.Lib.Run

/-!
# Replays that evaluate as they go

In a state that holds functions a lookup goes through all the updates since the start. A replay
evaluated inside a proof can bring each state into evaluated form first: `force a k` is `k a`,
written so that `a` is evaluated first.
-/

namespace K1K.Lib

universe u v

class Strict (α : Type u) where
  force {β : Type} : α → (α → β) → β
  force_eq {β : Type} (a : α) (k : α → β) : force a k = k a

namespace Strict

variable {α : Type u} [Strict α] {β : Type}

instance nat : Strict Nat where
  force
    | 0, k => k 0
    | n + 1, k => k (n + 1)
  force_eq a k := by cases a <;> rfl

instance int : Strict Int where
  force
    | .ofNat n, k => force n fun n => k (.ofNat n)
    | .negSucc n, k => force n fun n => k (.negSucc n)
  force_eq a k := by cases a <;> simp [force_eq]

instance bool : Strict Bool where
  force
    | true, k => k true
    | false, k => k false
  force_eq a k := by cases a <;> rfl

instance fin (n : Nat) : Strict (Fin n) where
  force a k := k a
  force_eq _ _ := rfl

instance option : Strict (Option α) where
  force
    | none, k => k none
    | some a, k => force a fun a => k (some a)
  force_eq a k := by cases a <;> simp [force_eq]

instance prod {γ : Type v} [Strict γ] : Strict (α × γ) where
  force a k := force a.1 fun x => force a.2 fun y => k (x, y)
  force_eq a k := by simp [force_eq]

def forceList : List α → (List α → β) → β
  | [], k => k []
  | a :: list, k => force a fun a => forceList list fun list => k (a :: list)

theorem forceList_eq (list : List α) (k : List α → β) : forceList list k = k list := by
  induction list generalizing k with
  | nil => rfl
  | cons a list ih => rw [forceList, force_eq, ih]

instance list : Strict (List α) where
  force := forceList
  force_eq := forceList_eq

def forceAt {ι : Type v} [DecidableEq ι] : List ι → (ι → α) → ((ι → α) → β) → β
  | [], f, k => k f
  | p :: points, f, k => force (f p) fun a => forceAt points (fun i => if i = p then a else f i) k

theorem forceAt_eq {ι : Type v} [DecidableEq ι] (points : List ι) (f : ι → α)
    (k : (ι → α) → β) : forceAt points f k = k f := by
  induction points generalizing f with
  | nil => rfl
  | cons p points ih =>
    have eq : (fun i => if i = p then f p else f i) = f := by
      funext i
      split
      next here => rw [here]
      next => rfl
    rw [forceAt, force_eq, ih, eq]

end Strict

variable {State : Type} {Action : Type v}

def strictReplay (force : State → (State → Option State) → Option State)
    (step : State → Action → Option State) : List Action → State → Option State
  | [], s => some s
  | a :: actions, s =>
    match step s a with
    | none => none
    | some next => force next fun next => strictReplay force step actions next

theorem strictReplay_eq {force : State → (State → Option State) → Option State}
    (forced : ∀ s k, force s k = k s) (step : State → Action → Option State)
    (actions : List Action) (s : State) :
    strictReplay force step actions s = actions.foldlM step s := by
  induction actions generalizing s with
  | nil => rfl
  | cons a actions ih =>
    rw [strictReplay, List.foldlM_cons]
    split
    next stuck => rw [stuck]; rfl
    next next ran => rw [forced, ih, ran]; rfl

section Evaluation

variable {force : State → (State → Option State) → Option State} (forced : ∀ s k, force s k = k s)
  {step : State → Action → Option State} {start : State} {actions : List Action}
  {goal : State → Prop} (property : State → Prop) [DecidablePred property]

include forced

theorem exists_run_of_strictReplay
    (eval : (strictReplay force step actions start).any fun s => decide (property s))
    (shown : ∀ s, Run (fun s a t => step s a = some t) start actions s → property s → goal s) :
    ∃ s, Run (fun s a t => step s a = some t) start actions s ∧ goal s := by
  rw [strictReplay_eq forced] at eval
  exact exists_of_replay property eval shown

theorem exists_of_strictReplay {guard : State → Action → Prop} [∀ s a, Decidable (guard s a)]
    (eval : (strictReplay force (fun s a => if guard s a then step s a else none) actions
      start).any fun s => decide (property s))
    (shown : ∀ s, Run (Guarded guard fun s a t => step s a = some t) start actions s →
      property s → goal s) :
    ∃ s, Run (Guarded guard fun s a t => step s a = some t) start actions s ∧ goal s := by
  rw [strictReplay_eq forced] at eval
  exact exists_guarded_of_replay property eval shown

end Evaluation

end K1K.Lib
