import K1K.Lib.Run

/-!
# Where things come from

States hold items at places, and steps make new items or copy them from place to place.
`Obtained` follows an item back through the run to the start or to the step that made it.
-/

namespace K1K.Lib

universe u v w x

structure Flow (State : Type u) (Action : Type v) (Place : Type w) (Item : Type x) where
  step : State → Action → State → Prop
  holds : State → Place → Item → Prop
  mints : State → Action → Place → Item → Prop
  copies : State → Action → Place → Item → Place → Item → Prop

variable {State : Type u} {Action : Type v} {Place : Type w} {Item : Type x}

inductive Obtained (flow : Flow State Action Place Item) (start : State)
    (through : Place → Prop) : List Action → State → Place → Item → Prop where
  | root {place : Place} {item : Item} : flow.holds start place item → through place →
      Obtained flow start through [] start place item
  | keep {actions : List Action} {s t : State} {action : Action} {place : Place} {item : Item} :
      Obtained flow start through actions s place item → flow.step s action t →
      flow.holds t place item → Obtained flow start through (actions ++ [action]) t place item
  | mint {actions : List Action} {s t : State} {action : Action} {place : Place} {item : Item} :
      Run flow.step start actions s → flow.step s action t → flow.mints s action place item →
      through place → Obtained flow start through (actions ++ [action]) t place item
  | copy {actions : List Action} {s t : State} {action : Action} {source place : Place}
      {original item : Item} :
      Obtained flow start through actions s source original → flow.step s action t →
      flow.copies s action source original place item → through place →
      Obtained flow start through (actions ++ [action]) t place item

def Flow.Origin (flow : Flow State Action Place Item) (start : State) (item : Item) : Prop :=
  (∃ place, flow.holds start place item) ∨
    ∃ actions s action t place, Run flow.step start actions s ∧ flow.step s action t ∧
      flow.mints s action place item

namespace Obtained

variable {flow : Flow State Action Place Item} {start s : State} {through : Place → Prop}
  {actions : List Action} {place : Place} {item : Item}

/-- If every step accounts for what it leaves at the places in question, then
everything there has been obtained.  `relevant` narrows the items down. -/
theorem of_run {guard : State → Action → Prop} (relevant : Item → Prop)
    (accounted : ∀ s action t, guard s action → flow.step s action t → ∀ place item,
      relevant item → through place → flow.holds t place item →
      flow.holds s place item ∨ flow.mints s action place item ∨
        ∃ source original, flow.holds s source original ∧ relevant original ∧ through source ∧
          flow.copies s action source original place item)
    (run : Run (Guarded guard flow.step) start actions s) (held : flow.holds s place item)
    (kind : relevant item) (allowed : through place) :
    Obtained flow start through actions s place item := by
  induction run generalizing place item with
  | nil => exact .root held allowed
  | snoc was ran ih =>
    rcases accounted _ _ _ ran.1 ran.2 place item kind allowed held with
      old | made | ⟨source, original, there, kind', allowed', copied⟩
    · exact .keep (ih old kind allowed) ran.2 held
    · exact .mint (was.mono fun _ _ _ => And.right) ran.2 made allowed
    · exact .copy (ih there kind' allowed') ran.2 copied allowed

theorem bounded (below : Item → Item → Prop) (refl : ∀ item, below item item)
    (trans : ∀ a b c, below a b → below b c → below a c) (copied : ∀ s action source old place item,
      flow.copies s action source old place item → below item old)
    (obtained : Obtained flow start through actions s place item) :
    ∃ origin, flow.Origin start origin ∧ below item origin := by
  induction obtained with
  | root held _ => exact ⟨_, .inl ⟨_, held⟩, refl _⟩
  | keep _ _ _ ih => exact ih
  | mint was ran made _ => exact ⟨_, .inr ⟨_, _, _, _, _, was, ran, made⟩, refl _⟩
  | copy _ _ copies _ ih =>
    obtain ⟨origin, from', below'⟩ := ih
    exact ⟨origin, from', trans _ _ _ (copied _ _ _ _ _ _ copies) below'⟩

end Obtained

end K1K.Lib
