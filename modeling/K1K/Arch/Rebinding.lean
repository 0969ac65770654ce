import K1K.Lib.Run

/-!
# Rebinding an interrupt

`bind` and `bind_notify` against `on_vector` of `arch/x86_64/irq.rs`, each lock section
one step. One CPU takes the interrupts of an object and another one rebinds it.
-/

namespace K1K.Arch.Rebinding

open K1K.Lib

inductive Target where
  | endpoint (e : Nat)
  | notify (n : Nat)
  deriving DecidableEq

inductive Handler where
  | idle
  | counted
  | loaded (notify : Option Nat)
  | ready (notify ep : Option Nat)
  deriving DecidableEq

inductive Action where
  | vector
  | loadNotify
  | loadEndpoint
  -- A message to an endpoint is refused when the queue is full.
  | deliver (full : Bool)
  -- The two lock sections of `bind` or `bind_notify`.
  | clear (target : Target)
  | set

structure State where
  endpoint : Option Nat
  notify : Option Nat
  count : Nat
  dropped : Nat
  handler : Handler
  binding : Option Target
  -- The targets since the interrupt came, the deliveries with theirs, and the refusals.
  since : List Target
  delivered : List (Target × List Target)
  refused : Nat

namespace State

def start : Target → State
  | .endpoint e => ⟨some e, none, 0, 0, .idle, none, [], [], 0⟩
  | .notify n => ⟨none, some n, 0, 0, .idle, none, [], [], 0⟩

variable (s : State)

def targets : List Target := s.endpoint.toList.map .endpoint ++ s.notify.toList.map .notify

def deliverTo (target : Target) : State :=
  { s with handler := .idle, delivered := s.delivered ++ [(target, s.since)] }

def step : Action → Option State
  | .vector =>
    if s.handler = .idle then
      some { s with count := s.count + 1, handler := .counted, since := s.targets }
    else none
  | .loadNotify =>
    if s.handler = .counted then some { s with handler := .loaded s.notify } else none
  | .loadEndpoint =>
    match s.handler with
    | .loaded notify => some { s with handler := .ready notify s.endpoint }
    | _ => none
  | .deliver full =>
    match s.handler with
    | .ready (some n) _ => some (s.deliverTo (.notify n))
    | .ready none (some e) =>
      if full then
        some { s with handler := .idle, dropped := s.dropped + 1, refused := s.refused + 1 }
      else some (s.deliverTo (.endpoint e))
    | .ready none none => some { s with handler := .idle, dropped := s.dropped + 1 }
    | _ => none
  | .clear target =>
    match s.binding, target with
    | none, .endpoint _ => some { s with binding := some target, notify := none }
    | none, .notify _ => some { s with binding := some target, endpoint := none }
    | some _, _ => none
  | .set =>
    match s.binding with
    | some (.endpoint e) =>
      some { s with binding := none, endpoint := some e, since := s.since ++ [.endpoint e] }
    | some (.notify n) =>
      some { s with binding := none, notify := some n, since := s.since ++ [.notify n] }
    | none => none

/-- `notify` is read while there is a target, and no `bind_notify` starts between the two
reads of a handler that has found no notification. -/
def apart : Action → Bool
  | .loadNotify => s.targets ≠ []
  | .clear (.notify _) => s.handler ≠ .loaded none
  | _ => true

abbrev Careful : State → Action → State → Prop :=
  Guarded (fun s a => s.apart a) fun s a s' => s.step a = some s'

def Leads : Handler → Prop
  | .idle | .counted => True
  | .loaded none => s.endpoint.isSome
  | .loaded (some n) | .ready (some n) _ => .notify n ∈ s.since
  | .ready none (some e) => .endpoint e ∈ s.since
  | .ready none none => False

structure Inv : Prop where
  cleared : ∀ t, s.binding = some t → match t with
    | .endpoint _ => s.notify = none
    | .notify _ => s.endpoint = none
  known : s.handler ≠ .idle → s.targets ⊆ s.since
  leads : s.Leads s.handler
  refusals : s.dropped = s.refused
  window : ∀ d ∈ s.delivered, d.1 ∈ d.2
  total : s.count = s.delivered.length + s.refused + if s.handler = .idle then 0 else 1

theorem inv_start (t : Target) : (start t).Inv := by
  cases t <;> exact ⟨by simp [start], by simp [start], trivial, rfl, by simp [start], rfl⟩

variable {s s' : State}

theorem Leads.mono {h : Handler} (leads : s.Leads h) (grows : s.since ⊆ s'.since)
    (held : h = .loaded none → s.endpoint.isSome → s'.endpoint.isSome) : s'.Leads h := by
  match h, leads with
  | .idle, _ | .counted, _ => trivial
  | .loaded none, leads => exact held rfl leads
  | .loaded (some _), leads | .ready (some _) _, leads | .ready none (some _), leads =>
    exact grows leads

theorem Inv.deliverTo (inv : s.Inv) (busy : s.handler ≠ .idle) {t : Target}
    (mem : t ∈ s.since) : (s.deliverTo t).Inv := by
  refine ⟨inv.cleared, fun idle => absurd rfl idle, trivial, inv.refusals, ?_, ?_⟩
  · intro d found
    rcases List.mem_append.mp found with old | new
    · exact inv.window d old
    · rw [List.mem_singleton.mp new]
      exact mem
  · have total := inv.total
    rw [if_neg busy] at total
    simp only [State.deliverTo, List.length_append, List.length_singleton, if_pos]
    omega

theorem Inv.step (inv : s.Inv) {a : Action} (apart : s.apart a) (ran : s.step a = some s') :
    s'.Inv := by
  have leads := inv.leads
  have total := inv.total
  cases a with
  | vector =>
    obtain ⟨idle, ⟨⟩⟩ := Option.ite_none_right_eq_some.mp ran
    rw [if_pos idle] at total
    exact ⟨inv.cleared, fun _ => List.Subset.refl _, trivial, inv.refusals,
      inv.window, by simp only [reduceCtorEq, if_false]; omega⟩
  | loadNotify =>
    obtain ⟨counted, ⟨⟩⟩ := Option.ite_none_right_eq_some.mp ran
    rw [counted] at total
    refine ⟨inv.cleared, fun _ => inv.known (by simp [counted]), ?_,
      inv.refusals, inv.window, total⟩
    cases read : s.notify with
    | none => simpa [State.apart, targets, read, Leads, Option.ne_none_iff_isSome] using apart
    | some n => exact inv.known (by simp [counted]) (by simp [targets, read])
  | loadEndpoint =>
    simp only [State.step] at ran
    split at ran
    next notify loaded =>
      cases ran
      rw [loaded] at total leads
      have known := inv.known (by simp [loaded])
      refine ⟨inv.cleared, fun _ => known, ?_, inv.refusals, inv.window, total⟩
      cases notify with
      | some n => exact leads
      | none =>
        obtain ⟨e, read⟩ := Option.isSome_iff_exists.mp leads
        simp only [read]
        exact known (by simp [targets, read])
    next => cases ran
  | deliver full =>
    simp only [State.step] at ran
    split at ran
    next n _ ready =>
      cases ran
      rw [ready] at leads
      exact inv.deliverTo (by simp [ready]) leads
    next e ready =>
      rw [ready] at leads total
      split at ran
      · cases ran
        exact ⟨inv.cleared, fun idle => absurd rfl idle, trivial,
          congrArg (· + 1) inv.refusals, inv.window, by simpa [Nat.add_assoc] using total⟩
      · cases ran
        exact inv.deliverTo (by simp [ready]) leads
    next ready =>
      rw [ready] at leads
      exact leads.elim
    next => cases ran
  | clear t =>
    simp only [State.step] at ran
    split at ran
    next e =>
      cases ran
      refine ⟨?_, fun busy => ?_, leads.mono (List.Subset.refl _) fun _ => id,
        inv.refusals, inv.window, total⟩
      · rintro _ ⟨⟩
        rfl
      · exact List.Subset.trans (by simp [targets]) (inv.known busy)
    next n =>
      cases ran
      refine ⟨?_, fun busy => ?_, leads.mono (List.Subset.refl _) fun between =>
          absurd between (by simpa [State.apart] using apart),
        inv.refusals, inv.window, total⟩
      · rintro _ ⟨⟩
        rfl
      · exact List.Subset.trans (by simp [targets]) (inv.known busy)
    next => cases ran
  | set =>
    simp only [State.step] at ran
    split at ran
    next e binding =>
      cases ran
      have cleared : s.notify = none := inv.cleared _ binding
      refine ⟨by simp, fun _ => ?_,
        leads.mono (List.subset_append_left _ _) fun _ _ => rfl, inv.refusals, inv.window, total⟩
      simp [targets, cleared]
    next n binding =>
      cases ran
      have cleared : s.endpoint = none := inv.cleared _ binding
      refine ⟨by simp, fun _ => ?_,
        leads.mono (List.subset_append_left _ _) fun _ => id, inv.refusals, inv.window, total⟩
      simp [targets, cleared]
    next => cases ran

/-- Every interrupt is delivered to a target that the object had meanwhile, or it finds a
full queue. -/
theorem no_interrupt_lost {t : Target} {actions : List Action}
    (run : Run Careful (start t) actions s) :
    s.dropped = s.refused ∧ (∀ d ∈ s.delivered, d.1 ∈ d.2) ∧
    s.count = s.delivered.length + s.refused + if s.handler = .idle then 0 else 1 := by
  have inv := run.invariant Inv (inv_start t) fun _ _ _ inv ran => inv.step ran.1 ran.2
  exact ⟨inv.refusals, inv.window, inv.total⟩

theorem rebound_between_reads :
    ∃ s, Run Careful (start (.endpoint 1))
      [.vector, .loadNotify, .clear (.endpoint 2), .set, .loadEndpoint, .deliver false,
        .clear (.notify 3), .set, .vector, .loadNotify, .loadEndpoint, .deliver false] s ∧
      s.dropped = 0 ∧ s.count = 2 ∧ s.delivered.map Prod.fst = [.endpoint 2, .notify 3] := by
  refine exists_guarded_of_replay
    (fun s => s.refused = 0 ∧ s.delivered.map Prod.fst = [.endpoint 2, .notify 3] ∧
      s.handler = .idle) (by decide +kernel) ?_
  rintro s run ⟨refused, delivered, idle⟩
  obtain ⟨dropped, -, total⟩ := no_interrupt_lost run
  have two : s.delivered.length = 2 := by rw [← List.length_map Prod.fst, delivered]; rfl
  exact ⟨dropped.trans refused, by rw [total, two, refused, if_pos idle], delivered⟩

/-- In the middle of `bind`, and with all of `bind_notify` between the two reads. -/
theorem interrupt_lost :
    (∃ s, Run (fun s a s' => s.step a = some s') (start (.notify 1))
      [.clear (.endpoint 2), .vector, .loadNotify, .loadEndpoint, .set, .deliver false] s ∧
      s.dropped = 1 ∧ s.refused = 0 ∧ s.delivered = []) ∧
    ∃ s, Run (fun s a s' => s.step a = some s') (start (.endpoint 1))
      [.vector, .loadNotify, .clear (.notify 2), .set, .loadEndpoint, .deliver false] s ∧
      s.dropped = 1 ∧ s.refused = 0 ∧ s.delivered = [] :=
  ⟨exists_of_replay _ (by decide +kernel) fun _ _ facts => facts,
    exists_of_replay _ (by decide +kernel) fun _ _ facts => facts⟩

end State
end K1K.Arch.Rebinding
