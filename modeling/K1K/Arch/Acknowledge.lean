import K1K.Arch.Interrupts

/-!
# Acknowledge before switching

A handler owes the local APIC an acknowledgement until its EOI. `on_timer` gives it before
`on_tick`, and a device's handler never switches; where the `schedule` of `on_ipi` does not
either, nothing is in service when a CPU switches or runs a task's own code.
-/

namespace K1K.Arch.Trap

open K1K.Lib
open Function (update update_of_ne)
open K1K.Sched (TaskId Cpu bsp)

def Handler.Owing : Handler → Prop
  | .tick => False
  | .tickSchedule => False
  | _ => True

namespace Cores

variable {n : Nat} {s s' : Cores n} {c d : Cpu n} {action : Action n}

def Steadfast (s : Cores n) : Action n → Prop
  | .switch c _ => s.handler (s.current c) ≠ some .ipiSchedule
  | _ => True

instance : DecidablePred s.Steadfast := fun action => by
  apply @Action.casesOn n (fun action => Decidable (s.Steadfast action)) action
  case switch =>
    exact fun c _ =>
      inferInstanceAs (Decidable (s.handler (s.current c) ≠ some .ipiSchedule))
  all_goals intros; exact isTrue trivial

structure Acknowledged (s : Cores n) : Prop where
  apart : s.Apart
  /-- One interrupt at most is in service, that of a handler before its EOI. -/
  single : ∀ c, (s.inService c).length ≤ 1
  empty : ∀ c, (∀ handler ∈ s.handler (s.current c), ¬handler.Owing) → s.inService c = []
  suspended : ∀ t, (∀ c, s.current c ≠ t) → s.handler t = none

namespace Acknowledged

theorem tail_eq_nil (fine : s.Acknowledged) (c : Cpu n) : (s.inService c).tail = [] := by
  have single := fine.single c
  cases found : s.inService c with
  | nil => rfl
  | cons vector rest =>
    rw [found, List.length_cons] at single
    exact List.length_eq_zero_iff.mp (Nat.le_zero.mp (Nat.le_of_succ_le_succ single))

theorem keep (fine : s.Acknowledged) (moves : s.Moves action s') (current : s'.current = s.current)
    (handlers : ∀ t, t ≠ s.current action.cpu → s'.handler t = s.handler t)
    (single : (s'.inService action.cpu).length ≤ 1)
    (empty : (∀ handler ∈ s'.handler (s.current action.cpu), ¬handler.Owing) →
      s'.inService action.cpu = []) : s'.Acknowledged := by
  have ne := moves.elsewhere fine.apart
  refine ⟨fine.apart.step moves, fun d => ?_, fun d quiet => ?_, fun t away => ?_⟩
  · by_cases eq : d = action.cpu
    · subst eq
      exact single
    · rw [ne.inService d eq]
      exact fine.single d
  · by_cases eq : d = action.cpu
    · subst eq
      rw [current] at quiet
      exact empty quiet
    · rw [ne.inService d eq]
      refine fine.empty d ?_
      rwa [current, ne.handler d eq] at quiet
  · rw [current] at away
    rw [handlers t (fun eq => away _ eq.symm)]
    exact fine.suspended t away

theorem alike (fine : s.Acknowledged) (moves : s.Moves action s') (current : s'.current = s.current)
    (handlers : ∀ t, t ≠ s.current action.cpu → s'.handler t = s.handler t)
    (service : s'.inService = s.inService)
    (owing : (∀ handler ∈ s'.handler (s.current action.cpu), ¬handler.Owing) →
      ∀ handler ∈ s.handler (s.current action.cpu), ¬handler.Owing) : s'.Acknowledged := by
  refine fine.keep moves current handlers ?_ fun quiet => ?_
  · rw [service]
    exact fine.single _
  · rw [service]
    exact fine.empty _ (owing quiet)

theorem returned_handler (s : Cores n) {t : TaskId} (other : t ≠ s.current c) :
    (s.returned c).handler t = s.handler t := by
  unfold returned
  split
  · exact update_of_ne other _ _
  · exact update_of_ne other _ _
  · rfl

theorem returned_frame (s : Cores n) (c : Cpu n) :
    (s.returned c).inService = s.inService ∧ (s.returned c).current = s.current := by
  unfold returned
  split <;> exact ⟨rfl, rfl⟩

theorem scheduling (fine : s.Acknowledged) (calls : s.Scheduling c)
    (other : s.handler (s.current c) ≠ some .ipiSchedule) : s.inService c = [] := by
  refine fine.empty c ?_
  rcases calls with pos | pos | ⟨free, -⟩
  · rw [pos]
    rintro handler ⟨⟩
    exact id
  · exact absurd pos other
  · rw [free]
    nofun

theorem switch (fine : s.Acknowledged) {t : TaskId} (calls : s.Scheduling c)
    (waiting : ∀ d, s.current d ≠ t) (other : s.handler (s.current c) ≠ some .ipiSchedule) :
    { s.returned c with current := update s.current c t }.Acknowledged := by
  have moves : s.Moves (.switch c t)
      { s.returned c with current := update s.current c t } := .switch calls waiting
  have ne := moves.elsewhere fine.apart
  have service := (returned_frame s c).1
  refine ⟨fine.apart.step moves, fun d => ?_, fun d quiet => ?_, fun x away => ?_⟩
  · change ((s.returned c).inService d).length ≤ 1
    rw [service]
    exact fine.single d
  · change (s.returned c).inService d = []
    rw [service]
    by_cases eq : d = c
    · subst eq
      exact fine.scheduling calls other
    · refine fine.empty d ?_
      rwa [ne.current d eq, ne.handler d eq] at quiet
  · by_cases eq : x = s.current c
    · subst eq
      change (s.returned c).handler (s.current c) = none
      unfold returned
      rcases calls with pos | pos | ⟨free, -⟩
      · simp [pos, setHandler]
      · exact absurd pos other
      · simp [free, setPlace]
    · change (s.returned c).handler x = none
      rw [returned_handler s eq]
      refine fine.suspended x fun d here => ?_
      have left : d ≠ c := fun equal => eq (equal ▸ here.symm)
      exact away d ((ne.current d left).trans here)

theorem step (fine : s.Acknowledged) (steadfast : s.Steadfast action)
    (moves : s.Moves action s') : s'.Acknowledged := by
  have acknowledged : ∀ {c : Cpu n} {handler : Option Handler},
      s.Moves (.run c) ((s.eoi c).setHandler (s.current c) handler) →
      ((s.eoi c).setHandler (s.current c) handler).Acknowledged := by
    intro c handler moves
    have empty : ((s.eoi c).setHandler (s.current c) handler).inService c = [] := by
      simpa [setHandler, eoi] using fine.tail_eq_nil c
    refine fine.keep moves rfl (fun t other => update_of_ne other _ _) ?_ fun _ => empty
    rw [Action.cpu, empty]
    exact Nat.zero_le 1
  have owes : ∀ {r : Cores n} {handler : Handler},
      s.Moves action (r.setHandler (s.current action.cpu) (some handler)) →
      r.current = s.current → r.handler = s.handler → r.inService = s.inService →
      handler.Owing →
      (r.setHandler (s.current action.cpu) (some handler)).Acknowledged := by
    intro r handler moves current handlers service owing
    refine fine.alike moves current (fun t other => ?_) service fun quiet => ?_
    · exact (update_of_ne other _ _).trans (congrFun handlers t)
    · exact absurd owing (quiet handler (by simp [setHandler]))
  have ticked : ∀ {r : Cores n} {handler : Option Handler},
      s.Moves action (r.setHandler (s.current action.cpu) handler) →
      s.handler (s.current action.cpu) = some .tick →
      r.current = s.current → r.handler = s.handler → r.inService = s.inService →
      (r.setHandler (s.current action.cpu) handler).Acknowledged := by
    intro r handler moves pos current handlers service
    refine fine.alike moves current (fun t other => ?_) service fun _ => ?_
    · exact (update_of_ne other _ _).trans (congrFun handlers t)
    · rw [pos]
      rintro handler ⟨⟩
      exact id
  have moves' := moves
  cases moves with
  | @interrupt c vector enabled =>
    have was : s.inService c = [] := fine.empty c (by rw [enabled.1]; rintro _ ⟨⟩)
    refine fine.keep moves' rfl (fun t other => update_of_ne other _ _) ?_ fun quiet => ?_
    · simp [setHandler, trapped, was]
    · refine absurd ?_ (quiet vector.entry (by simp [setHandler, trapped]))
      cases vector <;> trivial
  | timer | acknowledge => exact acknowledged moves'
  | takeFlag | ipiCall | ipiSkip => exact owes moves' rfl rfl rfl trivial
  | tickRecord pos | tickCall pos | tickReturn pos => exact ticked moves' pos rfl rfl rfl
  | switch calls waiting => exact fine.switch calls waiting steadfast
  | @stay c calls =>
    refine fine.alike moves' (returned_frame s c).2 (fun t other => returned_handler s other)
      (returned_frame s c).1 fun quiet => ?_
    simp only [Action.cpu] at quiet ⊢
    rcases calls with pos | pos | ⟨free, -⟩
    · rw [pos]
      rintro handler ⟨⟩
      exact id
    · refine absurd trivial (quiet .ipiEoi ?_)
      unfold returned
      simp [pos, setHandler]
    · rw [free]
      rintro _ ⟨⟩
  | _ => exact fine.alike moves' rfl (fun _ _ => rfl) rfl id

end Acknowledged

theorem acknowledged_start : (start n).Acknowledged :=
  ⟨apart_start, fun _ => Nat.zero_le 1, fun _ _ => rfl, fun _ _ => rfl⟩

/-- Whenever a CPU switches to another task, and whenever a task's own code runs on it, its
local APIC has nothing in service. -/
theorem acknowledged_of_steadfast_run {actions : List (Action n)}
    (run : Run (Guarded Steadfast fun s action s' => s.step action = some s') (start n) actions s) :
    (∀ c t s', s.Steadfast (.switch c t) → s.step (.switch c t) = some s' → s.inService c = []) ∧
    ∀ c, s.handler (s.current c) = none → s.inService c = [] := by
  have fine : s.Acknowledged := run.invariant Acknowledged acknowledged_start
    fun _ _ _ fine ran => fine.step ran.1 (moves_of_step ran.2)
  refine ⟨fun c t s' steadfast stepped => ?_, fun c free => fine.empty c ?_⟩
  · cases moves_of_step stepped with
    | switch calls => exact fine.scheduling calls steadfast
  · rw [free]
    nofun

/-! One CPU. The user task 5 makes a system call. -/

def preempted : List (Action 0) :=
  [.call bsp, .switch bsp 5, .leave bsp, .run bsp, .interrupt bsp .timer, .run bsp,
    .tick bsp true true]

theorem preempted_in_order : ∃ s s' : Cores 0,
    Run (Guarded Steadfast fun s action s' => s.step action = some s') (start 0) preempted s ∧
    s.step (.switch 0 1) = some s' ∧ s.inService 0 = [] := by
  have eval : (preempted.foldlM
      (fun (s : Cores 0) action => if s.Steadfast action then s.step action else none)
      (start 0)).any (fun s : Cores 0 =>
        decide (s.Steadfast (.switch 0 1) ∧ (s.step (.switch 0 1)).isSome)) := by
    decide +kernel
  obtain ⟨s, run, steadfast, ran⟩ :=
    exists_guarded_of_replay _ eval fun _ _ facts => facts
  obtain ⟨s', ran⟩ := Option.isSome_iff_exists.mp ran
  exact ⟨s, s', run, ran, (acknowledged_of_steadfast_run run).1 0 1 s' steadfast ran⟩

def kicked : List (Action 0) :=
  [.call bsp, .switch bsp 5, .leave bsp, .run bsp, .look bsp, .kick bsp, .interrupt bsp .ipi,
    .run bsp, .run bsp]

theorem switch_before_eoi : ∃ s s' : Cores 0,
    Run (fun s action s' => s.step action = some s') (start 0) kicked s ∧
    s.step (.switch 0 1) = some s' ∧ s.inService 0 = [.ipi] ∧
    s'.current 0 = 1 ∧ s'.handler 1 = none ∧ s'.inService 0 = [.ipi] := by
  have eval : (kicked.foldlM (fun (s : Cores 0) action => s.step action) (start 0)).any
      (fun s : Cores 0 => decide (s.inService 0 = [.ipi] ∧
        (s.step (.switch 0 1)).any fun s' : Cores 0 =>
          decide (s'.current 0 = 1 ∧ s'.handler 1 = none ∧ s'.inService 0 = [.ipi]))) := by
    decide +kernel
  obtain ⟨s, run, was, eval⟩ := exists_of_replay _ eval fun _ _ facts => facts
  obtain ⟨s', ran, after⟩ := exists_of_any eval
  exact ⟨s, s', run, ran, was, after⟩

end Cores

end K1K.Arch.Trap
