import K1K.Arch.Interrupts

/-!
# Deferred reschedules

A recorded request stays as long as no inter-processor interrupt taken from user code finds the
flag set and no system call takes the flag of a CPU that it is not on any more.
-/

namespace K1K.Arch.Trap.Cores

open K1K.Lib
open K1K.Sched (TaskId Cpu bsp)

variable {n : Nat} {s s' : Cores n} {c d : Cpu n} {action : Action n}

/-- The task on this CPU has taken a request and will call `schedule` before it does
anything else. -/
def Committed (s : Cores n) (c : Cpu n) : Prop :=
  s.place (s.current c) = .deferred ∨
    s.handler (s.current c) = some (.ipiWork true) ∧ s.inUserTrap c = false

instance : DecidablePred s.Committed := fun _ => inferInstanceAs (Decidable (_ ∨ _))

/-- `on_ipi` finds no request in a trap from user code, and `take_deferred_resched`
takes only a request for the CPU it is on. -/
def Heeding (s : Cores n) : Action n → Prop
  | .run c =>
    (s.handler (s.current c) = some .ipi → s.resched c = true → s.inUserTrap c = false) ∧
    (s.handler (s.current c) = none → ∀ pc, s.place (s.current c) = .looked pc →
      s.resched pc = true → pc = c)
  | _ => True

instance : DecidablePred s.Heeding := fun action => by
  apply @Action.casesOn n (fun action => Decidable (s.Heeding action)) action
  case run => exact fun _ => inferInstanceAs (Decidable (_ ∧ _))
  all_goals intros; exact isTrue trivial

structure Kept (s : Cores n) : Prop where
  apart : s.Apart
  owed : ∀ c, s.owed c = true → s.resched c = true ∨ s.Committed c ∧ ¬s.Scheduling c

theorem Elsewhere.committed (ne : Elsewhere s s' c) (other : d ≠ c) :
    s'.Committed d ↔ s.Committed d := by
  rw [Committed, Committed, ne.current d other, ne.place d other, ne.handler d other,
    ne.inUserTrap d other]

theorem Elsewhere.scheduling (ne : Elsewhere s s' c) (other : d ≠ c) :
    s'.Scheduling d ↔ s.Scheduling d := by
  rw [Scheduling, Scheduling, ne.current d other, ne.place d other, ne.handler d other]

theorem Moves.resched (moves : s.Moves action s') (heeding : s.Heeding action)
    (set : s.resched d = true) :
    s'.resched d = true ∨ s'.resched d = false ∧ action = .run d ∧ s'.Committed d := by
  cases moves with
  | @takeFlag c pos =>
    by_cases eq : d = c
    · subst eq
      refine .inr ⟨?_, rfl, .inr ⟨?_, heeding.1 pos set⟩⟩
      · simp [setHandler, setResched]
      · simp [setHandler, setResched, set]
    · exact .inl (by simpa [setHandler, setResched, eq] using set)
  | @found c pc free pos flagged =>
    obtain rfl := heeding.2 free pc pos flagged
    by_cases eq : d = pc
    · subst eq
      exact .inr ⟨by simp [setPlace, setResched], rfl, .inl (by simp [setPlace, setResched])⟩
    · exact .inl (by simpa [setPlace, setResched, eq] using set)
  | tickRecord =>
    refine .inl ?_
    simp only [setHandler, record, setResched, Function.update_apply]
    split <;> simp [set]
  | kick =>
    refine .inl ?_
    simp only [record, setResched, Function.update_apply]
    split <;> simp [set]
  | @switch | @stay =>
    refine .inl ?_
    unfold returned
    split <;> exact set
  | _ => exact .inl set

theorem deferred_setHandler {r : Cores n} {t : TaskId} {handler : Option Handler}
    (here : r.current c = t) (pos : r.place t = .deferred)
    (tick : handler ≠ some .tickSchedule) (ipi : handler ≠ some .ipiSchedule) :
    (r.setHandler t handler).Committed c ∧ ¬(r.setHandler t handler).Scheduling c := by
  subst here
  constructor
  · exact .inl pos
  · simp [Scheduling, setHandler, pos, tick, ipi]

theorem Kept.self (kept : s.Kept) (heeding : s.Heeding action) (moves : s.Moves action s')
    (owed : s'.owed action.cpu = true) :
    s'.resched action.cpu = true ∨ s'.Committed action.cpu ∧ ¬s'.Scheduling action.cpu := by
  -- a handler that holds no request of its own was committed only through the place
  have place : ∀ {c : Cpu n}, s.owed c = true →
      s.handler (s.current c) ≠ some (.ipiWork true) →
      s.resched c = true ∨ s.place (s.current c) = .deferred := by
    intro c before other
    rcases kept.owed c before with set | ⟨pos | ⟨pos, -⟩, -⟩
    · exact .inl set
    · exact .inr pos
    · exact absurd pos other
  have settled : ∀ {c : Cpu n}, ¬(s.settle c).owed c = true := by simp [settle]
  have gave : ∀ {c : Cpu n}, s.Scheduling c → (s.returned c).owed c = true →
      (s.returned c).resched c = true := by
    intro c scheduling owed
    have eq : (s.returned c).owed = s.owed ∧ (s.returned c).resched = s.resched := by
      unfold Cores.returned
      split <;> exact ⟨rfl, rfl⟩
    rw [eq.1] at owed
    rw [eq.2]
    rcases kept.owed c owed with set | ⟨-, quiet⟩
    · exact set
    · exact absurd scheduling quiet
  cases moves with
  | @interrupt c vector enabled =>
    refine (place owed (by simp [enabled.1])).imp id fun pos => ?_
    exact deferred_setHandler rfl pos (by cases vector <;> rintro ⟨⟩)
      (by cases vector <;> rintro ⟨⟩)
  | timer pos =>
    refine (place owed (by simp [pos])).imp id fun pos => ?_
    exact deferred_setHandler rfl pos (by rintro ⟨⟩) (by rintro ⟨⟩)
  | @takeFlag c pos =>
    cases set : s.resched c with
    | true =>
      refine .inr ⟨.inr ⟨?_, heeding.1 pos set⟩, ?_⟩
      · simp [setHandler, setResched]
      · simp [Scheduling, setHandler, setResched]
    | false =>
      refine (place owed (by simp [pos])).elim (fun flagged => ?_) fun pos => .inr ?_
      · exact absurd (set.symm.trans flagged) (by rintro ⟨⟩)
      · exact deferred_setHandler rfl pos (by rintro ⟨⟩) (by rintro ⟨⟩)
  | ipiCall | yield | tickCall | call => exact absurd owed settled
  | @ipiSkip c resched pos skipped =>
    refine (kept.owed c owed).imp id fun kept => ?_
    have committed := kept.1
    rcases committed with deferred | ⟨ran, kernel⟩
    · exact deferred_setHandler rfl deferred (by rintro ⟨⟩) (by rintro ⟨⟩)
    · rw [pos] at ran
      cases ran
      exact absurd ⟨rfl, kernel⟩ skipped
  | acknowledge pos =>
    refine (place owed (by rcases pos with pos | pos <;> simp [pos])).imp id fun pos => ?_
    exact deferred_setHandler rfl pos (by rintro ⟨⟩) (by rintro ⟨⟩)
  | enter free pos | look free pos | missed free pos | leave free pos =>
    exact .inl ((place owed (by simp [free])).resolve_right (by simp [pos]))
  | @found c pc free pos set =>
    obtain rfl := heeding.2 free pc pos set
    refine .inr ⟨.inl (by simp [setPlace, setResched]), ?_⟩
    simp [Scheduling, setPlace, setResched, free]
  | tickRecord => exact .inl (by simp [setHandler, record, setResched, Action.cpu])
  | tickReturn pos =>
    refine (place owed (by simp [pos])).imp id fun pos => ?_
    exact deferred_setHandler rfl pos (by rintro ⟨⟩) (by rintro ⟨⟩)
  | switch scheduling | stay scheduling => exact .inl (gave scheduling owed)
  | lookIdle => exact kept.owed _ owed
  | kick => exact .inl (by simp [record, setResched, Action.cpu])

theorem Kept.step (kept : s.Kept) (heeding : s.Heeding action) (moves : s.Moves action s') :
    s'.Kept := by
  have ne := moves.elsewhere kept.apart
  refine ⟨kept.apart.step moves, fun c owed => ?_⟩
  by_cases eq : c = action.cpu
  · subst eq
    exact kept.self heeding moves owed
  rw [ne.owed c eq] at owed
  rw [ne.committed eq, ne.scheduling eq]
  rcases kept.owed c owed with set | committed
  · rcases moves.resched heeding set with set | ⟨-, rfl, -⟩
    · exact .inl set
    · exact absurd rfl eq
  · exact .inr committed

theorem kept_of_run {actions : List (Action n)}
    (run : Run (Guarded Heeding fun s action s' => s.step action = some s') (start n) actions s) :
    s.Kept :=
  run.invariant Kept ⟨apart_start, nofun⟩
    fun _ _ _ kept ran => kept.step ran.1 (moves_of_step ran.2)

/-- A recorded request is there until the CPU calls `schedule` or its task is about to; only the
CPU's own steps clear a flag, and commit it to the call; and a system call that looks at the flag
while a request is owed goes on to yield. -/
theorem requests_of_heeding_run {actions : List (Action n)}
    (run : Run (Guarded Heeding fun s action s' => s.step action = some s') (start n) actions s) :
    (∀ c, s.owed c = true → s.resched c = true ∨ s.Committed c) ∧
    (∀ action s', s.Heeding action → s.step action = some s' → ∀ d, s.resched d = true →
      s'.resched d = false → action = .run d ∧ s'.Committed d) ∧
    ∀ c s', s.owed c = true → s.handler (s.current c) = none →
      s.place (s.current c) = .looked c → s.step (.run c) = some s' →
      s'.place (s.current c) = .deferred := by
  have kept := kept_of_run run
  refine ⟨fun c owed => (kept.owed c owed).imp id And.left, ?_, ?_⟩
  · intro action s' heeding ran d set clear
    rcases (moves_of_step ran).resched heeding set with still | ⟨-, committed⟩
    · exact absurd (clear.symm.trans still) nofun
    · exact committed
  · intro c s' owed free pos ran
    have set : s.resched c = true := by
      rcases kept.owed c owed with set | ⟨deferred | ⟨handling, -⟩, -⟩
      · exact set
      · exact absurd (pos.symm.trans deferred) nofun
      · exact absurd (free.symm.trans handling) nofun
    simp only [step, free, pos, runPlace, set, if_true, Option.some.injEq] at ran
    subst ran
    simp [setPlace]

/-! One CPU. The user task 5 runs; the timer finds its quantum over in user code. -/

def overdue : List (Action 0) :=
  [.call bsp, .switch bsp 5, .leave bsp, .interrupt bsp .timer, .run bsp, .tick bsp true false]

def calling : List (Action 0) := overdue ++ [.run bsp, .run bsp]

theorem overdue_call_yields : ∃ s s' : Cores 0,
    Run (Guarded Heeding fun s action s' => s.step action = some s') (start 0)
      calling s ∧ s.current 0 = 5 ∧ s.place 5 = .looked 0 ∧ s.step (.run 0) = some s' ∧
    s'.place 5 = .deferred := by
  have eval : (calling.foldlM
      (fun (s : Cores 0) action => if s.Heeding action then s.step action else none)
      (start 0)).any (fun s : Cores 0 => decide (s.current 0 = 5 ∧ s.place 5 = .looked 0 ∧
        s.owed 0 = true ∧ s.handler 5 = none ∧ (s.step (.run 0)).isSome)) := by
    decide +kernel
  obtain ⟨s, run, current, pos, owed, free, ran⟩ :=
    exists_guarded_of_replay _ eval fun _ _ facts => facts
  obtain ⟨s', ran⟩ := Option.isSome_iff_exists.mp ran
  refine ⟨s, s', run, current, pos, ran, ?_⟩
  have yields := (requests_of_heeding_run run).2.2 0 s' owed
  rw [current] at yields
  exact yields free pos ran

/-- An inter-processor interrupt takes the request in the trap from user code, where it may not
switch, and the system call finds nothing. -/
def robbed : List (Action 0) :=
  overdue ++ [.interrupt bsp .ipi, .run bsp, .run bsp, .run bsp, .run bsp, .run bsp, .run bsp]

theorem request_lost : ∃ s : Cores 0,
    Run (fun s action s' => s.step action = some s') (start 0) robbed s ∧
    s.current 0 = 5 ∧ s.place 5 = .kernel ∧ s.owed 0 = true ∧ s.resched 0 = false ∧
    ¬s.Committed 0 := by
  exact exists_of_replay _ (by decide +kernel) fun _ _ facts => facts

end K1K.Arch.Trap.Cores
