import K1K.Sched.Sleeping
import K1K.Supervisor.Model

/-!
# The delay before a restart

`supervisor_main` as a task of the scheduler's model, with the clock. For a dead task it takes
the task off the reap list, counts the failure and computes the delay, computes the deadline of
`sleep_ms`, goes to sleep and spawns the service again. Other tasks, interrupts and the
supervisor's idle sleep come in between.
-/

namespace K1K.Sched.Kernel

variable {n : Nat} {s s' : Kernel n}

theorem moveTo_ticks (t : TaskId) (source target : Placement) :
    (s.moveTo t source target).ticks = s.ticks := by
  rw [moveTo]
  split <;> rfl

theorem runJob_ticks (th : Thread n) (c : Cpu n) (job : Job n) :
    (s.runJob th c job).ticks = s.ticks := by
  cases job with
  | expire ids user =>
    change (expireAll s ids).1.ticks = s.ticks
    rw [(expired s ids).frame]
  | take | start | leave => exact moveTo_ticks ..
  | unsleep t q own rest after =>
    cases rest with
    | nil => rfl
    | cons v rest =>
      rw [runJob]
      split <;> rfl
  | steal rounds victims =>
    cases victims with
    | nil => cases rounds <;> rfl
    | cons v rest =>
      rw [runJob]
      split <;> rfl
  | _ => first | rfl | (rw [runJob]; split <;> first | rfl | (split <;> rfl))

theorem Moves.ticks_le {action : Action n} (moves : s.Moves action s') : s.ticks ≤ s'.ticks := by
  cases moves with
  | task | cpu => exact (runJob_ticks ..).ge
  | clock => exact Nat.le_succ _
  | _ => exact le_rfl

end K1K.Sched.Kernel

namespace K1K.Supervisor

open K1K.Lib K1K.Sched

variable {n : Nat}

def TIMER_HZ : Nat := 1000

def sleepUntil (now ms : Nat) : Nat := now + max ((ms * TIMER_HZ + 999) / 1000) 1

structure Restart where
  service : Nat
  /-- How many tasks of the service it has taken that ended with another code than 0. -/
  nth : Nat
  /-- When it computed the delay. -/
  since : Nat
  ms : Nat
  deriving DecidableEq

inductive Station where
  | polling
  | holding (service : Option Nat) (code : Int)
  | delaying (restart : Restart)
  | late (restart : Restart) (til : Nat)
  | asleep (restart : Restart) (til : Nat)
  deriving DecidableEq

structure Watch (n : Nat) where
  kernel : Kernel n
  supervisor : TaskId
  services : List ServiceState
  service : TaskId → Option Nat
  exitCode : TaskId → Option Int
  station : Station
  crashes : Nat → Nat
  /-- The restarts, each with the tick at which `spawn` was called. -/
  restarted : List (Restart × Nat)

inductive WatchAction (n : Nat) where
  /-- Everything of the scheduler's that needs no name here. -/
  | kernel (action : Sched.Action n)
  | register
  /-- Someone else's `service::spawn`. -/
  | spawn (c : Cpu n) (idx : Nat) (addrSpace : Option Frame)
  | exit (c : Cpu n) (code : Int)
  -- The supervisor, on the CPU it runs on.
  | takeDead (c : Cpu n)
  | update (c : Cpu n)
  | deadline (c : Cpu n)
  | sleep (c : Cpu n)
  | respawn (c : Cpu n) (addrSpace : Option Frame)

def plain : Sched.Action n → Bool
  | .exitCurrent _ => false
  | .takeDead _ => false
  | _ => true

namespace Watch

def start (n : Nat) (supervisor : TaskId) : Watch n where
  kernel := .start n
  supervisor := supervisor
  services := []
  service _ := none
  exitCode _ := none
  station := .polling
  crashes _ := 0
  restarted := []

variable (s : Watch n)

def Runs (c : Cpu n) : Prop := s.kernel.current c = s.supervisor ∧ s.kernel.Free c

instance decidableRuns (c : Cpu n) : Decidable (s.Runs c) := inferInstanceAs (Decidable (_ ∧ _))

def reaped (kernel : Kernel n) (id : TaskId) : Watch n :=
  { s with
    kernel := kernel
    station := .holding (s.service id) ((s.exitCode id).getD 0)
    crashes := fun i =>
      if s.service id = some i ∧ (s.exitCode id).getD 0 ≠ 0 then s.crashes i + 1
      else s.crashes i }

def updated (service : Option Nat) (code : Int) : Option (Watch n) :=
  match service with
  | none => some { s with station := .polling }
  | some idx =>
    match s.services[idx]? with
    | none => none
    | some st =>
      if code = 0 then
        some { s with services := s.services.set idx st.finished, station := .polling }
      else
        (st.failed code).map fun result =>
          { s with
            services := s.services.set idx result.1
            station := .delaying ⟨idx, s.crashes idx, s.kernel.ticks, result.2⟩ }

def respawned (kernel : Kernel n) (restart : Restart) : Watch n :=
  { s with
    kernel := kernel
    service := Function.update s.service s.kernel.nextId (some restart.service)
    station := .polling
    restarted := s.restarted ++ [(restart, s.kernel.ticks)] }

def step (s : Watch n) : WatchAction n → Option (Watch n)
  | .kernel action =>
    if plain action then (s.kernel.step action).map fun kernel => { s with kernel := kernel }
    else none
  | .register =>
    some (if s.services.length ≥ MAX_SERVICES then s
      else { s with services := s.services ++ [.new] })
  | .spawn c idx addrSpace =>
    if idx < s.services.length ∧ s.kernel.current c ≠ s.supervisor then
      (s.kernel.step (.spawn c addrSpace)).map fun kernel =>
        { s with
          kernel := kernel
          service := Function.update s.service s.kernel.nextId (some idx) }
    else none
  | .exit c code =>
    (s.kernel.step (.exitCurrent c)).map fun kernel =>
      { s with
        kernel := kernel
        exitCode := Function.update s.exitCode (s.kernel.current c) (some code) }
  | .takeDead c =>
    if s.Runs c ∧ s.station = .polling then
      (s.kernel.step (.takeDead c)).map fun kernel =>
        match s.kernel.takeDead with
        | none => { s with kernel := kernel }
        | some taken => s.reaped kernel taken.1
    else none
  | .update c =>
    if s.Runs c then
      match s.station with
      | .holding service code => s.updated service code
      | _ => none
    else none
  | .deadline c =>
    if s.Runs c then
      match s.station with
      | .delaying restart =>
        if restart.ms > 0 then
          some { s with station := .late restart (sleepUntil s.kernel.ticks restart.ms) }
        else none
      | _ => none
    else none
  | .sleep c =>
    if s.Runs c then
      match s.station with
      | .late restart til =>
        (s.kernel.step (.sleep c til)).map fun kernel =>
          { s with kernel := kernel, station := .asleep restart til }
      | _ => none
    else none
  | .respawn c addrSpace =>
    if s.Runs c then
      match s.station with
      | .delaying restart =>
        if restart.ms > 0 then none
        else (s.kernel.step (.spawn c addrSpace)).map fun kernel => s.respawned kernel restart
      | .asleep restart _ =>
        (s.kernel.step (.spawn c addrSpace)).map fun kernel => s.respawned kernel restart
      | _ => none
    else none

inductive Moves : WatchAction n → Watch n → Prop where
  | kernel {action : Sched.Action n} {k : Kernel n} (moved : s.kernel.Moves action k) :
      Moves (.kernel action) { s with kernel := k }
  | full : Moves .register s
  | register : Moves .register { s with services := s.services ++ [.new] }
  | spawn {c : Cpu n} {idx : Nat} {addrSpace : Option Frame} {k : Kernel n}
      (moved : s.kernel.Moves (.spawn c addrSpace) k) :
      Moves (.spawn c idx addrSpace)
        { s with kernel := k, service := Function.update s.service s.kernel.nextId (some idx) }
  | exit {c : Cpu n} {code : Int} {k : Kernel n} (moved : s.kernel.Moves (.exitCurrent c) k) :
      Moves (.exit c code)
        { s with
          kernel := k, exitCode := Function.update s.exitCode (s.kernel.current c) (some code) }
  | takeNone {c : Cpu n} {k : Kernel n} (moved : s.kernel.Moves (.takeDead c) k) :
      Moves (.takeDead c) { s with kernel := k }
  | takeDead {c : Cpu n} {id : TaskId} {k : Kernel n} (station : s.station = .polling)
      (moved : s.kernel.Moves (.takeDead c) k) : Moves (.takeDead c) (s.reaped k id)
  | skip {c : Cpu n} {code : Int} (station : s.station = .holding none code) :
      Moves (.update c) { s with station := .polling }
  | finish {c : Cpu n} {idx : Nat} {st : ServiceState}
      (station : s.station = .holding (some idx) 0) (found : s.services[idx]? = some st) :
      Moves (.update c)
        { s with services := s.services.set idx st.finished, station := .polling }
  | restart {c : Cpu n} {idx ms : Nat} {code : Int} {st st' : ServiceState}
      (station : s.station = .holding (some idx) code) (found : s.services[idx]? = some st)
      (nonzero : code ≠ 0) (failed : st.failed code = some (st', ms)) :
      Moves (.update c)
        { s with
          services := s.services.set idx st'
          station := .delaying ⟨idx, s.crashes idx, s.kernel.ticks, ms⟩ }
  | deadline {c : Cpu n} {restart : Restart} (station : s.station = .delaying restart) :
      Moves (.deadline c)
        { s with station := .late restart (sleepUntil s.kernel.ticks restart.ms) }
  | sleep {c : Cpu n} {restart : Restart} {til : Nat} {k : Kernel n} (runs : s.Runs c)
      (station : s.station = .late restart til) (moved : s.kernel.Moves (.sleep c til) k) :
      Moves (.sleep c) { s with kernel := k, station := .asleep restart til }
  | respawn {c : Cpu n} {addrSpace : Option Frame} {restart : Restart} {k : Kernel n}
      (runs : s.Runs c)
      (station : s.station = .delaying restart ∧ restart.ms = 0 ∨
        ∃ til, s.station = .asleep restart til)
      (moved : s.kernel.Moves (.spawn c addrSpace) k) :
      Moves (.respawn c addrSpace) (s.respawned k restart)

variable {s} {s' : Watch n}

theorem moves_of_updated {c : Cpu n} {service : Option Nat} {code : Int}
    (station : s.station = .holding service code) (updated : s.updated service code = some s') :
    s.Moves (.update c) s' := by
  unfold Watch.updated at updated
  split at updated
  next =>
    cases updated
    exact .skip station
  next idx =>
    split at updated
    next => simp at updated
    next st found =>
      split at updated
      next zero =>
        cases updated
        exact .finish (zero ▸ station) found
      next nonzero =>
        obtain ⟨⟨st', ms⟩, failed, rfl⟩ := Option.map_eq_some_iff.mp updated
        exact .restart station found nonzero failed

theorem moves_of_step {action : WatchAction n} (ran : s.step action = some s') :
    s.Moves action s' := by
  cases action with
  | kernel action =>
    simp only [step, Option.ite_none_right_eq_some] at ran
    obtain ⟨k, moved, rfl⟩ := Option.map_eq_some_iff.mp ran.2
    exact .kernel (Kernel.moves_of_step moved)
  | register =>
    simp only [step, Option.some.injEq] at ran
    subst ran
    split
    · exact .full
    · exact .register
  | spawn c idx addrSpace =>
    simp only [step, Option.ite_none_right_eq_some] at ran
    obtain ⟨k, moved, rfl⟩ := Option.map_eq_some_iff.mp ran.2
    exact .spawn (Kernel.moves_of_step moved)
  | exit c code =>
    obtain ⟨k, moved, rfl⟩ := Option.map_eq_some_iff.mp ran
    exact .exit (Kernel.moves_of_step moved)
  | takeDead c =>
    obtain ⟨⟨-, station⟩, ran⟩ := Option.ite_none_right_eq_some.mp ran
    obtain ⟨k, moved, rfl⟩ := Option.map_eq_some_iff.mp ran
    split
    · exact .takeNone (Kernel.moves_of_step moved)
    · exact .takeDead station (Kernel.moves_of_step moved)
  | update c =>
    obtain ⟨-, ran⟩ := Option.ite_none_right_eq_some.mp ran
    split at ran
    next station => exact moves_of_updated station ran
    next => simp at ran
  | deadline c =>
    obtain ⟨-, ran⟩ := Option.ite_none_right_eq_some.mp ran
    split at ran
    next station =>
      split at ran
      next =>
        cases ran
        exact .deadline station
      next => simp at ran
    next => simp at ran
  | sleep c =>
    obtain ⟨runs, ran⟩ := Option.ite_none_right_eq_some.mp ran
    split at ran
    next station =>
      obtain ⟨k, moved, rfl⟩ := Option.map_eq_some_iff.mp ran
      exact .sleep runs station (Kernel.moves_of_step moved)
    next => simp at ran
  | respawn c addrSpace =>
    obtain ⟨runs, ran⟩ := Option.ite_none_right_eq_some.mp ran
    split at ran
    next station =>
      split at ran
      next => simp at ran
      next none =>
        obtain ⟨k, moved, rfl⟩ := Option.map_eq_some_iff.mp ran
        exact .respawn runs (.inl ⟨station, Nat.eq_zero_of_not_pos none⟩)
          (Kernel.moves_of_step moved)
    next til station =>
      obtain ⟨k, moved, rfl⟩ := Option.map_eq_some_iff.mp ran
      exact .respawn runs (.inr ⟨til, station⟩) (Kernel.moves_of_step moved)
    next => simp at ran

end Watch

/-! ## What the restarts wait for -/

def Restart.Waits (restart : Restart) (til : Nat) : Prop :=
  restart.since * 1000 + ServiceState.backoff restart.nth * TIMER_HZ ≤ til * 1000

namespace Station

def pending (i : Nat) : Station → Nat
  | .holding service code => if service = some i ∧ code ≠ 0 then 1 else 0
  | _ => 0

def Due (k : Kernel n) (supervisor : TaskId) : Station → Prop
  | .polling => True
  | .holding _ _ => True
  | .delaying restart => restart.since ≤ k.ticks ∧ restart.ms = ServiceState.backoff restart.nth
  | .late restart til => restart.Waits til
  | .asleep restart til => restart.Waits til ∧ ((k.tasks supervisor).Asleep til ∨ til ≤ k.ticks)

def dozing : Station → Bool
  | .asleep _ _ => true
  | _ => false

end Station

def wakes (t : TaskId) : Job n → Bool
  | .lookup id _ => id = t
  | _ => false

theorem Station.Due.moves {k k' : Kernel n} {supervisor : TaskId} {station : Station}
    {action : Sched.Action n} (due : station.Due k supervisor) (inv : k.Inv) (resting : k.Resting)
    (gentle : k.Gentle action) (moves : k.Moves action k')
    (unwoken : station.dozing → ∀ c after, action = .run c →
      (k.tasks supervisor).state = .sleeping → k.job (k.acting c) ≠ .lookup supervisor after) :
    station.Due k' supervisor := by
  have later := moves.ticks_le
  cases station with
  | polling | holding => exact trivial
  | delaying restart => exact ⟨due.1.trans later, due.2⟩
  | late => exact due
  | asleep restart til =>
    refine ⟨due.1, ?_⟩
    rcases due.2 with asleep | past
    · exact (resting.asleep_or_due inv gentle moves
        (fun c after run => unwoken rfl c after run asleep.1) asleep).imp id (·.trans later)
    · exact .inr (past.trans later)

theorem waits_sleepUntil {restart : Restart} {now : Nat} (since : restart.since ≤ now)
    (computed : restart.ms = ServiceState.backoff restart.nth) :
    restart.Waits (sleepUntil now restart.ms) := by
  unfold Restart.Waits sleepUntil
  rw [← computed]
  have enough : restart.ms * TIMER_HZ ≤ max ((restart.ms * TIMER_HZ + 999) / 1000) 1 * 1000 := by
    omega
  omega

namespace Watch

variable {s s' : Watch n}

def Unwoken (s : Watch n) : Sched.Action n → Prop
  | .run c => s.station.dozing = true → (s.kernel.tasks s.supervisor).state = .sleeping →
      wakes s.supervisor (s.kernel.job (s.kernel.acting c)) = false
  | _ => True

instance decidableUnwoken : DecidablePred s.Unwoken := fun action => by
  apply @Sched.Action.casesOn n (fun action => Decidable (s.Unwoken action)) action
  case run =>
    exact fun c => inferInstanceAs (Decidable (s.station.dozing = true →
      (s.kernel.tasks s.supervisor).state = .sleeping →
      wakes s.supervisor (s.kernel.job (s.kernel.acting c)) = false))
  all_goals intros; exact isTrue trivial

def Orderly (s : Watch n) : WatchAction n → Prop
  | .kernel action => s.kernel.Orderly action ∧ s.kernel.Gentle action
  | .takeDead c => s.kernel.Orderly (.takeDead c)
  | _ => True

instance decidableOrderly : DecidablePred s.Orderly := fun action => by
  apply @WatchAction.casesOn n (fun action => Decidable (s.Orderly action)) action
  case kernel =>
    exact fun action =>
      inferInstanceAs (Decidable (s.kernel.Orderly action ∧ s.kernel.Gentle action))
  case takeDead => exact fun c => inferInstanceAs (Decidable (s.kernel.Orderly (.takeDead c)))
  all_goals intros; exact isTrue trivial

def Undisturbed (s : Watch n) : WatchAction n → Prop
  | .kernel action => s.Unwoken action
  | _ => True

instance decidableUndisturbed : DecidablePred s.Undisturbed := fun action => by
  apply @WatchAction.casesOn n (fun action => Decidable (s.Undisturbed action)) action
  case kernel => exact fun action => inferInstanceAs (Decidable (s.Unwoken action))
  all_goals intros; exact isTrue trivial

structure Paced (s : Watch n) : Prop where
  inv : s.kernel.Inv
  rooted : s.kernel.Rooted
  resting : s.kernel.Resting
  counted : ∀ i, s.crashes i =
    (s.services[i]?.map ServiceState.restarts).getD 0 + s.station.pending i
  due : s.station.Due s.kernel s.supervisor
  waited : ∀ entry ∈ s.restarted, entry.1.Waits entry.2

theorem paced_start (supervisor : TaskId) : (start n supervisor).Paced where
  inv := Kernel.inv_start
  rooted := Kernel.rooted_start
  resting := Kernel.resting_start
  counted i := rfl
  due := trivial
  waited entry listed := by cases listed

theorem Paced.moves (paced : s.Paced) {action : Sched.Action n} {k : Kernel n}
    (moves : s.kernel.Moves action k) (orderly : s.kernel.Orderly action)
    (gentle : s.kernel.Gentle action) (unwoken : s.Unwoken action) :
    { s with kernel := k }.Paced where
  inv := paced.inv.step orderly.1 moves
  rooted := paced.rooted.step paced.inv orderly.2 moves
  resting := paced.resting.step paced.inv paced.rooted gentle moves
  counted := paced.counted
  due := by
    refine paced.due.moves paced.inv paced.resting gentle moves fun dozing c after run asleep => ?_
    subst run
    intro calls
    have quiet := unwoken dozing asleep
    rw [calls] at quiet
    simp [wakes] at quiet
  waited := paced.waited

theorem Paced.reaped (paced : s.Paced) (station : s.station = .polling) (id : TaskId) :
    (s.reaped s.kernel id).Paced where
  inv := paced.inv
  rooted := paced.rooted
  resting := paced.resting
  counted i := by
    have counted := paced.counted i
    rw [station] at counted
    simp only [Station.pending, Nat.add_zero] at counted
    simp only [Watch.reaped, Station.pending, counted]
    split <;> rfl
  due := trivial
  waited := paced.waited

theorem Paced.counts (paced : s.Paced) {idx : Nat} {code : Int} {st st' : ServiceState}
    (station : s.station = .holding (some idx) code) (found : s.services[idx]? = some st)
    (restarts : st'.restarts = st.restarts + if code = 0 then 0 else 1) (i : Nat) :
    s.crashes i = ((s.services.set idx st')[i]?.map ServiceState.restarts).getD 0 := by
  have counted := paced.counted i
  rw [station] at counted
  by_cases eq : i = idx
  · subst eq
    have bound : i < s.services.length := (List.getElem?_eq_some_iff.mp found).1
    rw [List.getElem?_set_self bound]
    simp only [found, Station.pending, true_and, Option.map_some, Option.getD_some] at counted ⊢
    rw [counted, restarts]
    by_cases zero : code = 0
    · simp [zero]
    · simp [zero]
  · rw [List.getElem?_set_ne (Ne.symm eq)]
    have other : some idx ≠ some i := fun equal => eq (Option.some.inj equal).symm
    simpa [Station.pending, other, Ne.symm eq] using counted

theorem Paced.step (paced : s.Paced) {action : WatchAction n} (orderly : s.Orderly action)
    (undisturbed : s.Undisturbed action) (moves : s.Moves action s') : s'.Paced := by
  cases moves with
  | kernel moved => exact paced.moves moved orderly.1 orderly.2 undisturbed
  | full => exact paced
  | register =>
    refine { paced with counted := fun i => ?_ }
    rw [paced.counted i]
    congr 1
    rcases Nat.lt_trichotomy i s.services.length with below | rfl | above
    · rw [List.getElem?_append_left below]
    · simp [ServiceState.new]
    · rw [List.getElem?_eq_none above.le, List.getElem?_eq_none (by simpa using above)]
  | spawn moved | exit moved => exact { paced.moves moved ⟨trivial, trivial⟩ trivial trivial with }
  | takeNone moved => exact paced.moves moved orderly trivial trivial
  | takeDead station moved => exact (paced.moves moved orderly trivial trivial).reaped station _
  | skip station =>
    refine { paced with counted := fun i => ?_, due := trivial }
    have counted := paced.counted i
    rw [station] at counted
    simpa [Station.pending] using counted
  | finish station found =>
    exact { paced with counted := paced.counts station found rfl, due := trivial }
  | @restart c idx ms code st st' station found nonzero failed =>
    simp only [ServiceState.failed, Option.ite_none_right_eq_some, Option.some.injEq,
      Prod.mk.injEq] at failed
    obtain ⟨-, rfl, rfl⟩ := failed
    have restarts : (ServiceState.mk none (st.restarts + 1) (some code)).restarts =
        st.restarts + if code = 0 then 0 else 1 := by
      simp [nonzero]
    have counted := paced.counts station found restarts
    refine { paced with counted := counted, due := ⟨le_rfl, ?_⟩ }
    have bound : idx < s.services.length := (List.getElem?_eq_some_iff.mp found).1
    have nth := counted idx
    rw [List.getElem?_set_self bound] at nth
    exact congrArg ServiceState.backoff nth.symm
  | deadline station =>
    have due := paced.due
    have counted := paced.counted
    rw [station] at due counted
    exact { paced with counted := counted, due := waits_sleepUntil due.1 due.2 }
  | sleep runs station moved =>
    have due := paced.due
    have counted := paced.counted
    rw [station] at due counted
    have after := paced.moves moved ⟨trivial, trivial⟩ trivial trivial
    refine { after with counted := counted, due := ⟨due, .inl ?_⟩ }
    cases moved with
    | sleep busy =>
      change (Function.update s.kernel.tasks (s.kernel.current _) _ s.supervisor).Asleep _
      rw [runs.1, Function.update_self]
      exact ⟨rfl, rfl⟩
  | @respawn c addrSpace restart k runs station moved =>
    have after := paced.moves moved ⟨trivial, trivial⟩ trivial trivial
    have due := paced.due
    have counted : ∀ i, s.crashes i = (s.services[i]?.map ServiceState.restarts).getD 0 := by
      intro i
      have counted := paced.counted i
      rcases station with ⟨station, -⟩ | ⟨til, station⟩ <;> rw [station] at counted <;>
        exact counted
    refine { after with counted := counted, due := trivial, waited := fun entry mem => ?_ }
    rcases List.mem_append.mp mem with old | now
    · exact paced.waited entry old
    cases List.mem_singleton.mp now
    rcases station with ⟨station, none⟩ | ⟨til, station⟩
    · rw [station] at due
      have backoff : ServiceState.backoff restart.nth = 0 := due.2.symm.trans none
      change restart.since * 1000 + ServiceState.backoff restart.nth * TIMER_HZ ≤
        s.kernel.ticks * 1000
      rw [backoff, Nat.zero_mul, Nat.add_zero]
      exact Nat.mul_le_mul_right _ due.1
    · rw [station] at due
      -- The supervisor runs, so its sleep is over.
      have running : (s.kernel.tasks (s.kernel.current c)).state = .running :=
        paced.inv.stance_of runs.2.1 c rfl
      rcases due.2 with asleep | past
      · rw [runs.1, asleep.1] at running
        cases running
      · exact due.1.trans (Nat.mul_le_mul_right _ past)

/-- While no `wake` reaches the supervisor in the sleep before a restart, every restart comes at
least `min (200 * (n - 3)) 3000` milliseconds of ticks after the delay was computed, `n` being the
failures of the service. -/
theorem restarts_wait {supervisor : TaskId} {actions : List (WatchAction n)}
    (run : Run (Guarded (fun s action => s.Orderly action ∧ s.Undisturbed action)
      fun s action s' => s.step action = some s') (start n supervisor) actions s) :
    ∀ entry ∈ s.restarted,
      min (200 * (entry.1.nth - 3)) 3000 * TIMER_HZ ≤ (entry.2 - entry.1.since) * 1000 := by
  have paced := run.invariant Paced (paced_start supervisor) fun _ _ _ paced ran =>
    paced.step ran.1.1 ran.1.2 (moves_of_step ran.2)
  intro entry mem
  have waits := paced.waited entry mem
  have delay : min (200 * (entry.1.nth - 3)) 3000 ≤ ServiceState.backoff entry.1.nth := by
    unfold ServiceState.backoff MAX_RESTARTS_BEFORE_BACKOFF
    split <;> omega
  unfold Restart.Waits at waits
  have scaled := Nat.mul_le_mul_right TIMER_HZ delay
  omega

def strict {β : Type} (bound : Nat) (s : Watch n) (k : Watch n → β) : β :=
  s.kernel.strict bound fun kernel =>
  Strict.forceAt (List.range bound) s.service fun service =>
  Strict.forceAt (List.range bound) s.exitCode fun exitCode =>
  Strict.forceAt (List.range bound) s.crashes fun crashes =>
  k ⟨kernel, s.supervisor, s.services, service, exitCode, s.station, crashes, s.restarted⟩

theorem strict_eq {β : Type} (bound : Nat) (s : Watch n) (k : Watch n → β) :
    s.strict bound k = k s := by
  simp only [strict, Kernel.strict_eq, Strict.forceAt_eq]

def thenRuns (action : WatchAction 0) (count : Nat) : List (WatchAction 0) :=
  action :: (Kernel.runs bsp count).map .kernel

/-- One CPU. The boot context spawns the supervisor as task 2, a kernel thread as task 3 and the
first instance of a service as task 4; the supervisor sleeps, and the thread waits for a message.
-/
def booted : List (WatchAction 0) :=
  thenRuns (.kernel (.spawn bsp none)) 4 ++ [.kernel (.setSupervisor 2), .register] ++
  thenRuns (.kernel (.spawn bsp none)) 4 ++ thenRuns (.spawn bsp 0 none) 4 ++
  thenRuns (.kernel (.markBlocked bsp)) 14 ++ [.takeDead bsp] ++
  thenRuns (.kernel (.sleep bsp 50)) 14 ++ thenRuns (.kernel (.markBlocked bsp)) 14

def failing : List (WatchAction 0) :=
  thenRuns (.exit bsp (-1)) 20 ++ thenRuns (.takeDead bsp) 1 ++ [.update bsp] ++
  thenRuns (.respawn bsp none) 4 ++ [.takeDead bsp] ++ thenRuns (.kernel (.sleep bsp 50)) 14

def fourth : List (WatchAction 0) :=
  booted ++ failing ++ failing ++ failing ++
  thenRuns (.exit bsp (-1)) 20 ++ thenRuns (.takeDead bsp) 1 ++ [.update bsp, .deadline bsp] ++
  thenRuns (.sleep bsp) 15

def slept : List (WatchAction 0) :=
  fourth ++ List.replicate 200 (.kernel .clock) ++ thenRuns (.kernel (.tick bsp false)) 20 ++
  [.respawn bsp none]

def rested {β : Type} (s : Watch n) (k : Watch n → β) : β :=
  -- A clock tick writes no table.
  if s.kernel.ticks % 20 = 0 then s.strict 8 k else k s

theorem rested_eq {β : Type} (s : Watch n) (k : Watch n → β) : s.rested k = k s := by
  simp only [rested, strict_eq, ite_self]

theorem fourth_restart_waits : ∃ (s : Watch 0) (entry : Restart × Nat),
    Run (Guarded (fun s action => s.Orderly action ∧ s.Undisturbed action)
      fun s action s' => s.step action = some s') (start 0 2) slept s ∧
    entry ∈ s.restarted ∧ entry.1.nth = 4 ∧
    min (200 * (entry.1.nth - 3)) 3000 * TIMER_HZ ≤ (entry.2 - entry.1.since) * 1000 := by
  have eval : (strictReplay rested (fun (s : Watch 0) action =>
      if s.Orderly action ∧ s.Undisturbed action then s.step action else none) slept
      (start 0 2)).any fun s => decide ((⟨0, 4, 0, 200⟩, 200) ∈ s.restarted) := by
    decide +kernel
  obtain ⟨s, run, mem⟩ :=
    exists_of_strictReplay rested_eq _ eval fun _ _ facts => facts
  exact ⟨s, _, run, mem, rfl, restarts_wait run _ mem⟩

def interrupted : List (WatchAction 0) :=
  fourth ++ thenRuns (.kernel (.wakeOff bsp 3)) 7 ++ thenRuns (.kernel (.reschedule bsp)) 14 ++
  thenRuns (.exit bsp 0) 20 ++ [.respawn bsp none]

theorem restart_without_delay : ∃ (s : Watch 0) (entry : Restart × Nat),
    Run (Guarded Orderly fun s action s' => s.step action = some s') (start 0 2) interrupted s ∧
    entry ∈ s.restarted ∧ entry.1.nth = 4 ∧
    ¬min (200 * (entry.1.nth - 3)) 3000 * TIMER_HZ ≤ (entry.2 - entry.1.since) * 1000 := by
  have eval : (strictReplay (strict 8) (fun (s : Watch 0) action =>
      if s.Orderly action then s.step action else none) interrupted
      (start 0 2)).any fun s => decide ((⟨0, 4, 0, 200⟩, 0) ∈ s.restarted) := by
    decide +kernel
  obtain ⟨s, run, mem⟩ :=
    exists_of_strictReplay (strict_eq 8) _ eval fun _ _ facts => facts
  exact ⟨s, _, run, mem, rfl, by decide⟩

end Watch

end K1K.Supervisor
