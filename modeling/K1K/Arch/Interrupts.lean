import K1K.Sched.Model

/-!
# Interrupts and the places where they may switch

`trap_dispatch`, `on_timer` with the end of `on_tick`, `on_ipi`, `on_vector`, `kick` and the way
into a system call. One access to a reschedule flag or to the local APIC and one call of
`schedule` is one step. Interrupts are off in a handler and in `schedule` and on everywhere
else.

What `schedule` decides is left open: it returns, or switches to any task that is on no CPU; a
task that was switched away from goes on where its call returns. So are the end of a quantum and
the run queues; the work slot of `on_ipi` and what a device's handler signals are modelled
elsewhere.

`owed`: a request was recorded for this CPU and it has not called `schedule` since.
-/

namespace K1K.Arch.Trap

open K1K.Sched (TaskId Cpu idleTask kmain bootCurrent)
open Function (update update_of_ne update_self)

def IRQ_TIMER : Nat := 32
def IPI_VECTOR : Nat := 33

inductive Vector where
  | timer
  | ipi
  | device (number : Nat)
  deriving DecidableEq

def Vector.number : Vector → Nat
  | .timer => IRQ_TIMER
  | .ipi => IPI_VECTOR
  | .device number => number

def Vector.Valid : Vector → Prop
  | .device number => IPI_VECTOR < number ∧ number < 255
  | _ => True

instance : DecidablePred Vector.Valid := fun vector => by
  cases vector with
  | device number => exact inferInstanceAs (Decidable (IPI_VECTOR < number ∧ number < 255))
  | _ => exact isTrue trivial

/-- The local APIC delivers an interrupt only above everything it has in service. -/
def Vector.priority (vector : Vector) : Nat := vector.number / 16

variable {n : Nat}

inductive Place (n : Nat) where
  | user
  -- In `syscall_entry` after its `sti`.
  | entered
  -- In `take_deferred_resched`, with the `PerCpu` that `percpu::get` returned.
  | looked (pc : Cpu n)
  -- The flag was set: about to call `yield_now`.
  | deferred
  | kernel
  -- In `schedule`.
  | scheduling
  deriving DecidableEq

inductive Handler where
  | timer
  | tick
  | tickSchedule
  | ipi
  | ipiWork (resched : Bool)
  | ipiSchedule
  | ipiEoi
  | device
  deriving DecidableEq

def Vector.entry : Vector → Handler
  | .timer => .timer
  | .ipi => .ipi
  | .device _ => .device

structure Cores (n : Nat) where
  current : Cpu n → TaskId
  place : TaskId → Place n
  /-- The handler on top of the task's code. -/
  handler : TaskId → Option Handler
  resched : Cpu n → Bool
  inUserTrap : Cpu n → Bool
  /-- What the local APIC has in service, the highest first. -/
  inService : Cpu n → List Vector
  /-- The CPUs a `kick` has found busy and not yet marked. -/
  kicks : List (Cpu n)
  owed : Cpu n → Bool

namespace Cores

def start (n : Nat) : Cores n where
  current := bootCurrent
  place _ := .kernel
  handler _ := none
  resched _ := false
  inUserTrap _ := false
  inService _ := []
  kicks := []
  owed _ := false

variable (s : Cores n)

def setPlace (t : TaskId) (place : Place n) : Cores n :=
  { s with place := update s.place t place }

def setHandler (t : TaskId) (handler : Option Handler) : Cores n :=
  { s with handler := update s.handler t handler }

def setResched (c : Cpu n) (flag : Bool) : Cores n :=
  { s with resched := update s.resched c flag }

def record (c : Cpu n) : Cores n :=
  { s.setResched c true with owed := update s.owed c true }

def settle (c : Cpu n) : Cores n := { s with owed := update s.owed c false }

def eoi (c : Cpu n) : Cores n :=
  { s with inService := update s.inService c (s.inService c).tail }

/-- The CPU takes an interrupt, and `trap_dispatch` looks where it came from. -/
def trapped (c : Cpu n) (vector : Vector) : Cores n :=
  { s with
    inService := update s.inService c (vector :: s.inService c)
    inUserTrap := update s.inUserTrap c (decide (s.place (s.current c) = Place.user)) }

def Enabled (c : Cpu n) : Prop :=
  s.handler (s.current c) = none ∧ s.place (s.current c) ≠ .scheduling

instance (c : Cpu n) : Decidable (s.Enabled c) := inferInstanceAs (Decidable (_ ∧ _))

def Scheduling (c : Cpu n) : Prop :=
  s.handler (s.current c) = some .tickSchedule ∨ s.handler (s.current c) = some .ipiSchedule ∨
    s.handler (s.current c) = none ∧ s.place (s.current c) = .scheduling

instance (c : Cpu n) : Decidable (s.Scheduling c) := inferInstanceAs (Decidable (_ ∨ _ ∨ _))

def returned (c : Cpu n) : Cores n :=
  match s.handler (s.current c) with
  | some .ipiSchedule => s.setHandler (s.current c) (some .ipiEoi)
  | some _ => s.setHandler (s.current c) none
  | none => s.setPlace (s.current c) .kernel

def runHandler (c : Cpu n) : Handler → Option (Cores n)
  | .timer => some ((s.eoi c).setHandler (s.current c) (some .tick))
  | .ipi => some ((s.setResched c false).setHandler (s.current c) (some (.ipiWork (s.resched c))))
  | .ipiWork resched =>
    if resched ∧ s.inUserTrap c = false then
      some ((s.settle c).setHandler (s.current c) (some .ipiSchedule))
    else some (s.setHandler (s.current c) (some .ipiEoi))
  | .ipiEoi => some ((s.eoi c).setHandler (s.current c) none)
  | .device => some ((s.eoi c).setHandler (s.current c) none)
  | _ => none

def runPlace (c : Cpu n) : Place n → Option (Cores n)
  | .user => some (s.setPlace (s.current c) .entered)
  | .entered => some (s.setPlace (s.current c) (.looked c))
  | .looked pc =>
    if s.resched pc then some ((s.setResched pc false).setPlace (s.current c) .deferred)
    else some (s.setPlace (s.current c) .kernel)
  | .deferred => some ((s.settle c).setPlace (s.current c) .scheduling)
  | _ => none

inductive Action (n : Nat) where
  | interrupt (c : Cpu n) (vector : Vector)
  | run (c : Cpu n)
  /-- The end of `on_tick`: whether the quantum is over or the task idle, and whether
  a task was woken or waits on the queue. -/
  | tick (c : Cpu n) (preempt work : Bool)
  | call (c : Cpu n)
  | leave (c : Cpu n)
  | switch (c : Cpu n) (t : TaskId)
  | stay (c : Cpu n)
  /-- `kick` reads `current`, and marks the CPU it found busy. -/
  | look (d : Cpu n)
  | kick (d : Cpu n)

def step : Action n → Option (Cores n)
  | .interrupt c vector =>
    if s.Enabled c ∧ vector.Valid ∧ ∀ other ∈ s.inService c, other.priority < vector.priority then
      some ((s.trapped c vector).setHandler (s.current c) (some vector.entry))
    else none
  | .run c =>
    match s.handler (s.current c) with
    | some handler => s.runHandler c handler
    | none => s.runPlace c (s.place (s.current c))
  | .tick c preempt work =>
    if s.handler (s.current c) = some .tick then
      if preempt then
        if s.inUserTrap c then some ((s.record c).setHandler (s.current c) none)
        else if work then some ((s.settle c).setHandler (s.current c) (some .tickSchedule))
        else some (s.setHandler (s.current c) none)
      else some (s.setHandler (s.current c) none)
    else none
  | .call c =>
    if s.handler (s.current c) = none ∧ s.place (s.current c) = .kernel then
      some ((s.settle c).setPlace (s.current c) .scheduling)
    else none
  | .leave c =>
    if s.handler (s.current c) = none ∧ s.place (s.current c) = .kernel ∧
        s.current c ≠ idleTask c then
      some (s.setPlace (s.current c) .user)
    else none
  | .switch c t =>
    if s.Scheduling c ∧ ∀ d, s.current d ≠ t then
      some { s.returned c with current := update s.current c t }
    else none
  | .stay c => if s.Scheduling c then some (s.returned c) else none
  | .look d => if s.current d ≠ idleTask d then some { s with kicks := d :: s.kicks } else none
  | .kick d =>
    if d ∈ s.kicks then some { s.record d with kicks := s.kicks.erase d } else none

@[simp] def Action.cpu : Action n → Cpu n
  | .interrupt c _ => c
  | .run c => c
  | .tick c _ _ => c
  | .call c => c
  | .leave c => c
  | .switch c _ => c
  | .stay c => c
  | .look d => d
  | .kick d => d

inductive Moves : Action n → Cores n → Prop where
  | interrupt {c : Cpu n} {vector : Vector} (enabled : s.Enabled c) :
      Moves (.interrupt c vector)
        ((s.trapped c vector).setHandler (s.current c) (some vector.entry))
  | timer {c : Cpu n} (position : s.handler (s.current c) = some .timer) :
      Moves (.run c) ((s.eoi c).setHandler (s.current c) (some .tick))
  | takeFlag {c : Cpu n} (position : s.handler (s.current c) = some .ipi) :
      Moves (.run c)
        ((s.setResched c false).setHandler (s.current c) (some (.ipiWork (s.resched c))))
  | ipiCall {c : Cpu n} (position : s.handler (s.current c) = some (.ipiWork true))
      (kernel : s.inUserTrap c = false) :
      Moves (.run c) ((s.settle c).setHandler (s.current c) (some .ipiSchedule))
  | ipiSkip {c : Cpu n} {resched : Bool}
      (position : s.handler (s.current c) = some (.ipiWork resched))
      (skipped : ¬(resched = true ∧ s.inUserTrap c = false)) :
      Moves (.run c) (s.setHandler (s.current c) (some .ipiEoi))
  | acknowledge {c : Cpu n} (position : s.handler (s.current c) = some .ipiEoi ∨
      s.handler (s.current c) = some .device) :
      Moves (.run c) ((s.eoi c).setHandler (s.current c) none)
  | enter {c : Cpu n} (free : s.handler (s.current c) = none)
      (position : s.place (s.current c) = .user) :
      Moves (.run c) (s.setPlace (s.current c) .entered)
  | look {c : Cpu n} (free : s.handler (s.current c) = none)
      (position : s.place (s.current c) = .entered) :
      Moves (.run c) (s.setPlace (s.current c) (.looked c))
  | found {c pc : Cpu n} (free : s.handler (s.current c) = none)
      (position : s.place (s.current c) = .looked pc) (set : s.resched pc = true) :
      Moves (.run c) ((s.setResched pc false).setPlace (s.current c) .deferred)
  | missed {c pc : Cpu n} (free : s.handler (s.current c) = none)
      (position : s.place (s.current c) = .looked pc) (clear : s.resched pc = false) :
      Moves (.run c) (s.setPlace (s.current c) .kernel)
  | yield {c : Cpu n} (free : s.handler (s.current c) = none)
      (position : s.place (s.current c) = .deferred) :
      Moves (.run c) ((s.settle c).setPlace (s.current c) .scheduling)
  | tickRecord {c : Cpu n} {work : Bool} (position : s.handler (s.current c) = some .tick)
      (user : s.inUserTrap c = true) :
      Moves (.tick c true work) ((s.record c).setHandler (s.current c) none)
  | tickCall {c : Cpu n} (position : s.handler (s.current c) = some .tick) :
      Moves (.tick c true true) ((s.settle c).setHandler (s.current c) (some .tickSchedule))
  | tickReturn {c : Cpu n} {preempt work : Bool}
      (position : s.handler (s.current c) = some .tick) :
      Moves (.tick c preempt work) (s.setHandler (s.current c) none)
  | call {c : Cpu n} (free : s.handler (s.current c) = none)
      (position : s.place (s.current c) = .kernel) :
      Moves (.call c) ((s.settle c).setPlace (s.current c) .scheduling)
  | leave {c : Cpu n} (free : s.handler (s.current c) = none)
      (position : s.place (s.current c) = .kernel) :
      Moves (.leave c) (s.setPlace (s.current c) .user)
  | switch {c : Cpu n} {t : TaskId} (scheduling : s.Scheduling c)
      (waiting : ∀ d, s.current d ≠ t) :
      Moves (.switch c t) { s.returned c with current := update s.current c t }
  | stay {c : Cpu n} (scheduling : s.Scheduling c) : Moves (.stay c) (s.returned c)
  | lookIdle {d : Cpu n} : Moves (.look d) { s with kicks := d :: s.kicks }
  | kick {d : Cpu n} : Moves (.kick d) { s.record d with kicks := s.kicks.erase d }

theorem moves_of_step {s s' : Cores n} {action : Action n} (ran : s.step action = some s') :
    s.Moves action s' := by
  cases action with
  | interrupt c vector =>
    obtain ⟨allowed, ⟨⟩⟩ := Option.ite_none_right_eq_some.mp ran
    exact .interrupt allowed.1
  | run c =>
    simp only [step] at ran
    split at ran
    next handler pos =>
      cases handler with
      | timer =>
        cases ran
        exact .timer pos
      | ipi =>
        cases ran
        exact .takeFlag pos
      | ipiWork resched =>
        simp only [runHandler] at ran
        split at ran
        next found =>
          cases ran
          obtain ⟨rfl, kernel⟩ := found
          exact .ipiCall pos kernel
        next skipped =>
          cases ran
          exact .ipiSkip pos skipped
      | ipiEoi =>
        cases ran
        exact .acknowledge (.inl pos)
      | device =>
        cases ran
        exact .acknowledge (.inr pos)
      | _ => cases ran
    next free =>
      cases pos : s.place (s.current c) with
      | user =>
        rw [pos] at ran
        cases ran
        exact .enter free pos
      | entered =>
        rw [pos] at ran
        cases ran
        exact .look free pos
      | looked pc =>
        rw [pos, runPlace] at ran
        split at ran
        next set =>
          cases ran
          exact .found free pos set
        next clear =>
          cases ran
          exact .missed free pos (Bool.eq_false_iff.mpr clear)
      | deferred =>
        rw [pos] at ran
        cases ran
        exact .yield free pos
      | kernel | scheduling =>
        rw [pos] at ran
        cases ran
  | tick c preempt work =>
    simp only [step, Option.ite_none_right_eq_some] at ran
    obtain ⟨pos, ran⟩ := ran
    split at ran
    next ended =>
      subst ended
      split at ran
      next user =>
        cases ran
        exact .tickRecord pos user
      · split at ran
        next wanted =>
          subst wanted
          cases ran
          exact .tickCall pos
        · cases ran
          exact .tickReturn pos
    · cases ran
      exact .tickReturn pos
  | call c =>
    obtain ⟨allowed, ⟨⟩⟩ := Option.ite_none_right_eq_some.mp ran
    exact .call allowed.1 allowed.2
  | leave c =>
    obtain ⟨allowed, ⟨⟩⟩ := Option.ite_none_right_eq_some.mp ran
    exact .leave allowed.1 allowed.2.1
  | switch c t =>
    obtain ⟨allowed, ⟨⟩⟩ := Option.ite_none_right_eq_some.mp ran
    exact .switch allowed.1 allowed.2
  | stay c =>
    obtain ⟨allowed, ⟨⟩⟩ := Option.ite_none_right_eq_some.mp ran
    exact .stay allowed
  | look d =>
    obtain ⟨-, ⟨⟩⟩ := Option.ite_none_right_eq_some.mp ran
    exact .lookIdle
  | kick d =>
    obtain ⟨-, ⟨⟩⟩ := Option.ite_none_right_eq_some.mp ran
    exact .kick

/-! ## What a step leaves alone -/

variable {s} {s' : Cores n}

def Apart (s : Cores n) : Prop := ∀ c d, s.current c = s.current d → c = d

structure Elsewhere (s s' : Cores n) (c : Cpu n) : Prop where
  current : ∀ d, d ≠ c → s'.current d = s.current d
  place : ∀ d, d ≠ c → s'.place (s.current d) = s.place (s.current d)
  handler : ∀ d, d ≠ c → s'.handler (s.current d) = s.handler (s.current d)
  inUserTrap : ∀ d, d ≠ c → s'.inUserTrap d = s.inUserTrap d
  inService : ∀ d, d ≠ c → s'.inService d = s.inService d
  owed : ∀ d, d ≠ c → s'.owed d = s.owed d

theorem elsewhere_returned (apart : s.Apart) (c : Cpu n) : Elsewhere s (s.returned c) c := by
  have other : ∀ d, d ≠ c → s.current d ≠ s.current c := fun d different eq =>
    different (apart d c eq)
  unfold returned
  split <;> constructor <;> intro d different <;> simp [setHandler, setPlace, other d different]

theorem Moves.elsewhere (apart : s.Apart) {action : Action n} (moves : s.Moves action s') :
    Elsewhere s s' action.cpu := by
  have other : ∀ {c d : Cpu n}, d ≠ c → s.current d ≠ s.current c := fun different eq =>
    different (apart _ _ eq)
  cases moves with
  | @switch c t scheduling waiting =>
    have was := elsewhere_returned apart c
    exact {
      current := fun d different => update_of_ne different _ _
      place := was.place
      handler := was.handler
      inUserTrap := was.inUserTrap
      inService := was.inService
      owed := was.owed }
  | stay => exact elsewhere_returned apart _
  | _ =>
    constructor <;> intro d different <;>
      simp_all [setHandler, setPlace, setResched, record, settle, eoi, trapped, Action.cpu]

theorem Apart.step (apart : s.Apart) {action : Action n} (moves : s.Moves action s') :
    s'.Apart := by
  have gave : ∀ c, (s.returned c).current = s.current := by
    intro c
    unfold returned
    split <;> rfl
  cases moves with
  | @switch c t scheduling waiting =>
    intro d e eq
    have eq : update s.current c t d = update s.current c t e := eq
    by_cases first : d = c <;> by_cases second : e = c
    · rw [first, second]
    · subst first
      rw [update_self, update_of_ne second] at eq
      exact absurd eq.symm (waiting e)
    · subst second
      rw [update_self, update_of_ne first] at eq
      exact absurd eq (waiting d)
    · rw [update_of_ne first, update_of_ne second] at eq
      exact apart d e eq
  | @stay c =>
    intro d e eq
    rw [gave] at eq
    exact apart d e eq
  | _ => exact apart

theorem apart_start : (start n).Apart := by
  intro c d eq
  simp only [start, bootCurrent, idleTask, kmain] at eq
  by_cases first : c = 0 <;> by_cases second : d = 0
  · rw [first, second]
  · rw [if_pos first, if_neg second, if_neg second] at eq
    have zero : (0 : Nat) = d := Nat.succ.inj eq
    exact absurd (Fin.ext zero.symm) second
  · rw [if_neg first, if_neg first, if_pos second] at eq
    have zero : (c : Nat) = 0 := Nat.succ.inj eq
    exact absurd (Fin.ext zero) first
  · rw [if_neg first, if_neg first, if_neg second, if_neg second] at eq
    exact Fin.ext (Nat.succ.inj eq)

end Cores

end K1K.Arch.Trap
