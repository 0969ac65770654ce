import K1K.Lib.Run

/-!
# Spin locks and interrupts

What code does with spin locks and the interrupt flag: sections under a lock, sections with
interrupts off, switches to another context. An interrupt runs its handler on top of the context
it interrupts, with interrupts off.

A lock that is taken with interrupts off must not be held by a suspended context. Code keeps to
`Code.Safe`; a lock is `guarded` if it is only taken with interrupts off, `plain` if never, and
`exposed` if both happen. No interrupt may arrive while an exposed one is held.
-/

namespace K1K.Lib.Masking

open Function (update update_eq_self update_of_ne update_self)

inductive Code (Lock : Type) where
  | skip
  | seq (first second : Code Lock)
  | locked (lock : Lock) (body : Code Lock)
  /-- A section with interrupts off; they are restored at its end. -/
  | masked (body : Code Lock)
  /-- Only if interrupts are on. -/
  | enabled (body : Code Lock)
  | choose (left right : Code Lock)
  | pick (body : Nat → Code Lock)
  | many (body : Code Lock)
  | switch

inductive Item (Lock : Type) where
  | run (code : Code Lock)
  | unlock (lock : Lock)
  | unmask
  | iret

def locks {Lock : Type} : List (Item Lock) → List Lock
  | [] => []
  | .unlock lock :: rest => lock :: locks rest
  | _ :: rest => locks rest

def wanted {Lock : Type} : List (Item Lock) → Option Lock
  | .run (.locked lock _) :: _ => some lock
  | _ => none

def interrupted {Lock : Type} : List (Item Lock) → List (Item Lock)
  | [] => []
  | .iret :: rest => rest
  | _ :: rest => interrupted rest

structure State (Cpu Lock : Type) where
  stack : Nat → List (Item Lock)
  off : Nat → Bool
  held : Lock → Bool
  current : Cpu → Nat
  lastCpu : Nat → Option Cpu

structure Program (Lock Entry Handler : Type) where
  entry : Entry → Code Lock
  handler : Handler → Code Lock

inductive Action (Cpu Entry Handler : Type) where
  /-- The CPU takes a step; the number settles a choice. -/
  | run (c : Cpu) (choice : Nat)
  | enter (c : Cpu) (entry : Entry)
  | interrupt (c : Cpu) (handler : Handler)

variable {Cpu Lock Entry Handler : Type}

namespace State

variable (s : State Cpu Lock)

def setStack (t : Nat) (items : List (Item Lock)) : State Cpu Lock :=
  { s with stack := Function.update s.stack t items }

def setOff (t : Nat) (flag : Bool) : State Cpu Lock :=
  { s with off := Function.update s.off t flag }

def setHeld [DecidableEq Lock] (lock : Lock) (flag : Bool) : State Cpu Lock :=
  { s with held := Function.update s.held lock flag }

variable [DecidableEq Cpu] [Fintype Cpu] [DecidableEq Lock]

def runCode (c : Cpu) (choice : Nat) (code : Code Lock) (rest : List (Item Lock)) :
    Option (State Cpu Lock) :=
  let t := s.current c
  match code with
  | .skip => some (s.setStack t rest)
  | .seq first second => some (s.setStack t (.run first :: .run second :: rest))
  | .locked lock body =>
    if s.held lock then none
    else some ((s.setHeld lock true).setStack t (.run body :: .unlock lock :: rest))
  | .masked body =>
    if s.off t then some (s.setStack t (.run body :: rest))
    else some ((s.setOff t true).setStack t (.run body :: .unmask :: rest))
  | .enabled body => some (s.setStack t (if s.off t then rest else .run body :: rest))
  | .choose left right => some (s.setStack t (.run (if choice = 0 then left else right) :: rest))
  | .pick body => some (s.setStack t (.run (body choice) :: rest))
  | .many body =>
    some (s.setStack t (if choice = 0 then rest else .run body :: .run (.many body) :: rest))
  | .switch =>
    if ∀ d, s.current d ≠ choice then
      some { s.setStack t rest with
        current := Function.update s.current c choice
        lastCpu := Function.update s.lastCpu t (some c) }
    else none

def step (program : Program Lock Entry Handler) (s : State Cpu Lock) :
    Action Cpu Entry Handler → Option (State Cpu Lock)
  | .run c choice =>
    match s.stack (s.current c) with
    | [] => none
    | .run code :: rest => s.runCode c choice code rest
    | .unlock lock :: rest => some ((s.setHeld lock false).setStack (s.current c) rest)
    | .unmask :: rest => some ((s.setOff (s.current c) false).setStack (s.current c) rest)
    | .iret :: rest => some ((s.setOff (s.current c) false).setStack (s.current c) rest)
  | .enter c entry =>
    match s.stack (s.current c) with
    | [] => some (s.setStack (s.current c) [.run (program.entry entry)])
    | _ => none
  | .interrupt c handler =>
    if s.off (s.current c) then none
    else some ((s.setOff (s.current c) true).setStack (s.current c)
      (.run (program.handler handler) :: .iret :: s.stack (s.current c)))

end State

def start (current : Cpu → Nat) : State Cpu Lock where
  stack _ := []
  off _ := false
  held _ := false
  current := current
  lastCpu _ := none

def Code.block : List (Code Lock) → Code Lock
  | [] => .skip
  | code :: rest => .seq code (block rest)

def Code.maybe (code : Code Lock) : Code Lock := .choose code .skip

inductive Kind where
  | guarded
  | exposed
  | plain
  deriving DecidableEq

variable (kind : Lock → Kind) (strict : Lock → Bool)

/-- Code that starts with the interrupt flag in this position, inside a section under a
lock that is not plain or outside all of them. -/
def Code.Safe : (off inside : Bool) → Code Lock → Prop
  | _, _, .skip => True
  | off, inside, .seq first second => first.Safe off inside ∧ second.Safe off inside
  | off, inside, .locked lock body =>
    match kind lock with
    | .guarded => off = true ∧ body.Safe off true
    | .exposed => body.Safe off true
    | .plain => off = false ∧ body.Safe off inside
  | _, inside, .masked body => body.Safe true inside
  | off, inside, .enabled body => off = false → body.Safe off inside
  | off, inside, .choose left right => left.Safe off inside ∧ right.Safe off inside
  | off, inside, .pick body => ∀ i, (body i).Safe off inside
  | off, inside, .many body => body.Safe off inside
  | _, inside, .switch => inside = false

@[simp] theorem Code.safe_block {off inside : Bool} {codes : List (Code Lock)} :
    (Code.block codes).Safe kind off inside ↔ ∀ code ∈ codes, code.Safe kind off inside := by
  induction codes with
  | nil => simp [block, Safe]
  | cons code rest ih => simp [block, Safe, ih]

@[simp] theorem Code.safe_maybe {off inside : Bool} {code : Code Lock} :
    code.maybe.Safe kind off inside ↔ code.Safe kind off inside := by
  simp [maybe, Safe]

def inside (items : List (Item Lock)) : Bool := (locks items).any fun lock => kind lock ≠ .plain

/-- A lock that is only held with interrupts off, if the exposed ones that are `strict` are taken
that way. -/
def Masked (lock : Lock) : Prop := kind lock = .guarded ∨ kind lock = .exposed ∧ strict lock = true

/-- What a context has still to do, when its interrupt flag is in this position. -/
def Fits : Bool → List (Item Lock) → Prop
  | off, [] => off = false
  | off, .run code :: rest => code.Safe kind off (inside kind rest) ∧ Fits off rest
  | off, .unlock lock :: rest => (Masked kind strict lock → off = true) ∧ Fits off rest
  | off, .unmask :: rest => off = true ∧ Fits false rest
  | off, .iret :: rest => off = true ∧ inside kind rest = false ∧ Fits false rest

variable {kind strict}

theorem inside_of_mem {items : List (Item Lock)} {lock : Lock} (mem : lock ∈ locks items)
    (critical : kind lock ≠ .plain) : inside kind items = true :=
  List.any_eq_true.mpr ⟨lock, mem, by simpa using critical⟩

namespace Fits

variable {off : Bool} {items : List (Item Lock)} {lock : Lock}

theorem off_of_mem (fits : Fits kind strict off items) (mem : lock ∈ locks items)
    (masked : Masked kind strict lock) : off = true := by
  induction items generalizing off with
  | nil => cases mem
  | cons item rest ih =>
    cases item with
    | run code => exact ih fits.2 mem
    | unlock other =>
      rcases List.mem_cons.mp mem with rfl | later
      · exact fits.1 masked
      · exact ih fits.2 later
    | unmask | iret => exact fits.1

theorem not_inside (fits : Fits kind strict false items)
    (unexposed : ∀ lock ∈ locks items, kind lock ≠ .exposed) : inside kind items = false := by
  induction items with
  | nil => rfl
  | cons item rest ih =>
    cases item with
    | run code => exact ih fits.2 unexposed
    | unlock other =>
      have plain : kind other = .plain := by
        cases sort : kind other with
        | guarded => cases fits.1 (.inl sort)
        | exposed => exact absurd sort (unexposed other List.mem_cons_self)
        | plain => rfl
      have below := ih fits.2 fun lock mem =>
        unexposed lock (List.mem_cons_of_mem _ mem)
      simpa [inside, locks, plain] using below
    | unmask | iret => cases fits.1

theorem not_inside_interrupted (fits : Fits kind strict off items) :
    inside kind (interrupted items) = false := by
  induction items generalizing off with
  | nil => rfl
  | cons item rest ih =>
    cases item with
    | run | unlock | unmask => exact ih fits.2
    | iret => exact fits.2.1

end Fits

structure Program.Safe (kind : Lock → Kind) (program : Program Lock Entry Handler) : Prop where
  entry : ∀ e, (program.entry e).Safe kind false false
  handler : ∀ h, (program.handler h).Safe kind true false

namespace State

variable {s s' : State Cpu Lock}

/-- No interrupt arrives while an exposed lock is held, and no strict one is taken with interrupts
on. -/
def Undisturbed (kind : Lock → Kind) (strict : Lock → Bool) (s : State Cpu Lock) :
    Action Cpu Entry Handler → Prop
  | .interrupt c _ => ∀ lock ∈ locks (s.stack (s.current c)), kind lock ≠ .exposed
  | .run c _ => ∀ lock ∈ wanted (s.stack (s.current c)), strict lock = true →
      s.off (s.current c) = true
  | .enter .. => True

instance decidableUndisturbed :
    DecidablePred (s.Undisturbed kind strict : Action Cpu Entry Handler → Prop) := fun action => by
  apply @Action.casesOn Cpu Entry Handler
    (fun action => Decidable (s.Undisturbed kind strict action)) action
  case interrupt =>
    exact fun c _ => inferInstanceAs
      (Decidable (∀ lock ∈ locks (s.stack (s.current c)), kind lock ≠ .exposed))
  case run =>
    exact fun c _ => inferInstanceAs (Decidable (∀ lock ∈ wanted (s.stack (s.current c)),
      strict lock = true → s.off (s.current c) = true))
  case enter => exact fun _ _ => isTrue trivial

structure Inv (kind : Lock → Kind) (strict : Lock → Bool) (s : State Cpu Lock) : Prop where
  fits : ∀ t, Fits kind strict (s.off t) (s.stack t)
  away : ∀ t, (∀ d, s.current d ≠ t) → inside kind (s.stack t) = false

theorem inv_start (current : Cpu → Nat) : (start current : State Cpu Lock).Inv kind strict where
  fits _ := rfl
  away _ _ := rfl

theorem Inv.stay (inv : s.Inv kind strict) {c : Cpu} {r : State Cpu Lock} {off : Bool}
    {items : List (Item Lock)} (current : r.current = s.current)
    (stack : r.stack = update s.stack (s.current c) items)
    (flag : r.off = update s.off (s.current c) off) (fits : Fits kind strict off items) :
    r.Inv kind strict where
  fits t := by
    rw [stack, flag]
    by_cases eq : t = s.current c
    · subst eq
      rwa [update_self, update_self]
    · rw [update_of_ne eq, update_of_ne eq]
      exact inv.fits t
  away t absent := by
    have ne : t ≠ s.current c := fun eq => absent c (current ▸ eq.symm)
    rw [stack, update_of_ne ne]
    exact inv.away t fun d here => absent d (current ▸ here)

def Spins (s : State Cpu Lock) (c : Cpu) (lock : Lock) : Prop :=
  s.off (s.current c) = true ∧ wanted (s.stack (s.current c)) = some lock ∧ s.held lock = true

/-- A context that an interrupt has suspended on this CPU, or that was switched away from
on this CPU and runs nowhere, holds the lock. -/
def HeldSuspended (s : State Cpu Lock) (c : Cpu) (lock : Lock) : Prop :=
  lock ∈ locks (interrupted (s.stack (s.current c))) ∨
  ∃ t, (∀ d, s.current d ≠ t) ∧ s.lastCpu t = some c ∧ lock ∈ locks (s.stack t)

theorem critical_of_wanted {items : List (Item Lock)} {lock : Lock}
    (fits : Fits kind strict true items)
    (wants : wanted items = some lock) : kind lock ≠ .plain := by
  intro plain
  unfold wanted at wants
  split at wants
  next =>
    cases wants
    have safe := fits.1
    simp [Code.Safe, plain] at safe
  next => cases wants

theorem Inv.not_heldSuspended (inv : s.Inv kind strict) {c : Cpu} {lock : Lock}
    (spins : s.Spins c lock) : ¬s.HeldSuspended c lock := by
  obtain ⟨off, wants, -⟩ := spins
  have fits := inv.fits (s.current c)
  have critical : kind lock ≠ .plain := critical_of_wanted (off ▸ fits) wants
  rintro (mem | ⟨t, absent, -, mem⟩)
  · cases (inside_of_mem mem critical).symm.trans fits.not_inside_interrupted
  · cases (inside_of_mem mem critical).symm.trans (inv.away t absent)

theorem Inv.masked (inv : s.Inv kind strict) {t : Nat} {lock : Lock}
    (mem : lock ∈ locks (s.stack t)) (masked : Masked kind strict lock) :
    s.off t = true ∧ ∃ d, s.current d = t := by
  refine ⟨(inv.fits t).off_of_mem mem masked, ?_⟩
  by_contra absent
  push Not at absent
  have critical : kind lock ≠ .plain := fun plain => by simp [Masked, plain] at masked
  cases (inside_of_mem mem critical).symm.trans (inv.away t absent)

variable [DecidableEq Cpu] [Fintype Cpu] [DecidableEq Lock]

theorem Inv.runCode (inv : s.Inv kind strict) {c : Cpu} {choice : Nat} {code : Code Lock}
    {rest : List (Item Lock)} (undisturbed : ∀ lock ∈ wanted (s.stack (s.current c)),
      strict lock = true → s.off (s.current c) = true)
    (top : s.stack (s.current c) = .run code :: rest)
    (ran : s.runCode c choice code rest = some s') : s'.Inv kind strict := by
  have fits := inv.fits (s.current c)
  rw [top] at fits
  obtain ⟨safe, below⟩ := fits
  have eq : s.off = update s.off (s.current c) (s.off (s.current c)) :=
    (update_eq_self ..).symm
  cases code with
  | skip =>
    cases ran
    exact inv.stay rfl rfl eq below
  | seq first second =>
    cases ran
    exact inv.stay rfl rfl eq ⟨safe.1, safe.2, below⟩
  | locked lock body =>
    simp only [State.runCode] at ran
    split at ran
    next => cases ran
    cases ran
    have taken := undisturbed lock (by rw [top]; rfl)
    unfold Code.Safe at safe
    split at safe
    next sort =>
      refine inv.stay rfl rfl eq ⟨?_, fun _ => safe.1, below⟩
      simpa [inside, locks, sort] using safe.2
    next sort =>
      refine inv.stay rfl rfl eq ⟨?_, fun masked => taken ?_, below⟩
      · simpa [inside, locks, sort] using safe
      · simpa [Masked, sort] using masked
    next sort =>
      refine inv.stay rfl rfl eq ⟨?_, fun masked => ?_, below⟩
      · simpa [inside, locks, sort] using safe.2
      · simp [Masked, sort] at masked
  | masked body =>
    simp only [State.runCode] at ran
    split at ran
    next off =>
      cases ran
      refine inv.stay rfl rfl eq ⟨?_, below⟩
      rw [off]
      exact safe
    next on =>
      cases ran
      rw [Bool.eq_false_iff.mpr on] at below
      exact inv.stay rfl rfl rfl ⟨safe, rfl, below⟩
  | enabled body =>
    cases ran
    refine inv.stay rfl rfl eq ?_
    split
    next => exact below
    next on => exact ⟨safe (Bool.eq_false_iff.mpr on), below⟩
  | choose left right =>
    cases ran
    refine inv.stay rfl rfl eq ⟨?_, below⟩
    split
    next => exact safe.1
    next => exact safe.2
  | pick body =>
    cases ran
    exact inv.stay rfl rfl eq ⟨safe choice, below⟩
  | many body =>
    cases ran
    refine inv.stay rfl rfl eq ?_
    split
    next => exact below
    next => exact ⟨safe, safe, below⟩
  | switch =>
    simp only [State.runCode] at ran
    split at ran
    next free =>
      cases ran
      -- What the context leaves behind is outside every section that matters.
      have left : (s.setStack (s.current c) rest).Inv kind strict := inv.stay rfl rfl eq below
      refine ⟨left.fits, fun t absent => ?_⟩
      by_cases leaving : t = s.current c
      · subst leaving
        change inside kind (update s.stack (s.current c) rest (s.current c)) = false
        rw [update_self]
        exact safe
      · refine left.away t fun d here => ?_
        by_cases there : d = c
        · exact leaving (there ▸ here.symm)
        · exact absent d ((update_of_ne there _ _).trans here)
    next => cases ran

theorem Inv.step {program : Program Lock Entry Handler} (safe : program.Safe kind)
    (inv : s.Inv kind strict) {action : Action Cpu Entry Handler}
    (undisturbed : s.Undisturbed kind strict action)
    (ran : s.step program action = some s') : s'.Inv kind strict := by
  cases action with
  | run c choice =>
    have fits := inv.fits (s.current c)
    have eq : s.off = update s.off (s.current c) (s.off (s.current c)) :=
      (update_eq_self ..).symm
    simp only [State.step] at ran
    split at ran
    next => cases ran
    next code rest top => exact inv.runCode undisturbed top ran
    next lock rest top =>
      cases ran
      rw [top] at fits
      exact inv.stay rfl rfl eq fits.2
    next rest top =>
      cases ran
      rw [top] at fits
      exact inv.stay rfl rfl rfl fits.2
    next rest top =>
      cases ran
      rw [top] at fits
      exact inv.stay rfl rfl rfl fits.2.2
  | enter c entry =>
    have fits := inv.fits (s.current c)
    simp only [State.step] at ran
    split at ran
    next top =>
      cases ran
      rw [top] at fits
      have eq : s.off = update s.off (s.current c) false := by
        rw [← show s.off (s.current c) = false from fits]
        exact (update_eq_self ..).symm
      exact inv.stay rfl rfl eq ⟨safe.entry entry, rfl⟩
    next => cases ran
  | interrupt c handler =>
    have fits := inv.fits (s.current c)
    simp only [State.step] at ran
    split at ran
    next => cases ran
    next on =>
      cases ran
      rw [Bool.eq_false_iff.mpr on] at fits
      have outside : inside kind (s.stack (s.current c)) = false :=
        fits.not_inside undisturbed
      refine inv.stay rfl rfl rfl ⟨?_, rfl, outside, fits⟩
      change (program.handler handler).Safe kind true (inside kind (s.stack (s.current c)))
      rw [outside]
      exact safe.handler handler

theorem inv_of_run {program : Program Lock Entry Handler} (safe : program.Safe kind)
    {current : Cpu → Nat} {actions : List (Action Cpu Entry Handler)}
    (run : Run (Guarded (Undisturbed kind strict) fun s action s' =>
      s.step program action = some s') (start current) actions s) : s.Inv kind strict :=
  run.invariant _ (inv_start current) fun _ _ _ inv ran => inv.step safe ran.1 ran.2

end State

end K1K.Lib.Masking
