import K1K.Lib.Run
import K1K.Obj.CapTable

/-!
# Interrupt vectors

`isa`, `msix` and `install` of `kernel/src/arch/x86_64/irq.rs` with `sys_dev_irq`, any number of
calls at once; each access to the counter, the vector table or the caller's capabilities is one
step. Whether `pci::msix_enable` succeeds is up to the device.
-/

namespace K1K.Arch.Irq

open K1K.Lib K1K.Obj

def ISA_VECTOR_BASE : BitVec 8 := 34
def MSI_VECTOR_FIRST : BitVec 8 := 64
def MSI_VECTOR_LAST : BitVec 8 := 127

inductive Source where
  | line (irq : Fin 16)
  | function (dev : Nat)
  deriving DecidableEq

structure IrqObject where
  vector : BitVec 8
  source : Source
  deriving DecidableEq

inductive Call where
  -- `sys_dev_irq` has found the device.
  | found (task dev : Nat)
  | numbered (task dev : Nat) (vector : BitVec 8)
  -- `msix_enable` has succeeded.
  | enabled (task dev : Nat) (vector : BitVec 8)
  -- `msix` has returned the object with this number.
  | made (task id : Nat)
  -- `isa` has found no object for the line.
  | missing (irq : Fin 16)
  deriving DecidableEq

def Call.vector : Call → Option (BitVec 8)
  | .numbered _ _ vector | .enabled _ _ vector => some vector
  | .found _ _ | .made _ _ | .missing _ => none

/-- `taken` counts the accesses to the counter, `handed` are the objects that `msix` has returned,
`replaced` which object took the place of which. -/
structure State where
  nextMsi : BitVec 8
  table : BitVec 8 → Option IrqObject
  caps : Nat → CapTable
  calls : Nat → Option Call
  taken : Nat
  handed : List IrqObject
  replaced : List (IrqObject × IrqObject)

namespace State

def start (caps : Nat → CapTable) : State where
  nextMsi := MSI_VECTOR_FIRST
  table _ := none
  caps := caps
  calls _ := none
  taken := 0
  handed := []
  replaced := []

variable (s : State)

def setCall (c : Nat) (call : Option Call) : State :=
  { s with calls := Function.update s.calls c call }

def install (obj : IrqObject) : State :=
  { s with
    table := Function.update s.table obj.vector (some obj)
    replaced := s.replaced ++ (s.table obj.vector).toList.map fun old => (old, obj) }

def isaVector (irq : Fin 16) : BitVec 8 := ISA_VECTOR_BASE + BitVec.ofNat 8 irq

def irqCap (id : Nat) : Capability := ⟨.irq id, Rights.RECV.union .GRANT⟩

inductive Action where
  | devIrq (c task slot : Nat)
  | number (c : Nat)
  | enable (c : Nat) (done : Bool)
  | install (c : Nat)
  | insertCap (c : Nat)
  | isa (c : Nat) (irq : Fin 16)
  deriving DecidableEq

def step : Action → Option State
  | .devIrq c task slot =>
    match s.calls c with
    | some _ => none
    | none =>
      match ((s.caps task).lookup slot (Rights.MAP_READ.union .MAP_WRITE)).bind (·.device) with
      | none => some s
      | some dev => some (s.setCall c (some (.found task dev)))
  | .number c =>
    match s.calls c with
    | some (.found task dev) =>
      let vector := s.nextMsi
      let s := { s with nextMsi := vector + 1, taken := s.taken + 1 }
      if vector > MSI_VECTOR_LAST then some (s.setCall c none)
      else some (s.setCall c (some (.numbered task dev vector)))
    | _ => none
  | .enable c done =>
    match s.calls c with
    | some (.numbered task dev vector) =>
      if done then some (s.setCall c (some (.enabled task dev vector)))
      else some (s.setCall c none)
    | _ => none
  | .install c =>
    match s.calls c with
    | some (.enabled task dev vector) =>
      let obj : IrqObject := ⟨vector, .function dev⟩
      let s := s.install obj
      some ({ s with handed := s.handed ++ [obj] }.setCall c (some (.made task s.handed.length)))
    | some (.missing irq) => some ((s.install ⟨isaVector irq, .line irq⟩).setCall c none)
    | _ => none
  | .insertCap c =>
    match s.calls c with
    | some (.made task id) =>
      let caps := ((s.caps task).insert (irqCap id)).2
      some ({ s with caps := Function.update s.caps task caps }.setCall c none)
    | _ => none
  | .isa c irq =>
    match s.calls c with
    | some _ => none
    | none =>
      match s.table (isaVector irq) with
      | some _ => some s
      | none => some (s.setCall c (some (.missing irq)))

def Step (s : State) (a : Action) (s' : State) : Prop := s.step a = some s'

def Few (s : State) : Action → Prop
  | .number _ => s.taken < 192
  | _ => True

instance few_decidable (s : State) (a : Action) : Decidable (s.Few a) := by
  cases a with
  | number c => exact inferInstanceAs (Decidable (s.taken < 192))
  | _ => exact isTrue trivial

def vectorAt (c : Nat) : Option (BitVec 8) := (s.calls c).bind Call.vector

def Given (taken : Nat) (vector : BitVec 8) : Prop :=
  64 ≤ vector.toNat ∧ vector.toNat ≤ 127 ∧ vector.toNat < 64 + taken

structure Inv (s : State) : Prop where
  next : s.nextMsi = BitVec.ofNat 8 (64 + s.taken)
  few : s.taken ≤ 192
  pending : ∀ c v, s.vectorAt c = some v → Given s.taken v ∧ v ∉ s.handed.map IrqObject.vector
  apart : ∀ c c' v, s.vectorAt c = some v → s.vectorAt c' = some v → c = c'
  handed : ∀ obj ∈ s.handed, Given s.taken obj.vector
  nodup : (s.handed.map IrqObject.vector).Nodup
  table : ∀ v obj, s.table v = some obj → obj.vector = v ∧
    (obj ∈ s.handed ∨ ∃ irq, obj = ⟨isaVector irq, .line irq⟩)
  replaced : ∀ r ∈ s.replaced, r.1.source = r.2.source

variable {s} {s' : State} {a : Action} {c d : Nat} {v : BitVec 8}

@[simp]
theorem vectorAt_setCall (call : Option Call) :
    (s.setCall c call).vectorAt d = if d = c then call.bind Call.vector else s.vectorAt d := by
  by_cases eq : d = c
  · simp [vectorAt, setCall, eq]
  · simp [vectorAt, setCall, eq]

theorem inv_start (caps : Nat → CapTable) : (start caps).Inv where
  next := rfl
  few := by simp [start]
  pending := by rintro _ _ ⟨⟩
  apart := by rintro _ _ _ ⟨⟩
  handed := by simp [start]
  nodup := by simp [start]
  table := by rintro _ _ ⟨⟩
  replaced := by simp [start]

theorem Inv.goOn (inv : s.Inv) (call : Option Call)
    (kept : ∀ v, call.bind Call.vector = some v → s.vectorAt c = some v) :
    (s.setCall c call).Inv := by
  have was : ∀ d v, (s.setCall c call).vectorAt d = some v → s.vectorAt d = some v := by
    intro d v held
    rw [vectorAt_setCall] at held
    split at held
    next eq => exact eq ▸ kept v held
    next => exact held
  exact
    { inv with
      pending := fun d v held => inv.pending d v (was d v held)
      apart := fun d e v first second => inv.apart d e v (was d v first) (was e v second) }

theorem Inv.withCaps (inv : s.Inv) (caps : Nat → CapTable) : Inv { s with caps := caps } :=
  { inv with }

theorem Given.mono {taken : Nat} (given : Given taken v) : Given (taken + 1) v :=
  ⟨given.1, given.2.1, by have := given.2.2; omega⟩

theorem Inv.advance (inv : s.Inv) (few : s.taken < 192) :
    Inv { s with nextMsi := s.nextMsi + 1, taken := s.taken + 1 } where
  next := by
    simp only [inv.next]
    exact (BitVec.ofNat_add (64 + s.taken) 1).symm
  few := few
  pending d v held := ⟨(inv.pending d v held).1.mono, (inv.pending d v held).2⟩
  apart := inv.apart
  handed obj listed := (inv.handed obj listed).mono
  nodup := inv.nodup
  table := inv.table
  replaced := inv.replaced

theorem Inv.nextMsi_toNat (inv : s.Inv) (few : s.taken < 192) : s.nextMsi.toNat = 64 + s.taken := by
  rw [inv.next, BitVec.toNat_ofNat, Nat.mod_eq_of_lt (by omega)]

theorem Inv.numbered (inv : s.Inv) (few : s.taken < 192) (low : ¬s.nextMsi > MSI_VECTOR_LAST)
    (task dev : Nat) : Inv ({ s with nextMsi := s.nextMsi + 1, taken := s.taken + 1 }.setCall c
      (some (.numbered task dev s.nextMsi))) := by
  have value := inv.nextMsi_toNat few
  have bound : s.nextMsi.toNat ≤ 127 := by
    have := BitVec.not_lt.mp low
    exact BitVec.le_def.mp this
  have nobody : ∀ d, s.vectorAt d ≠ some s.nextMsi := by
    intro d held
    have := (inv.pending d _ held).1.2.2
    omega
  have unlisted : s.nextMsi ∉ s.handed.map IrqObject.vector := by
    intro mem
    obtain ⟨obj, handed, eq⟩ := List.mem_map.mp mem
    have := (inv.handed obj handed).2.2
    rw [eq] at this
    omega
  have moved := inv.advance few
  refine { moved with pending := ?_, apart := ?_ }
  · intro d v held
    rw [vectorAt_setCall] at held
    split at held
    next =>
      cases held
      exact ⟨⟨by omega, bound, by simp only [setCall]; omega⟩, unlisted⟩
    next => exact moved.pending d v held
  · intro d e v first second
    rw [vectorAt_setCall] at first second
    split at first
    next here =>
      cases first
      split at second
      next there => rw [here, there]
      next => exact absurd second (nobody e)
    split at second
    next =>
      cases second
      exact absurd first (nobody d)
    next => exact inv.apart d e v first second

theorem isaVector_toNat (irq : Fin 16) : (isaVector irq).toNat = 34 + irq := by
  revert irq
  decide

theorem isaVector_injective {irq irq' : Fin 16} (eq : isaVector irq = isaVector irq') :
    irq = irq' := by
  have values := congrArg BitVec.toNat eq
  rw [isaVector_toNat, isaVector_toNat] at values
  omega

theorem Inv.free (inv : s.Inv) (held : s.vectorAt c = some v) : s.table v = none := by
  rcases found : s.table v with _ | obj
  · rfl
  obtain ⟨given, unlisted⟩ := inv.pending c v held
  rcases inv.table v obj found with ⟨eq, handed | ⟨irq, rfl⟩⟩
  · exact absurd (List.mem_map.mpr ⟨obj, handed, eq⟩) unlisted
  have value := congrArg BitVec.toNat eq
  rw [isaVector_toNat] at value
  have := given.1
  omega

theorem Inv.installed (inv : s.Inv) {obj : IrqObject} (held : s.vectorAt c = some obj.vector)
    (task id : Nat) :
    Inv ({ s.install obj with handed := s.handed ++ [obj] }.setCall c (some (.made task id))) := by
  obtain ⟨given, unlisted⟩ := inv.pending c _ held
  have free := inv.free held
  have others : ∀ d w, ({ s.install obj with handed := s.handed ++ [obj] }.setCall c
      (some (.made task id))).vectorAt d = some w → d ≠ c ∧ s.vectorAt d = some w := by
    intro d w now
    rw [vectorAt_setCall] at now
    split at now
    next => cases now
    next ne => exact ⟨ne, now⟩
  refine ⟨inv.next, inv.few, ?_, ?_, ?_, ?_, ?_, ?_⟩
  · intro d w now
    obtain ⟨ne, was⟩ := others d w now
    refine ⟨(inv.pending d w was).1, fun mem => ?_⟩
    simp only [setCall, List.map_append, List.map_singleton, List.mem_append,
      List.mem_singleton] at mem
    rcases mem with old | rfl
    · exact (inv.pending d w was).2 old
    · exact ne (inv.apart d c _ was held)
  · intro d e w first second
    exact inv.apart d e w (others d w first).2 (others e w second).2
  · intro other mem
    rcases List.mem_append.mp mem with old | new
    · exact inv.handed other old
    · rw [List.mem_singleton.mp new]
      exact given
  · simp only [setCall, List.map_append, List.map_singleton]
    exact List.nodup_append.mpr ⟨inv.nodup, List.nodup_singleton _, by
      rintro w old w' new rfl
      exact unlisted (List.mem_singleton.mp new ▸ old)⟩
  · intro w other found
    by_cases eq : w = obj.vector
    · simp only [setCall, install, eq, Function.update_self, Option.some.injEq] at found
      exact ⟨by rw [← found, eq], .inl (by simp [setCall, found])⟩
    simp only [setCall, install, Function.update_of_ne eq] at found
    rcases inv.table w other found with ⟨vector, handed | line⟩
    · exact ⟨vector, .inl (List.mem_append_left _ handed)⟩
    · exact ⟨vector, .inr line⟩
  · simpa [setCall, install, free] using inv.replaced

theorem Inv.installedLine (inv : s.Inv) (irq : Fin 16) :
    Inv (s.install ⟨isaVector irq, .line irq⟩) := by
  refine { inv with pending := inv.pending, apart := inv.apart, table := ?_, replaced := ?_ }
  · intro w other found
    by_cases eq : w = isaVector irq
    · simp only [install, eq, Function.update_self, Option.some.injEq] at found
      exact ⟨by rw [← found, eq], .inr ⟨irq, found.symm⟩⟩
    · simp only [install, Function.update_of_ne eq] at found
      exact inv.table w other found
  · intro r mem
    rcases List.mem_append.mp mem with old | new
    · exact inv.replaced r old
    obtain ⟨was, found, rfl⟩ := List.mem_map.mp new
    rcases inv.table _ was (Option.mem_toList.mp found) with ⟨eq, handed | ⟨irq', rfl⟩⟩
    · have := (inv.handed was handed).1
      rw [eq, isaVector_toNat] at this
      omega
    · simp only
      rw [isaVector_injective eq]

theorem Inv.step (inv : s.Inv) (few : s.Few a) (ran : Step s a s') : s'.Inv := by
  cases a with
  | devIrq | isa =>
    rw [Step, State.step] at ran
    split at ran
    next => cases ran
    split at ran
    next =>
      cases ran
      exact inv
    cases ran
    exact inv.goOn _ (by rintro v ⟨⟩)
  | number c =>
    rw [Step, State.step] at ran
    split at ran
    next =>
      dsimp only at ran
      split at ran
      next =>
        cases ran
        exact (inv.advance few).goOn none (by rintro v ⟨⟩)
      next low =>
        cases ran
        exact inv.numbered few low _ _
    next => cases ran
  | enable c done =>
    rw [Step, State.step] at ran
    split at ran
    next task dev vector here =>
      split at ran
      next =>
        cases ran
        refine inv.goOn _ fun v eq => ?_
        rw [vectorAt, here]
        exact eq
      cases ran
      exact inv.goOn none (by rintro v ⟨⟩)
    next => cases ran
  | install c =>
    rw [Step, State.step] at ran
    split at ran
    next task dev vector here =>
      cases ran
      have held : s.vectorAt c = some (IrqObject.mk vector (.function dev)).vector := by
        rw [vectorAt, here]
        rfl
      exact inv.installed held _ _
    next irq here =>
      cases ran
      exact (inv.installedLine irq).goOn none (by rintro v ⟨⟩)
    next => cases ran
  | insertCap c =>
    rw [Step, State.step] at ran
    split at ran
    next =>
      cases ran
      exact (inv.withCaps _).goOn none (by rintro v ⟨⟩)
    next => cases ran

/-- With at most 192 calls: every vector that `msix` hands out lies in 64..=127, none is
handed out twice, and no object in the table gives way to one of another device. -/
theorem vectors_exclusive {caps : Nat → CapTable} {actions : List Action} {s : State}
    (run : Run (Guarded Few Step) (start caps) actions s) :
    (∀ obj ∈ s.handed, 64 ≤ obj.vector.toNat ∧ obj.vector.toNat ≤ 127) ∧
    (s.handed.map IrqObject.vector).Nodup ∧
    ∀ r ∈ s.replaced, r.1.source = r.2.source := by
  have inv : s.Inv := run.invariant Inv (inv_start caps) fun _ _ _ inv ran =>
    inv.step ran.1 ran.2
  exact ⟨fun obj mem => ⟨(inv.handed obj mem).1, (inv.handed obj mem).2.1⟩, inv.nodup, inv.replaced⟩

/-! ## Calls one after the other -/

section Calls

variable {first : State} {actions : List Action} {slot dev : Nat}

def Holds (s : State) (slot dev : Nat) : Prop :=
  ((s.caps 0).lookup slot (Rights.MAP_READ.union .MAP_WRITE)).bind (·.device) = some dev

theorem step_devIrq (idle : s.calls c = none) (holds : s.Holds slot dev) :
    Step s (.devIrq c 0 slot) (s.setCall c (some (.found 0 dev))) := by
  rw [Holds] at holds
  simp [Step, step, idle, holds]

theorem step_number_none {task : Nat} (here : s.calls c = some (.found task dev))
    (high : s.nextMsi > MSI_VECTOR_LAST) : Step s (.number c)
      ({ s with nextMsi := s.nextMsi + 1, taken := s.taken + 1 }.setCall c none) := by
  simp [Step, step, here, high]

theorem step_number {task : Nat} (here : s.calls c = some (.found task dev))
    (low : ¬s.nextMsi > MSI_VECTOR_LAST) :
    Step s (.number c) ({ s with nextMsi := s.nextMsi + 1, taken := s.taken + 1 }.setCall c
      (some (.numbered task dev s.nextMsi))) := by
  simp only [Step, step, here, if_neg low]

theorem setCall_setCall (call call' : Option Call) :
    (s.setCall c call).setCall c call' = s.setCall c call' := by
  simp [setCall]

theorem setCall_idle (idle : s.calls c = none) : s.setCall c none = s := by
  rw [setCall, ← idle, Function.update_eq_self]

theorem failing_call (run : Run Step first actions s) (idle : s.calls 0 = none)
    (holds : s.Holds slot dev) : ∃ more, Run Step first more
      { s with nextMsi := s.nextMsi + 1, taken := s.taken + 1 } := by
  have found := run.snoc (step_devIrq idle holds)
  have here : (s.setCall 0 (some (.found 0 dev))).calls 0 = some (.found 0 dev) := by simp [setCall]
  -- The state at the end, whichever way the call fails.
  let moved : State := { s with nextMsi := s.nextMsi + 1, taken := s.taken + 1 }
  have quiet : moved.setCall 0 none = moved := setCall_idle idle
  by_cases high : s.nextMsi > MSI_VECTOR_LAST
  · have failed : Step _ (.number 0) ((moved.setCall 0 (some (.found 0 dev))).setCall 0 none) :=
      step_number_none here high
    rw [setCall_setCall, quiet] at failed
    exact ⟨_, found.snoc failed⟩
  · have numbered : Step _ (.number 0) ((moved.setCall 0 (some (.found 0 dev))).setCall 0
        (some (.numbered 0 dev s.nextMsi))) := step_number here high
    rw [setCall_setCall] at numbered
    have failed : Step (moved.setCall 0 (some (.numbered 0 dev s.nextMsi))) (.enable 0 false)
        ((moved.setCall 0 (some (.numbered 0 dev s.nextMsi))).setCall 0 none) := by
      simp [Step, step, setCall]
    rw [setCall_setCall, quiet] at failed
    exact ⟨_, (found.snoc numbered).snoc failed⟩

theorem failing_calls (run : Run Step first actions s) (idle : s.calls 0 = none)
    (holds : s.Holds slot dev) (n : Nat) : ∃ more, Run Step first more
      { s with nextMsi := s.nextMsi + BitVec.ofNat 8 n, taken := s.taken + n } := by
  induction n with
  | zero =>
    refine ⟨actions, ?_⟩
    simpa using run
  | succ n ih =>
    obtain ⟨more, was⟩ := ih
    obtain ⟨more', after⟩ := failing_call was idle holds
    refine ⟨more', ?_⟩
    rw [BitVec.ofNat_add, ← BitVec.add_assoc]
    exact after

def succeed (s : State) (c dev : Nat) : State :=
  let obj : IrqObject := ⟨s.nextMsi, .function dev⟩
  { s.install obj with
    nextMsi := s.nextMsi + 1
    taken := s.taken + 1
    handed := s.handed ++ [obj] }.setCall c (some (.made 0 s.handed.length))

theorem successful_call (run : Run Step first actions s) (idle : s.calls c = none)
    (holds : s.Holds slot dev) (low : ¬s.nextMsi > MSI_VECTOR_LAST) :
    ∃ more, Run Step first more (s.succeed c dev) := by
  have found := run.snoc (step_devIrq idle holds)
  let moved : State := { s with nextMsi := s.nextMsi + 1, taken := s.taken + 1 }
  have numbered : Step (s.setCall c (some (.found 0 dev))) (.number c)
      ((moved.setCall c (some (.found 0 dev))).setCall c (some (.numbered 0 dev s.nextMsi))) :=
    step_number (by simp [setCall]) low
  rw [setCall_setCall] at numbered
  have enabled : Step (moved.setCall c (some (.numbered 0 dev s.nextMsi))) (.enable c true)
      ((moved.setCall c (some (.numbered 0 dev s.nextMsi))).setCall c
        (some (.enabled 0 dev s.nextMsi))) := by
    simp [Step, step, setCall]
  rw [setCall_setCall] at enabled
  have installed : Step (moved.setCall c (some (.enabled 0 dev s.nextMsi))) (.install c)
      (s.succeed c dev) := by
    simp [Step, step, setCall, install, succeed, moved]
  exact ⟨_, ((found.snoc numbered).snoc enabled).snoc installed⟩

end Calls

def twoDevices : CapTable :=
  let rights := Rights.MAP_READ.union .MAP_WRITE
  ⟨[some ⟨.device 1, rights⟩, some ⟨.device 2, rights⟩], [false, false]⟩

theorem two_vectors :
    ∃ actions s, Run (Guarded Few Step) (start fun _ => twoDevices) actions s ∧
      s.handed = [⟨64, .function 1⟩, ⟨66, .function 2⟩] ∧
      (∀ obj ∈ s.handed, 64 ≤ obj.vector.toNat ∧ obj.vector.toNat ≤ 127) ∧
      (s.handed.map IrqObject.vector).Nodup ∧
      ∀ r ∈ s.replaced, r.1.source = r.2.source := by
  refine ⟨[.isa 9 1, .devIrq 0 0 0, .install 9, .devIrq 1 0 1, .number 0, .number 1,
      .enable 1 false, .devIrq 1 0 1, .number 1, .enable 0 true, .enable 1 true, .install 0,
      .install 1, .insertCap 0],
    exists_guarded_of_replay (fun s => s.handed = [⟨64, .function 1⟩, ⟨66, .function 2⟩])
      (by decide +kernel) fun s run handed => ?_⟩
  exact ⟨handed, vectors_exclusive run⟩

/-- Besides the first two, a device without MSI-X. -/
def threeDevices : CapTable :=
  let rights := Rights.MAP_READ.union .MAP_WRITE
  ⟨[some ⟨.device 1, rights⟩, some ⟨.device 2, rights⟩, some ⟨.device 3, rights⟩],
    [false, false, false]⟩

/-- After 256 calls the counter gives vector 64 to another device: vector 0 is handed out, vector
64 twice, and the object of the first device loses its place. -/
theorem vector_handed_out_again :
    ∃ actions s, Run Step (start fun _ => threeDevices) actions s ∧
      s.handed = [⟨64, .function 1⟩, ⟨0, .function 2⟩, ⟨64, .function 2⟩] ∧
      s.replaced = [(⟨64, .function 1⟩, ⟨64, .function 2⟩)] := by
  rcases successful_call (c := 1) .nil rfl (show (start fun _ => threeDevices).Holds 0 1 from rfl)
    (by decide) with ⟨_, first⟩
  obtain ⟨_, second⟩ := failing_calls first rfl (show State.Holds _ 2 3 from rfl) 191
  rcases successful_call (c := 2) second rfl (show State.Holds _ 1 2 from rfl) (by decide) with
    ⟨_, third⟩
  obtain ⟨_, fourth⟩ := failing_calls third rfl (show State.Holds _ 2 3 from rfl) 63
  rcases successful_call (c := 3) fourth rfl (show State.Holds _ 1 2 from rfl) (by decide) with
    ⟨actions, last⟩
  exact ⟨actions, _, last, by decide +kernel, by decide +kernel⟩

end State

end K1K.Arch.Irq
