import K1K.Authority.Confinement

/-!
# Spawn grants in the tables of a service's tasks

A task starts with its service's grants in the first slots of its table. The ledger keeps, for
every task, the slots that still hold them; the revocations that took one with `Control`; and
the receipts of `spawn_desc`, filled in word by word after the new task is runnable.
-/

namespace K1K.Authority

open K1K.Lib K1K.Obj K1K.Syscall
open Function (update update_of_ne update_self)

theorem getElem?_map_some_ne_none (caps : List Capability) (i : Nat) :
    (caps.map some)[i]? ≠ some none := by
  rw [List.getElem?_map]
  cases caps[i]? <;> simp

theorem fill_slots (grants : List Capability) :
    (fill grants).slots = (grants.take MAX_SLOTS).map some ∧
      (fill grants).revoked = List.replicate (fill grants).slots.length false := by
  unfold fill
  induction grants using List.reverseRecOn with
  | nil => simp [CapTable.new]
  | append_singleton rest last ih =>
    rw [List.foldl_append]
    generalize rest.foldl (fun table cap => (table.insert cap).2) CapTable.new = table at *
    obtain ⟨slots, flags⟩ := ih
    change (table.insert last).2.slots = _ ∧
      (table.insert last).2.revoked = List.replicate (table.insert last).2.slots.length false
    obtain ⟨i, res, inRange, empty, -⟩ | ⟨res, -, full⟩ | ⟨res, -, room⟩ :=
      table.insert_cases last
    · rw [slots] at empty
      exact absurd empty (getElem?_map_some_ne_none _ _)
    · have long : MAX_SLOTS ≤ rest.length := by
        rw [slots] at full
        simp only [List.length_map, List.length_take] at full
        omega
      rw [res, List.take_append_of_le_length long]
      exact ⟨slots, flags⟩
    · have short : rest.length < MAX_SLOTS := by
        rw [slots] at room
        simp only [List.length_map, List.length_take] at room
        omega
      rw [List.take_of_length_le (by omega)] at slots
      rw [res, List.take_of_length_le (by simp; omega), flags, slots]
      exact ⟨by simp, by simp [List.replicate_succ']⟩

theorem fill_wellFormed (grants : List Capability) : (fill grants).WellFormed := by
  unfold fill
  induction grants using List.reverseRecOn with
  | nil => exact CapTable.new_wellFormed
  | append_singleton rest last ih =>
    rw [List.foldl_append]
    exact ih.insert last

theorem get_fill {grants : List Capability} {slot : Nat}
    (inRange : slot < (fill grants).slotCount) :
    ∃ cap, grants[slot]? = some cap ∧ (fill grants).get slot = some cap := by
  rw [CapTable.slotCount, (fill_slots grants).1] at inRange
  simp only [List.length_map, List.length_take] at inRange
  have inGrants : slot < grants.length := by omega
  refine ⟨grants[slot], List.getElem?_eq_getElem inGrants, ?_⟩
  rw [CapTable.get_eq_some_iff, (fill_slots grants).1]
  simp only [List.getElem?_map, List.getElem?_take, show slot < MAX_SLOTS by omega, if_true,
    List.getElem?_eq_getElem inGrants, Option.map_some]

def slotOfGrant (grants : List Capability) (i : Nat) : Option Nat :=
  (grants[i]?).bind fun cap => ((fill (grants.take i)).insert cap).1

theorem slotOfGrant_eq {grants : List Capability} {i : Nat} (inRange : i < grants.length)
    (room : i < MAX_SLOTS) : slotOfGrant grants i = some i := by
  have table : (fill (grants.take i)).slots.length = i := by
    rw [(fill_slots _).1]
    simp only [List.length_map, List.length_take]
    omega
  rw [slotOfGrant, List.getElem?_eq_getElem inRange]
  change ((fill (grants.take i)).insert grants[i]).1 = some i
  obtain ⟨j, -, -, empty, -⟩ | ⟨-, -, full⟩ | ⟨res, -, -⟩ :=
    (fill (grants.take i)).insert_cases grants[i]
  · rw [(fill_slots _).1] at empty
    exact absurd empty (getElem?_map_some_ne_none _ _)
  · omega
  · rw [res, table]

/-! ## The ledger -/

/-- A slot of a service's task, still holding its grant, that a task with `Control` has revoked.
Tasks started later have numbers from `since` on. -/
structure Revocation where
  service : Nat
  grant : Nat
  victim : Nat
  since : Nat
  deriving DecidableEq, Repr

/-- The receipt of one `spawn_desc` call, with the words after the first that
`write_receipt` has computed so far; `none` is `u64::MAX`. -/
structure Receipt where
  task : Nat
  grants : List Capability
  words : List (Option Nat)
  deriving DecidableEq, Repr

structure Ledger where
  kernel : Kernel
  intact : Nat → List Nat
  revocations : List Revocation
  receipts : List Receipt

inductive Event where
  | act (action : Action)
  | spawnDesc (service : Nat)
  | word (call : Nat)

def Kernel.clears (s : Kernel) : Action → Nat → Nat → Bool
  | .capDrop t slot, u, j => decide (u = t) && decide (j = Machine.slotOf slot)
  | .capRevoke t victim slot, u, j =>
    s.mayRevoke t victim && decide (u = victim) && decide (j = Machine.slotOf slot)
  | .reap t, u, _ => decide (u = t)
  | _, _, _ => false

namespace Ledger

def start (boot : List (List Capability)) : Ledger := ⟨.start boot, fun _ => [], [], []⟩

variable (l : Ledger)

def intactAfter : Action → Nat → List Nat
  | .spawn idx => update l.intact l.kernel.nextId
      (List.range (fill (l.kernel.services.getD idx [])).slotCount)
  | action => fun u => (l.intact u).filter fun j => !l.kernel.clears action u j

def revocation : Action → Option Revocation
  | .capRevoke t victim slot =>
    match l.kernel.ready t, (l.kernel.tasks victim).bind (·.service) with
    | some task, some idx =>
      if task.caps.hasControl && (l.intact victim).contains (Machine.slotOf slot) then
        some ⟨idx, Machine.slotOf slot, victim, l.kernel.nextId⟩
      else none
    | _, _ => none
  | _ => none

def act (peer : Nat → Option Nat) (action : Action) : Option Ledger :=
  match l.kernel.step peer action with
  | none => none
  | some kernel => some { l with
      kernel := kernel
      intact := l.intactAfter action
      revocations := l.revocations ++ (l.revocation action).toList }

/-- One turn of the loop of `write_receipt`, an access to the task table of its own. -/
def writeWord (call : Nat) : Option Ledger :=
  match l.receipts[call]? with
  | none => none
  | some r =>
    if r.words.length < r.grants.length then
      let word := (l.kernel.tasks r.task).bind fun task => task.caps.slotAt r.words.length
      some { l with receipts := l.receipts.set call { r with words := r.words ++ [word] } }
    else none

/-- `spawn` as `spawn_desc` calls it, for a service of at most `MAX_SPAWN_GRANTS`
grants; the receipt is still to be computed. -/
def spawnDesc (peer : Nat → Option Nat) (idx : Nat) : Option Ledger :=
  match l.kernel.services[idx]? with
  | none => none
  | some grants =>
    if grants.length ≤ MAX_SPAWN_GRANTS then
      (l.act peer (.spawn idx)).map fun next =>
        { next with receipts := next.receipts ++ [⟨l.kernel.nextId, grants, []⟩] }
    else none

def step (peer : Nat → Option Nat) (l : Ledger) : Event → Option Ledger
  | .act action => l.act peer action
  | .spawnDesc idx => l.spawnDesc peer idx
  | .word call => l.writeWord call

/-- A task of a service that has the object of one of the service's grants in the slot it was
given the grant in. -/
def HoldsThrough (t idx j : Nat) : Prop :=
  j ∈ l.intact t ∧ ∃ task grants cap, l.kernel.tasks t = some task ∧ task.service = some idx ∧
    l.kernel.services[idx]? = some grants ∧ grants[j]? = some cap ∧ task.caps.get j = some cap

end Ledger

/-! ## What a step does to a table -/

/-- One call on the table of task `u`, or none. -/
inductive Edit (s : Kernel) (action : Action) (u : Nat) (caps : CapTable) : CapTable → Prop where
  | same : Edit s action u caps caps
  | insert (cap : Capability) : Edit s action u caps (caps.apply (.insert cap))
  | remove {slot : Nat} : action = .capDrop u slot →
      Edit s action u caps (caps.apply (.remove (Machine.slotOf slot)))
  | revoke {t slot : Nat} : action = .capRevoke t u slot → s.mayRevoke t u = true →
      Edit s action u caps (caps.apply (.revoke (Machine.slotOf slot)))

namespace Edit

variable {s : Kernel} {action : Action} {u : Nat} {caps caps' : CapTable}

theorem wellFormed (edit : Edit s action u caps caps') (wf : caps.WellFormed) :
    caps'.WellFormed := by
  cases edit with
  | same => exact wf
  | insert | remove | revoke => exact wf.apply _

theorem tombstone (edit : Edit s action u caps caps') {slot : Nat}
    (flagged : caps.revoked[slot]? = some true) : caps'.revoked[slot]? = some true := by
  cases edit with
  | same => exact flagged
  | insert | remove | revoke => exact CapTable.apply_keeps_tombstone flagged _

theorem held (edit : Edit s action u caps caps') {slot : Nat} {cap : Capability}
    (held : caps.get slot = some cap) (uncleared : s.clears action u slot = false) :
    caps'.get slot = some cap := by
  cases edit with
  | same => exact held
  | insert new => exact CapTable.get_insert_of_get held new
  | @remove named dropped =>
    subst dropped
    have ne : Machine.slotOf named ≠ slot := by
      rintro rfl
      simp [Kernel.clears] at uncleared
    exact (CapTable.get_remove_of_ne ne).trans held
  | @revoke t named revoked allowed =>
    subst revoked
    have ne : Machine.slotOf named ≠ slot := by
      rintro rfl
      simp [Kernel.clears, allowed] at uncleared
    exact (CapTable.get_revoke_of_ne ne).trans held

end Edit

/-- What becomes of a task in a step: it is reaped, or keeps its service and has
its table edited. -/
def Continues (s s' : Kernel) (action : Action) (u : Nat) (task : Task) : Prop :=
  (action = .reap u ∧ s'.tasks u = none) ∨
    ∃ task', s'.tasks u = some task' ∧ task'.service = task.service ∧
      Edit s action u task.caps task'.caps

variable {action : Action} {s s' : Kernel} {task : Task} {peer : Nat → Option Nat}

theorem continues_of_setTask {t u : Nat} {old new task : Task}
    (changed : s'.tasks = update s.tasks t (some new)) (there : s.tasks t = some old)
    (service : new.service = old.service) (edit : Edit s action t old.caps new.caps)
    (found : s.tasks u = some task) : Continues s s' action u task := by
  by_cases eq : u = t
  · subst eq
    rw [there, Option.some.injEq] at found
    subst found
    exact .inr ⟨new, by rw [changed, update_self], service, edit⟩
  · exact .inr ⟨task, by rw [changed, update_of_ne eq, found], rfl, .same⟩

theorem continues_of_step {u : Nat} (numbered : s.Numbered) (ran : s.step peer action = some s')
    (found : s.tasks u = some task) : Continues s s' action u task := by
  cases move_of_step ran with
  | stay | sent | sentCap | wired => exact .inr ⟨task, found, rfl, .same⟩
  | polled there | looked there | resumed there | cleared there | derived there
  | registered there | exited there => exact continues_of_setTask rfl there rfl .same found
  | installed there | minted there => exact continues_of_setTask rfl there rfl (.insert _) found
  | dropped there => exact continues_of_setTask rfl there rfl (.remove rfl) found
  | revoked may there => exact continues_of_setTask rfl there rfl (.revoke rfl may) found
  | spawned =>
    have ne : u ≠ s.nextId := by
      rintro rfl
      simp [numbered _ (Nat.le_refl _)] at found
    exact .inr ⟨task, (update_of_ne ne _ _).trans found, rfl, .same⟩
  | @reaped t old there =>
    by_cases eq : u = t
    · subst eq
      exact .inl ⟨rfl, by simp⟩
    · exact .inr ⟨task, by simpa [eq] using found, rfl, .same⟩

theorem spawned_of_step {u : Nat} (ran : s.step peer action = some s') (absent : s.tasks u = none)
    (found : s'.tasks u = some task) :
    ∃ idx grants, action = .spawn idx ∧ u = s.nextId ∧ s.services[idx]? = some grants ∧
      task = ⟨fill grants, some idx, none, [], false⟩ := by
  have unchanged : ∀ {t : Nat} {old new : Task}, s.tasks t = some old →
      update s.tasks t (some new) u = some task → False := by
    intro t old new there now
    by_cases eq : u = t
    · subst eq
      rw [absent] at there
      simp at there
    · rw [update_of_ne eq, absent] at now
      simp at now
  have here : s'.tasks = s.tasks → False := by
    intro eq
    rw [eq, absent] at found
    simp at found
  cases move_of_step ran with
  | stay | sent | sentCap | wired => exact (here rfl).elim
  | polled there | looked there | resumed there | installed there | dropped there
  | revoked _ there | minted there | cleared there | derived there | registered there
  | exited there =>
    exact (unchanged there found).elim
  | @spawned idx grants mem =>
    by_cases eq : u = s.nextId
    · subst eq
      change update s.tasks s.nextId _ s.nextId = some task at found
      rw [update_self, Option.some.injEq] at found
      exact ⟨idx, grants, rfl, rfl, mem, found.symm⟩
    · change update s.tasks s.nextId _ u = some task at found
      rw [update_of_ne eq, absent] at found
      simp at found
  | @reaped t old there =>
    by_cases eq : u = t
    · simp [eq] at found
    · simp [eq, absent] at found

theorem services_of_step (ran : s.step peer action = some s') {idx : Nat} {grants : List Capability}
    (mem : s.services[idx]? = some grants) : s'.services[idx]? = some grants := by
  cases move_of_step ran with
  | registered there =>
    have inRange : idx < s.services.length := (List.getElem?_eq_some_iff.mp mem).1
    change (s.services ++ [_])[idx]? = some grants
    rw [List.getElem?_append_left inRange, mem]
  | _ => exact mem

theorem nextId_le_of_step (ran : s.step peer action = some s') : s.nextId ≤ s'.nextId := by
  cases move_of_step ran with
  | spawned _ => exact Nat.le_succ _
  | _ => exact Nat.le_refl _

theorem revoked_of_control {t victim slot : Nat}
    {task other : Task} (ready : s.ready t = some task) (control : task.caps.hasControl = true)
    (there : s.tasks victim = some other) (ran : s.step peer (.capRevoke t victim slot) = some s') :
    s' = s.setTask victim { other with
      caps := (other.caps.revoke (Machine.slotOf slot)).2 } := by
  simpa [Kernel.step, Kernel.sysCapRevoke, ready, control, there, eq_comm] using ran

/-! ## The ledger is right -/

namespace Ledger

structure Sound (l : Ledger) : Prop where
  numbered : l.kernel.Numbered
  tables : ∀ t task, l.kernel.tasks t = some task → task.caps.WellFormed
  held : ∀ t, ∀ j ∈ l.intact t, ∃ idx, l.HoldsThrough t idx j
  withdrawn : ∀ r ∈ l.revocations, r.victim < l.kernel.nextId ∧
    ∀ task, l.kernel.tasks r.victim = some task → task.caps.revoked[r.grant]? = some true

theorem start_sound (boot : List (List Capability)) : (start boot).Sound where
  numbered _ _ := rfl
  tables _ _ found := by simp [start, Kernel.start] at found
  held _ _ listed := by simp [start] at listed
  withdrawn _ listed := by simp [start] at listed

variable {peer : Nat → Option Nat} {l l' : Ledger}

variable {action : Action}

theorem act_eq_some (acted : l.act peer action = some l') :
    ∃ kernel, l.kernel.step peer action = some kernel ∧
      l' = { l with
        kernel := kernel
        intact := l.intactAfter action
        revocations := l.revocations ++ (l.revocation action).toList } := by
  unfold act at acted
  split at acted
  next => simp at acted
  next kernel ran => exact ⟨kernel, ran, (Option.some.inj acted).symm⟩

theorem mem_intactAfter {t j : Nat} (mem : j ∈ l.intactAfter action t) :
    (∃ idx, action = .spawn idx ∧ t = l.kernel.nextId ∧
      j < (fill (l.kernel.services.getD idx [])).slotCount) ∨
    (j ∈ l.intact t ∧ l.kernel.clears action t j = false) := by
  unfold intactAfter at mem
  split at mem
  next idx =>
    by_cases eq : t = l.kernel.nextId
    · subst eq
      rw [update_self, List.mem_range] at mem
      exact .inl ⟨idx, rfl, rfl, mem⟩
    · rw [update_of_ne eq] at mem
      exact .inr ⟨mem, rfl⟩
  next => exact .inr (by simpa using mem)

theorem holdsThrough_of_spawn {idx j : Nat} {kernel : Kernel}
    (ran : l.kernel.step peer (.spawn idx) = some kernel)
    (inRange : j < (fill (l.kernel.services.getD idx [])).slotCount) :
    ∃ task grants cap, kernel.tasks l.kernel.nextId = some task ∧ task.service = some idx ∧
      kernel.services[idx]? = some grants ∧ grants[j]? = some cap ∧
      task.caps.get j = some cap := by
  have stepped' := ran
  simp only [Kernel.step, Kernel.spawn] at stepped'
  split at stepped'
  next => simp at stepped'
  next grants mem =>
    rw [List.getD_eq_getElem?_getD, mem, Option.getD_some] at inRange
    obtain ⟨cap, granted, held⟩ := get_fill inRange
    refine ⟨⟨fill grants, some idx, none, [], false⟩, grants, cap, ?_, rfl,
      services_of_step ran mem, granted, held⟩
    cases stepped'
    exact update_self ..

theorem revocation_eq_some {r : Revocation} (revoked : l.revocation action = some r) :
    ∃ t slot task other, action = .capRevoke t r.victim slot ∧ l.kernel.ready t = some task ∧
      task.caps.hasControl = true ∧ l.kernel.tasks r.victim = some other ∧
      other.service = some r.service ∧ r.grant = Machine.slotOf slot ∧
      r.grant ∈ l.intact r.victim ∧ r.since = l.kernel.nextId := by
  unfold revocation at revoked
  split at revoked
  next t victim slot =>
    split at revoked
    next task idx ready belongs =>
      split at revoked
      next both =>
        cases revoked
        obtain ⟨other, there, service⟩ := Option.bind_eq_some_iff.mp belongs
        simp only [Bool.and_eq_true, List.contains_eq_mem, decide_eq_true_eq] at both
        exact ⟨t, slot, task, other, rfl, ready, both.1, there, service, rfl, both.2, rfl⟩
      next => simp at revoked
    next => simp at revoked
  next => simp at revoked

theorem Sound.act (sound : l.Sound) (acted : l.act peer action = some l') : l'.Sound := by
  obtain ⟨kernel, ran, rfl⟩ := act_eq_some acted
  refine ⟨(successor_of_step ran).numbered sound.numbered, fun t task found => ?_,
    fun t j mem => ?_, fun r mem => ?_⟩
  · cases was : l.kernel.tasks t with
    | none =>
      obtain ⟨idx, grants, -, -, -, rfl⟩ := spawned_of_step ran was found
      exact fill_wellFormed grants
    | some old =>
      rcases continues_of_step sound.numbered ran was with ⟨-, gone⟩ | ⟨now, there, -, edit⟩
      · simp [gone] at found
      · have eq : now = task := Option.some.inj (there.symm.trans found)
        exact eq ▸ edit.wellFormed (sound.tables t old was)
  · rcases mem_intactAfter mem with ⟨idx, rfl, rfl, inRange⟩ | ⟨was, uncleared⟩
    · exact ⟨idx, mem, holdsThrough_of_spawn ran inRange⟩
    rcases sound.held t j was with ⟨idx, -, task, grants, cap, found, service, known, granted,
      held⟩
    rcases continues_of_step sound.numbered ran found with ⟨rfl, -⟩ | ⟨now, there, kept, edit⟩
    · simp [Kernel.clears] at uncleared
    · exact ⟨idx, mem, now, grants, cap, there, kept.trans service,
        services_of_step ran known, granted, edit.held held uncleared⟩
  · rcases List.mem_append.mp mem with was | now
    · obtain ⟨earlier, flagged⟩ := sound.withdrawn r was
      refine ⟨Nat.lt_of_lt_of_le earlier (nextId_le_of_step ran), fun task found => ?_⟩
      cases known : l.kernel.tasks r.victim with
      | none =>
        obtain ⟨-, -, -, fresh, -⟩ := spawned_of_step ran known found
        omega
      | some old =>
        rcases continues_of_step sound.numbered ran known with ⟨-, gone⟩ | ⟨now, there, -, edit⟩
        · simp [gone] at found
        · have eq : now = task := Option.some.inj (there.symm.trans found)
          exact eq ▸ edit.tombstone (flagged old known)
    · rcases revocation_eq_some (Option.mem_toList.mp now) with ⟨t, slot, caller, other, rfl, ready,
        control, there, -, named, intact, -⟩
      obtain ⟨-, -, task, -, cap, found, -, -, -, held⟩ := sound.held _ _ intact
      rw [there, Option.some.injEq] at found
      subst found
      have earlier : r.victim < l.kernel.nextId := by
        by_contra beyond
        simp [sound.numbered r.victim (by omega)] at there
      refine ⟨Nat.lt_of_lt_of_le earlier (nextId_le_of_step ran), fun task found => ?_⟩
      rw [revoked_of_control ready control there ran] at found
      change update l.kernel.tasks r.victim _ r.victim = some task at found
      rw [update_self, Option.some.injEq] at found
      subst found
      rw [named] at held ⊢
      exact ((sound.tables _ _ there).revoke_held held).2

theorem spawnDesc_eq_some {idx : Nat} (spawned : l.spawnDesc peer idx = some l') :
    ∃ grants next, l.kernel.services[idx]? = some grants ∧ grants.length ≤ MAX_SPAWN_GRANTS ∧
      l.act peer (.spawn idx) = some next ∧
      l' = { next with receipts := next.receipts ++ [⟨l.kernel.nextId, grants, []⟩] } := by
  unfold spawnDesc at spawned
  split at spawned
  next => simp at spawned
  next grants mem =>
    split at spawned
    next few =>
      obtain ⟨next, acted, rfl⟩ := Option.map_eq_some_iff.mp spawned
      exact ⟨grants, next, mem, few, acted, rfl⟩
    next => simp at spawned

theorem writeWord_eq_some {call : Nat} (written : l.writeWord call = some l') :
    ∃ r, l.receipts[call]? = some r ∧ r.words.length < r.grants.length ∧
      l' = { l with receipts := l.receipts.set call { r with
        words := r.words ++
          [(l.kernel.tasks r.task).bind fun task => task.caps.slotAt r.words.length] } } := by
  unfold writeWord at written
  split at written
  next => simp at written
  next r found =>
    split at written
    next more => exact ⟨r, found, more, (Option.some.inj written).symm⟩
    next => simp at written

theorem Sound.step {event : Event} (sound : l.Sound) (ran : l.step peer event = some l') :
    l'.Sound := by
  cases event with
  | act action => exact sound.act ran
  | spawnDesc idx =>
    obtain ⟨grants, next, -, -, acted, rfl⟩ := spawnDesc_eq_some ran
    obtain ⟨numbered, tables, held, withdrawn⟩ := sound.act acted
    exact ⟨numbered, tables, held, withdrawn⟩
  | word call =>
    obtain ⟨r, -, -, rfl⟩ := writeWord_eq_some ran
    exact ⟨sound.numbered, sound.tables, sound.held, sound.withdrawn⟩

theorem sound_of_run {boot : List (List Capability)} {events : List Event}
    (run : Run (fun l event l' => l.step peer event = some l') (start boot) events l) : l.Sound :=
  run.invariant Sound (start_sound boot) fun _ _ _ sound ran => sound.step ran

end Ledger

end K1K.Authority
