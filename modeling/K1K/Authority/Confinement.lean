import K1K.Authority.Accounting

/-!
# Authority is confined

Capabilities are followed back, copy by copy; rights do not grow on the way.
-/

namespace K1K.Authority

open K1K.Lib K1K.Obj
open Function (update update_of_ne update_self)

/-! ## Rights along a chain -/

theorem contains_refl (rights : Rights) : rights.contains rights = true := by
  simp [Rights.contains]

theorem contains_trans {a b c : Rights} (first : a.contains b = true)
    (second : b.contains c = true) : a.contains c = true := by
  simp only [Rights.contains, beq_iff_eq] at first second ⊢
  calc a.bits &&& c.bits = (a.bits &&& b.bits) &&& c.bits := by
        rw [BitVec.and_assoc, second]
    _ = c.bits := by rw [first, second]

theorem contains_intersect (rights mask : Rights) :
    rights.contains (rights.intersect mask) = true := by
  simp only [Rights.contains, Rights.intersect, beq_iff_eq, ← BitVec.and_assoc, BitVec.and_self]

def Below (cap origin : Capability) : Prop :=
  origin.object = cap.object ∧ origin.rights.contains cap.rights = true

variable {action : Action} {peer : Nat → Option Nat} {s s' : Kernel}

theorem below_of_copies {s : Kernel} {source place : Place}
    {old cap : Capability} (copied : Copies s action source old place cap) : Below cap old := by
  obtain ⟨mask, -, rfl, -⟩ := copied
  exact ⟨rfl, contains_intersect old.rights mask⟩

/-! ## Tasks without `GRANT` -/

def Kernel.WithoutGrant (s : Kernel) (t : Nat) (object : Object) : Prop :=
  ∀ cap, s.At (.task t .table) cap → cap.object = object → cap.rights.contains .GRANT = false

def Outside (t : Nat) (place : Place) : Prop := place ≠ .task t .table ∧ place ≠ .task t .hand

theorem accounted_outside {t : Nat} {object : Object} (without : s.WithoutGrant t object)
    (ran : s.step peer action = some s') {place : Place} {cap : Capability}
    (eq : cap.object = object) (out : Outside t place) (there : s'.At place cap) :
    s.At place cap ∨ Mints s action place cap ∨
      ∃ source original, s.At source original ∧ original.object = object ∧ Outside t source ∧
        Copies s action source original place cap := by
  rcases accounted_step ran there with old | made | ⟨source, original, at', copied⟩
  · exact .inl old
  · exact .inr (.inl made)
  have object' : original.object = object := (below_of_copies copied).1.trans eq
  refine .inr (.inr ⟨source, original, at', object', ⟨?_, ?_⟩, copied⟩)
  · rintro rfl
    obtain ⟨mask, -, -, granted⟩ := copied
    have none := without original at' object'
    rw [granted t rfl] at none
    simp at none
  · rintro rfl
    obtain ⟨mask, route, -, -⟩ := copied
    cases route
    exact out.1 rfl

/-! ## Objects that stay with a service -/

/-- The place belongs to a task of the service, or is the service's own list. -/
def Kernel.Within (s : Kernel) (idx : Nat) : Place → Prop
  | .task t part => part ≠ .pending ∧ ∃ task, s.tasks t = some task ∧ task.service = some idx
  | .inbox t => ∃ task, s.tasks t = some task ∧ task.service = some idx
  | .grants other => other = idx
  | .queue _ => False

/-- Only the service's tasks can reach the object, and none of them has `GRANT`. -/
structure Kernel.Confined (s : Kernel) (idx : Nat) (object : Object) : Prop where
  known : ∀ id, objectName object = some id → id < s.nextObject
  inside : ∀ place cap, s.At place cap → cap.object = object →
    cap.rights.contains .GRANT = false ∧ s.Within idx place

def Kernel.Numbered (s : Kernel) : Prop := ∀ t, s.nextId ≤ t → s.tasks t = none

structure Successor (s s' : Kernel) : Prop where
  objects : s.nextObject ≤ s'.nextObject
  numbered : s.Numbered → s'.Numbered
  service : s.Numbered → ∀ t task, s.tasks t = some task → ∀ task', s'.tasks t = some task' →
    task'.service = task.service
  emptied : ∀ t task, s.tasks t = some task → s'.tasks t = none → s'.ipc.inbox t = none

theorem Successor.of_tasks (objects : s.nextObject ≤ s'.nextObject)
    (ids : s'.nextId = s.nextId) (eq : s'.tasks = s.tasks) : Successor s s' where
  objects := objects
  numbered numbered t beyond := by
    rw [eq]
    exact numbered t (ids ▸ beyond)
  service _ t task found task' found' := by
    rw [eq, found, Option.some.injEq] at found'
    rw [found']
  emptied t task found gone := by
    rw [eq, found] at gone
    simp at gone

theorem Successor.of_setTask {t : Nat} {task task' : Task}
    (objects : s.nextObject ≤ s'.nextObject) (ids : s'.nextId = s.nextId)
    (found : s.tasks t = some task) (changed : s'.tasks = update s.tasks t (some task'))
    (service : task'.service = task.service) : Successor s s' where
  objects := objects
  numbered numbered u beyond := by
    rw [ids] at beyond
    have ne : u ≠ t := by
      rintro rfl
      simp [numbered u beyond] at found
    rw [changed, update_of_ne ne]
    exact numbered u beyond
  service _ u other found' other' now := by
    rw [changed] at now
    by_cases eq : u = t
    · subst eq
      rw [update_self, Option.some.injEq] at now
      rw [found, Option.some.injEq] at found'
      rw [← now, ← found', service]
    · rw [update_of_ne eq, found', Option.some.injEq] at now
      rw [now]
  emptied u other found' gone := by
    rw [changed] at gone
    by_cases eq : u = t
    · simp [eq] at gone
    · simp [eq, found'] at gone

theorem successor_of_step (ran : s.step peer action = some s') : Successor s s' := by
  cases move_of_step ran with
  | stay | sent | sentCap | wired => exact .of_tasks (Nat.le_refl _) rfl rfl
  | polled found | looked found | resumed found | installed found | dropped found
  | revoked _ found | cleared found | derived found | registered found | exited found =>
    exact .of_setTask (Nat.le_refl _) rfl found rfl rfl
  | minted found _ => exact .of_setTask (Nat.le_succ _) rfl found rfl rfl
  | spawned mem =>
    refine ⟨Nat.le_refl _, fun numbered t beyond => ?_, fun numbered t task found task' now => ?_,
      fun t task found gone => ?_⟩
    · have beyond : s.nextId + 1 ≤ t := beyond
      have ne : t ≠ s.nextId := by omega
      change update s.tasks s.nextId _ t = none
      rw [update_of_ne ne]
      exact numbered t (by omega)
    · have ne : t ≠ s.nextId := by
        rintro rfl
        simp [numbered _ (Nat.le_refl _)] at found
      change update s.tasks s.nextId _ t = some task' at now
      rw [update_of_ne ne, found, Option.some.injEq] at now
      rw [now]
    · change update s.tasks s.nextId _ t = none at gone
      by_cases eq : t = s.nextId
      · simp [eq] at gone
      · simp [eq, found] at gone
  | @reaped t task found =>
    refine ⟨Nat.le_refl _, fun numbered u beyond => ?_,
      fun numbered u other found' other' now => ?_, fun u other found' gone => ?_⟩
    · by_cases eq : u = t
      · subst eq
        simp
      · simpa [eq] using numbered u beyond
    · by_cases eq : u = t
      · subst eq
        simp at now
      · have was : s.tasks u = some other' := by simpa [eq] using now
        rw [found', Option.some.injEq] at was
        rw [was]
    · by_cases eq : u = t
      · simp [eq]
      · simp [eq, found'] at gone

theorem mints_name {s : Kernel} {place : Place} {cap : Capability}
    (mints : Mints s action place cap) : objectName cap.object = some s.nextObject := by
  cases mints <;> rfl

theorem service_of_spawned {idx : Nat} {task : Task}
    (ran : s.step peer (.spawn idx) = some s') (found : s'.tasks s.nextId = some task) :
    task.service = some idx := by
  simp only [Kernel.step, Kernel.spawn] at ran
  split at ran
  next => simp at ran
  next grants _ =>
    cases ran
    have made : (⟨fill grants, some idx, none, [], false⟩ : Task) = task := by
      simpa [Kernel.setTask, Kernel.update] using found
    rw [← made]

theorem Kernel.Confined.step
    {idx : Nat} {object : Object} (confined : s.Confined idx object) (numbered : s.Numbered)
    (ran : s.step peer action = some s') : s'.Confined idx object := by
  have next := successor_of_step ran
  have stays : ∀ {t task task'}, s.tasks t = some task → task.service = some idx →
      s'.tasks t = some task' → task'.service = some idx := fun found service found' =>
    (next.service numbered _ _ found _ found').trans service
  refine ⟨fun id named => Nat.lt_of_lt_of_le (confined.known id named) next.objects, ?_⟩
  intro place cap there eq
  rcases accounted_step ran there with old | made | ⟨source, original, at', copied⟩
  · obtain ⟨without, within⟩ := confined.inside place cap old eq
    refine ⟨without, ?_⟩
    cases place with
    | task t part =>
      obtain ⟨kind, task, found, service⟩ := within
      obtain ⟨task', found', -⟩ := there
      exact ⟨kind, task', found', stays found service found'⟩
    | inbox t =>
      obtain ⟨task, found, service⟩ := within
      obtain ⟨msg, held, -⟩ := there
      cases found' : s'.tasks t with
      | none => simp [next.emptied t task found found'] at held
      | some task' => exact ⟨task', found', stays found service found'⟩
    | grants | queue => exact within
  · have named := mints_name made
    rw [eq] at named
    exact absurd (confined.known _ named) (Nat.lt_irrefl _)
  · have object' : original.object = object := (below_of_copies copied).1.trans eq
    obtain ⟨without, within⟩ := confined.inside source original at' object'
    obtain ⟨mask, route, rfl, granted⟩ := copied
    have held : ∀ {t}, source ≠ .task t .table := by
      rintro t rfl
      rw [granted t rfl] at without
      simp at without
    cases route with
    | queued | handed | derived => exact absurd rfl held
    | polled | taken => exact absurd within id
    | kept => exact absurd rfl within.1
    | resumed =>
      obtain ⟨task, found, service⟩ := within
      obtain ⟨task', found', has⟩ := there
      exact ⟨by simpa [intersect_all] using without, by simp, task', found',
        stays found service found'⟩
    | installed =>
      obtain ⟨-, task, found, service⟩ := within
      obtain ⟨task', found', has⟩ := there
      exact ⟨by simpa [intersect_all] using without, by simp, task', found',
        stays found service found'⟩
    | started =>
      obtain ⟨task', found', has⟩ := there
      have service := service_of_spawned ran found'
      rw [within] at service
      exact ⟨by simpa [intersect_all] using without, by simp, task', found', service⟩

/-! ## Whole runs -/

theorem numbered_of_run {boot : List (List Capability)} {s : Kernel} {actions : List Action}
    (run : Run (fun s a t => s.step peer a = some t) (.start boot) actions s) : s.Numbered :=
  run.invariant Kernel.Numbered (fun _ _ => rfl) fun _ _ _ numbered ran =>
    (successor_of_step ran).numbered numbered

theorem Kernel.Confined.run {actions : List Action}
    {idx : Nat} {object : Object} (confined : s.Confined idx object) (numbered : s.Numbered)
    (run : Run (fun s a t => s.step peer a = some t) s actions s') : s'.Confined idx object :=
  (run.invariant (fun s => s.Confined idx object ∧ s.Numbered) ⟨confined, numbered⟩
    fun _ _ _ inv ran =>
      ⟨inv.1.step inv.2 ran, (successor_of_step ran).numbered inv.2⟩).1

/-- Every capability goes back to a boot-time grant or to the one made with its object, by copies
that only cut rights down and leave a table only with `GRANT`; a task that never holds `GRANT` on
an object is on nobody else's way to it; and an object that one service holds without `GRANT`
never gets to a task of another. -/
theorem authority_confined (peer : Nat → Option Nat) (boot : List (List Capability)) {s : Kernel}
    {actions : List Action}
    (run : Run (fun s a t => s.step peer a = some t) (.start boot) actions s) :
    (∀ place cap, s.At place cap →
      Obtained (authority peer) (.start boot) (fun _ => True) actions s place cap) ∧
    (∀ place cap, s.At place cap → ∃ origin, (authority peer).Origin (.start boot) origin ∧
      origin.object = cap.object ∧ origin.rights.contains cap.rights = true) ∧
    (∀ t object, Run (Guarded (fun s _ => s.WithoutGrant t object)
        fun s a t => s.step peer a = some t) (.start boot) actions s →
      ∀ place cap, s.At place cap → cap.object = object → Outside t place →
        Obtained (authority peer) (.start boot) (Outside t) actions s place cap) ∧
    ∀ idx object, s.Confined idx object → ∀ later s',
      Run (fun s a t => s.step peer a = some t) s later s' →
      ∀ t task, s'.tasks t = some task → task.service ≠ some idx →
        ∀ cap ∈ task.caps.iter, cap.object ≠ object := by
  have unguarded : Run (Guarded (fun _ _ => True) (authority peer).step) (.start boot) actions s :=
    run.mono fun _ _ _ ran => ⟨trivial, ran⟩
  have obtained : ∀ place cap, s.At place cap →
      Obtained (authority peer) (.start boot) (fun _ => True) actions s place cap := by
    intro place cap there
    refine Obtained.of_run (fun _ => True) ?_ unguarded there trivial trivial
    intro was action after _ ran place cap _ _ there
    rcases accounted_step ran there with old | made | ⟨source, original, at', copied⟩
    · exact .inl old
    · exact .inr (.inl made)
    · exact .inr (.inr ⟨source, original, at', trivial, trivial, copied⟩)
  refine ⟨obtained, ?_, ?_, ?_⟩
  · intro place cap there
    rcases (obtained place cap there).bounded Below
      (fun cap => ⟨rfl, contains_refl cap.rights⟩)
      (fun a b c first second =>
        ⟨second.1.trans first.1, contains_trans second.2 first.2⟩)
      (fun _ _ _ _ _ _ copied => below_of_copies copied) with ⟨origin, from', below⟩
    exact ⟨origin, from', below⟩
  · intro t object guarded place cap there eq out
    refine Obtained.of_run (fun cap => cap.object = object) ?_ guarded there eq out
    intro was action after without ran place cap eq out there
    exact accounted_outside without ran eq out there
  · intro idx object confined later s' continued t task found other cap held eq
    have held := (confined.run (numbered_of_run run) continued).inside (.task t .table) cap
      ⟨task, found, held⟩ eq
    obtain ⟨-, task', found', service⟩ := held.2
    rw [found, Option.some.injEq] at found'
    exact other (found' ▸ service)

theorem authority_confined_after_send :
    ∃ s : Kernel, Run (fun s a t => s.step (fun _ => none) a = some t)
      (.start [[⟨.endpoint 0, Rights.SEND.union .GRANT⟩], [⟨.endpoint 0, .RECV⟩]])
      [.spawn 0, .spawn 1, .sendCap 1 0 0 .SEND 5 0, .tryRecv 2 0, .install 2] s ∧
    s.At (.task 2 .table) ⟨.endpoint 0, .SEND⟩ ∧
    Obtained (authority fun _ => none)
      (.start [[⟨.endpoint 0, Rights.SEND.union .GRANT⟩], [⟨.endpoint 0, .RECV⟩]]) (fun _ => True)
      [.spawn 0, .spawn 1, .sendCap 1 0 0 .SEND 5 0, .tryRecv 2 0, .install 2] s
      (.task 2 .table) ⟨.endpoint 0, .SEND⟩ := by
  refine exists_of_replay (fun s =>
    (s.tasks 2).any fun task => decide (⟨.endpoint 0, .SEND⟩ ∈ task.caps.iter)) (by decide +kernel)
    fun s run found => ?_
  obtain ⟨task, mem, held⟩ := exists_of_any found
  have there : s.At (.task 2 .table) ⟨.endpoint 0, .SEND⟩ := ⟨task, mem, held⟩
  exact ⟨there, (authority_confined _ _ run).1 _ _ there⟩

end K1K.Authority
