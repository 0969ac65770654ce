import K1K.Supervisor.Services

/-!
# No service is forgotten

The supervisor takes a service's dead task off the reap list once. From then on the service is
in its hands, through the update, the delay and the call of `spawn`. A call that returns `None`
is only reported, and nothing leads to another.
-/

namespace K1K.Supervisor

open K1K.Lib
open Function (update_of_ne update_self)

def Place.pending : Place → Option Nat
  | .delaying idx _ => some idx
  | .spawning phase => some phase.standing.1
  | _ => none

namespace State

variable {s s' : State}

def Listed (s : State) : Prop := ∀ idx, s.place.pending = some idx → idx < s.services.length

theorem advance_services {phase : Phase} {r : State} {after : Option Phase}
    (moved : s.advance phase = some (r, after)) : r.services.length = s.services.length ∧
      ∀ next, after = some next → next.standing.1 = phase.standing.1 := by
  cases advances_of_advance moved with
  | known | reserve | publish => exact ⟨rfl, fun next eq => by cases eq; rfl⟩
  | unknown => exact ⟨rfl, fun next eq => by cases eq⟩
  | record => exact ⟨List.length_set, fun next eq => by cases eq⟩

theorem advance_codes {phase : Phase} {r : State} {after : Option Phase}
    (moved : s.advance phase = some (r, after)) : r.codes = s.codes := by
  cases advances_of_advance moved <;> rfl

theorem Listed.step (mem : s.Listed) {action : Action} (moves : s.Moves action s') :
    s'.Listed := by
  have free : ∀ {r : State}, r.place.pending = none → r.Listed := by
    intro r none idx pending
    simp [none] at pending
  cases moves with
  | full | abandon | thread | exit | leave => exact mem
  | register =>
    intro idx pending
    change idx < (s.services ++ [ServiceState.new]).length
    rw [List.length_append]
    exact Nat.lt_add_right _ (mem idx pending)
  | @spawn call c phase r after _ _ moved =>
    have place := (advance_frame moved).2
    have length := (advance_services moved).1
    intro idx pending
    cases after with
    | some | none => exact length ▸ mem idx (place ▸ pending)
  | rest | reap | skip | finish | fail | wake => exact free rfl
  | restart _ found _ _ =>
    intro other pending
    have eq := Option.some.inj pending
    subst eq
    change _ < (s.services.set _ _).length
    rw [List.length_set]
    exact (List.getElem?_eq_some_iff.mp found).1
  | proceed place =>
    intro other pending
    exact mem other (by rw [place]; exact pending)
  | @respawn phase r after place moved =>
    cases after with
    | none => exact free rfl
    | some next =>
      obtain ⟨length, eq⟩ := advance_services moved
      intro other pending
      refine length ▸ mem other ?_
      rw [place, ← pending]
      exact congrArg some (eq next rfl).symm

/-- The supervisor has the end of this task of the service in hand, or is about to start
the service again. -/
def Handling (s : State) (idx id : Nat) : Prop :=
  match s.place with
  | .reaped service code => service = some idx ∧ s.codes id = some code
  | .delaying other _ => other = idx
  | .spawning phase => phase.standing = (idx, .absent)
  | _ => False

theorem handling_of_eq {idx id : Nat} (place : s'.place = s.place) (codes : s'.codes = s.codes)
    (handled : s.Handling idx id) : s'.Handling idx id := by
  rw [Handling, place, codes]
  exact handled

structure Tended (s : State) : Prop where
  known : ∀ id task, s.tasks id = some task → task.exitCode = s.codes id
  dead : ∀ id task, s.tasks id = some task → task.away = true → task.exitCode.isSome = true
  tended : ∀ idx id, s.last idx = some id →
    s.Runs id idx ∨ s.codes id = some 0 ∨ s.Handling idx id

def Respawning (_ : State) (action : Action) : Prop := action ≠ .fail

instance respawningDecidable (s : State) (action : Action) : Decidable (s.Respawning action) :=
  inferInstanceAs (Decidable (_ ≠ _))

namespace Tended

theorem keep (tended : s.Tended) (tasks : s'.tasks = s.tasks) (codes : s'.codes = s.codes)
    (last : s'.last = s.last)
    (handling : ∀ idx id, s.Handling idx id → s'.codes id = some 0 ∨ s'.Handling idx id) :
    s'.Tended where
  known := by
    rw [tasks, codes]
    exact tended.known
  dead := by
    rw [tasks]
    exact tended.dead
  tended idx id made := by
    rcases tended.tended idx id (last ▸ made) with runs | zero | handled
    · exact .inl (by rwa [Runs, tasks])
    · exact .inr (.inl (by rwa [codes]))
    · exact .inr (handling idx id handled)

theorem make (tended : s.Tended) {id : Nat} {service : Option Nat} (unused : s.Unused id)
    (tasks : s'.tasks = Function.update s.tasks id (some ⟨service, none, false⟩))
    (codes : s'.codes = s.codes)
    (history : ∀ idx id', s'.last idx = some id' → (id' = id ∧ service = some idx) ∨
      (s.last idx = some id' ∧ (s.Handling idx id' → s'.Handling idx id'))) : s'.Tended := by
  have other : ∀ id' task, s'.tasks id' = some task →
      (id' = id ∧ task = ⟨service, none, false⟩) ∨ s.tasks id' = some task := by
    intro id' task found
    rw [tasks] at found
    by_cases eq : id' = id
    · subst eq
      rw [update_self, Option.some.injEq] at found
      exact .inl ⟨rfl, found.symm⟩
    · rw [update_of_ne eq] at found
      exact .inr found
  refine ⟨fun id' task found => ?_, fun id' task found away => ?_, fun idx id' made => ?_⟩
  · rw [codes]
    rcases other id' task found with ⟨rfl, rfl⟩ | before
    · exact unused.2.symm
    · exact tended.known id' task before
  · rcases other id' task found with ⟨-, rfl⟩ | before
    · simp at away
    · exact tended.dead id' task before away
  · rcases history idx id' made with ⟨rfl, belongs⟩ | ⟨before, handling⟩
    · exact .inl ⟨_, by rw [tasks, update_self], belongs⟩
    rcases tended.tended idx id' before with ⟨task, found, belongs⟩ | zero | handled
    · refine .inl ⟨task, ?_, belongs⟩
      rw [tasks, update_of_ne, found]
      rintro rfl
      simp [unused.1] at found
    · exact .inr (.inl (by rwa [codes]))
    · exact .inr (.inr (handling handled))

theorem advance (tended : s.Tended) (ids : s.Ids) {o : Option Nat} {phase : Phase} {r : State}
    {after : Option Phase} (reserved : s.reserves o = phase.reserve)
    (moved : s.advance phase = some (r, after)) (tasks : s'.tasks = r.tasks)
    (codes : s'.codes = r.codes) (last : s'.last = r.last) (handling : ∀ idx id, s.Handling idx id →
      s'.Handling idx id ∨ ∃ id', phase = .building idx id') : s'.Tended := by
  have quiet : (∀ idx id, phase ≠ .building idx id) → r.tasks = s.tasks → r.codes = s.codes →
      r.last = s.last → s'.Tended := by
    intro other tasks' codes' last'
    refine tended.keep (tasks.trans tasks') (codes.trans codes') (last.trans last') ?_
    intro idx id handled
    rcases handling idx id handled with now | ⟨id', building⟩
    · exact .inr now
    · exact absurd building (other idx id')
  cases advances_of_advance moved with
  | known | unknown | reserve | record => exact quiet (by simp) rfl rfl rfl
  | @publish idx id =>
    have mine : (id, ()) ∈ s.reserves o := by simp [reserved, Phase.reserve]
    refine tended.make (ids.fresh.true_of mine).2 tasks codes fun i id' made => ?_
    have last : s'.last = Function.update s.last idx (some id) := last
    rw [last] at made
    by_cases eq : i = idx
    · subst eq
      rw [update_self, Option.some.injEq] at made
      exact .inl ⟨made.symm, rfl⟩
    rw [update_of_ne eq] at made
    refine .inr ⟨made, fun handled => (handling i id' handled).resolve_right ?_⟩
    rintro ⟨other, building⟩
    cases building
    exact eq rfl

theorem alter (tended : s.Tended) {id : Nat} {task task' : Task} (found : s.tasks id = some task)
    (tasks : s'.tasks = Function.update s.tasks id (some task'))
    (service : task'.service = task.service) (known : task'.exitCode = s'.codes id)
    (dead : task'.away = true → task'.exitCode.isSome = true)
    (codes : ∀ id', id' ≠ id → s'.codes id' = s.codes id')
    (kept : ∀ id' code, s.codes id' = some code → s'.codes id' = some code)
    (last : s'.last = s.last) (place : s'.place = s.place) : s'.Tended := by
  have there : s'.tasks id = some task' := by rw [tasks, update_self]
  have other : ∀ id', id' ≠ id → s'.tasks id' = s.tasks id' := fun id' ne => by
    rw [tasks, update_of_ne ne]
  refine ⟨fun id' t now => ?_, fun id' t now away => ?_, fun idx id' made => ?_⟩
  · by_cases eq : id' = id
    · subst eq
      rw [there, Option.some.injEq] at now
      exact now ▸ known
    · rw [other id' eq] at now
      rw [codes id' eq]
      exact tended.known id' t now
  · by_cases eq : id' = id
    · subst eq
      rw [there, Option.some.injEq] at now
      exact now ▸ dead (now ▸ away)
    · rw [other id' eq] at now
      exact tended.dead id' t now away
  · rcases tended.tended idx id' (last ▸ made) with ⟨t, was, belongs⟩ | zero | handled
    · by_cases eq : id' = id
      · subst eq
        rw [found, Option.some.injEq] at was
        exact .inl ⟨task', there, service.trans (was ▸ belongs)⟩
      · exact .inl ⟨t, (other id' eq).trans was, belongs⟩
    · exact .inr (.inl (kept id' 0 zero))
    · refine .inr (.inr ?_)
      unfold Handling at handled ⊢
      rw [place]
      split at handled
      next => exact ⟨handled.1, kept id' _ handled.2⟩
      next => exact handled
      next => exact handled
      next => exact handled.elim

theorem reap (tended : s.Tended) {id : Nat} {task : Task} (polling : s.place = .polling)
    (found : s.tasks id = some task) (away : task.away = true) : (s.reaped id task).Tended := by
  have fewer : ∀ id' t, (s.reaped id task).tasks id' = some t → s.tasks id' = some t := by
    intro id' t now
    change Function.update s.tasks id none id' = some t at now
    by_cases eq : id' = id
    · simp [eq] at now
    · rwa [update_of_ne eq] at now
  refine ⟨fun id' t now => tended.known id' t (fewer id' t now),
    fun id' t now => tended.dead id' t (fewer id' t now), fun idx id' made => ?_⟩
  rcases tended.tended idx id' made with ⟨t, was, belongs⟩ | zero | handled
  · by_cases eq : id' = id
    · subst eq
      rw [found, Option.some.injEq] at was
      subst was
      obtain ⟨code, ended⟩ := Option.isSome_iff_exists.mp (tended.dead id' task found away)
      refine .inr (.inr ⟨belongs, ?_⟩)
      change s.codes id' = some (task.exitCode.getD 0)
      rw [← tended.known id' task found, ended, Option.getD_some]
    · refine .inl ⟨t, ?_, belongs⟩
      change Function.update s.tasks id none id' = some t
      rw [update_of_ne eq, was]
  · exact .inr (.inl zero)
  · rw [Handling, polling] at handled
    exact handled.elim

theorem resume (tended : s.Tended) {place : Place} (idle : ∀ idx id, ¬s.Handling idx id) :
    ({ s with place := place } : State).Tended :=
  tended.keep rfl rfl rfl fun idx id handled => absurd handled (idle idx id)

theorem respawn (tended : s.Tended) (ids : s.Ids) (mem : s.Listed) {phase : Phase} {r : State}
    {after : Option Phase} (place : s.place = .spawning phase)
    (moved : s.advance phase = some (r, after)) : (r.respawned after).Tended := by
  have reserved : s.reserves none = phase.reserve := by simp [reserves, place, Place.reserves]
  refine tended.advance ids reserved moved rfl rfl rfl fun idx id handled => ?_
  rw [Handling, place] at handled
  cases advances_of_advance moved with
  | known | reserve => exact .inl handled
  | unknown out => exact absurd (mem _ (by rw [place]; rfl)) out
  | @publish i id' =>
    have eq : i = idx := congrArg Prod.fst handled
    exact .inr ⟨id', by rw [eq]⟩
  | record => simp [Phase.standing] at handled

theorem step (tended : s.Tended) (ids : s.Ids) (mem : s.Listed) {action : Action}
    (respawning : s.Respawning action) (moves : s.Moves action s') : s'.Tended := by
  cases moves with
  | full => exact tended
  | register | abandon => exact tended.keep rfl rfl rfl fun _ _ handled => .inr handled
  | @spawn call c phase r after found pos moved =>
    have place := (advance_frame moved).2
    have reserved : s.reserves (some call) = phase.reserve := by
      simp [reserves, found, Caller.reserves, pos]
    have codes : r.codes = s.codes := advance_codes moved
    have eq : ∀ c' idx id, s.Handling idx id → (r.setCaller call c').Handling idx id :=
      fun c' idx id handled => handling_of_eq place codes handled
    cases after with
    | some | none =>
      exact tended.advance ids reserved moved rfl rfl rfl
        fun idx id handled => .inl (eq _ idx id handled)
  | thread =>
    exact tended.make (ids.born s.nextId (Nat.le_refl _)) rfl rfl fun _ _ made => .inr ⟨made, id⟩
  | @exit id code task found alive =>
    have unset : s.codes id = none := (tended.known id task found).symm.trans alive
    refine tended.alter found rfl rfl ?_ (fun _ => rfl)
      (fun id' ne => update_of_ne ne _ _) (fun id' code' set => ?_) rfl rfl
    · exact (update_self id (some code) s.codes).symm
    change Function.update s.codes id (some code) id' = some code'
    rw [update_of_ne, set]
    rintro rfl
    simp [unset] at set
  | @leave id task found dead =>
    have known : task.exitCode = s.codes id := tended.known id task found
    exact tended.alter found rfl rfl known (fun _ => dead) (fun _ _ => rfl) (fun _ _ set => set)
      rfl rfl
  | rest place | wake place =>
    refine tended.resume fun _ _ handled => ?_
    rw [Handling, place] at handled
    exact handled
  | reap place _ found away => exact tended.reap place found away
  | skip place =>
    refine tended.resume fun _ _ handled => ?_
    rw [Handling, place] at handled
    simp at handled
  | finish place _ =>
    refine tended.keep rfl rfl rfl fun _ _ handled => .inl ?_
    rw [Handling, place] at handled
    exact handled.2
  | restart place _ _ _ =>
    refine tended.keep rfl rfl rfl fun _ _ handled => .inr ?_
    rw [Handling, place] at handled
    exact Option.some.inj handled.1
  | proceed place =>
    refine tended.keep rfl rfl rfl fun _ _ handled => .inr ?_
    rw [Handling, place] at handled
    rw [← handled]
    rfl
  | respawn place moved => exact tended.respawn ids mem place moved
  | fail _ => exact absurd rfl respawning

end Tended

theorem tended_start (embedded : Nat) : (start embedded).Tended where
  known _ _ found := by simp [start] at found
  dead _ _ found := by simp [start] at found
  tended _ _ made := by simp [start] at made

theorem tended_of_run {embedded : Nat} {actions : List Action}
    (run : Run (Guarded Respawning fun s action s' => s.step action = some s') (start embedded)
      actions s) : s.Tended := by
  have all : s.Ids ∧ s.Listed ∧ s.Tended := by
    apply run.invariant (fun s => s.Ids ∧ s.Listed ∧ s.Tended)
    · exact ⟨ids_start embedded, fun _ pending => by simp [start, Place.pending] at pending,
        tended_start embedded⟩
    · rintro s action s' ⟨ids, mem, tended⟩ ⟨respawning, ran⟩
      have moves := moves_of_step ran
      exact ⟨ids.step moves, mem.step moves, tended.step ids mem respawning moves⟩
  exact all.2.2

/-- Where no call of `spawn` by the supervisor fails, a service whose last task ended with a code
other than 0 has a task whenever the supervisor rests. -/
theorem failed_service_has_a_task (embedded : Nat) {actions : List Action} {s : State}
    (run : Run (Guarded Respawning fun s action s' => s.step action = some s') (start embedded)
      actions s) (resting : s.place = .resting) {idx id : Nat} {code : Int}
    (last : s.last idx = some id) (ended : s.codes id = some code) (nonzero : code ≠ 0) :
    ∃ id' task, s.tasks id' = some task ∧ task.service = some idx := by
  rcases (tended_of_run run).tended idx id last with runs | zero | handled
  · exact ⟨id, runs⟩
  · rw [ended, Option.some.injEq] at zero
    exact absurd zero nonzero
  · rw [Handling, resting] at handled
    exact handled.elim

/-- The service crashes, is restarted as task 2 and crashes again; the supervisor rests
while task 2 is still on its CPU. -/
def crashing : List Action :=
  [.spawn 0, .spawn 0, .spawn 0, .spawn 0, .exit 1 (-1), .leave 1, .takeDead, .update, .proceed,
    .respawn, .respawn, .respawn, .respawn, .exit 2 (-1), .takeDead]

theorem crashed_service_has_a_task : ∃ s : State,
    Run (Guarded Respawning fun s action s' => s.step action = some s') (start 1) crashing s ∧
    s.place = .resting ∧ s.last 0 = some 2 ∧ s.codes 2 = some (-1) ∧
    ∃ id' task, s.tasks id' = some task ∧ task.service = some 0 := by
  refine exists_guarded_of_replay
    (fun s => s.place = .resting ∧ s.last 0 = some 2 ∧ s.codes 2 = some (-1)) (by decide +kernel) ?_
  rintro s run ⟨resting, last, ended⟩
  exact ⟨resting, last, ended, failed_service_has_a_task 1 run resting last ended (by decide)⟩

def OfSupervisor (_ : State) (action : Action) : Prop :=
  action ∈ [Action.takeDead, .update, .proceed, .respawn, .fail, .wake]

structure Deserted (s : State) : Prop where
  tasks : ∀ id, s.tasks id = none
  place : s.place = .resting ∨ s.place = .polling

theorem Deserted.step (deserted : s.Deserted) {action : Action}
    (mine : s.OfSupervisor action) (moves : s.Moves action s') : s'.Deserted := by
  have ne : ∀ {place : Place}, s.place = place → place ≠ .resting → place ≠ .polling →
      False := by
    rintro place rfl notResting notPolling
    rcases deserted.place with resting | polling
    · exact notResting resting
    · exact notPolling polling
  cases moves with
  | rest _ => exact ⟨deserted.tasks, .inl rfl⟩
  | wake _ => exact ⟨deserted.tasks, .inr rfl⟩
  | reap _ _ found _ =>
    rw [deserted.tasks] at found
    simp at found
  | skip place | finish place | restart place | proceed place | respawn place | fail place =>
    exact (ne place (by simp) (by simp)).elim
  | _ => simp [OfSupervisor] at mine

def abandoned : List Action :=
  [.spawn 0, .spawn 0, .spawn 0, .spawn 0, .exit 1 (-1), .leave 1, .takeDead, .update, .proceed,
    .respawn, .respawn, .fail, .takeDead]

/-- The supervisor rests, the service has no task, and whatever the supervisor does
without another event, it never gets one. -/
theorem service_abandoned : ∃ s : State,
    Run (fun s action s' => s.step action = some s') (start 1) abandoned s ∧
    s.place = .resting ∧ s.last 0 = some 1 ∧ s.codes 1 = some (-1) ∧
    ∀ actions s', Run (Guarded OfSupervisor fun s action s' => s.step action = some s') s
      actions s' → ∀ id, s'.tasks id = none := by
  refine exists_of_replay (fun s => s.nextId = 3 ∧ (∀ id ∈ List.range 3, s.tasks id = none) ∧
    s.place = .resting ∧ s.last 0 = some 1 ∧ s.codes 1 = some (-1)) (by decide +kernel) ?_
  rintro s run ⟨next, early, resting, last, ended⟩
  have tasks : ∀ id, s.tasks id = none := by
    intro id
    by_cases small : id < 3
    · exact early id (List.mem_range.mpr small)
    · exact ((ids_of_run run).born id (by omega)).1
  refine ⟨resting, last, ended, fun actions s' later => ?_⟩
  have deserted : s'.Deserted := by
    apply later.invariant Deserted ⟨tasks, .inl resting⟩
    rintro s action s' deserted ⟨mine, ran⟩
    exact deserted.step mine (moves_of_step ran)
  exact deserted.tasks

end State

end K1K.Supervisor
