import K1K.Supervisor.Model

/-!
# The service table

Callers of `spawn` and the supervisor hold the services they are busy with; a service that
nobody holds has exactly the task that its entry names. As long as the supervisor reaps no task
whose id is still to be written, every service has at most one holder.
-/

namespace K1K.Supervisor

open K1K.Lib
open Function (update_of_ne update_eq_self)

inductive Standing where
  | absent
  | published (id : Nat)
  | reaped

def Phase.standing : Phase → Nat × Standing
  | .entered idx => (idx, .absent)
  | .read idx => (idx, .absent)
  | .building idx _ => (idx, .absent)
  | .published idx id => (idx, .published id)

def Phase.reserve : Phase → List (Nat × Unit)
  | .building _ id => [(id, ())]
  | _ => []

def Phase.unrecorded : Phase → Option Nat
  | .published _ id => some id
  | _ => none

def Phase.Unbegun : Phase → Prop
  | .entered _ => True
  | _ => False

instance unbegunDecidable (phase : Phase) : Decidable phase.Unbegun := by
  unfold Phase.Unbegun
  split <;> infer_instance

theorem Phase.Unbegun.standing {phase : Phase} (unbegun : phase.Unbegun) :
    phase.standing.2 = .absent := by
  cases phase with
  | entered idx => rfl
  | _ => exact unbegun.elim

def Caller.standings (c : Caller) : List (Nat × Standing) :=
  (c.phase.map Phase.standing).toList ++ c.rest.map (·, .absent)

def Caller.reserves (c : Caller) : List (Nat × Unit) := (c.phase.map Phase.reserve).getD []

def Place.standings : Place → List (Nat × Standing)
  | .reaped (some idx) _ => [(idx, .reaped)]
  | .delaying idx _ => [(idx, .absent)]
  | .spawning phase => [phase.standing]
  | _ => []

def Place.reserves : Place → List (Nat × Unit)
  | .spawning phase => phase.reserve
  | _ => []

@[simp] theorem Caller.standings_next (c : Caller) :
    c.next.standings = c.rest.map (·, .absent) := by
  unfold Caller.next
  split
  next none => simp [Caller.standings, none]
  next idx rest some => simp [Caller.standings, some, Phase.standing]

@[simp] theorem Caller.reserves_next (c : Caller) : c.next.reserves = [] := by
  unfold Caller.next
  split <;> rfl

namespace State

variable {s s' : State}

def Runs (s : State) (id idx : Nat) : Prop :=
  ∃ task, s.tasks id = some task ∧ task.service = some idx

def entry (s : State) (idx : Nat) : Option (Option Nat) := (s.services[idx]?).map (·.task)

def CoherentAt (s : State) (idx : Nat) : Prop :=
  ∀ task, s.entry idx = some task → ∀ id, s.Runs id idx ↔ task = some id

def Fits (s : State) (standing : Standing) (idx : Nat) : Prop :=
  match standing with
  | .absent => (∀ id, ¬s.Runs id idx) ∧ s.entry idx = some none
  | .published id => (∀ id', s.Runs id' idx ↔ id' = id) ∧ s.entry idx = some none
  | .reaped => (∀ id, ¬s.Runs id idx) ∧ (s.entry idx).isSome = true

def holds (s : State) : Option Nat → List (Nat × Standing)
  | none => s.place.standings
  | some call => ((s.callers[call]?).map Caller.standings).getD []

def reserves (s : State) : Option Nat → List (Nat × Unit)
  | none => s.place.reserves
  | some call => ((s.callers[call]?).map Caller.reserves).getD []

def Unused (s : State) (id : Nat) : Prop := s.tasks id = none ∧ s.codes id = none

structure Ids (s : State) : Prop where
  born : ∀ id, s.nextId ≤ id → s.Unused id
  fresh : Held (fun _ id => id < s.nextId ∧ s.Unused id) s.reserves

structure Inv (s : State) : Prop where
  held : Held s.Fits s.holds
  settled : ∀ idx, Unheld s.holds idx → s.CoherentAt idx
  belongs : ∀ id idx, s.Runs id idx → (s.entry idx).isSome = true

def Unaffected (s s' : State) (idx : Nat) : Prop :=
  (∀ id, s'.Runs id idx ↔ s.Runs id idx) ∧ s'.entry idx = s.entry idx

variable {idx : Nat} {c : Caller}

theorem Unaffected.fits {standing : Standing} (eq : Unaffected s s' idx)
    (fits : s.Fits standing idx) : s'.Fits standing idx := by
  cases standing with
  | absent => exact ⟨fun id runs => fits.1 id ((eq.1 id).mp runs), eq.2.trans fits.2⟩
  | published id => exact ⟨fun id' => (eq.1 id').trans (fits.1 id'), eq.2.trans fits.2⟩
  | reaped =>
    refine ⟨fun id runs => fits.1 id ((eq.1 id).mp runs), ?_⟩
    rw [eq.2]
    exact fits.2

theorem Unaffected.coherent (eq : Unaffected s s' idx)
    (coherent : s.CoherentAt idx) : s'.CoherentAt idx := by
  intro task found id
  rw [eq.1 id]
  exact coherent task (eq.2 ▸ found) id

theorem Fits.entry {standing : Standing} (fits : s.Fits standing idx) :
    (s.entry idx).isSome = true := by
  cases standing with
  | absent | published => rw [fits.2, Option.isSome_some]
  | reaped => exact fits.2

theorem coherentAt_of_absent (fits : s.Fits .absent idx) : s.CoherentAt idx := by
  intro task found id
  rw [fits.2, Option.some.injEq] at found
  subst found
  exact iff_of_false (fits.1 id) (by simp)

namespace Inv

/-- One holder moves on: what it holds now is its own, what it gives up is in order, and
nothing else is affected. -/
theorem carry (inv : s.Inv) {o : Option Nat} {list : List (Nat × Standing)}
    (shape : s'.holds = Function.update s.holds o list) (once : (names list).Nodup)
    (own : ∀ idx ∈ names list, ∀ o', idx ∈ names (s.holds o') → o' = o)
    (new : ∀ entry ∈ list, s'.Fits entry.2 entry.1)
    (freed : ∀ idx ∈ names (s.holds o), idx ∉ names list → s'.CoherentAt idx)
    (others : ∀ idx, idx ∉ names list → idx ∉ names (s.holds o) → Unaffected s s' idx)
    (belongs : ∀ id idx, s'.Runs id idx → (s'.entry idx).isSome = true) : s'.Inv := by
  have kept : ∀ o', o' ≠ o → ∀ idx ∈ names (s.holds o'), Unaffected s s' idx := by
    intro o' other idx mem
    refine others idx (fun listed => ?_) fun mine => ?_
    · exact other (own idx listed o' mem)
    · exact other (inv.held.unique mem mine)
  refine ⟨?_, fun idx unheld => ?_, belongs⟩
  · rw [shape]
    exact inv.held.put once own
      (fun o' other entry mem => (kept o' other _ (mem_names mem)).fits) new
  rw [shape] at unheld
  have unlisted : idx ∉ names list := by simpa using unheld o
  by_cases mine : idx ∈ names (s.holds o)
  · exact freed idx mine unlisted
  refine (others idx unlisted mine).coherent (inv.settled idx fun o' mem => ?_)
  by_cases eq : o' = o
  · exact mine (eq ▸ mem)
  · exact unheld o' (by rwa [update_of_ne eq])

theorem frame (inv : s.Inv) (shape : s'.holds = s.holds) (others : ∀ idx, Unaffected s s' idx) :
    s'.Inv where
  held := by
    rw [shape]
    exact inv.held.mono fun _ entry _ => (others entry.1).fits
  settled idx unheld := by
    rw [shape] at unheld
    exact (others idx).coherent (inv.settled idx unheld)
  belongs id idx runs := by
    rw [(others idx).2]
    exact inv.belongs id idx (((others idx).1 id).mp runs)

theorem turn (inv : s.Inv) {o : Option Nat} {list : List (Nat × Standing)}
    (shape : s'.holds = Function.update s.holds o list)
    (within : (names list).Sublist (names (s.holds o)))
    (new : ∀ entry ∈ list, s'.Fits entry.2 entry.1)
    (freed : ∀ idx ∈ names (s.holds o), idx ∉ names list → s'.CoherentAt idx)
    (others : ∀ idx, idx ∉ names (s.holds o) → Unaffected s s' idx)
    (known : ∀ idx ∈ names (s.holds o), (s'.entry idx).isSome = true) : s'.Inv := by
  refine inv.carry shape ((inv.held.once o).sublist within)
    (fun idx listed o' mem => inv.held.unique mem (within.subset listed)) new freed
    (fun idx _ => others idx) fun id idx runs => ?_
  by_cases mine : idx ∈ names (s.holds o)
  · exact known idx mine
  · rw [(others idx mine).2]
    exact inv.belongs id idx (((others idx mine).1 id).mp runs)

end Inv

theorem unaffected_of_eq (tasks : s'.tasks = s.tasks)
    (services : s'.services = s.services) : Unaffected s s' idx := by
  refine ⟨fun id => ?_, ?_⟩
  · rw [Runs, Runs, tasks]
  · rw [entry, entry, services]

theorem runs_setTask {id idx id' : Nat} {task : Option Task}
    (tasks : s'.tasks = Function.update s.tasks id task) :
    s'.Runs id' idx ↔
      if id' = id then ∃ t, task = some t ∧ t.service = some idx else s.Runs id' idx := by
  rw [Runs, tasks]
  by_cases eq : id' = id
  · subst eq
    simp
  · simp [eq, Runs]

theorem entry_set {idx other : Nat} {st : ServiceState}
    (services : s'.services = s.services.set idx st) (known : idx < s.services.length) :
    s'.entry other = if other = idx then some st.task else s.entry other := by
  rw [entry, services]
  by_cases eq : other = idx
  · subst eq
    simp [known]
  · simp [eq, entry, List.getElem?_set_ne (Ne.symm eq)]

theorem lt_of_entry (known : (s.entry idx).isSome = true) :
    idx < s.services.length := by
  simpa [entry] using known

namespace Inv

variable {o : Option Nat} {phase : Phase} {rest : List (Nat × Standing)}

/-- A step of `spawn` that changes neither tasks nor services: the holder keeps what it
knows, or has returned without having started anything. -/
theorem stay (inv : s.Inv) {list : List (Nat × Standing)}
    (tasks : s'.tasks = s.tasks) (services : s'.services = s.services)
    (shape : s'.holds = Function.update s.holds o list) (within : list.Sublist (s.holds o))
    (absent : ∀ entry ∈ s.holds o, entry ∉ list → entry.2 = .absent) : s'.Inv := by
  have eq : ∀ idx, Unaffected s s' idx := fun idx => unaffected_of_eq tasks services
  refine inv.turn shape (within.map _)
    (fun entry listed => (eq _).fits (inv.held.true_of (within.subset listed)))
    (fun idx mine gone => ?_) (fun idx _ => eq idx) (fun idx mine => ?_)
  · obtain ⟨entry, mem, rfl⟩ := List.mem_map.mp mine
    have fits := inv.held.true_of mem
    rw [absent entry mem fun listed => gone (mem_names listed)] at fits
    exact (eq _).coherent (coherentAt_of_absent fits)
  · obtain ⟨entry, mem, rfl⟩ := List.mem_map.mp mine
    rw [(eq _).2]
    exact (inv.held.true_of mem).entry

theorem publish (inv : s.Inv) {idx id : Nat} (unused : s.tasks id = none)
    (pos : s.holds o = (idx, .absent) :: rest)
    (tasks : s'.tasks = Function.update s.tasks id (some ⟨some idx, none, false⟩))
    (services : s'.services = s.services)
    (shape : s'.holds = Function.update s.holds o ((idx, .published id) :: rest)) : s'.Inv := by
  have first : (idx, Standing.absent) ∈ s.holds o := by simp [pos]
  have known : s.Fits .absent idx := inv.held.true_of first
  have entries : ∀ other, s'.entry other = s.entry other := fun other => by
    rw [entry, entry, services]
  have other : ∀ {i}, i ≠ idx → Unaffected s s' i := by
    intro i different
    refine ⟨fun id' => ?_, entries i⟩
    rw [runs_setTask tasks]
    by_cases eq : id' = id
    · subst eq
      simp [Runs, unused, Ne.symm different]
    · rw [if_neg eq]
  have ne : idx ∉ names rest := by
    have once := inv.held.once o
    rw [pos] at once
    exact (List.nodup_cons.mp once).1
  refine inv.turn shape (by simp [pos]) (fun entry mem => ?_)
    (fun i mine gone => absurd (by simpa [pos] using mine) gone)
    (fun i out => other fun eq => ?_) (fun i mine => ?_)
  · rcases List.mem_cons.mp mem with rfl | member
    · refine ⟨fun id' => ?_, (entries idx).trans known.2⟩
      rw [runs_setTask tasks]
      by_cases eq : id' = id
      · simp [eq]
      · simp [eq, known.1 id']
    · have was : entry ∈ s.holds o := by simp [pos, member]
      refine (other fun eq => ?_).fits (inv.held.true_of was)
      exact ne (eq ▸ mem_names member)
  · exact out (by simp [pos, eq])
  · obtain ⟨entry, member, rfl⟩ := List.mem_map.mp mine
    rw [entries]
    exact (inv.held.true_of member).entry

theorem record (inv : s.Inv) {idx id : Nat} {st : ServiceState}
    (pos : s.holds o = (idx, .published id) :: rest)
    (found : s.services[idx]? = some st) (tasks : s'.tasks = s.tasks)
    (services : s'.services = s.services.set idx { st with task := some id })
    (shape : s'.holds = Function.update s.holds o rest) : s'.Inv := by
  have first : (idx, Standing.published id) ∈ s.holds o := by simp [pos]
  have known : s.Fits (.published id) idx := inv.held.true_of first
  have inRange : idx < s.services.length := (List.getElem?_eq_some_iff.mp found).1
  have entries : ∀ other, s'.entry other = if other = idx then some (some id) else s.entry other :=
    fun other => entry_set services inRange
  have runs : ∀ id' i, s'.Runs id' i ↔ s.Runs id' i := fun id' i => by rw [Runs, Runs, tasks]
  have other : ∀ {i}, i ≠ idx → Unaffected s s' i := fun different =>
    ⟨fun id' => runs id' _, by rw [entries, if_neg different]⟩
  have ne : idx ∉ names rest := by
    have once := inv.held.once o
    rw [pos] at once
    exact (List.nodup_cons.mp once).1
  refine inv.turn shape (by simp [pos]) (fun entry mem => ?_)
    (fun i mine gone => ?_) (fun i out => other fun eq => ?_) (fun i mine => ?_)
  · have was : entry ∈ s.holds o := by simp [pos, mem]
    refine (other fun eq => ?_).fits (inv.held.true_of was)
    exact ne (eq ▸ mem_names mem)
  · have eq : i = idx := by
      simp only [pos, names, List.map_cons, List.mem_cons] at mine
      exact mine.resolve_right gone
    subst eq
    intro task named id'
    rw [entries, if_pos rfl, Option.some.injEq] at named
    rw [runs, known.1 id', ← named, Option.some.injEq, eq_comm]
  · exact out (by simp [pos, eq])
  · rw [entries]
    split
    · rfl
    · obtain ⟨entry, mem, rfl⟩ := List.mem_map.mp mine
      exact (inv.held.true_of mem).entry

theorem advance (inv : s.Inv) (ids : s.Ids) {r : State} {after : Option Phase}
    (pos : s.holds o = phase.standing :: rest) (reserve : s.reserves o = phase.reserve)
    (moved : s.advance phase = some (r, after)) (tasks : s'.tasks = r.tasks)
    (services : s'.services = r.services)
    (shape : s'.holds = Function.update s.holds o ((after.map Phase.standing).toList ++ rest)) :
    s'.Inv := by
  cases advances_of_advance moved with
  | known | reserve =>
    refine inv.stay tasks services shape (by rw [pos]; exact .refl _) ?_
    intro entry mem gone
    exact absurd (by rwa [pos] at mem) gone
  | unknown =>
    refine inv.stay tasks services shape (by rw [pos]; exact List.sublist_cons_self ..) ?_
    intro entry mem gone
    rw [pos] at mem
    rw [(List.mem_cons.mp mem).resolve_right gone]
    rfl
  | @publish idx id =>
    have mine : (id, ()) ∈ s.reserves o := by simp [reserve, Phase.reserve]
    exact inv.publish (ids.fresh.true_of mine).2.1 pos tasks services shape
  | record found => exact inv.record pos found tasks services shape

end Inv

/-! ## The steps -/

theorem holds_of_caller {call : Nat} (place : s'.place = s.place)
    (callers : s'.callers = s.callers.set call c) (known : call < s.callers.length) :
    s'.holds = Function.update s.holds (some call) c.standings := by
  funext o
  cases o with
  | none => simp [holds, place]
  | some other =>
    by_cases eq : other = call
    · subst eq
      simp [holds, callers, known]
    · simp [holds, callers, eq, List.getElem?_set_ne (Ne.symm eq)]

theorem reserves_of_caller {call : Nat} (place : s'.place = s.place)
    (callers : s'.callers = s.callers.set call c) (known : call < s.callers.length) :
    s'.reserves = Function.update s.reserves (some call) c.reserves := by
  funext o
  cases o with
  | none => simp [reserves, place]
  | some other =>
    by_cases eq : other = call
    · subst eq
      simp [reserves, callers, known]
    · simp [reserves, callers, eq, List.getElem?_set_ne (Ne.symm eq)]

theorem holds_of_place (callers : s'.callers = s.callers) :
    s'.holds = Function.update s.holds none s'.place.standings := by
  funext o
  cases o with
  | none => simp [holds]
  | some call => simp [holds, callers]

theorem reserves_of_place (callers : s'.callers = s.callers) :
    s'.reserves = Function.update s.reserves none s'.place.reserves := by
  funext o
  cases o with
  | none => simp [reserves]
  | some call => simp [reserves, callers]

theorem holds_eq (standings : s'.place.standings = s.place.standings)
    (callers : s'.callers = s.callers) : s'.holds = s.holds := by
  rw [holds_of_place callers, standings]
  exact update_eq_self none s.holds

theorem reserves_eq (reserved : s'.place.reserves = s.place.reserves)
    (callers : s'.callers = s.callers) : s'.reserves = s.reserves := by
  rw [reserves_of_place callers, reserved]
  exact update_eq_self none s.reserves

theorem reserves_of_register (place : s'.place = s.place)
    (callers : s'.callers = s.callers ++ [⟨some (.entered idx), []⟩]) :
    s'.reserves = s.reserves := by
  funext o
  cases o with
  | none => simp [reserves, place]
  | some call =>
    rcases Nat.lt_trichotomy call s.callers.length with old | rfl | beyond
    · simp [reserves, callers, List.getElem?_append_left old]
    · simp [reserves, callers, Caller.reserves, Phase.reserve]
    · simp [reserves, callers, List.getElem?_eq_none (Nat.le_of_lt beyond),
        List.getElem?_append_right (Nat.le_of_lt beyond), Nat.sub_ne_zero_of_lt beyond]

theorem advance_frame {phase : Phase} {r : State} {after : Option Phase}
    (moved : s.advance phase = some (r, after)) :
    r.callers = s.callers ∧ r.place = s.place := by
  cases advances_of_advance moved <;> exact ⟨rfl, rfl⟩

/-! ## Ids -/

namespace Ids

variable {o : Option Nat} {phase : Phase}

theorem keep (ids : s.Ids) (reserves : s'.reserves = s.reserves) (next : s.nextId ≤ s'.nextId)
    (unused : ∀ id, s.Unused id → (id < s.nextId ∨ s'.nextId ≤ id) → s'.Unused id) :
    s'.Ids where
  born id late := unused id (ids.born id (Nat.le_trans next late)) (.inr late)
  fresh := by
    rw [reserves]
    exact ids.fresh.mono fun _ entry _ known =>
      ⟨Nat.lt_of_lt_of_le known.1 next, unused entry.1 known.2 (.inl known.1)⟩

theorem release (ids : s.Ids) (reserves : s'.reserves = Function.update s.reserves o [])
    (next : s'.nextId = s.nextId)
    (unused : ∀ id, s.Unused id → id ∉ names (s.reserves o) → s'.Unused id) : s'.Ids where
  born id late := by
    refine unused id (ids.born id (next ▸ late)) fun mine => ?_
    obtain ⟨entry, mem, rfl⟩ := List.mem_map.mp mine
    have early := (ids.fresh.true_of mem).1
    omega
  fresh := by
    rw [reserves]
    refine ids.fresh.put List.nodup_nil (by simp) (fun o' other entry mem known => ?_) (by simp)
    refine ⟨next ▸ known.1, unused entry.1 known.2 fun mine => ?_⟩
    exact other (ids.fresh.unique (mem_names mem) mine)

theorem reserve (ids : s.Ids)
    (reserves : s'.reserves = Function.update s.reserves o [(s.nextId, ())])
    (tasks : s'.tasks = s.tasks) (codes : s'.codes = s.codes) (next : s'.nextId = s.nextId + 1) :
    s'.Ids := by
  have eq : ∀ id, s.Unused id → s'.Unused id := fun id unused => by
    rwa [Unused, tasks, codes]
  refine ⟨fun id late => eq id (ids.born id (by omega)), ?_⟩
  rw [reserves]
  refine ids.fresh.put (by simp) (fun id listed o' mem => ?_)
    (fun o' _ entry _ known => ⟨by omega, eq _ known.2⟩) (fun entry listed => ?_)
  · have new : id = s.nextId := by simpa using listed
    obtain ⟨entry, reserved, rfl⟩ := List.mem_map.mp mem
    have old := (ids.fresh.true_of reserved).1
    omega
  · rw [List.mem_singleton.mp listed]
    exact ⟨by simp [next], eq _ (ids.born _ (Nat.le_refl _))⟩

theorem advance (ids : s.Ids) {r : State} {after : Option Phase}
    (reserved : s.reserves o = phase.reserve) (moved : s.advance phase = some (r, after))
    (tasks : s'.tasks = r.tasks) (codes : s'.codes = r.codes) (next : s'.nextId = r.nextId)
    (reserves : s'.reserves = Function.update s.reserves o ((after.map Phase.reserve).getD [])) :
    s'.Ids := by
  cases advances_of_advance moved with
  | known | unknown | record =>
    exact ids.release reserves next fun id unused _ => by rwa [Unused, tasks, codes]
  | reserve => exact ids.reserve reserves tasks codes next
  | @publish idx id =>
    refine ids.release reserves next fun id' unused free => ?_
    have tasks : s'.tasks = Function.update s.tasks id (some ⟨some idx, none, false⟩) := tasks
    have ne : id' ≠ id := by
      rintro rfl
      exact free (by simp [reserved, Phase.reserve])
    rw [Unused, tasks, codes, update_of_ne ne]
    exact unused

theorem alter (ids : s.Ids) {id : Nat} {task : Task} {task' : Option Task}
    (tasks : s'.tasks = Function.update s.tasks id task') (found : s.tasks id = some task)
    (codes : ∀ id', id' ≠ id → s'.codes id' = s.codes id') (reserves : s'.reserves = s.reserves)
    (next : s'.nextId = s.nextId) : s'.Ids := by
  refine ids.keep reserves (Nat.le_of_eq next.symm) fun id' unused _ => ?_
  have ne : id' ≠ id := by
    rintro rfl
    simp [unused.1] at found
  rw [Unused, tasks, codes id' ne, update_of_ne ne]
  exact unused

theorem step (ids : s.Ids) {action : Action} (moves : s.Moves action s') : s'.Ids := by
  have still : ∀ {r : State}, r.reserves = s.reserves → r.tasks = s.tasks → r.codes = s.codes →
      r.nextId = s.nextId → r.Ids := fun reserves tasks codes next =>
    ids.keep reserves (Nat.le_of_eq next.symm) fun id unused _ => by rwa [Unused, tasks, codes]
  cases moves with
  | full => exact ids
  | register => exact still (reserves_of_register rfl rfl) rfl rfl rfl
  | @spawn call c phase r after found pos moved =>
    have known : call < s.callers.length := (List.getElem?_eq_some_iff.mp found).1
    obtain ⟨callers, place⟩ := advance_frame moved
    have reserved : s.reserves (some call) = phase.reserve := by
      simp [reserves, found, Caller.reserves, pos]
    have kept : ∀ c', (r.setCaller call c').reserves =
        Function.update s.reserves (some call) c'.reserves := fun c' =>
      reserves_of_caller place (by rw [← callers]; rfl) known
    cases after with
    | some next => exact ids.advance reserved moved rfl rfl rfl (kept _)
    | none =>
      refine ids.advance reserved moved rfl rfl rfl ((kept _).trans ?_)
      rw [Caller.reserves_next]
      rfl
  | @abandon call idx id c found pos =>
    have known : call < s.callers.length := (List.getElem?_eq_some_iff.mp found).1
    have kept : (s.setCaller call c.next).reserves =
        Function.update s.reserves (some call) c.next.reserves := reserves_of_caller rfl rfl known
    rw [Caller.reserves_next] at kept
    exact ids.release kept rfl fun _ unused _ => unused
  | thread =>
    refine ids.keep (reserves_eq rfl rfl) (Nat.le_succ _) fun id unused side => ?_
    have ne : id ≠ s.nextId := by
      rintro rfl
      rcases side with early | late
      · exact absurd early (Nat.lt_irrefl _)
      · exact absurd late (Nat.not_succ_le_self _)
    change Function.update s.tasks s.nextId _ id = none ∧ s.codes id = none
    rw [update_of_ne ne]
    exact unused
  | exit found _ =>
    exact ids.alter rfl found (fun id' ne => update_of_ne ne _ _) (reserves_eq rfl rfl) rfl
  | leave found _ => exact ids.alter rfl found (fun _ _ => rfl) (reserves_eq rfl rfl) rfl
  | rest place | skip place | finish place | restart place | proceed place | wake place =>
    exact still (reserves_eq (by rw [place]; rfl) rfl) rfl rfl rfl
  | reap place _ found _ =>
    exact ids.alter rfl found (fun _ _ => rfl) (reserves_eq (by rw [place]; rfl) rfl) rfl
  | @respawn phase r after place moved =>
    have callers : (r.respawned after).callers = s.callers := (advance_frame moved).1
    have reserved : s.reserves none = phase.reserve := by simp [reserves, place, Place.reserves]
    refine ids.advance reserved moved rfl rfl rfl ((reserves_of_place callers).trans ?_)
    cases after <;> rfl
  | fail place => exact ids.release (reserves_of_place rfl) rfl fun _ unused _ => unused

end Ids

/-! ## Services -/

/-- The supervisor reaps no task that a caller of `spawn` has still to write into the
service table. -/
def Recorded (s : State) : Action → Prop
  | .takeDead => ∀ id ∈ s.firstDead, ∀ c ∈ s.callers, c.phase.bind Phase.unrecorded ≠ some id
  | _ => True

instance recordedDecidable (s : State) (action : Action) : Decidable (s.Recorded action) := by
  unfold Recorded
  split <;> infer_instance

theorem Inv.unheld_of_recorded (inv : s.Inv) {id idx : Nat} (polling : s.place = .polling)
    (recorded : ∀ c ∈ s.callers, c.phase.bind Phase.unrecorded ≠ some id)
    (runs : s.Runs id idx) : Unheld s.holds idx := by
  intro o mem
  obtain ⟨⟨i, standing⟩, listed, eq⟩ := List.mem_map.mp mem
  have eq : i = idx := eq
  subst eq
  have fits : s.Fits standing i := inv.held.true_of listed
  cases standing with
  | absent | reaped => exact fits.1 id runs
  | published id' =>
    have eq : id = id' := (fits.1 id).mp runs
    subst eq
    cases o with
    | none => simp [holds, polling, Place.standings] at listed
    | some call =>
      simp only [holds] at listed
      cases found : s.callers[call]? with
      | none => simp [found] at listed
      | some c =>
        refine recorded c (List.mem_of_getElem? found) ?_
        simp only [found, Option.map_some, Option.getD_some, Caller.standings, List.mem_append,
          Option.mem_toList, Option.map_eq_some_iff, List.mem_map, Prod.mk.injEq,
          reduceCtorEq, and_false, exists_false, or_false] at listed
        obtain ⟨phase, there, standing⟩ := listed
        rw [there]
        cases phase <;> simp_all [Phase.standing, Phase.unrecorded]

theorem unaffected_of_task {id : Nat} {task : Option Task}
    (tasks : s'.tasks = Function.update s.tasks id task) (services : s'.services = s.services)
    (eq : task.bind (·.service) = (s.tasks id).bind (·.service)) (idx : Nat) :
    Unaffected s s' idx := by
  refine ⟨fun id' => ?_, by rw [entry, entry, services]⟩
  rw [runs_setTask tasks]
  split
  next here =>
    subst here
    have both : (∃ t, task = some t ∧ t.service = some idx) ↔
        task.bind (·.service) = some idx := Option.bind_eq_some_iff.symm
    rw [both, eq, Option.bind_eq_some_iff]
    rfl
  next => exact Iff.rfl

theorem Inv.relocate (inv : s.Inv) {place : Place}
    (standings : place.standings = s.place.standings) : ({ s with place := place } : State).Inv :=
  inv.frame (holds_eq standings rfl) fun _ => unaffected_of_eq rfl rfl

theorem Inv.reap (inv : s.Inv) {id : Nat} {task : Task} (polling : s.place = .polling)
    (recorded : ∀ c ∈ s.callers, c.phase.bind Phase.unrecorded ≠ some id)
    (found : s.tasks id = some task) : (s.reaped id task).Inv := by
  cases service : task.service with
  | none =>
    refine inv.frame (holds_eq ?_ rfl) (unaffected_of_task rfl rfl (by simp [found, service]))
    rw [reaped, service, polling]
    rfl
  | some idx =>
    have runs : s.Runs id idx := ⟨task, found, service⟩
    have unheld := inv.unheld_of_recorded polling recorded runs
    have shape : (s.reaped id task).holds = Function.update s.holds none [(idx, .reaped)] := by
      have callers : (s.reaped id task).callers = s.callers := rfl
      refine (holds_of_place callers).trans ?_
      rw [reaped, service]
      rfl
    have fewer : ∀ id' i, (s.reaped id task).Runs id' i → id' ≠ id ∧ s.Runs id' i := by
      rintro id' i ⟨other, there, service'⟩
      change Function.update s.tasks id none id' = some other at there
      have ne : id' ≠ id := by
        rintro rfl
        simp at there
      rw [update_of_ne ne] at there
      exact ⟨ne, other, there, service'⟩
    refine inv.carry shape (List.nodup_singleton idx) (fun i listed o' mem => ?_)
      (fun entry listed => ?_) (fun i mine => ?_) (fun i unlisted _ => ⟨fun id' => ?_, rfl⟩)
      (fun id' i still => inv.belongs id' i (fewer id' i still).2)
    · exact absurd mem (List.mem_singleton.mp listed ▸ unheld o')
    · rw [List.mem_singleton.mp listed]
      refine ⟨fun id' still => ?_, inv.belongs id idx runs⟩
      obtain ⟨ne, was⟩ := fewer id' idx still
      obtain ⟨named, entry⟩ := Option.isSome_iff_exists.mp (inv.belongs id idx runs)
      have here := (inv.settled idx unheld named entry id).mp runs
      have there := (inv.settled idx unheld named entry id').mp was
      exact ne (Option.some.inj (there.symm.trans here))
    · simp [holds, polling, Place.standings] at mine
    · refine ⟨fun still => (fewer id' i still).2, fun was => ?_⟩
      obtain ⟨other, there, service'⟩ := was
      refine ⟨other, ?_, service'⟩
      change Function.update s.tasks id none id' = some other
      rw [update_of_ne, there]
      rintro rfl
      rw [found, Option.some.injEq] at there
      rw [← there, service, Option.some.injEq] at service'
      exact unlisted (List.mem_singleton.mpr service'.symm)

theorem Inv.clear (inv : s.Inv) {st st' : ServiceState} {list : List (Nat × Standing)}
    (pos : s.holds none = [(idx, .reaped)]) (found : s.services[idx]? = some st)
    (cleared : st'.task = none) (tasks : s'.tasks = s.tasks)
    (services : s'.services = s.services.set idx st')
    (shape : s'.holds = Function.update s.holds none list)
    (outcome : list = [] ∨ list = [(idx, .absent)]) : s'.Inv := by
  have first : (idx, Standing.reaped) ∈ s.holds none := by simp [pos]
  have known : s.Fits .reaped idx := inv.held.true_of first
  have inRange : idx < s.services.length := (List.getElem?_eq_some_iff.mp found).1
  have entries : ∀ i, s'.entry i = if i = idx then some none else s.entry i := fun i => by
    rw [entry_set services inRange, cleared]
  have runs : ∀ id i, s'.Runs id i ↔ s.Runs id i := fun id i => by rw [Runs, Runs, tasks]
  have absent : s'.Fits .absent idx :=
    ⟨fun id still => known.1 id ((runs id idx).mp still), by rw [entries, if_pos rfl]⟩
  refine inv.turn shape ?_ (fun entry mem => ?_) (fun i mine _ => ?_)
    (fun i out => ⟨fun id => runs id i, ?_⟩) (fun i mine => ?_)
  · rcases outcome with rfl | rfl <;> simp [pos]
  · rcases outcome with rfl | rfl
    · simp at mem
    · rw [List.mem_singleton.mp mem]
      exact absent
  · have eq : i = idx := by simpa [pos] using mine
    exact eq ▸ coherentAt_of_absent absent
  · rw [entries, if_neg]
    rintro rfl
    simp [pos] at out
  · have eq : i = idx := by simpa [pos] using mine
    exact eq ▸ absent.entry

theorem Inv.add (inv : s.Inv) (tasks : s'.tasks = s.tasks)
    (services : s'.services = s.services ++ [.new]) (place : s'.place = s.place)
    (callers : s'.callers = s.callers ++ [⟨some (.entered s.services.length), []⟩]) : s'.Inv := by
  have runs : ∀ id i, s'.Runs id i ↔ s.Runs id i := fun id i => by rw [Runs, Runs, tasks]
  have entries : ∀ i, s'.entry i = if i = s.services.length then some none else s.entry i := by
    intro i
    rw [entry, entry, services]
    rcases Nat.lt_trichotomy i s.services.length with old | rfl | beyond
    · rw [List.getElem?_append_left old, if_neg (by omega)]
    · simp [ServiceState.new]
    · rw [List.getElem?_eq_none (by simp; omega), List.getElem?_eq_none (by omega),
        if_neg (by omega)]
  have fresh : ∀ id, ¬s.Runs id s.services.length := by
    intro id still
    have inRange := lt_of_entry (inv.belongs id _ still)
    omega
  have unused : ∀ o, s.services.length ∉ names (s.holds o) := by
    intro o listed
    obtain ⟨entry, there, named⟩ := List.mem_map.mp listed
    have inRange := lt_of_entry (inv.held.true_of there).entry
    omega
  have shape : s'.holds =
      Function.update s.holds (some s.callers.length) [(s.services.length, .absent)] := by
    funext o
    cases o with
    | none => simp [holds, place]
    | some call =>
      rcases Nat.lt_trichotomy call s.callers.length with old | rfl | beyond
      · simp [holds, callers, List.getElem?_append_left old, Nat.ne_of_lt old]
      · simp [holds, callers, Caller.standings, Phase.standing]
      · simp [holds, callers, Nat.ne_of_gt beyond, List.getElem?_eq_none (Nat.le_of_lt beyond),
          List.getElem?_append_right (Nat.le_of_lt beyond), Nat.sub_ne_zero_of_lt beyond]
  refine inv.carry shape (List.nodup_singleton _) (fun i listed o mem => ?_)
    (fun entry listed => ?_) (fun i mine => ?_) (fun i unlisted _ => ⟨fun id => runs id i, ?_⟩)
    (fun id i still => ?_)
  · have eq : i = s.services.length := List.mem_singleton.mp listed
    exact absurd (eq ▸ mem) (unused o)
  · rw [List.mem_singleton.mp listed]
    exact ⟨fun id still => fresh id ((runs id _).mp still), by rw [entries, if_pos rfl]⟩
  · simp [holds] at mine
  · rw [entries, if_neg fun eq => unlisted (List.mem_singleton.mpr eq)]
  · rw [entries]
    split
    · rfl
    · exact inv.belongs id i ((runs id i).mp still)

theorem task_of_failed {st st' : ServiceState} {code : Int} {ms : Nat}
    (failed : st.failed code = some (st', ms)) : st'.task = none := by
  unfold ServiceState.failed at failed
  split at failed
  next =>
    cases failed
    rfl
  next => simp at failed

theorem Inv.spawn (inv : s.Inv) (ids : s.Ids) {call : Nat} {phase : Phase}
    (found : s.callers[call]? = some c) (pos : c.phase = some phase) {r : State}
    {after : Option Phase} (moved : s.advance phase = some (r, after)) :
    (r.called call c after).Inv := by
  have known : call < s.callers.length := (List.getElem?_eq_some_iff.mp found).1
  obtain ⟨callers, place⟩ := advance_frame moved
  have held : s.holds (some call) = phase.standing :: c.rest.map (·, .absent) := by
    simp [holds, found, Caller.standings, pos]
  have reserved : s.reserves (some call) = phase.reserve := by
    simp [reserves, found, Caller.reserves, pos]
  have shape : ∀ c', (r.setCaller call c').holds =
      Function.update s.holds (some call) c'.standings := fun c' =>
    holds_of_caller place (by rw [← callers]; rfl) known
  cases after with
  | some next => exact inv.advance ids held reserved moved rfl rfl (shape _)
  | none =>
    refine inv.advance ids held reserved moved rfl rfl ((shape _).trans ?_)
    rw [Caller.standings_next]
    rfl

theorem Inv.abandon (inv : s.Inv) {call idx id : Nat}
    (found : s.callers[call]? = some c) (pos : c.phase = some (.building idx id)) :
    (s.setCaller call c.next).Inv := by
  have known : call < s.callers.length := (List.getElem?_eq_some_iff.mp found).1
  have held : s.holds (some call) = (idx, .absent) :: c.rest.map (·, .absent) := by
    simp [holds, found, Caller.standings, pos, Phase.standing]
  refine inv.stay rfl rfl (holds_of_caller rfl rfl known) ?_ ?_
  · rw [Caller.standings_next, held]
    exact List.sublist_cons_self ..
  intro entry mem gone
  rw [held] at mem
  rw [Caller.standings_next] at gone
  rw [(List.mem_cons.mp mem).resolve_right gone]

theorem Inv.respawn (inv : s.Inv) (ids : s.Ids) {phase : Phase} (place : s.place = .spawning phase)
    {r : State} {after : Option Phase} (moved : s.advance phase = some (r, after)) :
    (r.respawned after).Inv := by
  have callers : (r.respawned after).callers = s.callers := (advance_frame moved).1
  have held : s.holds none = phase.standing :: [] := by simp [holds, place, Place.standings]
  have reserved : s.reserves none = phase.reserve := by simp [reserves, place, Place.reserves]
  refine inv.advance ids held reserved moved rfl rfl ((holds_of_place callers).trans ?_)
  cases after <;> rfl

theorem Inv.fail (inv : s.Inv) {idx id : Nat} (place : s.place = .spawning (.building idx id)) :
    ({ s with place := .polling } : State).Inv := by
  have held : s.holds none = [(idx, .absent)] := by
    simp [holds, place, Place.standings, Phase.standing]
  refine inv.stay rfl rfl (holds_of_place rfl) ?_ ?_
  · exact List.nil_sublist _
  · intro entry mem _
    rw [held] at mem
    rw [List.mem_singleton.mp mem]

theorem Inv.step (inv : s.Inv) (ids : s.Ids) {action : Action} (recorded : s.Recorded action)
    (moves : s.Moves action s') : s'.Inv := by
  cases moves with
  | full => exact inv
  | register => exact inv.add rfl rfl rfl rfl
  | spawn found pos moved => exact inv.spawn ids found pos moved
  | abandon found pos => exact inv.abandon found pos
  | thread =>
    have unused := (ids.born s.nextId (Nat.le_refl _)).1
    exact inv.frame (holds_eq rfl rfl) (unaffected_of_task rfl rfl (by simp [unused]))
  | exit found | leave found =>
    exact inv.frame (holds_eq rfl rfl) (unaffected_of_task rfl rfl (by simp [found]))
  | rest place | skip place | proceed place | wake place => exact inv.relocate (by rw [place]; rfl)
  | reap place dead found _ => exact inv.reap place (recorded _ dead) found
  | finish place found =>
    exact inv.clear (by rw [holds, place]; rfl) found rfl rfl rfl (holds_of_place rfl) (.inl rfl)
  | restart place found _ failed =>
    have cleared := task_of_failed failed
    exact inv.clear (by rw [holds, place]; rfl) found cleared rfl rfl (holds_of_place rfl)
      (.inr rfl)
  | respawn place moved => exact inv.respawn ids place moved
  | fail place => exact inv.fail place

theorem inv_start (embedded : Nat) : (start embedded).Inv := by
  have entries : ∀ idx, idx < embedded → (start embedded).entry idx = some none := by
    intro idx inRange
    simp [entry, start, ServiceState.new, inRange]
  have nothing : ∀ id idx, ¬(start embedded).Runs id idx := by
    rintro id idx ⟨task, found, -⟩
    simp [start] at found
  have list : ∀ o, (start embedded).holds o =
      if o = some 0 then (List.range embedded).map (·, .absent) else [] := by
    intro o
    cases o with
    | none => rfl
    | some call =>
      cases call with
      | zero | succ => simp [holds, start]
  refine ⟨⟨fun o => ?_, fun {o o' idx} here there => ?_, fun {o entry} mem => ?_⟩,
    fun idx unheld => ?_, fun id idx runs => absurd runs (nothing id idx)⟩
  · rw [list]
    split
    · simpa [names, Function.comp_def] using List.nodup_range
    · exact List.nodup_nil
  · rw [list] at here there
    split at here
    next first =>
      split at there
      next second => rw [first, second]
      next => simp at there
    next => simp at here
  · rw [list] at mem
    split at mem
    next =>
      obtain ⟨idx, inRange, rfl⟩ := List.mem_map.mp mem
      exact ⟨fun id => nothing id idx, entries idx (List.mem_range.mp inRange)⟩
    next => simp at mem
  · intro task found id
    have inRange : idx < embedded := by
      have known := lt_of_entry (Option.isSome_iff_exists.mpr ⟨task, found⟩)
      simpa [start] using known
    have held := unheld (some 0)
    rw [list, if_pos rfl] at held
    simp [names, Function.comp_def, inRange] at held

theorem ids_start (embedded : Nat) : (start embedded).Ids := by
  have unreserved : ∀ o, (start embedded).reserves o = [] := by
    intro o
    cases o with
    | none => rfl
    | some call =>
      cases call with
      | zero | succ => simp [reserves, start]
  refine ⟨fun _ _ => ⟨rfl, rfl⟩, fun o => ?_, fun {o o' id} here => ?_, fun {o entry} mem => ?_⟩
  · rw [unreserved]
    exact List.nodup_nil
  · rw [unreserved] at here
    simp at here
  · rw [unreserved] at mem
    simp at mem

theorem ids_of_run {embedded : Nat} {actions : List Action}
    (run : Run (fun s action s' => s.step action = some s') (start embedded) actions s) : s.Ids :=
  run.invariant Ids (ids_start embedded) fun _ _ _ ids ran => ids.step (moves_of_step ran)

/-! ## Whole runs -/

/-- No spawn is in progress and the supervisor is not between reaping a task and
updating its service. -/
def Quiet (s : State) : Prop :=
  (∀ c ∈ s.callers, ∀ phase ∈ c.phase, phase.Unbegun) ∧
    match s.place with
    | .reaped _ _ => False
    | .spawning phase => phase.Unbegun
    | _ => True

instance quietDecidable (s : State) : Decidable s.Quiet := by
  unfold Quiet
  split <;> infer_instance

def Coherent (s : State) : Prop :=
  ∀ idx st, s.services[idx]? = some st →
    (∀ id, st.task = some id → ∃ task, s.tasks id = some task ∧ task.service = some idx) ∧
    ∀ id task, s.tasks id = some task → task.service = some idx → st.task = some id

theorem Quiet.absent (quiet : s.Quiet) {o : Option Nat} {entry : Nat × Standing}
    (mem : entry ∈ s.holds o) : entry.2 = .absent := by
  cases o with
  | none =>
    have place := quiet.2
    simp only [holds] at mem
    split at place
    next => exact place.elim
    next phase spawning =>
      simp only [spawning, Place.standings, List.mem_singleton] at mem
      exact mem ▸ place.standing
    next others spawning =>
      cases here : s.place with
      | polling | resting => simp [here, Place.standings] at mem
      | delaying idx ms =>
        simp only [here, Place.standings, List.mem_singleton] at mem
        rw [mem]
      | reaped service code => exact absurd here (others service code)
      | spawning phase => exact absurd here (spawning phase)
  | some call =>
    cases there : s.callers[call]? with
    | none => simp [holds, there] at mem
    | some c =>
      simp only [holds, there, Option.map_some, Option.getD_some, Caller.standings,
        List.mem_append, Option.mem_toList, Option.map_eq_some_iff, List.mem_map] at mem
      rcases mem with ⟨phase, pos, rfl⟩ | ⟨idx, -, rfl⟩
      · exact (quiet.1 c (List.mem_of_getElem? there) phase pos).standing
      · rfl

theorem Inv.coherent (inv : s.Inv) (quiet : s.Quiet) : s.Coherent := by
  intro idx st found
  have here : s.CoherentAt idx := by
    by_cases held : ∃ o, idx ∈ names (s.holds o)
    · obtain ⟨o, mem⟩ := held
      obtain ⟨entry, listed, rfl⟩ := List.mem_map.mp mem
      have fits := inv.held.true_of listed
      rw [quiet.absent listed] at fits
      exact coherentAt_of_absent fits
    · exact inv.settled idx fun o mem => held ⟨o, mem⟩
  have eq := here st.task (by rw [entry, found]; rfl)
  refine ⟨fun id named => (eq id).mpr named, fun id task there service => ?_⟩
  exact (eq id).mp ⟨task, there, service⟩

/-- Where the supervisor reaps no task that is still to be written into the service
table, the table is right whenever nobody is in the middle of changing it. -/
theorem services_coherent (embedded : Nat) {actions : List Action} {s : State}
    (run : Run (Guarded Recorded fun s action s' => s.step action = some s') (start embedded)
      actions s) (quiet : s.Quiet) : s.Coherent := by
  have both : s.Ids ∧ s.Inv := by
    apply run.invariant (fun s => s.Ids ∧ s.Inv) ⟨ids_start embedded, inv_start embedded⟩
    rintro s action s' ⟨ids, inv⟩ ⟨recorded, ran⟩
    have moves := moves_of_step ran
    exact ⟨ids.step moves, inv.step ids recorded moves⟩
  exact both.2.coherent quiet

/-- One embedded service is started; then another is registered and started, crashes
and is restarted as task 3. -/
def restarted : List Action :=
  [.spawn 0, .spawn 0, .spawn 0, .spawn 0, .register, .spawn 1, .spawn 1, .spawn 1, .spawn 1,
    .exit 2 (-1), .leave 2, .takeDead, .update, .proceed, .respawn, .respawn, .respawn, .respawn,
    .takeDead]

theorem services_after_restart : ∃ s : State,
    Run (Guarded Recorded fun s action s' => s.step action = some s') (start 1) restarted s ∧
    s.Quiet ∧ s.services = [⟨some 1, 0, none⟩, ⟨some 3, 1, some (-1)⟩] ∧ s.Coherent := by
  refine exists_guarded_of_replay
    (fun s => s.Quiet ∧ s.services = [⟨some 1, 0, none⟩, ⟨some 3, 1, some (-1)⟩])
    (by decide +kernel) ?_
  rintro s run ⟨quiet, services⟩
  exact ⟨quiet, services, services_coherent 1 run quiet⟩

/-- A system call registers a service and makes its task 1 runnable; before it writes the
id, the task crashes and the supervisor restarts the service as task 2. -/
def overtaken : List Action :=
  [.register, .spawn 1, .spawn 1, .spawn 1, .exit 1 (-1), .leave 1, .takeDead, .update, .proceed,
    .respawn, .respawn, .respawn, .respawn, .spawn 1, .takeDead]

/-- The id of the dead task is written last: the entry names a task that is gone, and
not the task that runs. -/
theorem dead_task_recorded : ∃ s : State,
    Run (fun s action s' => s.step action = some s') (start 0) overtaken s ∧ s.Quiet ∧
    s.services = [⟨some 1, 1, some (-1)⟩] ∧ s.tasks 1 = none ∧
    s.tasks 2 = some ⟨some 0, none, false⟩ ∧ ¬s.Coherent := by
  refine exists_of_replay (fun s => s.Quiet ∧ s.services = [⟨some 1, 1, some (-1)⟩] ∧
    s.tasks 1 = none ∧ s.tasks 2 = some ⟨some 0, none, false⟩) (by decide +kernel) ?_
  rintro s - ⟨quiet, services, gone, runs⟩
  refine ⟨quiet, services, gone, runs, fun coherent => ?_⟩
  rcases (coherent 0 ⟨some 1, 1, some (-1)⟩ (by rw [services]; rfl)).1 1 rfl with ⟨task, found, -⟩
  simp [gone] at found

end State

end K1K.Supervisor
