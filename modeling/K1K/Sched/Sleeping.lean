import K1K.Sched.AddressSpaces

/-!
# Sleeping

A task that goes to sleep leaves an entry on its CPU's list. `on_tick` takes the entry away
before it looks at the task, a `wake` after making it ready. Entry and sleep stay together as
long as no `wake` finds a sleeper still on its CPU, `on_tick` finds no sleep but the one whose
entry it swept, and a `wake` is not moved to another CPU between two lists.
-/

namespace K1K.Sched

open K1K.Lib
open Function (update update_of_ne update_self)

variable {n : Nat}

def Task.Asleep (task : Task n) (til : Nat) : Prop :=
  task.state = .sleeping ∧ task.sleepUntil = til

instance (task : Task n) (til : Nat) : Decidable (task.Asleep til) :=
  inferInstanceAs (Decidable (_ ∧ _))

def Job.Stirring : Job n → Prop
  | .unsleepOwn _ _ _ => True
  | .unsleep _ _ _ _ _ => True
  | .sweep _ _ => True
  | .expire _ _ => True
  | .doze _ => True
  | _ => False

instance (job : Job n) : Decidable job.Stirring := by
  apply @Job.casesOn n (fun job => Decidable job.Stirring) job <;> intros <;>
    first | exact isTrue trivial | exact isFalse id

theorem After.job_still (after : After) (c : Cpu n) : ¬(after.job c).Stirring := by
  rcases after with _ | ⟨_ | ⟨t, rest⟩, user⟩ | _ <;> exact id

/-- The thread will still take this task's entries off the list of CPU `d`. -/
def Job.clears (t : TaskId) (d : Cpu n) : Job n → Prop
  | .unsleepOwn t' _ _ => t' = t
  | .unsleep t' _ own rest _ => t' = t ∧ d ∈ rest ∧ d ≠ own
  | _ => False

theorem Job.clears.stirring {job : Job n} {t : TaskId} {d : Cpu n} (clears : job.clears t d) :
    job.Stirring := by
  cases job <;> trivial

theorem Job.clears.hand {job : Job n} {t : TaskId} {d : Cpu n} (clears : job.clears t d) :
    t ∈ job.hand := by
  cases job with
  | unsleepOwn => exact List.mem_cons.mpr (.inl clears.symm)
  | unsleep => exact List.mem_cons.mpr (.inl clears.1.symm)
  | _ => exact clears.elim

theorem sweepList_spec (now room : Nat) (list : List (TaskId × Nat)) :
    (sweepList now room list).1.Sublist list ∧
      ∀ entry ∈ list, entry ∉ (sweepList now room list).1 →
        entry.1 ∈ (sweepList now room list).2 ∧ entry.2 ≤ now := by
  fun_induction sweepList now room list with
  | case1 => exact ⟨.slnil, nofun⟩
  | case2 _ head _ _ _ ih | case3 head _ _ ih =>
    obtain ⟨sub, swept⟩ := ih
    refine ⟨sub.cons_cons head, fun entry member gone => ?_⟩
    rw [List.mem_cons, not_or] at gone
    exact swept entry ((List.mem_cons.mp member).resolve_left gone.1) gone.2
  | case4 head _ early room _ ih =>
    obtain ⟨sub, swept⟩ := ih
    refine ⟨sub.cons head, fun entry member gone => ?_⟩
    rcases List.mem_cons.mp member with rfl | member
    · exact ⟨List.mem_cons_self, Nat.not_lt.mp early⟩
    · obtain ⟨named, due⟩ := swept entry member gone
      exact ⟨List.mem_cons_of_mem _ named, due⟩

namespace Kernel

variable {s s' : Kernel n} {th : Thread n} {c d : Cpu n} {job next : Job n} {t : TaskId} {u : Nat}

/-- What a `wake`, an `unsleep` and the section of `on_tick` on CPU `c` may meet. -/
def Meets (s : Kernel n) (c : Cpu n) : Job n → Prop
  | .lookup id _ => (s.tasks id).state = .sleeping → (s.tasks id).onCpu = none
  | .expire ids _ => ∀ id ∈ ids, (s.tasks id).state = .sleeping →
      (s.tasks id).onCpu = none ∧ ∀ d, id ∉ names (s.sleepers d)
  | .unsleep _ _ own (v :: _) _ => v = c → own = c
  | _ => True

instance : DecidablePred (s.Meets c) := fun job => by
  apply @Job.casesOn n (fun job => Decidable (s.Meets c job)) job
  case lookup =>
    exact fun id _ => inferInstanceAs
      (Decidable ((s.tasks id).state = .sleeping → (s.tasks id).onCpu = none))
  case expire =>
    exact fun ids _ => inferInstanceAs (Decidable (∀ id ∈ ids, (s.tasks id).state = .sleeping →
      (s.tasks id).onCpu = none ∧ ∀ d, id ∉ names (s.sleepers d)))
  case unsleep =>
    intro _ _ own rest _
    apply @List.casesOn _ (fun rest => Decidable (s.Meets c (.unsleep _ _ own rest _))) rest
    · exact isTrue trivial
    · exact fun v _ => inferInstanceAs (Decidable (v = c → own = c))
  all_goals intros; exact isTrue trivial

/-- No `wake` finds a sleeper that is still on a CPU; the section of `on_tick` finds
no sleep that began after its sweep; no `unsleep` changes CPU on the way. -/
def Gentle (s : Kernel n) : Action n → Prop
  | .run c => s.Meets c (s.job (s.acting c))
  | _ => True

instance : DecidablePred s.Gentle := fun action => by
  apply @Action.casesOn n (fun action => Decidable (s.Gentle action)) action
  case run => exact fun c => inferInstanceAs (Decidable (s.Meets c (s.job (s.acting c))))
  all_goals intros; exact isTrue trivial

structure Resting (s : Kernel n) : Prop where
  held : Held (fun _ _ => True) s.sleepers
  entry : ∀ d t u, (t, u) ∈ s.sleepers d →
    (s.tasks t).Asleep u ∨ ∃ th, (s.job th).clears t d
  asleep : ∀ t u, (s.tasks t).Asleep u → t ∈ s.table ∧
    ((∃ d, (t, u) ∈ s.sleepers d) ∨ (∃ c, s.current c = t ∧ s.job (.cpu c) = .doze u) ∨
      ∃ c ids user, s.job (.cpu c) = .expire ids user ∧ t ∈ ids ∧ u ≤ s.ticks)
  dozing : ∀ c u, s.job (.cpu c) = .doze u →
    (s.tasks (s.current c)).Asleep u ∧ ∀ d, s.current c ∉ names (s.sleepers d)
  sweeping : ∀ c now user, s.job (.cpu c) = .sweep now user → now ≤ s.ticks

structure Still (s : Kernel n) (th : Thread n) (s' : Kernel n) : Prop where
  sleepers : s'.sleepers = s.sleepers
  ticks : s'.ticks = s.ticks
  table : ∀ t ∈ s.table, (s.tasks t).state = .sleeping → t ∈ s'.table
  current : ∀ c, th ≠ .cpu c → s'.current c = s.current c
  asleep : ∀ t u, (s'.tasks t).Asleep u ↔ (s.tasks t).Asleep u
  jobs : ∀ th', th' ≠ th → s'.job th' = s.job th'
  after : ¬(s'.job th).Stirring

theorem Resting.still (resting : s.Resting) (before : ¬(s.job th).Stirring)
    (still : Still s th s') : s'.Resting := by
  have other : ∀ {th' : Thread n}, (s.job th').Stirring → s'.job th' = s.job th' := by
    intro th' stirring
    refine still.jobs th' ?_
    rintro rfl
    exact before stirring
  have eq : ∀ {th' : Thread n}, (s'.job th').Stirring → s'.job th' = s.job th' := by
    intro th' stirring
    refine still.jobs th' ?_
    rintro rfl
    exact still.after stirring
  have stays : ∀ {c : Cpu n} {job : Job n}, s.job (.cpu c) = job → job.Stirring →
      s'.current c = s.current c := by
    rintro c _ rfl stirring
    refine still.current c ?_
    rintro rfl
    exact before stirring
  refine ⟨by rw [still.sleepers]; exact resting.held, fun d t u mem => ?_, fun t u asleep => ?_,
    fun c u pos => ?_, fun c now user pos => ?_⟩
  · rw [still.sleepers] at mem
    rcases resting.entry d t u mem with asleep | ⟨th', clears⟩
    · exact .inl ((still.asleep t u).mpr asleep)
    · exact .inr ⟨th', by rwa [other clears.stirring]⟩
  · have before := (still.asleep t u).mp asleep
    obtain ⟨listed, why⟩ := resting.asleep t u before
    refine ⟨still.table t listed before.1, ?_⟩
    rcases why with ⟨d, mem⟩ | ⟨c, current, pos⟩ | ⟨c, ids, user, pos, mem, due⟩
    · exact .inl ⟨d, by rwa [still.sleepers]⟩
    · have stirring : (s.job (.cpu c)).Stirring := by
        rw [pos]
        trivial
      exact .inr (.inl ⟨c, (stays rfl stirring).trans current, (other stirring).trans pos⟩)
    · have stirring : (s.job (.cpu c)).Stirring := by
        rw [pos]
        trivial
      exact .inr (.inr ⟨c, ids, user, (other stirring).trans pos, mem, still.ticks ▸ due⟩)
  · have was : s.job (.cpu c) = .doze u := by
      rw [← eq (by rw [pos]; trivial)]
      exact pos
    obtain ⟨asleep, unlisted⟩ := resting.dozing c u was
    rw [stays was trivial, still.sleepers]
    exact ⟨(still.asleep _ u).mpr asleep, unlisted⟩
  · rw [still.ticks]
    refine resting.sweeping c now user ?_
    rw [← eq (by rw [pos]; trivial)]
    exact pos

theorem setTask_asleep {x : TaskId} {v : Task n}
    (eq : ∀ u, v.Asleep u ↔ (s.tasks x).Asleep u) (t : TaskId) (u : Nat) :
    ((s.setTask x v).tasks t).Asleep u ↔ (s.tasks t).Asleep u := by
  by_cases equal : t = x
  · subst equal
    simpa [setTask] using eq u
  · simp [setTask, equal]

theorem not_asleep {task : Task n} (awake : task.state ≠ .sleeping) (u : Nat) :
    ¬task.Asleep u := fun asleep => awake asleep.1

theorem still_setJob {r : Kernel n} (sleepers : r.sleepers = s.sleepers)
    (ticks : r.ticks = s.ticks) (table : ∀ t ∈ s.table, t ∈ r.table)
    (current : r.current = s.current) (jobs : r.job = s.job)
    (asleep : ∀ t u, (r.tasks t).Asleep u ↔ (s.tasks t).Asleep u) (after : ¬next.Stirring) :
    Still s th (r.setJob th next) where
  sleepers := sleepers
  ticks := ticks
  table t mem _ := table t mem
  current c _ := congrFun current c
  asleep := asleep
  jobs th' other := by
    rw [setJob_other other, jobs]
  after := by
    rwa [setJob_self]

theorem still_turn (after : ¬next.Stirring) : Still s th (s.setJob th next) :=
  still_setJob rfl rfl (fun _ mem => mem) rfl rfl (fun _ _ => .rfl) after

theorem still_setTask {x : TaskId} {v : Task n} (eq : ∀ u, v.Asleep u ↔ (s.tasks x).Asleep u)
    (after : ¬next.Stirring) : Still s th ((s.setTask x v).setJob th next) :=
  still_setJob rfl rfl (fun _ mem => mem) rfl rfl (setTask_asleep eq) after

theorem still_setState {x : TaskId} {state : TaskState} (was : (s.tasks x).state ≠ .sleeping)
    (later : state ≠ .sleeping) (after : ¬next.Stirring) :
    Still s th ((s.setState x state).setJob th next) :=
  still_setTask (fun u => iff_of_false (not_asleep later u) (not_asleep was u)) after

theorem still_runJob (inv : s.Inv) (pos : s.job th = job)
    (own : th = .cpu c ∨ job.AtBase) (was : ¬job.Stirring)
    (wakes : ∀ id after, job ≠ .lookup id after) : Still s th (s.runJob th c job) := by
  have painted : ∀ {x : TaskId} {v : Task n} {next : Job n}, v.state = (s.tasks x).state →
      v.sleepUntil = (s.tasks x).sleepUntil → ¬next.Stirring →
      Still s th ((s.setTask x v).setJob th next) := by
    intro x v next state til after
    refine still_setTask (fun u => ?_) after
    rw [Task.Asleep, Task.Asleep, state, til]
  cases job with
  | code =>
    exact ⟨rfl, rfl, fun _ mem _ => mem, fun _ _ => rfl, fun _ _ => .rfl, fun _ _ => rfl,
      by rwa [runJob, pos]⟩
  | enqueue t q after =>
    rw [runJob]
    split
    · exact still_turn id
    · exact still_turn (after.job_still c)
  | mark t q after =>
    rw [runJob]
    split
    · exact painted rfl rfl id
    · exact still_turn (after.job_still c)
  | push t q after =>
    exact still_setJob rfl rfl (fun _ mem => mem) rfl rfl (fun _ _ => .rfl) (after.job_still c)
  | lookup id after => exact absurd rfl (wakes id after)
  | unsleepOwn | unsleep | sweep | expire | doze => exact absurd trivial was
  | account woken user =>
    refine painted rfl rfl ?_
    repeat' split
    all_goals exact id
  | blocked | switch => exact still_turn id
  | schedule =>
    rw [runJob]
    split
    · exact still_turn id
    · exact still_setJob rfl rfl (fun _ mem => mem) rfl rfl (fun _ _ => .rfl) id
  | steal rounds victims =>
    cases victims with
    | nil =>
      cases rounds <;> exact still_setJob rfl rfl (fun _ mem => mem) rfl rfl (fun _ _ => .rfl) id
    | cons v rest =>
      rw [runJob]
      split
      · exact still_turn id
      · exact still_setJob rfl rfl (fun _ mem => mem) rfl rfl (fun _ _ => .rfl) id
  | take | start | leave =>
    rw [runJob, moveTo_eq]
    exact painted rfl rfl id
  | fallback | suspend | settle =>
    refine still_turn ?_
    split <;> exact id
  | compare =>
    rw [runJob]
    split
    · exact painted rfl rfl id
    · exact still_turn id
  | requeue =>
    obtain rfl := own.resolve_right id
    have running : (s.tasks (s.current c)).state = .running := inv.stance_of pos c rfl
    exact still_setState (by simp [running]) (by rintro ⟨⟩) id
  | resume x =>
    obtain rfl := own.resolve_right id
    have fits : (s.tasks x).state = .ready ∨ (s.tasks x).state = .running :=
      (inv.fits_of pos rfl : (Stage.picked c).Fits x (s.tasks x)).1
    exact still_setState (by rcases fits with state | state <;> simp [state]) (by rintro ⟨⟩) id
  | claim | release => exact painted rfl rfl id
  | install x =>
    obtain rfl := own.resolve_right id
    refine ⟨rfl, rfl, fun _ mem _ => mem, fun d other => ?_, fun _ _ => .rfl,
      fun th' other => setJob_other other _ _, ?_⟩
    · refine setCurrent_other ?_ x
      rintro rfl
      exact other rfl
    · rw [runJob, setJob_self]
      exact id
  | load | drop => exact still_setJob rfl rfl (fun _ mem => mem) rfl rfl (fun _ _ => .rfl) id
  | build id addrSpace =>
    have dead : (s.tasks id).state = .dead :=
      (inv.promised pos (id, .reserved) List.mem_cons_self :
        (Stage.reserved (n := n)).Fits id (s.tasks id)).1
    exact still_setJob rfl rfl (fun _ mem => List.mem_append_left _ mem) rfl rfl
      (setTask_asleep fun u => iff_of_false (not_asleep (by simp [Task.newKernel]) u)
        (not_asleep (by simp [dead]) u)) (fun stirring => stirring)

/-! ## The steps of `wake`, `unsleep`, `on_tick` and `sleep_ms` -/

/-- Entries go and tasks wake, but for those that are on a CPU. -/
theorem Resting.alter (resting : s.Resting) {r : Kernel n} (jobs : r.job = s.job)
    (table : r.table = s.table) (current : r.current = s.current) (ticks : r.ticks = s.ticks)
    (sub : ∀ d, (r.sleepers d).Sublist (s.sleepers d))
    (running : ∀ c, r.tasks (s.current c) = s.tasks (s.current c))
    (asleep : ∀ t u, (r.tasks t).Asleep u → (s.tasks t).Asleep u)
    (entry : ∀ d t u, (t, u) ∈ r.sleepers d → (s.tasks t).Asleep u →
      (r.tasks t).Asleep u ∨ next.clears t d)
    (stays : ∀ d t u, (t, u) ∈ r.sleepers d → (s.job th).clears t d → next.clears t d)
    (gone : ∀ d t u, (t, u) ∈ s.sleepers d → (t, u) ∉ r.sleepers d → (s.tasks t).Asleep u →
      ∃ c ids user, th = .cpu c ∧ next = .expire ids user ∧ t ∈ ids ∧ u ≤ s.ticks)
    (undozed : ∀ u, s.job th ≠ .doze u)
    (expired : ∀ ids user, s.job th = .expire ids user → ∀ t ∈ ids, t ∈ s.table →
      ∀ u, ¬(r.tasks t).Asleep u)
    (undoze : ∀ u, next ≠ .doze u) (now : ∀ now user, next = .sweep now user → now ≤ s.ticks) :
    (r.setJob th next).Resting := by
  have other : ∀ {th' : Thread n}, th' ≠ th → (r.setJob th next).job th' = s.job th' := by
    intro th' ne
    rw [setJob_other ne, jobs]
  refine ⟨?_, fun d t u mem => ?_, fun t u still => ?_, fun c u pos => ?_,
    fun c now' user pos => ?_⟩
  · refine ⟨fun d => ?_, fun {d d' t} left right => ?_, fun _ => trivial⟩
    · exact (resting.held.once d).sublist ((sub d).map Prod.fst)
    · exact resting.held.unique (((sub d).map Prod.fst).subset left)
        (((sub d').map Prod.fst).subset right)
  · rcases resting.entry d t u ((sub d).subset mem) with was | ⟨th', clears⟩
    · refine (entry d t u mem was).imp id fun clears => ⟨th, ?_⟩
      rwa [setJob_self]
    by_cases eq : th' = th
    · subst eq
      exact .inr ⟨th', by rw [setJob_self]; exact stays d t u mem clears⟩
    · exact .inr ⟨th', by rwa [other eq]⟩
  · have was := asleep t u still
    obtain ⟨listed, why⟩ := resting.asleep t u was
    refine ⟨table ▸ listed, ?_⟩
    rcases why with ⟨d, mem⟩ | ⟨c, here, pos⟩ | ⟨c, ids, user, pos, mem, due⟩
    · by_cases kept : (t, u) ∈ r.sleepers d
      · exact .inl ⟨d, kept⟩
      · obtain ⟨c, ids, user, rfl, rfl, mem, due⟩ := gone d t u mem kept was
        exact .inr (.inr ⟨c, ids, user, setJob_self .., mem, ticks ▸ due⟩)
    · have ne : Thread.cpu c ≠ th := by
        rintro rfl
        exact undozed u pos
      exact .inr (.inl ⟨c, (congrFun current c).trans here, (other ne).trans pos⟩)
    · have ne : Thread.cpu c ≠ th := by
        rintro rfl
        exact expired ids user pos t mem listed u still
      exact .inr (.inr ⟨c, ids, user, (other ne).trans pos, mem, ticks ▸ due⟩)
  · have ne : Thread.cpu c ≠ th := by
      rintro rfl
      rw [setJob_self] at pos
      exact undoze u pos
    rw [other ne] at pos
    obtain ⟨was, unlisted⟩ := resting.dozing c u pos
    have here : (r.setJob th next).current c = s.current c := congrFun current c
    rw [here]
    exact ⟨((running c).symm ▸ was :), fun d mem => unlisted d (((sub d).map Prod.fst).subset mem)⟩
  · have bound : now' ≤ s.ticks := by
      by_cases eq : Thread.cpu c = th
      · subst eq
        rw [setJob_self] at pos
        exact now now' user pos
      · rw [other eq] at pos
        exact resting.sweeping c now' user pos
    exact ticks ▸ bound

theorem Resting.shrink (resting : s.Resting) {r : Kernel n} (jobs : r.job = s.job)
    (tasks : r.tasks = s.tasks) (table : r.table = s.table) (current : r.current = s.current)
    (ticks : r.ticks = s.ticks) (sub : ∀ d, (r.sleepers d).Sublist (s.sleepers d))
    (stays : ∀ d t u, (t, u) ∈ r.sleepers d → (s.job th).clears t d → next.clears t d)
    (gone : ∀ d t u, (t, u) ∈ s.sleepers d → (t, u) ∉ r.sleepers d → (s.tasks t).Asleep u →
      ∃ c ids user, th = .cpu c ∧ next = .expire ids user ∧ t ∈ ids ∧ u ≤ s.ticks)
    (undozed : ∀ u, s.job th ≠ .doze u) (unexpired : ∀ ids user, s.job th ≠ .expire ids user)
    (undoze : ∀ u, next ≠ .doze u) (now : ∀ now user, next = .sweep now user → now ≤ s.ticks) :
    (r.setJob th next).Resting :=
  resting.alter jobs table current ticks sub (fun _ => by rw [tasks])
    (fun _ _ still => tasks ▸ still) (fun _ _ _ _ was => .inl (tasks ▸ was)) stays gone undozed
    (fun ids user pos => absurd pos (unexpired ids user)) undoze now

theorem forget_self (v : Cpu n) (t : TaskId) :
    (s.forget v t).sleepers v = (s.sleepers v).filter fun entry => entry.1 ≠ t :=
  update_self ..

theorem forget_other {v : Cpu n} (other : d ≠ v) (t : TaskId) :
    (s.forget v t).sleepers d = s.sleepers d :=
  update_of_ne other _ _

theorem forget_sublist (s : Kernel n) (v d : Cpu n) (t : TaskId) :
    ((s.forget v t).sleepers d).Sublist (s.sleepers d) := by
  by_cases eq : d = v
  · subst eq
    rw [forget_self]
    exact List.filter_sublist
  · rw [forget_other eq]

theorem forget_gone {v : Cpu n} {x : TaskId} (mem : (x, u) ∈ s.sleepers d)
    (gone : (x, u) ∉ (s.forget v t).sleepers d) : x = t := by
  by_cases eq : d = v
  · subst eq
    rw [forget_self, List.mem_filter] at gone
    by_contra other
    exact gone ⟨mem, decide_eq_true other⟩
  · rw [forget_other eq] at gone
    exact absurd mem gone

theorem forget_stays {v : Cpu n} (mem : (t, u) ∈ (s.forget v t).sleepers d) : d ≠ v := by
  rintro rfl
  rw [forget_self, List.mem_filter] at mem
  exact of_decide_eq_true mem.2 rfl

namespace Resting

theorem awake_of_hand (inv : s.Inv) (th : Thread n)
    (mem : (t, Stage.waiting) ∈ (s.job th).stages th.home) : ¬(s.tasks t).Asleep u := by
  have fits : (s.tasks t).state = .ready :=
    (inv.promised rfl (t, .waiting) mem : (Stage.waiting (n := n)).Fits t (s.tasks t)).1
  exact not_asleep (by simp [fits]) u

theorem unsleepOwn (resting : s.Resting) (inv : s.Inv) {q : Cpu n} {after : After}
    (pos : s.job th = .unsleepOwn t q after) : (s.runJob th c (.unsleepOwn t q after)).Resting := by
  refine resting.shrink rfl rfl rfl rfl rfl (fun d => forget_sublist s c d t) ?_ ?_ ?_ ?_ nofun
    nofun
  · intro d x u mem clears
    rw [pos] at clears
    obtain rfl : t = x := clears
    exact ⟨rfl, List.mem_finRange d, forget_stays mem⟩
  · intro d x u mem gone asleep
    obtain rfl := forget_gone mem gone
    refine absurd asleep (awake_of_hand inv th ?_)
    rw [pos]
    exact List.mem_cons_self
  · rw [pos]
    nofun
  · rw [pos]
    nofun

theorem unsleep (resting : s.Resting) (inv : s.Inv) {q own : Cpu n} {rest : List (Cpu n)}
    {after : After} (pos : s.job th = .unsleep t q own rest after)
    (meets : s.Meets c (.unsleep t q own rest after)) :
    (s.runJob th c (.unsleep t q own rest after)).Resting := by
  have undozed : ∀ u, s.job th ≠ .doze u := by
    rw [pos]
    rintro _ ⟨⟩
  have unexpired : ∀ ids user, s.job th ≠ .expire ids user := by
    rw [pos]
    rintro _ _ ⟨⟩
  cases rest with
  | nil =>
    refine resting.shrink rfl rfl rfl rfl rfl (fun _ => .refl _) ?_ ?_ undozed unexpired
      (by rintro _ ⟨⟩) (by rintro _ _ ⟨⟩)
    · intro d x u mem clears
      rw [pos] at clears
      cases clears.2.1
    · intro d x u mem gone
      exact absurd mem gone
  | cons v rest =>
    rw [runJob]
    split
    next here =>
      refine resting.shrink rfl rfl rfl rfl rfl (fun _ => .refl _) ?_ ?_ undozed unexpired
        (by rintro _ ⟨⟩) (by rintro _ _ ⟨⟩)
      · intro d x u mem clears
        rw [pos] at clears
        obtain ⟨rfl, ahead, other⟩ := clears
        refine ⟨rfl, (List.mem_cons.mp ahead).resolve_left ?_, other⟩
        rintro rfl
        exact other (here.trans (meets here).symm)
      · intro d x u mem gone
        exact absurd mem gone
    · refine resting.shrink rfl rfl rfl rfl rfl (fun d => forget_sublist s v d t) ?_ ?_ undozed
        unexpired (by rintro _ ⟨⟩) (by rintro _ _ ⟨⟩)
      · intro d x u mem clears
        rw [pos] at clears
        obtain ⟨rfl, ahead, other⟩ := clears
        exact ⟨rfl, (List.mem_cons.mp ahead).resolve_left (forget_stays mem), other⟩
      · intro d x u mem gone asleep
        obtain rfl := forget_gone mem gone
        refine absurd asleep (awake_of_hand inv th ?_)
        rw [pos]
        exact List.mem_cons_self

theorem sweep (resting : s.Resting) {now : Nat} {user : Bool}
    (pos : s.job (.cpu c) = .sweep now user) : (s.runJob (.cpu c) c (.sweep now user)).Resting := by
  obtain ⟨sub, swept⟩ := sweepList_spec now MAX_DUE (s.sleepers c)
  have self : (s.setSleepers c (sweepList now MAX_DUE (s.sleepers c)).1).sleepers c =
      (sweepList now MAX_DUE (s.sleepers c)).1 := update_self ..
  have others : ∀ d, d ≠ c → (s.setSleepers c (sweepList now MAX_DUE (s.sleepers c)).1).sleepers d =
      s.sleepers d := fun d other => update_of_ne other _ _
  refine resting.shrink rfl rfl rfl rfl rfl (fun d => ?_) ?_ ?_ ?_ ?_ (fun u => ?_)
    fun now user => ?_
  · by_cases eq : d = c
    · subst eq
      rwa [self]
    · rw [others d eq]
  · intro d t u mem clears
    rw [pos] at clears
    exact clears.elim
  · intro d t u mem gone asleep
    obtain rfl : d = c := by
      by_contra ne
      exact gone (others d ne ▸ mem)
    rw [self] at gone
    obtain ⟨named, due⟩ := swept (t, u) mem gone
    refine ⟨d, _, user, rfl, if_neg (List.ne_nil_of_mem named), named, ?_⟩
    exact Nat.le_trans due (resting.sweeping d now user pos)
  · rw [pos]
    nofun
  · rw [pos]
    nofun
  · split <;> nofun
  · split <;> nofun

/-- Some tasks are made ready: those that had an entry are in the thread's hand, and
none of them is on a CPU. -/
theorem wakes (resting : s.Resting) {r : Kernel n} (jobs : r.job = s.job)
    (sleepers : r.sleepers = s.sleepers) (table : r.table = s.table)
    (current : r.current = s.current) (ticks : r.ticks = s.ticks)
    (tasks : ∀ t, r.tasks t = s.tasks t ∨
      (r.tasks t).state = .ready ∧ (∀ c, s.current c ≠ t) ∧
        ∀ d u, (t, u) ∈ s.sleepers d → next.clears t d)
    (was : ∀ t d, ¬(s.job th).clears t d) (undozed : ∀ u, s.job th ≠ .doze u)
    (expired : ∀ ids user, s.job th = .expire ids user → ∀ t ∈ ids, t ∈ s.table →
      ∀ u, ¬(r.tasks t).Asleep u)
    (still : (∀ u, next ≠ .doze u) ∧ ∀ now user, next ≠ .sweep now user) :
    (r.setJob th next).Resting := by
  refine resting.alter jobs table current ticks (fun d => by rw [sleepers]) (fun c => ?_)
    (fun t u asleep => ?_) (fun d t u mem asleep => ?_)
    (fun d t _ _ clears => (was t d clears).elim)
    (fun d t u mem gone => absurd (sleepers ▸ mem) gone) undozed expired still.1
    (fun now user pos => absurd pos (still.2 now user))
  · rcases tasks (s.current c) with eq | ⟨-, away, -⟩
    · exact eq
    · exact absurd rfl (away c)
  · rcases tasks t with eq | ⟨ready, -⟩
    · rwa [eq] at asleep
    · exact absurd asleep (not_asleep (by simp [ready]) u)
  · rcases tasks t with eq | ⟨-, -, cleared⟩
    · exact .inl (eq.symm ▸ asleep :)
    · exact .inr (cleared d u (sleepers ▸ mem))

theorem away (inv : s.Inv) (offCpu : (s.tasks t).onCpu = none) (c : Cpu n) : s.current c ≠ t := by
  rintro rfl
  have fits := inv.held.true_of (o := .cpu c) List.mem_cons_self
  simp [offCpu, Stage.Fits] at fits

theorem lookup (resting : s.Resting) (inv : s.Inv) {id : TaskId} {after : After}
    (pos : s.job th = .lookup id after) (meets : s.Meets c (.lookup id after)) :
    (s.runJob th c (.lookup id after)).Resting := by
  have was : ¬(s.job th).Stirring := by
    rw [pos]
    exact fun stirring => stirring
  rw [runJob]
  split
  next wakeable =>
    split
    next offCpu =>
      refine resting.wakes rfl rfl rfl rfl rfl (fun t => ?_) (fun t d clears => ?_) ?_ ?_
        ⟨(by rintro _ ⟨⟩), (by rintro _ _ ⟨⟩)⟩
      · by_cases eq : t = id
        · subst eq
          exact .inr ⟨by simp [setState, setTask], away inv offCpu, fun _ _ _ => rfl⟩
        · exact .inl (update_of_ne eq _ _)
      · exact was clears.stirring
      · rw [pos]
        rintro _ ⟨⟩
      · rw [pos]
        rintro _ _ ⟨⟩
    next onCpu =>
      have awake : (s.tasks id).state ≠ .sleeping := fun sleeping => onCpu (meets sleeping)
      exact resting.still was (still_setState awake (by rintro ⟨⟩) (after.job_still c))
  · exact resting.still was (still_turn (after.job_still c))

theorem expireAll_wakes {ids : List TaskId} (named : t ∈ ids) (mem : t ∈ s.table) :
    ((expireAll s ids).1.tasks t).state ≠ .sleeping := by
  fun_induction expireAll s ids with
  | case1 => cases named
  | case2 s id ids _ after _ ih | case3 s id ids _ after _ ih =>
    by_cases eq : id = t
    · subst eq
      change (after.1.tasks id).state ≠ .sleeping
      rcases (expired (s.setState id .ready) ids).cases id with kept | ⟨again, -⟩
      · rw [kept]
        simp [setState, setTask]
      · simp [setState, setTask] at again
    · exact ih ((List.mem_cons.mp named).resolve_left (Ne.symm eq)) mem
  | case4 s id ids other ih =>
    by_cases eq : id = t
    · subst eq
      rcases (expired s ids).cases id with kept | ⟨again, -⟩
      · exact kept ▸ fun sleeping => other ⟨mem, sleeping⟩
      · exact absurd ⟨mem, again⟩ other
    · exact ih ((List.mem_cons.mp named).resolve_left (Ne.symm eq)) mem

theorem expire (resting : s.Resting) (inv : s.Inv) {ids : List TaskId} {user : Bool}
    (pos : s.job (.cpu c) = .expire ids user) (meets : s.Meets c (.expire ids user)) :
    (s.runJob (.cpu c) c (.expire ids user)).Resting := by
  have outcome := expired s ids
  have frame := outcome.frame
  refine resting.wakes (by rw [frame]) (by rw [frame]) (by rw [frame]) (by rw [frame])
    (by rw [frame]) (fun t => ?_) (fun t d clears => ?_) ?_ (fun ids' user' eq => ?_) ?_
  · rcases outcome.cases t with eq | ⟨sleeping, made, named, -⟩
    · exact .inl eq
    · obtain ⟨offCpu, unlisted⟩ := meets t named sleeping
      refine .inr ⟨by rw [made], away inv offCpu, fun d u mem => ?_⟩
      exact absurd (mem_names mem) (unlisted d)
  · rw [pos] at clears
    exact clears
  · rw [pos]
    nofun
  · rw [pos] at eq
    cases eq
    exact fun t named listed u => not_asleep (expireAll_wakes named listed) u
  · have plain : ∀ {next : Job n}, ¬next.Stirring →
        (∀ u, next ≠ .doze u) ∧ ∀ now user, next ≠ .sweep now user := by
      rintro next still
      exact ⟨fun u eq => still (by rw [eq]; trivial),
        fun now user eq => still (by rw [eq]; trivial)⟩
    refine plain ?_
    split
    · exact fun stirring => stirring
    · exact After.job_still _ c

theorem doze (resting : s.Resting) (inv : s.Inv) {u : Nat} (pos : s.job (.cpu c) = .doze u) :
    (s.runJob (.cpu c) c (.doze u)).Resting := by
  obtain ⟨asleep, unlisted⟩ := resting.dozing c u pos
  have other : ∀ {th' : Thread n}, th' ≠ .cpu c →
      (s.runJob (.cpu c) c (.doze u)).job th' = s.job th' := fun ne =>
    setJob_other ne _ _
  have grows : ∀ d entry, entry ∈ s.sleepers d →
      entry ∈ (s.runJob (.cpu c) c (.doze u)).sleepers d := by
    intro d entry mem
    change entry ∈ update s.sleepers c _ d
    by_cases eq : d = c
    · subst eq
      rw [update_self]
      exact List.mem_append_left _ mem
    · rwa [update_of_ne eq]
  have origin : ∀ d entry, entry ∈ (s.runJob (.cpu c) c (.doze u)).sleepers d →
      entry ∈ s.sleepers d ∨ d = c ∧ entry = (s.current c, u) := by
    intro d entry mem
    change entry ∈ update s.sleepers c _ d at mem
    by_cases eq : d = c
    · subst eq
      rw [update_self] at mem
      rcases List.mem_append.mp mem with was | pushed
      · exact .inl was
      · exact .inr ⟨rfl, List.mem_singleton.mp pushed⟩
    · rw [update_of_ne eq] at mem
      exact .inl mem
  refine ⟨?_, fun d t u' mem => ?_, fun t u' asleep' => ?_, fun d u' again => ?_,
    fun d now user sweeping => ?_⟩
  · refine resting.held.put ?_ (fun t named d mem => ?_) (fun _ _ _ _ _ => trivial)
      fun _ _ => trivial
    · rw [names, List.map_append, List.nodup_append']
      refine ⟨resting.held.once c, List.nodup_singleton _, fun t left right => ?_⟩
      obtain rfl := List.mem_singleton.mp right
      exact unlisted c left
    · rw [names, List.map_append, List.mem_append] at named
      rcases named with was | pushed
      · exact resting.held.unique mem was
      · obtain rfl := List.mem_singleton.mp pushed
        exact absurd mem (unlisted d)
  · rcases origin d _ mem with was | ⟨rfl, pushed⟩
    · rcases resting.entry d t u' was with asleep | ⟨th', clears⟩
      · exact .inl asleep
      refine .inr ⟨th', ?_⟩
      rwa [other]
      rintro rfl
      rw [pos] at clears
      exact clears
    · cases pushed
      exact .inl asleep
  · obtain ⟨listed, why⟩ := resting.asleep t u' asleep'
    refine ⟨listed, ?_⟩
    rcases why with ⟨d, mem⟩ | ⟨d, here, dozing⟩ | ⟨d, ids, user, expiring, mem, due⟩
    · exact .inl ⟨d, grows d _ mem⟩
    · by_cases eq : d = c
      · subst eq here
        obtain rfl : u = u' := by simpa [pos] using dozing
        refine .inl ⟨d, ?_⟩
        change _ ∈ update s.sleepers d _ d
        rw [update_self]
        exact List.mem_append_right _ List.mem_cons_self
      · exact .inr (.inl ⟨d, here, (other (by simpa using eq)).trans dozing⟩)
    · refine .inr (.inr ⟨d, ids, user, (other ?_).trans expiring, mem, due⟩)
      rintro eq
      rw [eq, pos] at expiring
      cases expiring
  · have ne : Thread.cpu d ≠ .cpu c := by
      intro eq
      rw [eq, runJob, setJob_self] at again
      cases again
    rw [other ne] at again
    obtain ⟨asleep', unlisted'⟩ := resting.dozing d u' again
    refine ⟨asleep', fun e mem => ?_⟩
    obtain ⟨⟨t, v⟩, entry, named⟩ := List.mem_map.mp mem
    rcases origin e _ entry with was | ⟨rfl, pushed⟩
    · exact unlisted' e (List.mem_map.mpr ⟨_, was, named⟩)
    · cases pushed
      exact ne (congrArg _ (inv.onePlace.oneCpu _ _ named.symm))
  · have ne : Thread.cpu d ≠ .cpu c := by
      intro eq
      rw [eq, runJob, setJob_self] at sweeping
      cases sweeping
    rw [other ne] at sweeping
    exact resting.sweeping d now user sweeping

theorem runJob (resting : s.Resting) (inv : s.Inv)
    (own : th = .cpu c ∨ (s.job th).AtBase) (meets : s.Meets c (s.job th)) :
    (s.runJob th c (s.job th)).Resting := by
  cases pos : s.job th with
  | lookup => exact resting.lookup inv pos (pos ▸ meets)
  | unsleepOwn => exact resting.unsleepOwn inv pos
  | unsleep => exact resting.unsleep inv pos (pos ▸ meets)
  | sweep =>
    rw [pos] at own
    obtain rfl := own.resolve_right id
    exact resting.sweep pos
  | expire =>
    rw [pos] at own
    obtain rfl := own.resolve_right id
    exact resting.expire inv pos (pos ▸ meets)
  | doze =>
    rw [pos] at own
    obtain rfl := own.resolve_right id
    exact resting.doze inv pos
  | _ =>
    refine resting.still ?_ (still_runJob inv pos (pos ▸ own) id nofun)
    rw [pos]
    exact id

theorem sleep (resting : s.Resting) (inv : s.Inv) (rooted : s.Rooted) (busy : s.Busy c)
    (til : Nat) : ((s.stop c .sleeping til).setJob (.cpu c) (.doze til)).Resting := by
  have running : (s.tasks (s.current c)).state = .running := inv.stance_of busy.1.1 c rfl
  have awake : ∀ u, ¬(s.tasks (s.current c)).Asleep u := not_asleep (by simp [running])
  have unlisted : ∀ d, s.current c ∉ names (s.sleepers d) := by
    intro d mem
    obtain ⟨⟨t, u⟩, entry, named⟩ := List.mem_map.mp mem
    obtain rfl : t = s.current c := named
    rcases resting.entry d _ u entry with asleep | ⟨th, clears⟩
    · exact awake u asleep
    have here : s.current c ∈ names (s.holds (.cpu c)) := by simp [holds]
    have there : s.current c ∈ names (s.holds (.thread th)) :=
      Job.mem_names_of_hand clears.hand th.home
    cases inv.held.unique here there
  have self : ((s.stop c .sleeping til).tasks (s.current c)).Asleep til := by
    simp [stop, setTask, Task.Asleep]
  have others : ∀ t, t ≠ s.current c → (s.stop c .sleeping til).tasks t = s.tasks t :=
    fun t ne => update_of_ne ne _ _
  have jobs : ∀ {th' : Thread n}, th' ≠ .cpu c →
      ((s.stop c .sleeping til).setJob (.cpu c) (.doze til)).job th' = s.job th' :=
    fun ne => setJob_other ne _ _
  have entered : ∀ {job : Job n}, s.job (.cpu c) = job → job = .code := by
    rintro _ rfl
    exact busy.1.1
  refine ⟨resting.held, fun d t u mem => ?_, fun t u asleep => ?_, fun d u dozing => ?_,
    fun d now user sweeping => ?_⟩
  · have ne : t ≠ s.current c := by
      rintro rfl
      exact unlisted d (mem_names mem)
    rcases resting.entry d t u mem with asleep | ⟨th, clears⟩
    · refine .inl ?_
      rw [← others t ne] at asleep
      exact asleep
    refine .inr ⟨th, ?_⟩
    rwa [jobs]
    rintro rfl
    rw [entered rfl] at clears
    exact clears
  · by_cases eq : t = s.current c
    · subst eq
      refine ⟨rooted.listed _ (.inr (.inl ⟨c, rfl⟩)), .inr (.inl ⟨c, rfl, ?_⟩)⟩
      obtain rfl : til = u := self.2.symm.trans asleep.2
      exact setJob_self ..
    · have was : (s.tasks t).Asleep u := by
        rw [← others t eq]
        exact asleep
      obtain ⟨listed, why⟩ := resting.asleep t u was
      refine ⟨listed, ?_⟩
      rcases why with entry | ⟨d, here, dozing⟩ | ⟨d, ids, user, expiring, rest⟩
      · exact .inl entry
      · refine .inr (.inl ⟨d, here, (jobs ?_).trans dozing⟩)
        rintro equal
        cases entered (equal ▸ dozing)
      · refine .inr (.inr ⟨d, ids, user, (jobs ?_).trans expiring, rest⟩)
        rintro equal
        cases entered (equal ▸ expiring)
  · by_cases eq : d = c
    · subst eq
      rw [setJob_self] at dozing
      cases dozing
      exact ⟨self, unlisted⟩
    · rw [jobs (by simpa using eq)] at dozing
      obtain ⟨asleep, free⟩ := resting.dozing d u dozing
      have ne : s.current d ≠ s.current c := fun equal =>
        eq (inv.onePlace.oneCpu _ _ equal)
      refine ⟨?_, free⟩
      rw [← others _ ne] at asleep
      exact asleep
  · have ne : Thread.cpu d ≠ .cpu c := by
      intro eq
      rw [eq, setJob_self] at sweeping
      cases sweeping
    rw [jobs ne] at sweeping
    exact resting.sweeping d now user sweeping

theorem enter (resting : s.Resting) (idling : s.Open c) (after : ¬next.Stirring) :
    (s.setJob (.cpu c) next).Resting := by
  refine resting.still ?_ (still_turn after)
  rw [show s.job (.cpu c) = .code from idling]
  exact id

theorem stop (resting : s.Resting) (inv : s.Inv) (busy : s.Busy c) {v : Task n}
    (later : v.state ≠ .sleeping) (after : ¬next.Stirring) :
    ((s.setTask (s.current c) v).setJob (.cpu c) next).Resting := by
  have running : (s.tasks (s.current c)).state = .running := inv.stance_of busy.1.1 c rfl
  refine resting.still ?_ (still_setTask (fun u => ?_) after)
  · rw [show s.job (.cpu c) = .code from busy.1.1]
    exact id
  · exact iff_of_false (not_asleep later u) (not_asleep (by simp [running]) u)

theorem tick (resting : s.Resting) (idling : s.Open c) (user : Bool) :
    (s.setJob (.cpu c) (.sweep s.ticks user)).Resting := by
  have pos : s.job (.cpu c) = .code := idling
  refine resting.shrink rfl rfl rfl rfl rfl (fun _ => .refl _) (fun d t u _ clears => ?_)
    (fun d t u mem gone => absurd mem gone) ?_ ?_ nofun fun now user eq => ?_
  · rw [pos] at clears
    exact clears.elim
  · rw [pos]
    nofun
  · rw [pos]
    nofun
  · cases eq
    exact Nat.le_refl _

theorem takeDead (resting : s.Resting) (rooted : s.Rooted) (free : s.Free c) {id : TaskId}
    (found : (s.reap.find? fun id => decide (s.Reapable id)) = some id) :
    ({ s with reap := s.reap.erase id, table := s.table.filter (· ≠ id) }.setJob
      (.task (s.current c)) (.drop id)).Resting := by
  obtain ⟨dead, -⟩ := rooted.dead id (List.mem_of_find?_eq_some found)
  have was : ¬(s.job (.task (s.current c))).Stirring := by
    rw [free.2]
    exact fun stirring => stirring
  refine resting.still was ⟨rfl, rfl, fun t mem sleeping => ?_, fun _ _ => rfl,
    fun _ _ => .rfl, fun _ other => setJob_other other _ _, ?_⟩
  · refine List.mem_filter.mpr ⟨mem, decide_eq_true ?_⟩
    rintro rfl
    rw [dead] at sleeping
    cases sleeping
  · rw [setJob_self]
    exact fun stirring => stirring

theorem step (resting : s.Resting) (inv : s.Inv) (rooted : s.Rooted) {action : Action n}
    (gentle : s.Gentle action) (moves : s.Moves action s') : s'.Resting := by
  have turned : ∀ {x : TaskId} {r : Kernel n} {next : Job n}, ¬(s.job (.task x)).Stirring →
      r.sleepers = s.sleepers → r.ticks = s.ticks → r.table = s.table →
      r.current = s.current → r.job = s.job → r.tasks = s.tasks → ¬next.Stirring →
      (r.setJob (.task x) next).Resting := by
    intro x r next was sleepers ticks table current jobs tasks after
    exact resting.still was (still_setJob sleepers ticks (fun t listed => table ▸ listed)
      current jobs (fun t u => by rw [tasks]) after)
  cases moves with
  | task idling =>
    exact resting.runJob inv (.inr (inv.base _)) (by simpa [Gentle, acting, idling] using gentle)
  | @cpu c =>
    by_cases idling : s.Open c
    · rw [show s.job (.cpu c) = .code from idling]
      exact resting
    · exact resting.runJob inv (.inl rfl) (by simpa [Gentle, acting, idling] using gentle)
  | tick idling => exact resting.tick idling _
  | reschedule idling | wakeOff idling => exact resting.enter idling id
  | wake free | spawn free => exact turned (by rw [free.2]; exact id) rfl rfl rfl rfl rfl rfl id
  | markBlocked busy => exact resting.stop inv busy (by rintro ⟨⟩) id
  | sleep busy => exact resting.sleep inv rooted busy _
  | @exitCurrent c busy =>
    have after : ¬s.farewell.Stirring := by
      unfold farewell
      split <;> exact id
    have stopped : ((s.setState (s.current c) .dead).setJob (.cpu c) s.farewell).Resting :=
      resting.stop inv busy (by rintro ⟨⟩) after
    exact ⟨stopped.held, stopped.entry, stopped.asleep, stopped.dozing, stopped.sweeping⟩
  | abandon _ pos => exact turned (by rw [pos]; exact id) rfl rfl rfl rfl rfl rfl id
  | takeDead free found => exact resting.takeDead rooted free found
  | takeNone => exact resting
  | setSupervisor =>
    exact ⟨resting.held, resting.entry, resting.asleep, resting.dozing, resting.sweeping⟩
  | clock =>
    refine ⟨resting.held, resting.entry, fun t u asleep => ?_, resting.dozing,
      fun c now user pos => Nat.le_succ_of_le (resting.sweeping c now user pos)⟩
    obtain ⟨listed, entry | dozing | ⟨c, ids, user, pos, mem, due⟩⟩ :=
      resting.asleep t u asleep
    · exact ⟨listed, .inl entry⟩
    · exact ⟨listed, .inr (.inl dozing)⟩
    · exact ⟨listed, .inr (.inr ⟨c, ids, user, pos, mem, Nat.le_succ_of_le due⟩)⟩

end Resting

theorem resting_start : (start n).Resting where
  held := ⟨fun _ => List.nodup_nil, nofun, nofun⟩
  entry := nofun
  asleep t u asleep := by
    have sleeping := asleep.1
    rw [start_tasks] at sleeping
    repeat' split at sleeping
    all_goals cases sleeping
  dozing := nofun
  sweeping := nofun

/-! ## Whole runs -/

/-- Every sleeping task has exactly one entry over all lists, with its own deadline,
and no other task has any. -/
structure Tidy (s : Kernel n) : Prop where
  sleeper : ∀ t, (s.tasks t).state = .sleeping →
    ∃ d, (s.sleepers d).filter (fun entry => entry.1 = t) = [(t, (s.tasks t).sleepUntil)] ∧
      ∀ e, e ≠ d → t ∉ names (s.sleepers e)
  others : ∀ t, (s.tasks t).state ≠ .sleeping → ∀ d, t ∉ names (s.sleepers d)

theorem filter_eq_singleton {list : List (TaskId × Nat)} (once : (names list).Nodup)
    (member : (t, u) ∈ list) : list.filter (fun entry => entry.1 = t) = [(t, u)] := by
  induction list with
  | nil => cases member
  | cons head rest ih =>
    obtain ⟨fresh, once⟩ := List.nodup_cons.mp once
    rcases List.mem_cons.mp member with rfl | member
    · rw [List.filter_cons_of_pos (by simp), List.filter_eq_nil_iff.mpr]
      intro entry mem eq
      have named := mem_names mem
      rw [of_decide_eq_true eq] at named
      exact fresh named
    · have other : head.1 ≠ t := by
        intro eq
        exact fresh (eq ▸ mem_names member)
      rw [List.filter_cons_of_neg (by simpa using other)]
      exact ih once member

theorem Resting.tidy (resting : s.Resting) (still : ∀ th, ¬(s.job th).Stirring) : s.Tidy where
  sleeper t sleeping := by
    obtain ⟨-, ⟨d, mem⟩ | ⟨c, -, dozing⟩ | ⟨c, ids, user, expiring, -⟩⟩ :=
      resting.asleep t _ ⟨sleeping, rfl⟩
    · refine ⟨d, filter_eq_singleton (resting.held.once d) mem, fun e other listed => ?_⟩
      exact other (resting.held.unique listed (mem_names mem))
    · exact absurd (by rw [dozing]; trivial) (still (.cpu c))
    · exact absurd (by rw [expiring]; trivial) (still (.cpu c))
  others t awake d listed := by
    obtain ⟨⟨x, u⟩, mem, rfl⟩ := List.mem_map.mp listed
    rcases resting.entry d x u mem with asleep | ⟨th, clears⟩
    · exact awake asleep.1
    · exact still th clears.stirring

theorem Resting.due_of_named (resting : s.Resting) (inv : s.Inv) {ids : List TaskId} {user : Bool}
    (meets : s.Meets c (.expire ids user)) (named : t ∈ ids) (asleep : (s.tasks t).Asleep u) :
    u ≤ s.ticks := by
  obtain ⟨offCpu, unlisted⟩ := meets t named asleep.1
  obtain ⟨-, ⟨d, mem⟩ | ⟨c, here, -⟩ | ⟨c, ids, user, -, -, due⟩⟩ := resting.asleep t u asleep
  · exact absurd (mem_names mem) (unlisted d)
  · exact absurd here (Resting.away inv offCpu c)
  · exact due

theorem Resting.due (resting : s.Resting) (inv : s.Inv) {ids : List TaskId} {user : Bool}
    (pos : s.job (.cpu c) = .expire ids user) (gentle : s.Gentle (.run c))
    (ran : s.step (.run c) = some s') (sleeping : (s.tasks t).state = .sleeping)
    (woken : (s'.tasks t).state ≠ .sleeping) : (s.tasks t).sleepUntil ≤ s.ticks := by
  have busy : ¬s.Open c := by
    intro idling
    rw [Open, pos] at idling
    cases idling
  simp only [Kernel.step, Gentle, acting, if_neg busy, pos, reduceCtorEq, if_false,
    Option.some.injEq] at ran gentle
  subst ran
  rcases (expired s ids).cases t with eq | ⟨-, -, named, -⟩
  · exact absurd ((congrArg Task.state eq).trans sleeping) woken
  · exact resting.due_of_named inv gentle named ⟨sleeping, rfl⟩

theorem Resting.asleep_runJob (resting : s.Resting) (inv : s.Inv)
    (own : th = .cpu c ∨ (s.job th).AtBase) (meets : s.Meets c (s.job th))
    (unwoken : ∀ after, s.job th ≠ .lookup t after) (asleep : (s.tasks t).Asleep u) :
    ((s.runJob th c (s.job th)).tasks t).Asleep u ∨ u ≤ s.ticks := by
  cases pos : s.job th with
  | lookup id after =>
    have ne : t ≠ id := by
      rintro rfl
      exact unwoken after pos
    have other : (s.setState id .ready).tasks t = s.tasks t :=
      update_of_ne ne _ _
    refine .inl ?_
    rw [Kernel.runJob]
    split
    next =>
      split
      next => exact other.symm ▸ asleep
      next => exact other.symm ▸ asleep
    next => exact asleep
  | unsleepOwn | sweep | doze => exact .inl asleep
  | unsleep t' q own rest after =>
    cases rest with
    | nil => exact .inl asleep
    | cons v rest =>
      refine .inl ?_
      rw [Kernel.runJob]
      split
      next => exact asleep
      next => exact asleep
  | expire ids user =>
    rw [pos] at meets
    rcases (expired s ids).cases t with eq | ⟨-, -, named, -⟩
    · refine .inl ?_
      change ((expireAll s ids).1.tasks t).Asleep u
      rwa [eq]
    · exact .inr (resting.due_of_named inv meets named asleep)
  | _ =>
    have still := still_runJob inv pos (pos ▸ own) id (by rintro _ _ ⟨⟩)
    exact .inl ((still.asleep t u).mpr asleep)

theorem Resting.asleep_or_due (resting : s.Resting) (inv : s.Inv) {action : Action n}
    (gentle : s.Gentle action) (moves : s.Moves action s')
    (unwoken : ∀ c after, action = .run c → s.job (s.acting c) ≠ .lookup t after)
    (asleep : (s.tasks t).Asleep u) : (s'.tasks t).Asleep u ∨ u ≤ s.ticks := by
  have stopped : ∀ {d : Cpu n} {v : Task n}, s.Busy d →
      ((s.setTask (s.current d) v).tasks t).Asleep u := by
    intro d v busy
    have running : (s.tasks (s.current d)).state = .running := inv.stance_of busy.1.1 d rfl
    have ne : t ≠ s.current d := by
      rintro rfl
      rw [asleep.1] at running
      cases running
    change (update s.tasks (s.current d) v t).Asleep u
    rwa [update_of_ne ne]
  cases moves with
  | @task d idling =>
    have mine : s.acting d = .task (s.current d) := if_pos idling
    exact resting.asleep_runJob inv (.inr (inv.base _))
      (by simpa [Gentle, acting, idling] using gentle)
      (fun after => mine ▸ unwoken d after rfl) asleep
  | @cpu d =>
    by_cases idling : s.Open d
    · rw [show s.job (.cpu d) = .code from idling]
      exact .inl asleep
    · have mine : s.acting d = .cpu d := if_neg idling
      exact resting.asleep_runJob inv (.inl rfl) (by simpa [Gentle, acting, idling] using gentle)
        (fun after => mine ▸ unwoken d after rfl) asleep
  | tick | reschedule | wakeOff | wake | spawn | abandon | takeDead | takeNone => exact .inl asleep
  | markBlocked busy | sleep busy | exitCurrent busy => exact .inl (stopped busy)
  | setSupervisor | clock => exact .inl asleep

/-- Whenever nobody is in the middle of `sleep_ms`, `wake`, `unsleep` or `on_tick`, each sleeping
task has exactly one entry and no other task has any; and `on_tick` wakes no task too early. -/
theorem sleepers_of_gentle_run {actions : List (Action n)}
    (run : Run (Guarded (fun s action => s.Orderly action ∧ s.Gentle action) fun s action s' =>
      s.step action = some s') (start n) actions s) :
    ((∀ th, ¬(s.job th).Stirring) → s.Tidy) ∧
    ∀ c ids user s', s.job (.cpu c) = .expire ids user → s.Gentle (.run c) →
      s.step (.run c) = some s' → ∀ t, (s.tasks t).state = .sleeping →
      (s'.tasks t).state ≠ .sleeping → (s.tasks t).sleepUntil ≤ s.ticks := by
  obtain ⟨inv, -, resting⟩ := run.invariant (fun s => s.Inv ∧ s.Rooted ∧ s.Resting)
    ⟨inv_start, rooted_start, resting_start⟩
    fun _ _ _ ⟨inv, rooted, resting⟩ ran => ⟨inv.step ran.1.1.1 (moves_of_step ran.2),
      rooted.step inv ran.1.1.2 (moves_of_step ran.2),
      resting.step inv rooted ran.1.2 (moves_of_step ran.2)⟩
  exact ⟨resting.tidy, fun c ids user s' pos gentle stepped t =>
    resting.due inv pos gentle stepped⟩

/-- Two CPUs. The task 3 is spawned by `kmain`, runs on the boot processor and goes to
sleep there. -/
def drowsing : List (Action 1) :=
  [.spawn bsp none] ++ runs bsp 4 ++ [.reschedule bsp] ++ runs bsp 17 ++ [.sleep bsp 5] ++
    runs bsp 1

theorem tidy_after_sleeping : ∃ s : Kernel 1,
    Run (Guarded (fun s action => s.Orderly action ∧ s.Gentle action) fun s action s' =>
      s.step action = some s') (start 1) (drowsing ++ runs 0 13) s ∧
    (∀ th, ¬(s.job th).Stirring) ∧ (s.tasks 3).Asleep 5 ∧ s.sleepers 0 = [(3, 5)] ∧ s.Tidy := by
  obtain ⟨s, gentle, still, asleep, entries⟩ :=
    exists_of_few_current (fun job => ¬job.Stirring) id 4
      (fun s action => s.Orderly action ∧ s.Gentle action)
      (fun s : Kernel 1 => (s.tasks 3).Asleep 5 ∧ s.sleepers 0 = [(3, 5)])
      (drowsing ++ runs 0 13) (by decide +kernel)
  exact ⟨s, gentle, still, asleep, entries, (sleepers_of_gentle_run gentle).1 still⟩

/-- The other processor wakes the task while it is still on its CPU: the entry stays. -/
def startled : List (Action 1) := drowsing ++ [.wakeOff ap 3] ++ runs ap 1 ++ runs bsp 16

theorem awake_task_has_entry : ∃ s : Kernel 1,
    Run (fun s action s' => s.step action = some s') (start 1) startled s ∧
    (∀ th, s.job th = .code) ∧ (s.tasks 3).state = .ready ∧ s.sleepers 0 = [(3, 5)] := by
  obtain ⟨s, run, facts⟩ :=
    exists_of_few_current (fun job => job = .code) rfl 4 (fun _ _ => True)
      (fun s : Kernel 1 => (s.tasks 3).state = .ready ∧ s.sleepers 0 = [(3, 5)])
      startled (by decide +kernel)
  exact ⟨s, run.mono fun _ _ _ ran => ran.2, facts⟩

end Kernel

end K1K.Sched
