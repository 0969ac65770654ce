import K1K.Sched.Placement
import K1K.Sched.Replay

/-!
# No task in two places

Every step keeps the promises of `Placement`, as long as no section under the table lock makes a
task ready between the `release_cpu` of a `finish_switch` and its look at the state.
-/

namespace K1K.Sched

open K1K.Lib

variable {n : Nat}

theorem After.Stance.job {after : After} {task : Task n} (stance : after.Stance task)
    (c : Cpu n) : (after.job c).Stance task := by
  rcases after with _ | ⟨_ | ⟨t, rest⟩, user⟩ | _
  · exact stance
  · exact stance
  · exact stance
  · intro flagged
    simp [stance.2] at flagged

theorem Job.AtBase.of_done {after : After} (done : after = .done) (c : Cpu n) :
    (after.job c).AtBase := by
  subst done
  exact trivial

namespace Kernel

variable {s s' : Kernel n}

/-- A `finish_switch` has released the task and not yet looked at its state. -/
def Settling (s : Kernel n) (t : TaskId) : Prop := ∃ c, s.job (.cpu c) = .settle t

instance (t : TaskId) : Decidable (s.Settling t) :=
  inferInstanceAs (Decidable (∃ c, s.job (.cpu c) = .settle t))

def Calm (s : Kernel n) : Job n → Prop
  | .lookup id _ => s.Wakeable id → ¬s.Settling id
  | .expire ids _ => ∀ id ∈ ids, (s.tasks id).state = .sleeping → ¬s.Settling id
  | _ => True

instance : DecidablePred s.Calm := fun job => by
  apply @Job.casesOn n (fun job => Decidable (s.Calm job)) job
  case lookup => exact fun id _ => inferInstanceAs (Decidable (s.Wakeable id → ¬s.Settling id))
  case expire =>
    exact fun ids _ => inferInstanceAs
      (Decidable (∀ id ∈ ids, (s.tasks id).state = .sleeping → ¬s.Settling id))
  all_goals intros; exact isTrue trivial

/-- No `wake` and no `on_tick` makes a task ready while it is settling. -/
def Undisturbed (s : Kernel n) : Action n → Prop
  | .run c => s.Calm (s.job (s.acting c))
  | _ => True

instance : DecidablePred s.Undisturbed := fun action => by
  apply @Action.casesOn n (fun action => Decidable (s.Undisturbed action)) action
  case run => exact fun c => inferInstanceAs (Decidable (s.Calm (s.job (s.acting c))))
  all_goals intros; exact isTrue trivial

namespace Inv

variable {th : Thread n} {c : Cpu n} {t : TaskId} {q : Cpu n} {after : After} {id : TaskId}

theorem settling_of_mem (inv : s.Inv) {o : Owner n} {d : Cpu n}
    (mem : (t, Stage.settling d) ∈ s.holds o) : s.Settling t := by
  rcases o with q | c | th
  · simp [holds] at mem
  · simp [holds] at mem
  have promised : (t, Stage.settling d) ∈ (s.job th).stages th.home := mem
  cases pos : s.job th with
  | settle prev =>
    cases th with
    | cpu c =>
      simp only [pos, Job.stages, List.mem_singleton, Prod.mk.injEq] at promised
      exact ⟨c, promised.1 ▸ pos⟩
    | task t' => simpa [pos, Job.AtBase] using inv.base t'
  | _ => simp [pos, Job.stages, After.stages] at promised

theorem unheld (inv : s.Inv)
    (asleep : (s.tasks id).state = .blocked ∨ (s.tasks id).state = .sleeping)
    (offCpu : (s.tasks id).onCpu = none) (settled : ¬s.Settling id) : Unheld s.holds id := by
  intro o mem
  obtain ⟨⟨x, stage⟩, entry, rfl⟩ := List.mem_map.mp mem
  have fits := inv.held.true_of entry
  cases stage with
  | reserved | waiting | picked | starting | claimed =>
    rcases asleep with state | state <;> simp [state, Stage.Fits] at fits
  | current | leaving => simp [offCpu, Stage.Fits] at fits
  | settling d => exact settled (inv.settling_of_mem entry)

/-! ## `enqueue_from` -/

theorem stance_of {job : Job n} (inv : s.Inv) (pos : s.job th = job) :
    ∀ d, th = .cpu d → job.Stance (s.tasks (s.current d)) := by
  rintro d rfl
  exact pos ▸ inv.stance d

theorem base_of {job : Job n} (inv : s.Inv) (pos : s.job th = job) :
    ∀ t', th = .task t' → job.AtBase := by
  rintro t' rfl
  exact pos ▸ inv.base t'

theorem promised {job : Job n} (inv : s.Inv) (pos : s.job th = job) :
    ∀ entry ∈ job.stages th.home, entry.2.Fits entry.1 (s.tasks entry.1) := by
  intro entry mem
  refine inv.held.true_of (o := .thread th) ?_
  simpa [holds, pos] using mem

theorem giveUp {job : Job n} (inv : s.Inv) (pos : s.job th = job)
    (holding : ∃ stage, job.stages th.home = (t, stage) :: after.stages)
    (stance : ∀ d, th = .cpu d → after.Stance (s.tasks (s.current d)))
    (base : ∀ t', th = .task t' → after = .done) : (s.setJob th (after.job c)).Inv := by
  obtain ⟨stage, holding⟩ := holding
  refine inv.turn ?_ ?_ (fun d eq => (stance d eq).job c)
    fun t' eq => Job.AtBase.of_done (base t' eq) c
  · simp [pos, holding]
  intro entry mem
  refine inv.promised pos entry ?_
  rw [holding]
  exact List.mem_cons_of_mem _ (by simpa using mem)

theorem enqueue (inv : s.Inv) (pos : s.job th = .enqueue t q after) :
    (s.runJob th c (.enqueue t q after)).Inv := by
  have stance := inv.stance_of pos
  have base := inv.base_of pos
  have promised := inv.promised pos
  rw [runJob]
  split
  · exact inv.turn (by simp [pos, Job.stages]) promised stance base
  · exact inv.giveUp pos ⟨_, rfl⟩ stance base

theorem mark (inv : s.Inv) (pos : s.job th = .mark t q after) :
    (s.runJob th c (.mark t q after)).Inv := by
  have marked : (s.place t .queued).Inv := inv.repaint rfl rfl rfl
  have stance := marked.stance_of pos
  have base := inv.base_of pos
  have promised := marked.promised pos
  rw [runJob]
  split
  · refine marked.turn ?_ promised stance base
    simp [place, setTask, pos, Job.stages]
  · exact inv.giveUp pos ⟨_, rfl⟩ (inv.stance_of pos) base

theorem push (inv : s.Inv) (pos : s.job th = .push t q after) :
    (s.runJob th c (.push t q after)).Inv := by
  have stance := inv.stance_of pos
  have base := inv.base_of pos
  have promised := inv.promised pos
  rw [runJob]
  refine inv.transfer (show Owner.queue q ≠ .thread th by simp)
    (by rw [holds_setJob, holds_setQueue, After.job_stages]) ?_ ?_ rfl rfl ?_ ?_
  · simp [holds, pos, Job.stages, names]
  · intro entry mem
    have split : entry ∈ s.holds (.queue q) ∨ entry ∈ (Job.push t q after).stages th.home := by
      simpa [holds, Job.stages, or_assoc] using mem
    rcases split with was | mine
    · exact inv.held.true_of was
    · exact promised entry mine
  · intro d
    by_cases eq : th = .cpu d
    · simpa [setJob, setQueue, eq] using (stance d eq).job c
    · simpa [setJob, setQueue, Ne.symm eq] using inv.stance d
  · intro t'
    by_cases eq : th = .task t'
    · simpa [setJob, setQueue, eq] using Job.AtBase.of_done (base t' eq) c
    · simpa [setJob, setQueue, Ne.symm eq] using inv.base t'

/-! ## `wake` -/

theorem sleepers (inv : s.Inv) (d : Cpu n) (entries : List (TaskId × Nat)) :
    (s.setSleepers d entries).Inv :=
  ⟨inv.held, inv.stance, inv.base, inv.idle, inv.spare, inv.fresh⟩

theorem lookup (inv : s.Inv) (pos : s.job th = .lookup id after)
    (calm : s.Calm (.lookup id after)) : (s.runJob th c (.lookup id after)).Inv := by
  have base := inv.base_of pos
  rw [runJob]
  split
  next wakeable =>
    have made := inv.ready wakeable.2
    have stance := made.stance_of pos
    have promised := made.promised pos
    split
    next offCpu =>
      have unheld := inv.unheld wakeable.2 offCpu (calm wakeable)
      have mine : id ∉ names ((s.job th).stages th.home) := unheld (.thread th)
      have once : (names ((s.job th).stages th.home)).Nodup := inv.held.once (.thread th)
      rw [pos] at mine once
      refine made.adopt (List.nodup_cons.mpr ⟨mine, once⟩) ?_ ?_ stance base
      · intro x mem
        rcases List.mem_cons.mp mem with rfl | kept
        · refine .inr ⟨unheld, ?_⟩
          by_contra late
          have dead := (inv.fresh _ (Nat.not_lt.mp late)).2.1
          rcases wakeable.2 with state | state <;> simp [dead] at state
        · refine .inl ?_
          rw [show (s.setState id .ready).job th = .lookup id after from pos]
          exact kept
      · intro entry mem
        rcases List.mem_cons.mp mem with rfl | kept
        · have awake : (s.tasks id).isIdle = false := by
            by_contra flagged
            rcases (inv.idle id (by simpa using flagged)).2 with state | state <;>
              rcases wakeable.2 with other | other <;> simp [state] at other
          simp [Stage.Fits, setState, setTask, awake]
        · exact promised entry kept
    refine made.turn ?_ ?_ (fun d eq => (stance d eq).job c)
      fun t' eq => Job.AtBase.of_done (base t' eq) c
    · rw [show (s.setState id .ready).job th = .lookup id after from pos, After.job_stages]
      exact List.Sublist.refl _
    · rw [After.job_stages]
      exact promised
  have stance := inv.stance_of pos
  have promised := inv.promised pos
  refine inv.turn ?_ ?_ (fun d eq => (stance d eq).job c)
    fun t' eq => Job.AtBase.of_done (base t' eq) c
  · rw [pos, After.job_stages]
    exact List.Sublist.refl _
  · rw [After.job_stages]
    exact promised

end Inv

/-! ## `on_tick` -/

namespace Inv

variable {c : Cpu n} {t : TaskId} {user woken : Bool} {ids : List TaskId}

theorem expire (inv : s.Inv) (pos : s.job (.cpu c) = .expire ids user)
    (calm : s.Calm (.expire ids user)) : (s.runJob (.cpu c) c (.expire ids user)).Inv := by
  have pass := expired s ids
  have kept : (expireAll s ids).1.Inv := by
    rw [pass.frame]
    refine inv.wakes fun x => ?_
    rcases pass.cases x with eq | ⟨asleep, made, -⟩
    · exact .inl eq
    · exact .inr ⟨.inr asleep, made⟩
  have eq : (expireAll s ids).1.job (.cpu c) = .expire ids user := by
    rw [pass.frame]
    exact pos
  have stance := kept.stance_of eq
  simp only [runJob]
  split
  · exact kept.turn (by simp [Job.stages]) (by simp [Job.stages]) stance nofun
  have due : ((After.due (expireAll s ids).2 user).job c).stages c =
      (expireAll s ids).2.map (·, .waiting) := After.job_stages _ _ _
  refine kept.adopt ?_ ?_ ?_ (fun d eq => ?_) nofun
  · simpa [Thread.home, due, names, Function.comp_def] using pass.once
  · intro x mem
    have listed : x ∈ (expireAll s ids).2 := by
      simpa [Thread.home, due, names, Function.comp_def] using mem
    obtain ⟨inIds, asleep, offCpu, made⟩ := pass.woken x listed
    have unheld := inv.unheld (.inr asleep) offCpu (calm x inIds asleep)
    refine .inr ⟨by rw [pass.frame]; exact unheld, ?_⟩
    by_contra late
    have dead := (kept.fresh x (Nat.not_lt.mp late)).2.1
    simp [made] at dead
  · intro entry mem
    simp only [Thread.home, due, List.mem_map] at mem
    obtain ⟨x, listed, rfl⟩ := mem
    obtain ⟨-, asleep, -, made⟩ := pass.woken x listed
    refine ⟨made, ?_⟩
    by_contra flagged
    rcases pass.cases x with eq | ⟨-, shape, -⟩
    · simp [eq, asleep] at made
    · simp only [shape, Bool.not_eq_false] at flagged
      rcases (inv.idle x flagged).2 with state | state <;> simp [asleep] at state
  · have running : (After.due (expireAll s ids).2 user).Stance _ := stance d eq
    exact running.job c

theorem account (inv : s.Inv) (pos : s.job (.cpu c) = .account woken user) :
    (s.runJob (.cpu c) c (.account woken user)).Inv := by
  have ticked : (s.setQuantum (s.current c) ((s.tasks (s.current c)).quantumLeft - 1)).Inv :=
    inv.repaint rfl rfl rfl
  have running : ((s.setQuantum (s.current c) ((s.tasks (s.current c)).quantumLeft - 1)).tasks
      (s.current c)).state = .running := by
    have stance : (s.tasks (s.current c)).state = .running := inv.stance_of pos c rfl
    simpa [setQuantum, setTask] using stance
  rw [runJob]
  refine ticked.turn ?_ ?_ ?_ (by rintro _ ⟨⟩)
  · repeat' split
    all_goals simp [Job.stages]
  · repeat' split
    all_goals simp [Job.stages]
  · rintro d eq
    cases eq
    repeat' split
    all_goals first
      | exact running
      | exact fun _ => running

/-! ## `schedule` -/

theorem onward (inv : s.Inv) {job : Job n} (empty : job.stages c = [])
    (stance : job.Stance (s.tasks (s.current c))) : (s.setJob (.cpu c) job).Inv := by
  refine inv.turn ?_ ?_ ?_ nofun
  · simp [Thread.home, empty]
  · simp [Thread.home, empty]
  · rintro d eq
    cases eq
    exact stance

theorem pop (inv : s.Inv) {q : Cpu n} {rest : List TaskId} (queued : s.queue q = t :: rest)
    (empty : (s.job (.cpu c)).stages c = [])
    (stance : (s.tasks (s.current c)).isIdle = true → (s.tasks (s.current c)).state = .running) :
    ((s.setQueue q rest).setJob (.cpu c) (.take t)).Inv := by
  refine inv.transfer (show Owner.queue q ≠ .thread (.cpu c) by simp)
    (by rw [holds_setJob, holds_setQueue]) ?_ ?_ rfl rfl ?_ ?_
  · have idle : s.holds (.thread (.cpu c)) = [] := empty
    have first : s.holds (.queue q) = (t, .waiting) :: rest.map (·, .waiting) := by
      simp [holds, queued]
    rw [idle, first, List.append_nil]
    exact (List.perm_append_singleton (t, Stage.waiting) _).map Prod.fst
  · intro entry mem
    have was : entry ∈ s.holds (.queue q) := by
      simp only [holds, queued, List.map_cons, List.mem_cons]
      simpa [Job.stages, or_comm] using mem
    exact inv.held.true_of was
  · intro d
    by_cases eq : d = c
    · subst eq
      simpa [setJob, setQueue, Job.Stance] using stance
    · simpa [setJob, setQueue, eq] using inv.stance d
  · intro t'
    simpa [setJob, setQueue] using inv.base t'

theorem carry (inv : s.Inv) {job job' : Job n} {stage stage' : Stage n}
    (pos : s.job (.cpu c) = job) (was : job.stages c = [(t, stage)])
    (now : job'.stages c = [(t, stage')]) (fits : stage'.Fits t (s.tasks t))
    (stance : job'.Stance (s.tasks (s.current c))) : (s.setJob (.cpu c) job').Inv := by
  refine inv.turn ?_ ?_ ?_ nofun
  · simp [Thread.home, pos, was, now]
  · simpa [Thread.home, now] using fits
  · rintro d eq
    cases eq
    exact stance

theorem work (inv : s.Inv) {job job' : Job n} {stage stage' : Stage n} {v : Task n}
    (pos : s.job (.cpu c) = job) (was : job.stages c = [(t, stage)])
    (now : job'.stages c = [(t, stage')]) (fits : stage'.Fits t v)
    (idle : v.isIdle = (s.tasks t).isIdle)
    (lively : v.isIdle = true → v.state = .ready ∨ v.state = .running)
    (stance : job'.Stance (s.tasks (s.current c))) :
    ((s.setTask t v).setJob (.cpu c) job').Inv := by
  refine inv.hand ?_ ?_ ?_ idle lively ?_ nofun
  · simp [Thread.home, pos, was]
  · simp [Thread.home, pos, was, now]
  · simpa [Thread.home, now] using fits
  · rintro d eq
    cases eq
    exact stance

theorem fits_of (inv : s.Inv) {job : Job n} {stage : Stage n} (pos : s.job (.cpu c) = job)
    (holding : job.stages c = [(t, stage)]) : stage.Fits t (s.tasks t) :=
  inv.promised pos (t, stage) (by simp [Thread.home, holding])

theorem fits_home {stage : Stage n} {task : Task n} (fits : stage.Fits t task)
    (flagged : task.isIdle = true) : ∃ d, stage.cpu = some d ∧ t = idleTask d := by
  cases stage <;> simp_all [Stage.Fits, Stage.Home, Stage.cpu]

theorem stages_cpu (job : Job n) :
    ∀ entry ∈ job.stages c, entry.2.cpu = none ∨ entry.2.cpu = some c := by
  cases job <;> simp [Job.stages, After.stages, Stage.cpu]

theorem stages_base {job : Job n} (base : job.AtBase) :
    ∀ entry ∈ job.stages c, entry.2.cpu = none := by
  cases job <;> first
    | exact base.elim
    | simp [Job.stages, After.stages, Stage.cpu]

theorem owner_of_mem (inv : s.Inv) {o : Owner n} {stage : Stage n}
    (mem : (t, stage) ∈ s.holds o) (kind : stage.cpu = some c) :
    o = .cpu c ∨ o = .thread (.cpu c) := by
  rcases o with q | d | th
  · obtain ⟨x, -, shape⟩ := List.mem_map.mp mem
    cases shape
    cases kind
  · cases List.mem_singleton.mp mem
    cases kind
    exact .inl rfl
  · cases th with
    | cpu d =>
      rcases stages_cpu (s.job (.cpu d)) _ mem with none | some
      · cases none.symm.trans kind
      · cases some.symm.trans kind
        exact .inr rfl
    | task t' => cases (stages_base (inv.base t') _ mem).symm.trans kind

theorem idleTask_injective {d : Cpu n} (eq : idleTask c = idleTask d) : c = d := by
  have values : (if c = 0 then 0 else (c : Nat) + 1) = if d = 0 then 0 else (d : Nat) + 1 := eq
  split at values <;> split at values
  next first second => rw [first, second]
  next => omega
  next => omega
  next => exact Fin.ext (by omega)

theorem fallback (inv : s.Inv) (pos : s.job (.cpu c) = .fallback) :
    (s.runJob (.cpu c) c .fallback).Inv := by
  have stance := inv.stance_of pos c rfl
  rw [runJob]
  split
  next running => exact inv.onward rfl running
  next stopped =>
    have unheld : Unheld s.holds (idleTask c) := by
      intro o mem
      obtain ⟨⟨x, stage⟩, entry, shape⟩ := List.mem_map.mp mem
      cases shape
      obtain ⟨d, kind, eq⟩ := fits_home (inv.held.true_of entry) (inv.spare c)
      obtain rfl := idleTask_injective eq
      rcases inv.owner_of_mem entry kind with rfl | rfl
      · obtain ⟨eq, -⟩ := Prod.mk.inj (List.mem_singleton.mp entry)
        exact stopped (stance (eq ▸ inv.spare c))
      · simp [holds, pos, Job.stages] at entry
    refine inv.adopt (by simp [Job.stages]) ?_ ?_ ?_ (by rintro _ ⟨⟩)
    · intro x mem
      simp only [Job.stages, names, List.map_cons, List.map_nil, List.mem_singleton] at mem
      subst mem
      refine .inr ⟨unheld, ?_⟩
      by_contra late
      simpa [inv.spare c] using (inv.fresh _ (Nat.not_lt.mp late)).2.2
    · simpa [Job.stages, Thread.home, Stage.Fits, Stage.Home] using (inv.idle _ (inv.spare c)).2
    · rintro d eq
      cases eq
      exact stance

theorem install (inv : s.Inv) (pos : s.job (.cpu c) = .install t) :
    (s.runJob (.cpu c) c (.install t)).Inv := by
  have stopped : (s.tasks (s.current c)).state ≠ .running := inv.stance_of pos c rfl
  obtain ⟨state, cpu, home⟩ := inv.fits_of pos rfl
  have mine : s.holds (.thread (.cpu c)) = [(t, .claimed c)] := by
    simp [holds, pos, Job.stages, Thread.home]
  have cur := inv.held.true_of (o := .cpu c) (List.mem_singleton.mpr rfl)
  rw [runJob]
  refine inv.transfer (show Owner.cpu c ≠ .thread (.cpu c) by simp)
    (by rw [holds_setJob, holds_setCurrent]) ?_ ?_ rfl rfl ?_ ?_
  · rw [mine]
    exact List.Perm.swap _ _ _
  · intro entry mem
    simp only [Job.stages, Thread.home, List.cons_append, List.nil_append, List.mem_cons,
      List.not_mem_nil, or_false] at mem
    rcases mem with rfl | rfl
    · exact ⟨cpu, home⟩
    · exact ⟨stopped, cur.1, cur.2⟩
  · intro d
    by_cases eq : d = c
    · subst eq
      simpa [setJob, setCurrent, Job.Stance] using state
    · simpa [setJob, setCurrent, eq] using inv.stance d
  · intro t'
    simpa [setJob, setCurrent] using inv.base t'

/-! ## Birth and burial -/

theorem build (inv : s.Inv) {addrSpace : Option Frame} {th : Thread n}
    (pos : s.job th = .build t addrSpace) : (s.runJob th c (.build t addrSpace)).Inv := by
  have mine : (Job.build t addrSpace).stages th.home = [(t, .reserved)] := rfl
  obtain ⟨-, idle⟩ := inv.promised pos (t, .reserved) (by simp [mine])
  have born : ((s.setTask t (.newKernel addrSpace)).setJob th (.enqueue t c .done)).Inv := by
    refine inv.hand ?_ ?_ ?_ ?_ nofun ?_ fun _ _ => rfl
    · simp [pos, mine]
    · simp [pos, Job.stages, After.stages, After.rest]
    · simp [Job.stages, After.stages, After.rest, Stage.Fits, Task.newKernel]
    · exact idle.symm
    · rintro d rfl
      exact (inv.stance_of pos d rfl).elim
  exact ⟨born.held, born.stance, born.base, born.idle, born.spare, born.fresh⟩

theorem perform (inv : s.Inv) {th : Thread n} {job : Job n} (pos : s.job th = job)
    (top : th = .cpu c ∨ job.AtBase) (calm : s.Calm job) : (s.runJob th c job).Inv := by
  have stance := inv.stance_of pos
  have base := inv.base_of pos
  have promised := inv.promised pos
  cases job with
  | code => exact inv
  | enqueue => exact inv.enqueue pos
  | mark => exact inv.mark pos
  | push => exact inv.push pos
  | lookup => exact inv.lookup pos calm
  | build => exact inv.build pos
  | unsleepOwn =>
    refine (inv.sleepers _ _).turn ?_ promised stance base
    simp [setSleepers, pos, Job.stages]
  | unsleep t q own rest =>
    cases rest with
    | nil => exact inv.turn (by simp [pos, Job.stages]) promised stance base
    | cons v rest =>
      rw [Kernel.runJob]
      split
      · exact inv.turn (by simp [pos, Job.stages]) promised stance base
      · refine (inv.sleepers _ _).turn ?_ promised stance base
        simp [setSleepers, pos, Job.stages]
  | drop t =>
    have freed : (s.freeSpace (s.tasks t).addrSpace).Inv :=
      ⟨inv.held, inv.stance, inv.base, inv.idle, inv.spare, inv.fresh⟩
    refine freed.turn (by simp [Job.stages]) (by simp [Job.stages]) ?_ fun _ _ => trivial
    exact fun d eq => (stance d eq).elim
  | sweep =>
    rw [Kernel.runJob]
    refine (inv.sleepers c _).turn ?_ ?_ (fun d eq => ?_) fun _ eq => (base _ eq).elim
    · split <;> simp [Job.stages]
    · split <;> simp [Job.stages]
    · split <;> exact stance d eq
  | expire =>
    obtain rfl := top.resolve_right id
    exact inv.expire pos calm
  | account =>
    obtain rfl := top.resolve_right id
    exact inv.account pos
  | fallback =>
    obtain rfl := top.resolve_right id
    exact inv.fallback pos
  | install =>
    obtain rfl := top.resolve_right id
    exact inv.install pos
  | doze =>
    obtain rfl := top.resolve_right id
    refine (inv.sleepers c _).onward rfl fun flagged => ?_
    simp [setSleepers, (stance c rfl).2] at flagged
  | blocked =>
    obtain rfl := top.resolve_right id
    refine inv.onward rfl fun flagged => ?_
    simp [(stance c rfl).2] at flagged
  | schedule =>
    obtain rfl := top.resolve_right id
    rw [Kernel.runJob]
    split
    · exact inv.onward rfl (stance c rfl)
    next queued => exact inv.pop queued (by rw [pos]; rfl) (stance c rfl)
  | steal rounds victims =>
    obtain rfl := top.resolve_right id
    cases victims with
    | nil =>
      cases rounds with
      | zero => exact inv.onward rfl (stance c rfl)
      | succ rounds =>
        have moved : (s.setCursor c ((s.stealCursor c + 1) % (n + 1))).Inv :=
          ⟨inv.held, inv.stance, inv.base, inv.idle, inv.spare, inv.fresh⟩
        exact moved.onward rfl (stance c rfl)
    | cons v rest =>
      rw [Kernel.runJob]
      split
      · exact inv.onward rfl (stance c rfl)
      next queued => exact inv.pop queued (by rw [pos]; rfl) (stance c rfl)
  | take =>
    obtain rfl := top.resolve_right id
    obtain ⟨state, idle⟩ := inv.fits_of pos rfl
    rw [Kernel.runJob, moveTo_eq]
    refine inv.work pos rfl rfl ⟨.inl state, fun flagged => ?_⟩ rfl (fun _ => .inl state)
      (stance c rfl)
    simp [idle] at flagged
  | compare t =>
    obtain rfl := top.resolve_right id
    have other : t ≠ s.current c :=
      inv.current_ne (o := .thread (.cpu c)) (by simp [holds, pos, Job.stages]) (by simp)
    rw [Kernel.runJob, if_neg other]
    exact inv.carry pos rfl rfl (inv.fits_of pos rfl) (stance c rfl)
  | suspend =>
    obtain rfl := top.resolve_right id
    have fits := inv.fits_of pos rfl
    rw [Kernel.runJob]
    split
    next running => exact inv.carry pos rfl rfl fits running
    next stopped => exact inv.carry pos rfl rfl fits stopped
  | requeue =>
    obtain rfl := top.resolve_right id
    refine inv.alter c rfl rfl (fun _ => .inl rfl) ?_ promised ?_
    · simp [pos, Job.stages]
    · simp [Job.Stance]
  | resume =>
    obtain rfl := top.resolve_right id
    obtain ⟨-, home⟩ := inv.fits_of pos rfl
    exact inv.work pos rfl rfl ⟨rfl, home⟩ rfl (fun _ => .inr rfl) (stance c rfl)
  | start =>
    obtain rfl := top.resolve_right id
    obtain ⟨state, home⟩ := inv.fits_of pos rfl
    rw [Kernel.runJob, moveTo_eq]
    exact inv.work pos rfl rfl ⟨state, home⟩ rfl (fun _ => .inr state) (stance c rfl)
  | claim =>
    obtain rfl := top.resolve_right id
    obtain ⟨state, home⟩ := inv.fits_of pos rfl
    exact inv.work pos rfl rfl ⟨state, rfl, home⟩ rfl (fun _ => .inr state) (stance c rfl)
  | load =>
    obtain rfl := top.resolve_right id
    have loaded : (s.setCr3 c (s.tasks (s.current c)).addrSpace).Inv :=
      ⟨inv.held, inv.stance, inv.base, inv.idle, inv.spare, inv.fresh⟩
    exact loaded.carry pos rfl rfl (inv.fits_of pos rfl) (stance c rfl)
  | switch =>
    obtain rfl := top.resolve_right id
    exact inv.carry pos rfl rfl (inv.fits_of pos rfl) (stance c rfl)
  | leave t =>
    obtain rfl := top.resolve_right id
    rw [Kernel.runJob, moveTo_eq]
    exact inv.work pos rfl rfl (inv.fits_of pos rfl) rfl
      (fun flagged => (inv.idle t flagged).2) (stance c rfl)
  | release t =>
    obtain rfl := top.resolve_right id
    obtain ⟨state, -, home⟩ := inv.fits_of pos rfl
    exact inv.work pos rfl rfl ⟨state, home⟩ rfl (fun flagged => (inv.idle t flagged).2)
      (stance c rfl)
  | settle =>
    obtain rfl := top.resolve_right id
    rw [Kernel.runJob]
    split
    next ready => exact inv.carry pos rfl rfl ready (stance c rfl)
    next => exact inv.onward rfl (stance c rfl)

/-! ## Whole runs -/

theorem enter (inv : s.Inv) (idling : s.Open c) {job : Job n} (empty : job.stages c = [])
    (stance : ∀ task : Task n, task.state = .running → job.Stance task) :
    (s.setJob (.cpu c) job).Inv :=
  inv.onward empty (stance _ (inv.stance_of idling c rfl))

theorem stop (inv : s.Inv) (busy : s.Busy c) {v : Task n} {job : Job n}
    (cpu : v.onCpu = (s.tasks (s.current c)).onCpu)
    (idle : v.isIdle = (s.tasks (s.current c)).isIdle) (empty : job.stages c = [])
    (stance : v.isIdle = false → job.Stance v) :
    ((s.setTask (s.current c) v).setJob (.cpu c) job).Inv := by
  have awake : v.isIdle = false := idle.trans busy.2
  refine inv.alter c cpu idle (fun flagged => ?_) ?_ ?_ (stance awake)
  · simp [awake] at flagged
  · simp [empty]
  · simp [empty]

theorem step (inv : s.Inv) {action : Action n} (calm : s.Undisturbed action)
    (moves : s.Moves action s') : s'.Inv := by
  cases moves with
  | task idling =>
    exact inv.perform rfl (.inr (inv.base _)) (by simpa [Undisturbed, acting, idling] using calm)
  | @cpu c =>
    by_cases idling : s.Open c
    · rw [show s.job (.cpu c) = .code from idling]
      exact inv
    · exact inv.perform rfl (.inl rfl) (by simpa [Undisturbed, acting, idling] using calm)
  | tick idling | wakeOff idling => exact inv.enter idling rfl fun _ running => running
  | reschedule idling => exact inv.enter idling rfl fun _ running _ => running
  | wake =>
    exact inv.turn (by simp [Job.stages, After.stages, After.rest])
      (by simp [Job.stages, After.stages, After.rest]) (by rintro _ ⟨⟩) fun _ _ => rfl
  | markBlocked busy | sleep busy => exact inv.stop busy rfl rfl rfl fun awake => ⟨.inl rfl, awake⟩
  | @exitCurrent c busy =>
    have buried : ((s.setState (s.current c) .dead).setJob (.cpu c) s.farewell).Inv := by
      refine inv.stop busy rfl rfl ?_ fun awake => ?_
      · unfold farewell
        split <;> rfl
      unfold farewell
      split
      · exact ⟨rfl, awake⟩
      · intro flagged
        exact absurd (awake.symm.trans flagged) (by simp)
    exact ⟨buried.held, buried.stance, buried.base, buried.idle, buried.spare, buried.fresh⟩
  | @spawn c addrSpace =>
    have reserved : { s with
        nextId := s.nextId + 1
        spaces := addrSpace.toList ++ s.spaces }.Inv :=
      ⟨inv.held, inv.stance, inv.base, inv.idle, inv.spare,
        fun t late => inv.fresh t (Nat.le_of_succ_le late)⟩
    have unborn := inv.fresh s.nextId (Nat.le_refl _)
    refine reserved.adopt (List.nodup_singleton _) ?_ ?_ (by rintro _ ⟨⟩) fun _ _ => trivial
    · rintro x mem
      obtain rfl := List.mem_singleton.mp mem
      exact .inr ⟨unborn.1, Nat.lt_succ_self _⟩
    · rintro entry mem
      obtain rfl := List.mem_singleton.mp mem
      exact unborn.2
  | @abandon c id addrSpace =>
    have freed : (s.freeSpace addrSpace).Inv :=
      ⟨inv.held, inv.stance, inv.base, inv.idle, inv.spare, inv.fresh⟩
    exact freed.turn (by simp [Job.stages]) (by simp [Job.stages]) (by rintro _ ⟨⟩)
      fun _ _ => trivial
  | @takeDead c id =>
    have removed : { s with reap := s.reap.erase id, table := s.table.filter (· ≠ id) }.Inv :=
      ⟨inv.held, inv.stance, inv.base, inv.idle, inv.spare, inv.fresh⟩
    exact removed.turn (by simp [Job.stages]) (by simp [Job.stages]) (by rintro _ ⟨⟩)
      fun _ _ => trivial
  | takeNone => exact inv
  | setSupervisor | clock => exact ⟨inv.held, inv.stance, inv.base, inv.idle, inv.spare, inv.fresh⟩

end Inv

theorem start_current (c : Cpu n) : ∃ flag, (start n).tasks ((start n).current c) =
    bootTask .running c .running flag ∧ (flag = true → (start n).current c = idleTask c) := by
  by_cases first : c = 0
  · subst first
    exact ⟨false, by simp [start, kmain], nofun⟩
  have above : 0 < (c : Nat) := Nat.pos_of_ne_zero fun zero => first (Fin.ext zero)
  have below := c.isLt
  refine ⟨true, ?_, fun _ => by simp [start, first]⟩
  have one : (c : Nat) ≠ 0 := by omega
  simp [start, first, idleTask, kmain, one, below]

theorem start_idle (c : Cpu n) : ((start n).tasks (idleTask c)).isIdle = true := by
  by_cases first : c = 0
  · simp [start, first, idleTask, bootTask]
  have above : 0 < (c : Nat) := Nat.pos_of_ne_zero fun zero => first (Fin.ext zero)
  have one : (c : Nat) ≠ 0 := by omega
  have known : (c : Nat) ≤ n := Nat.le_of_lt_succ c.isLt
  simp [start, first, idleTask, kmain, bootTask, one, known]

theorem eq_idleTask {t : Nat} (two : 2 ≤ t) (known : t < n + 2) :
    t = idleTask (Fin.ofNat (n + 1) (t - 1)) := by
  have value : (t - 1) % (n + 1) = t - 1 := Nat.mod_eq_of_lt (by omega)
  have some : ¬Fin.ofNat (n + 1) (t - 1) = 0 := by
    intro eq
    have zero : (t - 1) % (n + 1) = 0 := congrArg Fin.val eq
    omega
  rw [idleTask, if_neg some]
  change t = (t - 1) % (n + 1) + 1
  omega

theorem start_tasks {t : Nat} : (start n).tasks t = if t = 0 then bootTask .ready 0 .nowhere true
    else if t = 1 then bootTask .running 0 .running false
    else if t < n + 2 then bootTask .running (Fin.ofNat (n + 1) (t - 1)) .running true
    else unborn := rfl

theorem start_current_lt (c : Cpu n) : (start n).current c < n + 2 := by
  by_cases first : c = 0
  · simp [start, first, kmain]
  · have known : (c : Nat) ≤ n := Nat.le_of_lt_succ c.isLt
    simp [start, first, idleTask, known]

theorem inv_start : (start n).Inv where
  held := by
    refine ⟨fun o => ?_, fun {o o' x} left right => ?_, fun {o entry} mem => ?_⟩
    · rcases o with q | c | th <;> simp [holds, start, Job.stages]
    · rcases o with q | c | th
      · simp [holds, start] at left
      · rcases o' with q | c' | th
        · simp [holds, start] at right
        · simp only [holds, names, List.map_cons, List.map_nil, List.mem_singleton] at left right
          subst left
          obtain ⟨flag, task, -⟩ := start_current c
          obtain ⟨flag', task', -⟩ := start_current c'
          rw [← right, task] at task'
          have eq := congrArg Task.onCpu task'
          simpa [bootTask] using eq
        · simp [holds, start, Job.stages] at right
      · simp [holds, start, Job.stages] at left
    · rcases o with q | c | th
      · simp [holds, start] at mem
      · obtain rfl := List.mem_singleton.mp mem
        obtain ⟨flag, task, home⟩ := start_current c
        refine ⟨?_, fun flagged => home ?_⟩
        · rw [task]
          rfl
        · rw [task] at flagged
          exact flagged
      · simp [holds, start, Job.stages] at mem
  stance c := by
    obtain ⟨flag, task, -⟩ := start_current c
    rw [task]
    exact rfl
  base t := trivial
  idle t flagged := by
    rw [start_tasks] at flagged ⊢
    split at flagged
    next zero => exact ⟨⟨0, zero⟩, .inl (by simp [zero, bootTask])⟩
    next zero =>
      split at flagged
      · cases flagged
      next one =>
        split at flagged
        next known =>
          refine ⟨⟨_, eq_idleTask ?_ known⟩, .inr (by simp [zero, one, known, bootTask])⟩
          exact Nat.lt_of_le_of_ne (Nat.one_le_iff_ne_zero.mpr zero) (Ne.symm one)
        · cases flagged
  spare := start_idle
  fresh t late := by
    have known : ¬t < n + 2 := Nat.not_lt.mpr late
    refine ⟨fun o mem => ?_, ?_⟩
    · rcases o with q | c | th
      · simp [holds, start] at mem
      · obtain rfl := List.mem_singleton.mp mem
        exact known (start_current_lt c)
      · simp [holds, start, Job.stages] at mem
    · have zero : t ≠ 0 := fun eq => known (eq ▸ Nat.succ_pos _)
      have one : t ≠ 1 := fun eq => known (eq ▸ Nat.succ_lt_succ (Nat.succ_pos _))
      rw [start_tasks, if_neg zero, if_neg one, if_neg known]
      exact ⟨rfl, rfl⟩

structure OnePlace (s : Kernel n) : Prop where
  queuedOnce : ∀ q, (s.queue q).Nodup
  oneQueue : ∀ q q' t, t ∈ s.queue q → t ∈ s.queue q' → q = q'
  notCurrent : ∀ q c, s.current c ∉ s.queue q
  oneCpu : ∀ c c', s.current c = s.current c' → c = c'

instance : Decidable s.OnePlace :=
  decidable_of_iff ((∀ q, (s.queue q).Nodup) ∧
      (∀ q q', ∀ t ∈ s.queue q, t ∈ s.queue q' → q = q') ∧
      (∀ q c, s.current c ∉ s.queue q) ∧ ∀ c c', s.current c = s.current c' → c = c')
    ⟨fun ⟨once, oneQueue, notCurrent, oneCpu⟩ => ⟨once, oneQueue, notCurrent, oneCpu⟩,
      fun one => ⟨one.queuedOnce, one.oneQueue, one.notCurrent, one.oneCpu⟩⟩

theorem Inv.onePlace (inv : s.Inv) : s.OnePlace := by
  have queue : ∀ q, names (s.holds (.queue q)) = s.queue q := fun q => by
    simp [holds, names, Function.comp_def]
  have current : ∀ c, s.current c ∈ names (s.holds (.cpu c)) := fun c => by simp [holds]
  constructor
  · intro q
    rw [← queue]
    exact inv.held.once _
  · intro q q' t left right
    rw [← queue] at left right
    simpa using inv.held.unique left right
  · intro q c mem
    rw [← queue] at mem
    simpa using inv.held.unique mem (current c)
  · intro c c' eq
    have right := current c'
    rw [← eq] at right
    simpa using inv.held.unique (current c) right

theorem inv_of_run {actions : List (Action n)}
    (run : Run (Guarded Undisturbed fun s action s' => s.step action = some s') (start n)
      actions s) : s.Inv :=
  run.invariant Inv inv_start fun _ _ _ inv ran => inv.step ran.1 (moves_of_step ran.2)

/-- As long as no task is made ready while a `finish_switch` has released it and
not yet looked at it, no task is ever in two places. -/
theorem one_place_of_undisturbed_run {actions : List (Action n)}
    (run : Run (Guarded Undisturbed fun s action s' => s.step action = some s') (start n)
      actions s) : s.OnePlace :=
  (inv_of_run run).onePlace

/-! Two CPUs. The task 3 is spawned by `kmain`, runs on the boot processor and
blocks there. -/

def ap : Cpu 1 := 1

def runs (c : Cpu n) (count : Nat) : List (Action n) := List.replicate count (.run c)

/-- Up to the point where the `finish_switch` of the boot processor has released
the task and not yet looked at it. -/
def blocking : List (Action 1) :=
  [.spawn bsp none] ++ runs bsp 4 ++ [.reschedule bsp] ++ runs bsp 17 ++ [.markBlocked bsp] ++
    runs bsp 13

def waking : List (Action 1) := blocking ++ runs bsp 1 ++ [.wakeOff ap 3] ++ runs ap 8

theorem one_place_after_waking : ∃ s : Kernel 1,
    Run (Guarded Undisturbed fun s action s' => s.step action = some s') (start 1) waking s ∧
      s.queue 0 = [3] ∧ s.OnePlace := by
  refine exists_of_strictReplay (strict_eq 4) (fun s => s.queue 0 = [3]) (by decide +kernel)
    fun s run queued => ?_
  exact ⟨queued, one_place_of_undisturbed_run run⟩

/-- The other processor wakes it in the window: both processors queue it, and the second time the
boot processor is about to run it. -/
def race : List (Action 1) :=
  blocking ++ [.wakeOff ap 3] ++ runs ap 6 ++ runs bsp 4 ++ [.reschedule bsp] ++ runs bsp 2 ++
    runs ap 2 ++ runs bsp 7

theorem current_task_is_queued : ∃ s : Kernel 1,
    Run (fun s action s' => s.step action = some s') (start 1) race s ∧
      s.current 0 = 3 ∧ 3 ∈ s.queue 0 := by
  exact exists_run_of_strictReplay (strict_eq 4) _ (by decide +kernel) fun _ _ facts => facts

end Kernel

end K1K.Sched
