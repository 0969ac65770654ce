import K1K.Sched.Wakeups

/-!
# Reaping

`take_dead` hands a task out to be freed. A dead task on no CPU is in nobody's hands except
those of a `finish_switch` that has released it and not yet looked at its state.
-/

namespace K1K.Sched

open K1K.Lib

variable {n : Nat}

/-- The tasks a thread's next step reads or writes through a pointer in its hand. -/
def Job.touches : Job n → List TaskId
  | .enqueue t _ _ => [t]
  | .mark t _ _ => [t]
  | .take t => [t]
  | .compare t => [t]
  | .suspend t => [t]
  | .resume t => [t]
  | .start t => [t]
  | .claim t => [t]
  | .install t => [t]
  | .load t => [t]
  | .switch t => [t]
  | .leave t => [t]
  | .release t => [t]
  | .settle t => [t]
  | _ => []

theorem Job.mem_hand_of_touches {job : Job n} {t : TaskId} (mem : t ∈ job.touches) :
    t ∈ job.hand := by
  cases job <;> simp_all [Job.touches, Job.hand]

def Job.Plain : Job n → Prop
  | .load _ => False
  | .build _ _ => False
  | .drop _ => False
  | _ => True

theorem After.job_plain (after : After) (c : Cpu n) : (after.job c).Plain := by
  rcases after with _ | ⟨_ | ⟨t, rest⟩, user⟩ | _ <;> trivial

def Job.Special : Job n → Prop
  | .install _ => True
  | .load _ => True
  | .build _ _ => True
  | .drop _ => True
  | _ => False

theorem mem_table_of_expireAll {s : Kernel n} {ids : List TaskId} {t : TaskId}
    (member : t ∈ (expireAll s ids).2) : t ∈ s.table := by
  induction ids generalizing s with
  | nil => cases member
  | cons id ids ih =>
    rw [expireAll] at member
    split at member
    next due =>
      split at member
      · rcases List.mem_cons.mp member with rfl | member
        · exact due.1
        · exact (ih member :)
      · exact (ih member :)
    · exact ih member

namespace Kernel

variable {s s' : Kernel n} {th : Thread n} {c : Cpu n} {job next : Job n} {t : TaskId}

def touched (s : Kernel n) (c : Cpu n) : List TaskId :=
  s.current c :: (s.job (s.acting c)).touches

theorem kept_of_touched (member : t ∈ s.touched c) : s.Kept t := by
  rcases List.mem_cons.mp member with rfl | member
  · exact .inr (.inl ⟨c, rfl⟩)
  · exact .inr (.inr ⟨_, Job.mem_hand_of_touches member⟩)

/-! ## Where pointers come from -/

/-- Every pointer to be found in `s'` was there before or leads into the table. -/
def Sourced (s s' : Kernel n) : Prop :=
  ∀ t, s'.Kept t → s.Kept t ∨ t ∈ s'.table ∨ ∃ c : Cpu n, t = idleTask c

theorem sourced_setJob {r : Kernel n} (jobs : r.job = s.job)
    (queued : ∀ q, ∀ t ∈ r.queue q, s.Kept t) (current : ∀ c, s.Kept (r.current c))
    (hand : ∀ t ∈ next.hand, s.Kept t ∨ t ∈ r.table ∨ ∃ c : Cpu n, t = idleTask c) :
    Sourced s (r.setJob th next) := by
  rintro t (⟨q, mem⟩ | ⟨c, rfl⟩ | ⟨th', mem⟩)
  · exact .inl (queued q t mem)
  · exact .inl (current c)
  by_cases eq : th' = th
  · subst eq
    rw [setJob_self] at mem
    exact hand t mem
  · rw [setJob_other eq, jobs] at mem
    exact .inl (.inr (.inr ⟨th', mem⟩))

theorem sourced_turn {r : Kernel n} (jobs : r.job = s.job) (queues : r.queue = s.queue)
    (current : r.current = s.current)
    (hand : ∀ t ∈ next.hand, s.Kept t ∨ t ∈ r.table ∨ ∃ c : Cpu n, t = idleTask c) :
    Sourced s (r.setJob th next) :=
  sourced_setJob jobs (fun q _ mem => .inl ⟨q, queues ▸ mem⟩)
    (fun c => .inr (.inl ⟨c, congrFun current.symm c⟩)) hand

theorem kept_of_hand (pos : s.job th = job) (mem : t ∈ job.hand) : s.Kept t :=
  .inr (.inr ⟨th, pos ▸ mem⟩)

theorem sourced_onward {r : Kernel n} (pos : s.job th = job) (jobs : r.job = s.job)
    (queues : r.queue = s.queue) (current : r.current = s.current)
    (hand : ∀ t ∈ next.hand, t ∈ job.hand) : Sourced s (r.setJob th next) :=
  sourced_turn jobs queues current fun t mem => .inl (kept_of_hand pos (hand t mem))

theorem sourced_popped {v : Cpu n} {rest : List TaskId} (popped : s.queue v = t :: rest) :
    Sourced s ((s.setQueue v rest).setJob th (.take t)) := by
  have was : ∀ x, x ∈ t :: rest → s.Kept x := fun x mem => .inl ⟨v, popped ▸ mem⟩
  refine sourced_setJob rfl (fun q x mem => ?_) (fun c => .inr (.inl ⟨c, rfl⟩)) fun x mem => ?_
  · by_cases eq : q = v
    · subst eq
      rw [setQueue_self] at mem
      exact was x (List.mem_cons_of_mem _ mem)
    · rw [setQueue_other eq] at mem
      exact .inl ⟨q, mem⟩
  · obtain rfl := List.mem_singleton.mp mem
    exact .inl (was x List.mem_cons_self)

theorem sourced_runJob (pos : s.job th = job) : Sourced s (s.runJob th c job) := by
  have onward : ∀ {r : Kernel n} {next : Job n}, r.job = s.job → r.queue = s.queue →
      r.current = s.current → (∀ t ∈ next.hand, t ∈ job.hand) → Sourced s (r.setJob th next) :=
    sourced_onward pos
  cases job with
  | code => exact fun t kept => .inl kept
  | enqueue _ _ after | mark _ _ after =>
    rw [runJob]
    split
    · exact onward rfl rfl rfl fun _ member => member
    · exact onward rfl rfl rfl fun x member =>
        List.mem_cons_of_mem _ (after.job_hand c ▸ member)
  | push t q after =>
    refine sourced_setJob rfl (fun p x member => ?_) (fun c => .inr (.inl ⟨c, rfl⟩))
      fun x member => .inl (kept_of_hand pos (List.mem_cons_of_mem _ (after.job_hand c ▸ member)))
    by_cases eq : p = q
    · subst eq
      rw [setQueue_self] at member
      rcases List.mem_append.mp member with was | pushed
      · exact .inl ⟨p, was⟩
      · obtain rfl := List.mem_singleton.mp pushed
        exact kept_of_hand pos List.mem_cons_self
    · rw [setQueue_other eq] at member
      exact .inl ⟨p, member⟩
  | lookup id after =>
    have rest : ∀ x ∈ (after.job c).hand, x ∈ after.rest := fun x member =>
      after.job_hand c ▸ member
    rw [runJob]
    split
    next wakeable =>
      split
      · refine sourced_turn rfl rfl rfl fun x member => ?_
        rcases List.mem_cons.mp member with rfl | member
        · exact .inr (.inl wakeable.1)
        · exact .inl (kept_of_hand pos member)
      · exact onward rfl rfl rfl rest
    · exact onward rfl rfl rfl rest
  | unsleepOwn | requeue | resume | claim | load => exact onward rfl rfl rfl fun _ member => member
  | unsleep t q own rest after =>
    cases rest with
    | nil => exact onward rfl rfl rfl fun _ member => member
    | cons v rest =>
      rw [runJob]
      split <;> exact onward rfl rfl rfl fun _ member => member
  | sweep now user =>
    refine onward rfl rfl rfl fun x member => ?_
    split at member <;> cases member
  | expire ids user =>
    have frame := (expired s ids).frame
    refine sourced_turn (by rw [frame]) (by rw [frame]) (by rw [frame]) fun x member => ?_
    split at member
    · cases member
    rw [After.job_hand] at member
    have mem : x ∈ s.table := mem_table_of_expireAll member
    rw [frame]
    exact .inr (.inl mem)
  | account woken user =>
    refine onward rfl rfl rfl fun x member => ?_
    repeat' split at member
    all_goals cases member
  | doze | blocked | drop => exact onward rfl rfl rfl (by rintro _ ⟨⟩)
  | schedule =>
    rw [runJob]
    split
    · exact onward rfl rfl rfl (by rintro _ ⟨⟩)
    next popped => exact sourced_popped popped
  | steal rounds victims =>
    cases victims with
    | nil => cases rounds <;> exact onward rfl rfl rfl (by rintro _ ⟨⟩)
    | cons v rest =>
      rw [runJob]
      split
      · exact onward rfl rfl rfl (by rintro _ ⟨⟩)
      next popped => exact sourced_popped popped
  | take | start | leave =>
    rw [runJob, moveTo_eq]
    exact onward rfl rfl rfl fun _ member => member
  | fallback =>
    refine sourced_turn rfl rfl rfl fun x member => ?_
    split at member
    · cases member
    · exact .inr (.inr ⟨c, List.mem_singleton.mp member⟩)
  | compare t =>
    rw [runJob]
    split
    · exact onward rfl rfl rfl (by rintro _ ⟨⟩)
    · exact onward rfl rfl rfl fun _ member => member
  | suspend t =>
    refine onward rfl rfl rfl fun x member => ?_
    split at member <;> exact member
  | install t =>
    refine sourced_setJob rfl (fun q x member => .inl ⟨q, member⟩) (fun d => ?_) fun x member => ?_
    · by_cases eq : d = c
      · subst eq
        rw [setCurrent_self]
        exact kept_of_hand pos List.mem_cons_self
      · rw [setCurrent_other eq]
        exact .inr (.inl ⟨d, rfl⟩)
    · obtain rfl := List.mem_singleton.mp member
      exact .inl (.inr (.inl ⟨c, rfl⟩))
  | switch | release => exact onward rfl rfl rfl fun _ member => member
  | settle t =>
    refine onward rfl rfl rfl fun x member => ?_
    split at member
    · exact member
    · cases member
  | build id addrSpace =>
    refine sourced_turn rfl rfl rfl fun x member => .inr (.inl ?_)
    obtain rfl := List.mem_singleton.mp member
    exact List.mem_append_right _ List.mem_cons_self

/-! ## What becomes of a task that was created -/

def Born (s : Kernel n) (t : TaskId) : Prop :=
  t < s.nextId ∧ ∀ th addrSpace, s.job th ≠ .build t addrSpace

theorem born_setJob {r : Kernel n} (jobs : r.job = s.job) (ids : r.nextId = s.nextId)
    (other : ∀ t addrSpace, next ≠ .build t addrSpace) (born : s.Born t) :
    (r.setJob th next).Born t := by
  refine ⟨ids ▸ born.1, fun th' addrSpace => ?_⟩
  by_cases eq : th' = th
  · subst eq
    rw [setJob_self]
    exact other t addrSpace
  · rw [setJob_other eq, jobs]
    exact born.2 th' addrSpace

theorem Born.spawn (born : s.Born t) (addrSpace : Option Frame) :
    ({ s with nextId := s.nextId + 1, spaces := addrSpace.toList ++ s.spaces }.setJob th
      (.build s.nextId addrSpace)).Born t := by
  refine ⟨Nat.lt_succ_of_lt born.1, fun th' addrSpace' => ?_⟩
  by_cases eq : th' = th
  · subst eq
    rw [setJob_self]
    intro pos
    cases pos
    exact absurd born.1 (Nat.lt_irrefl _)
  · rw [setJob_other eq]
    exact born.2 th' addrSpace'

theorem setTask_identity {x : TaskId} {v : Task n} (idle : v.isIdle = (s.tasks x).isIdle)
    (addrSpace : v.addrSpace = (s.tasks x).addrSpace) (t : TaskId) :
    ((s.setTask x v).tasks t).isIdle = (s.tasks t).isIdle ∧
      ((s.setTask x v).tasks t).addrSpace = (s.tasks t).addrSpace := by
  by_cases eq : t = x
  · subst eq
    simp [setTask, idle, addrSpace]
  · simp [setTask, eq]

structure Lasting (s s' : Kernel n) : Prop where
  table : ∀ t ∈ s.table, t ∈ s'.table
  reap : s'.reap = s.reap
  born : ∀ t, s.Born t → s'.Born t
  missing : ∀ t, s.Born t → t ∉ s.table → t ∉ s'.table
  idle : ∀ t, s.Born t → (s'.tasks t).isIdle = (s.tasks t).isIdle

/-- A step of a thread that leaves alone the table, what the CPUs run and have
loaded, and what a task is. -/
structure Steady (s : Kernel n) (th : Thread n) (s' : Kernel n) : Prop where
  frame : s' = { s with
    tasks := s'.tasks
    queue := s'.queue
    sleepers := s'.sleepers
    stealCursor := s'.stealCursor
    job := s'.job }
  identity : ∀ t, (s'.tasks t).isIdle = (s.tasks t).isIdle ∧
    (s'.tasks t).addrSpace = (s.tasks t).addrSpace
  jobs : ∀ th', th' ≠ th → s'.job th' = s.job th'
  plain : (s'.job th).Plain

theorem Steady.born (steady : Steady s th s') (born : s.Born t) : s'.Born t := by
  refine ⟨?_, fun th' addrSpace building => ?_⟩
  · rw [steady.frame]
    exact born.1
  by_cases eq : th' = th
  · subst eq
    have plain := steady.plain
    rwa [building] at plain
  · rw [steady.jobs th' eq] at building
    exact born.2 th' addrSpace building

theorem Steady.lasting (steady : Steady s th s') : Lasting s s' := by
  have table : s'.table = s.table := by rw [steady.frame]
  exact {
    table := fun _ mem => table ▸ mem
    reap := by rw [steady.frame]
    born := fun _ born => steady.born born
    missing := fun _ _ absent => table ▸ absent
    idle := fun t _ => (steady.identity t).1 }

theorem steady_setJob {r : Kernel n} (frame : r = { s with
      tasks := r.tasks
      queue := r.queue
      sleepers := r.sleepers
      stealCursor := r.stealCursor })
    (identity : ∀ t, (r.tasks t).isIdle = (s.tasks t).isIdle ∧
      (r.tasks t).addrSpace = (s.tasks t).addrSpace) (plain : next.Plain) :
    Steady s th (r.setJob th next) where
  frame := by
    rw [frame]
    rfl
  identity := identity
  jobs th' other := by
    rw [setJob_other other, frame]
  plain := by rwa [setJob_self]

theorem steady_runJob (pos : s.job th = job) (ordinary : ¬job.Special) :
    Steady s th (s.runJob th c job) := by
  have alike : ∀ {next : Job n}, next.Plain → Steady s th (s.setJob th next) :=
    steady_setJob rfl fun _ => ⟨rfl, rfl⟩
  have painted : ∀ {x : TaskId} {v : Task n} {next : Job n}, v.isIdle = (s.tasks x).isIdle →
      v.addrSpace = (s.tasks x).addrSpace → next.Plain →
      Steady s th ((s.setTask x v).setJob th next) := fun idle addrSpace =>
    steady_setJob rfl (setTask_identity idle addrSpace)
  cases job with
  | code => exact ⟨rfl, fun _ => ⟨rfl, rfl⟩, fun _ _ => rfl, by rw [runJob, pos]; trivial⟩
  | enqueue t q after =>
    rw [runJob]
    split
    · exact alike trivial
    · exact alike (after.job_plain c)
  | mark t q after =>
    rw [runJob]
    split
    · exact painted rfl rfl trivial
    · exact alike (after.job_plain c)
  | push t q after => exact steady_setJob rfl (fun _ => ⟨rfl, rfl⟩) (after.job_plain c)
  | lookup id after =>
    rw [runJob]
    split
    · split
      · exact painted rfl rfl trivial
      · exact painted rfl rfl (after.job_plain c)
    · exact alike (after.job_plain c)
  | unsleepOwn | doze => exact steady_setJob rfl (fun _ => ⟨rfl, rfl⟩) trivial
  | unsleep t q own rest after =>
    cases rest with
    | nil => exact alike trivial
    | cons v rest =>
      rw [runJob]
      split
      · exact alike trivial
      · exact steady_setJob rfl (fun _ => ⟨rfl, rfl⟩) trivial
  | sweep now user =>
    refine steady_setJob rfl (fun _ => ⟨rfl, rfl⟩) ?_
    split <;> trivial
  | expire ids user =>
    have section_ := expired s ids
    have frame := section_.frame
    refine steady_setJob (by rw [frame]) (fun t => ?_) ?_
    · rcases section_.cases t with eq | ⟨-, eq, -⟩
      · rw [eq]
        exact ⟨rfl, rfl⟩
      · rw [eq]
        exact ⟨rfl, rfl⟩
    · split
      · trivial
      · exact After.job_plain _ c
  | account woken user =>
    refine painted rfl rfl ?_
    repeat' split
    all_goals trivial
  | blocked | switch => exact alike trivial
  | schedule =>
    rw [runJob]
    split
    · exact alike trivial
    · exact steady_setJob rfl (fun _ => ⟨rfl, rfl⟩) trivial
  | steal rounds victims =>
    cases victims with
    | nil => cases rounds <;> exact steady_setJob rfl (fun _ => ⟨rfl, rfl⟩) trivial
    | cons v rest =>
      rw [runJob]
      split
      · exact alike trivial
      · exact steady_setJob rfl (fun _ => ⟨rfl, rfl⟩) trivial
  | take | start | leave =>
    rw [runJob, moveTo_eq]
    exact painted rfl rfl trivial
  | fallback | suspend | settle =>
    refine alike ?_
    split <;> trivial
  | compare t =>
    rw [runJob]
    split
    · exact painted rfl rfl trivial
    · exact alike trivial
  | requeue | resume | claim | release => exact painted rfl rfl trivial
  | install | load | build | drop => exact absurd trivial ordinary

theorem lasting_setJob {r : Kernel n} (jobs : r.job = s.job) (ids : r.nextId = s.nextId)
    (table : r.table = s.table) (reap : r.reap = s.reap) (tasks : r.tasks = s.tasks)
    (other : ∀ t addrSpace, next ≠ .build t addrSpace) : Lasting s (r.setJob th next) where
  table _ member := table ▸ member
  reap := reap
  born _ born := born_setJob jobs ids other born
  missing _ _ absent := table ▸ absent
  idle t _ := congrArg Task.isIdle (congrFun tasks t)

theorem lasting_runJob (pos : s.job th = job) : Lasting s (s.runJob th c job) := by
  cases job with
  | install | load | drop => exact lasting_setJob rfl rfl rfl rfl rfl nofun
  | build id addrSpace =>
    have other : ∀ t, s.Born t → t ≠ id := fun t born eq => born.2 th addrSpace (eq ▸ pos)
    exact {
      table := fun t mem => List.mem_append_left _ mem
      reap := rfl
      born := fun t born => born_setJob rfl rfl nofun born
      missing := fun t born absent mem => by
        rcases List.mem_append.mp mem with was | added
        · exact absent was
        · exact other t born (List.mem_singleton.mp added)
      idle := fun t born => congrArg Task.isIdle (Function.update_of_ne (other t born) _ _) }
  | _ => exact (steady_runJob pos id).lasting

theorem setTask_state {x : TaskId} {v : Task n} (eq : v.state = (s.tasks x).state)
    (t : TaskId) : ((s.setTask x v).tasks t).state = (s.tasks t).state := by
  by_cases equal : t = x
  · subst equal
    simp [setTask, eq]
  · simp [setTask, equal]

theorem Inv.dead_runJob (inv : s.Inv) (pos : s.job th = job)
    (own : th = .cpu c ∨ job.AtBase) (born : s.Born t) (dead : (s.tasks t).state = .dead) :
    ((s.runJob th c job).tasks t).state = .dead := by
  have painted : ∀ {x : TaskId} {v : Task n}, v.state = (s.tasks x).state →
      ((s.setTask x v).tasks t).state = .dead := fun eq => (setTask_state eq t).trans dead
  have changed : ∀ {x : TaskId} {state : TaskState}, (s.tasks x).state ≠ .dead →
      ((s.setState x state).tasks t).state = .dead := by
    intro x state alive
    have other : t ≠ x := fun eq => alive (eq ▸ dead)
    simpa [setState, setTask, other] using dead
  cases job with
  | enqueue | schedule =>
    rw [runJob]
    split <;> exact dead
  | mark | compare =>
    rw [runJob]
    split
    · exact painted rfl
    · exact dead
  | lookup id after =>
    rw [runJob]
    split
    next wakeable =>
      have alive : (s.tasks id).state ≠ .dead := by
        rcases wakeable.2 with state | state <;> simp [state]
      split <;> exact changed alive
    · exact dead
  | unsleep t q here rest after =>
    cases rest with
    | nil => exact dead
    | cons v rest =>
      rw [runJob]
      split <;> exact dead
  | expire ids user =>
    rcases (expired s ids).cases t with eq | ⟨asleep, -⟩
    · exact (congrArg Task.state eq).trans dead
    · rw [dead] at asleep
      cases asleep
  | account | claim | release => exact painted rfl
  | steal rounds victims =>
    cases victims with
    | nil => cases rounds <;> exact dead
    | cons v rest =>
      rw [runJob]
      split <;> exact dead
  | take | start | leave =>
    rw [runJob, moveTo_eq]
    exact painted rfl
  | requeue =>
    obtain rfl := own.resolve_right id
    have running : (s.tasks (s.current c)).state = .running := inv.stance_of pos c rfl
    exact changed (by simp [running])
  | resume x =>
    obtain rfl := own.resolve_right id
    have fits : (s.tasks x).state = .ready ∨ (s.tasks x).state = .running :=
      (inv.fits_of pos rfl : (Stage.picked c).Fits x (s.tasks x)).1
    exact changed (by rcases fits with state | state <;> simp [state])
  | build id addrSpace =>
    have other : t ≠ id := fun eq => born.2 th addrSpace (eq ▸ pos)
    simpa [runJob, insertTask, setTask, setJob, other] using dead
  | _ => exact dead

/-! ## Everything that can be reached is in the table -/

structure Rooted (s : Kernel n) : Prop where
  listed : ∀ t, s.Kept t → t ∈ s.table
  idle : ∀ c : Cpu n, idleTask c ∈ s.table
  dead : ∀ id ∈ s.reap, (s.tasks id).state = .dead ∧ (s.tasks id).isIdle = false ∧ s.Born id

theorem Job.mem_names_of_hand {job : Job n} (mem : t ∈ job.hand) (c : Cpu n) :
    t ∈ names (job.stages c) := by
  have rest : ∀ after : After, names (after.stages (n := n)) = after.rest := fun after => by
    simp [After.stages, names, Function.comp_def]
  cases job <;> simp_all [Job.hand, Job.stages]

theorem held_of_kept (kept : s.Kept t) : ∃ o, t ∈ names (s.holds o) := by
  rcases kept with ⟨q, mem⟩ | ⟨c, rfl⟩ | ⟨th, mem⟩
  · exact ⟨.queue q, by simpa [holds, names, Function.comp_def] using mem⟩
  · exact ⟨.cpu c, by simp [holds]⟩
  · exact ⟨.thread th, Job.mem_names_of_hand mem th.home⟩

namespace Inv

theorem building_of_reserved {o : Owner n} (mem : (t, Stage.reserved) ∈ s.holds o) :
    ∃ th addrSpace, s.job th = .build t addrSpace := by
  rcases o with q | c | th
  · simp [holds] at mem
  · simp [holds] at mem
  have promised : (t, Stage.reserved) ∈ (s.job th).stages th.home := mem
  cases pos : s.job th with
  | build x addrSpace =>
    rw [pos] at promised
    obtain rfl : t = x := by simpa [Job.stages] using promised
    exact ⟨th, addrSpace, pos⟩
  | _ => simp [pos, Job.stages, After.stages] at promised

theorem unheld_of_dead (inv : s.Inv) (dead : (s.tasks t).state = .dead) (born : s.Born t)
    (offCpu : (s.tasks t).onCpu = none) (settled : ¬s.Settling t) : Unheld s.holds t := by
  intro o mem
  obtain ⟨⟨x, stage⟩, entry, rfl⟩ := List.mem_map.mp mem
  have fits := inv.held.true_of entry
  cases stage with
  | reserved =>
    obtain ⟨th, addrSpace, building⟩ := building_of_reserved entry
    exact born.2 th addrSpace building
  | current | leaving => simp [offCpu, Stage.Fits] at fits
  | settling d => exact settled (inv.settling_of_mem entry)
  | _ => simp [dead, Stage.Fits] at fits

theorem born_current (inv : s.Inv) (c : Cpu n) : s.Born (s.current c) := by
  have here : s.current c ∈ names (s.holds (.cpu c)) := by simp [holds]
  refine ⟨inv.lt_nextId here, fun th addrSpace building => ?_⟩
  have there : s.current c ∈ names (s.holds (.thread th)) := by simp [holds, building, Job.stages]
  simpa using inv.held.unique here there

end Inv

/-- `take_dead` hands out no task that a `finish_switch` has released and not yet
looked at. -/
def Patient (s : Kernel n) : Action n → Prop
  | .takeDead _ => ∀ taken ∈ s.takeDead, ¬s.Settling taken.1
  | _ => True

instance : DecidablePred s.Patient := fun action => by
  apply @Action.casesOn n (fun action => Decidable (s.Patient action)) action
  case takeDead =>
    exact fun _ => inferInstanceAs (Decidable (∀ taken ∈ s.takeDead, ¬s.Settling taken.1))
  all_goals intros; exact isTrue trivial

/-- Neither a `wake` nor a tick nor the supervisor comes between the `release_cpu`
of a `finish_switch` and its look at the task. -/
def Orderly (s : Kernel n) (action : Action n) : Prop := s.Undisturbed action ∧ s.Patient action

instance : DecidablePred s.Orderly := fun _ => inferInstanceAs (Decidable (_ ∧ _))

theorem takeDead_of_find {id : TaskId}
    (found : (s.reap.find? fun id => decide (s.Reapable id)) = some id) : s.takeDead =
      some (id, { s with reap := s.reap.erase id, table := s.table.filter (· ≠ id) }) := by
  rw [takeDead, found]
  rfl

namespace Rooted

theorem carry (rooted : s.Rooted) (sourced : Sourced s s') (table : ∀ t ∈ s.table, t ∈ s'.table)
    (dead : ∀ id ∈ s'.reap, (s'.tasks id).state = .dead ∧ (s'.tasks id).isIdle = false ∧
      s'.Born id) : s'.Rooted where
  listed t kept := by
    rcases sourced t kept with was | here | ⟨c, rfl⟩
    · exact table t (rooted.listed t was)
    · exact here
    · exact table _ (rooted.idle c)
  idle c := table _ (rooted.idle c)
  dead := dead

theorem runJob (rooted : s.Rooted) (inv : s.Inv) (own : th = .cpu c ∨ (s.job th).AtBase) :
    (s.runJob th c (s.job th)).Rooted := by
  have lasting : Lasting s (s.runJob th c (s.job th)) := lasting_runJob rfl
  refine rooted.carry (sourced_runJob rfl) lasting.table fun id mem => ?_
  obtain ⟨dead, idle, born⟩ := rooted.dead id (lasting.reap ▸ mem)
  exact ⟨inv.dead_runJob rfl own born dead, (lasting.idle id born).trans idle, lasting.born id born⟩

theorem turn (rooted : s.Rooted) (empty : next.hand = [])
    (other : ∀ t addrSpace, next ≠ .build t addrSpace) : (s.setJob th next).Rooted := by
  refine rooted.carry (sourced_turn rfl rfl rfl (by simp [empty])) (fun _ mem => mem)
    fun id listed => ?_
  obtain ⟨dead, idle, born⟩ := rooted.dead id listed
  exact ⟨dead, idle, born_setJob rfl rfl other born⟩

theorem stop (rooted : s.Rooted) (inv : s.Inv) (busy : s.Busy c) {v : Task n}
    (empty : next.hand = []) (other : ∀ t addrSpace, next ≠ .build t addrSpace) :
    ((s.setTask (s.current c) v).setJob (.cpu c) next).Rooted := by
  refine rooted.carry (sourced_turn rfl rfl rfl (by simp [empty])) (fun _ mem => mem)
    fun id listed => ?_
  obtain ⟨dead, idle, born⟩ := rooted.dead id listed
  have running : (s.tasks (s.current c)).state = .running := inv.stance_of busy.1.1 c rfl
  have ne : id ≠ s.current c := by
    rintro rfl
    simp [running] at dead
  have eq : ((s.setTask (s.current c) v).setJob (.cpu c) next).tasks id = s.tasks id :=
    Function.update_of_ne ne _ _
  rw [eq]
  exact ⟨dead, idle, born_setJob rfl rfl other born⟩

theorem exitCurrent (rooted : s.Rooted) (inv : s.Inv) (busy : s.Busy c) :
    ((s.bury c).setJob (.cpu c) s.farewell).Rooted := by
  have empty : s.farewell.hand = [] := by
    unfold farewell
    split <;> rfl
  have other : ∀ t addrSpace, s.farewell ≠ .build t addrSpace := by
    intro t addrSpace
    unfold farewell
    split <;> nofun
  have stopped : ((s.setState (s.current c) .dead).setJob (.cpu c) s.farewell).Rooted :=
    rooted.stop inv busy empty other
  refine ⟨stopped.listed, stopped.idle, fun id mem => ?_⟩
  rcases List.mem_append.mp mem with was | last
  · exact stopped.dead id was
  obtain rfl := List.mem_singleton.mp last
  have self : ((s.bury c).setJob (.cpu c) s.farewell).tasks (s.current c) =
      { s.tasks (s.current c) with state := .dead } := Function.update_self ..
  rw [self]
  exact ⟨rfl, busy.2, born_setJob rfl rfl other (inv.born_current c)⟩

theorem spawn (rooted : s.Rooted) (addrSpace : Option Frame) :
    ({ s with nextId := s.nextId + 1, spaces := addrSpace.toList ++ s.spaces }.setJob
      (.task (s.current c)) (.build s.nextId addrSpace)).Rooted := by
  refine rooted.carry (sourced_turn rfl rfl rfl nofun) (fun _ mem => mem) fun id listed => ?_
  obtain ⟨dead, idle, born⟩ := rooted.dead id listed
  exact ⟨dead, idle, born.spawn addrSpace⟩

theorem takeDead (rooted : s.Rooted) (inv : s.Inv) {id : TaskId}
    (found : (s.reap.find? fun id => decide (s.Reapable id)) = some id) (settled : ¬s.Settling id) :
    ({ s with reap := s.reap.erase id, table := s.table.filter (· ≠ id) }.setJob
      (.task (s.current c)) (.drop id)).Rooted := by
  obtain ⟨dead, ordinary, born⟩ := rooted.dead id (List.mem_of_find?_eq_some found)
  have reapable : s.Reapable id := of_decide_eq_true (List.find?_some found :)
  have removed : { s with reap := s.reap.erase id, table := s.table.filter (· ≠ id) }.Rooted := by
    refine ⟨fun t kept => ?_, fun c => ?_, fun t listed => ?_⟩
    · refine List.mem_filter.mpr ⟨rooted.listed t kept, decide_eq_true ?_⟩
      rintro rfl
      obtain ⟨o, mem⟩ := held_of_kept kept
      exact inv.unheld_of_dead dead born reapable.2.1 settled o mem
    · refine List.mem_filter.mpr ⟨rooted.idle c, decide_eq_true ?_⟩
      rintro rfl
      simp [inv.spare c] at ordinary
    · exact rooted.dead t (List.mem_of_mem_erase listed)
  exact removed.turn rfl nofun

theorem step (rooted : s.Rooted) (inv : s.Inv) {action : Action n} (patient : s.Patient action)
    (moves : s.Moves action s') : s'.Rooted := by
  cases moves with
  | task => exact rooted.runJob inv (.inr (inv.base _))
  | cpu => exact rooted.runJob inv (.inl rfl)
  | tick | reschedule | wakeOff | wake => exact rooted.turn rfl nofun
  | markBlocked busy | sleep busy => exact rooted.stop inv busy rfl nofun
  | exitCurrent busy => exact rooted.exitCurrent inv busy
  | spawn => exact rooted.spawn _
  | @abandon c id addrSpace =>
    have freed : (s.freeSpace addrSpace).Rooted := ⟨rooted.listed, rooted.idle, rooted.dead⟩
    exact freed.turn rfl nofun
  | takeDead free found => exact rooted.takeDead inv found (patient _ (takeDead_of_find found))
  | takeNone => exact rooted
  | setSupervisor | clock => exact ⟨rooted.listed, rooted.idle, rooted.dead⟩

end Rooted

theorem rooted_start : (start n).Rooted where
  listed t kept := by
    rcases kept with ⟨q, mem⟩ | ⟨c, rfl⟩ | ⟨th, mem⟩
    · cases mem
    · exact List.mem_range.mpr (start_current_lt c)
    · cases mem
  idle c := by
    refine List.mem_range.mpr ?_
    unfold idleTask
    split
    · exact Nat.succ_pos _
    · exact Nat.succ_lt_succ c.isLt
  dead := nofun

theorem rooted_of_run {actions : List (Action n)}
    (run : Run (Guarded Orderly fun s action s' => s.step action = some s') (start n) actions s) :
    s.Inv ∧ s.Rooted :=
  run.invariant (fun s => s.Inv ∧ s.Rooted) ⟨inv_start, rooted_start⟩
    fun _ _ _ ⟨inv, rooted⟩ ran => ⟨inv.step ran.1.1 (moves_of_step ran.2),
      rooted.step inv ran.1.2 (moves_of_step ran.2)⟩

/-! ## Tasks that were taken out -/

def Gone (s : Kernel n) (t : TaskId) : Prop := s.Born t ∧ t ∉ s.table

theorem Gone.turn {r : Kernel n} (gone : s.Gone t) (jobs : r.job = s.job)
    (table : r.table = s.table) (ids : r.nextId = s.nextId)
    (other : ∀ t addrSpace, next ≠ .build t addrSpace) : (r.setJob th next).Gone t :=
  ⟨born_setJob jobs ids other gone.1, fun mem => gone.2 (table ▸ mem)⟩

theorem Gone.step (gone : s.Gone t) {action : Action n} (moves : s.Moves action s') :
    s'.Gone t := by
  have ran : ∀ (th : Thread n) (c : Cpu n), (s.runJob th c (s.job th)).Gone t := fun th c =>
    have lasting : Lasting s (s.runJob th c (s.job th)) := lasting_runJob rfl
    ⟨lasting.born t gone.1, lasting.missing t gone.1 gone.2⟩
  cases moves with
  | task | cpu => exact ran _ _
  | exitCurrent =>
    refine gone.turn rfl rfl rfl fun t addrSpace => ?_
    unfold farewell
    split <;> nofun
  | spawn => exact ⟨gone.1.spawn _, gone.2⟩
  | @takeDead c id =>
    have removed : { s with reap := s.reap.erase id, table := s.table.filter (· ≠ id) }.Gone t :=
      ⟨gone.1, fun mem => gone.2 (List.mem_of_mem_filter mem)⟩
    exact removed.turn rfl rfl rfl nofun
  | takeNone | setSupervisor | clock => exact gone
  | _ => exact gone.turn rfl rfl rfl nofun

theorem gone_of_takeDead {s' : Kernel n} {taken : TaskId × Kernel n} (rooted : s.Rooted)
    (found : s.takeDead = some taken) (ran : s.step (.takeDead c) = some s') : s'.Gone taken.1 := by
  obtain ⟨id, searched, rfl⟩ := Option.map_eq_some_iff.mp found
  obtain ⟨-, -, born⟩ := rooted.dead id (List.mem_of_find?_eq_some searched)
  have removed : { s with reap := s.reap.erase id, table := s.table.filter (· ≠ id) }.Gone id :=
    ⟨born, fun mem => of_decide_eq_true (List.mem_filter.mp mem).2 rfl⟩
  simp only [step, found, Option.ite_none_right_eq_some, Option.some.injEq] at ran
  obtain ⟨-, rfl⟩ := ran
  exact removed.turn rfl rfl rfl (by rintro _ _ ⟨⟩)

/-- Once `take_dead` has taken a task out of the table, no step of any CPU reads or writes a field
of it, as long as nothing comes between the `release_cpu` of a `finish_switch` and its look. -/
theorem reaped_task_untouched {before after : List (Action n)} {s₀ s₁ : Kernel n}
    {taken : TaskId × Kernel n}
    (run : Run (Guarded Orderly fun s action s' => s.step action = some s') (start n) before s₀)
    (orderly : s₀.Orderly (.takeDead c)) (found : s₀.takeDead = some taken)
    (stepped : s₀.step (.takeDead c) = some s₁)
    (later : Run (Guarded Orderly fun s action s' => s.step action = some s') s₁ after s)
    (d : Cpu n) : taken.1 ∉ s.touched d := by
  obtain ⟨inv₀, rooted₀⟩ := rooted_of_run run
  obtain ⟨inv, rooted, gone⟩ := later.invariant (fun s => s.Inv ∧ s.Rooted ∧ s.Gone taken.1)
    ⟨inv₀.step orderly.1 (moves_of_step stepped),
      rooted₀.step inv₀ orderly.2 (moves_of_step stepped), gone_of_takeDead rooted₀ found stepped⟩
    fun _ _ _ ⟨inv, rooted, gone⟩ stepped => ⟨inv.step stepped.1.1 (moves_of_step stepped.2),
      rooted.step inv stepped.1.2 (moves_of_step stepped.2), gone.step (moves_of_step stepped.2)⟩
  exact fun touched => gone.2 (rooted.listed _ (kept_of_touched touched))

/-- Two CPUs. The task 3 is spawned by `kmain`, stolen by the other processor and ends there, up
to where its `finish_switch` has released it and not yet looked at it. -/
def dying : List (Action 1) :=
  [.spawn bsp none] ++ runs bsp 4 ++ [.reschedule ap] ++ runs ap 16 ++ [.exitCurrent ap] ++
    runs ap 14

def resting : List (Action 1) := [.reschedule ap] ++ runs ap 5 ++ runs bsp 1

theorem settled_task_untouched : ∃ (s₀ s₁ s : Kernel 1) (r : Kernel 1),
    Run (Guarded Orderly fun s action s' => s.step action = some s') (start 1)
      (dying ++ runs 1 1) s₀ ∧ s₀.takeDead = some (3, r) ∧
    s₀.step (.takeDead 0) = some s₁ ∧
    Run (Guarded Orderly fun s action s' => s.step action = some s') s₁ resting s ∧
    ∀ d, 3 ∉ s.touched d := by
  have eval : ((dying ++ runs 1 1).foldlM
      (fun (s : Kernel 1) action => if s.Orderly action then s.step action else none)
      (start 1)).any (fun s₀ : Kernel 1 => decide (s₀.Orderly (.takeDead 0)) &&
        s₀.takeDead.any (fun ran : TaskId × Kernel 1 => decide (ran.1 = 3)) &&
        (s₀.step (.takeDead 0)).any fun s₁ : Kernel 1 => (resting.foldlM
          (fun (s : Kernel 1) action => if s.Orderly action then s.step action else none)
          s₁).isSome) := by
    decide +kernel
  obtain ⟨s₀, replayed, facts⟩ := (Option.any_eq_true _ _).mp eval
  simp only [Bool.and_eq_true, Option.any_eq_true, Option.isSome_iff_exists,
    decide_eq_true_eq] at facts
  obtain ⟨⟨orderly, ⟨id, r⟩, found, rfl⟩, s₁, stepped, s, again⟩ := facts
  exact ⟨s₀, s₁, s, r, guarded_of_replay replayed, found, stepped, guarded_of_replay again,
    reaped_task_untouched (guarded_of_replay replayed) orderly found stepped
      (guarded_of_replay again)⟩

/-- The supervisor comes first: the next step of the other processor reads the
state of the task that was handed out. -/
theorem reaped_task_is_touched : ∃ (s₀ s₁ : Kernel 1) (r : Kernel 1),
    Run (fun s action s' => s.step action = some s') (start 1) dying s₀ ∧
    s₀.takeDead = some (3, r) ∧ s₀.step (.takeDead 0) = some s₁ ∧ 3 ∈ s₁.touched 1 := by
  have eval : (dying.foldlM (fun (s : Kernel 1) action => s.step action) (start 1)).any
      (fun s₀ : Kernel 1 => s₀.takeDead.any (fun ran => decide (ran.1 = 3)) &&
        (s₀.step (.takeDead 0)).any fun s₁ => decide (3 ∈ s₁.touched 1)) := by
    decide +kernel
  obtain ⟨s₀, replayed, facts⟩ := (Option.any_eq_true _ _).mp eval
  simp only [Bool.and_eq_true, Option.any_eq_true, decide_eq_true_eq] at facts
  obtain ⟨⟨⟨id, r⟩, found, rfl⟩, s₁, stepped, touched⟩ := facts
  exact ⟨s₀, s₁, r, run_of_replay replayed, found, stepped, touched⟩

end Kernel

end K1K.Sched
