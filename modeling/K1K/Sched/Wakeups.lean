import K1K.Sched.OnePlace

/-!
# No wake-up is lost

A waker gives up on a task that is on a CPU, and `enqueue_from` on one that is marked or
claimed. Each mark is left by somebody who has the task in hand and will look at its state
again: a ready task is on a queue, in somebody's hands, or the current task of a CPU.
-/

namespace K1K.Sched

open K1K.Lib

variable {n : Nat}

/-- The tasks a thread has in hand: those it will queue, run or look at again. -/
def Job.hand : Job n → List TaskId
  | .enqueue t _ after => t :: after.rest
  | .mark t _ after => t :: after.rest
  | .push t _ after => t :: after.rest
  | .lookup _ after => after.rest
  | .unsleepOwn t _ after => t :: after.rest
  | .unsleep t _ _ _ after => t :: after.rest
  | .take t => [t]
  | .compare t => [t]
  | .suspend t => [t]
  | .requeue t => [t]
  | .resume t => [t]
  | .start t => [t]
  | .claim t => [t]
  | .install t => [t]
  | .load t => [t]
  | .switch t => [t]
  | .leave t => [t]
  | .release t => [t]
  | .settle t => [t]
  | _ => []

def Job.queueing : Job n → Option TaskId
  | .push t _ _ => some t
  | .take t => some t
  | _ => none

def Job.running : Job n → Option TaskId
  | .claim t => some t
  | .install t => some t
  | .load t => some t
  | .switch t => some t
  | .leave t => some t
  | _ => none

def Job.claiming : Job n → Option TaskId
  | .install t => some t
  | .load t => some t
  | .switch t => some t
  | .leave t => some t
  | .release t => some t
  | _ => none

@[simp] theorem After.job_hand (after : After) (c : Cpu n) : (after.job c).hand = after.rest := by
  rcases after with _ | ⟨_ | ⟨t, rest⟩, user⟩ | _ <;> rfl

namespace Kernel

variable (s : Kernel n)

def Queued (t : TaskId) : Prop := ∃ q, t ∈ s.queue q

def OnCpu (t : TaskId) : Prop := ∃ c, s.current c = t

def Kept (t : TaskId) : Prop := s.Queued t ∨ s.OnCpu t ∨ ∃ th, t ∈ (s.job th).hand

def AnswersQueued (t : TaskId) : Prop := s.Queued t ∨ ∃ th, t ∈ (s.job th).queueing

def AnswersRunning (t : TaskId) : Prop := s.OnCpu t ∨ ∃ c, t ∈ (s.job (.cpu c)).running

def AnswersCpu (c : Cpu n) (t : TaskId) : Prop :=
  s.current c = t ∨ t ∈ (s.job (.cpu c)).claiming

structure Watched : Prop where
  ready : ∀ t, (s.tasks t).state = .ready → (s.tasks t).isIdle = false → s.Kept t
  queued : ∀ t, (s.tasks t).placement = .queued → s.AnswersQueued t
  running : ∀ t, (s.tasks t).placement = .running → s.AnswersRunning t
  onCpu : ∀ t c, (s.tasks t).onCpu = some c → (s.tasks t).isIdle = false → s.AnswersCpu c t

end Kernel

theorem Job.mem_hand_of_queueing {job : Job n} {t : TaskId} (mem : t ∈ job.queueing) :
    t ∈ job.hand := by
  cases job <;> simp_all [Job.queueing, Job.hand]

theorem Job.mem_hand_of_running {job : Job n} {t : TaskId} (mem : t ∈ job.running) :
    t ∈ job.hand := by
  cases job <;> simp_all [Job.running, Job.hand]

theorem Job.mem_hand_of_claiming {job : Job n} {t : TaskId} (mem : t ∈ job.claiming) :
    t ∈ job.hand := by
  cases job <;> simp_all [Job.claiming, Job.hand]

namespace Kernel

variable {s s' r : Kernel n} {th : Thread n} {t x : TaskId} {c q : Cpu n} {job next : Job n}
  {after : After}

/-! ## What answers for a task apart from one thread -/

def KeptElse (s : Kernel n) (th : Thread n) (t : TaskId) : Prop :=
  s.Queued t ∨ s.OnCpu t ∨ ∃ th', th' ≠ th ∧ t ∈ (s.job th').hand

def QueuedElse (s : Kernel n) (th : Thread n) (t : TaskId) : Prop :=
  (∃ q, t ∈ s.queue q) ∨ ∃ th', th' ≠ th ∧ t ∈ (s.job th').queueing

def RunningElse (s : Kernel n) (th : Thread n) (t : TaskId) : Prop :=
  (∃ c, s.current c = t) ∨ ∃ c, .cpu c ≠ th ∧ t ∈ (s.job (.cpu c)).running

def CpuElse (s : Kernel n) (th : Thread n) (c : Cpu n) (t : TaskId) : Prop :=
  s.current c = t ∨ .cpu c ≠ th ∧ t ∈ (s.job (.cpu c)).claiming

theorem QueuedElse.kept (queued : s.QueuedElse th t) : s.KeptElse th t := by
  rcases queued with queue | ⟨th', other, mem⟩
  · exact .inl queue
  · exact .inr (.inr ⟨th', other, Job.mem_hand_of_queueing mem⟩)

theorem RunningElse.kept (running : s.RunningElse th t) : s.KeptElse th t := by
  rcases running with current | ⟨c, other, mem⟩
  · exact .inr (.inl current)
  · exact .inr (.inr ⟨_, other, Job.mem_hand_of_running mem⟩)

theorem CpuElse.kept (claimed : s.CpuElse th c t) : s.KeptElse th t := by
  rcases claimed with current | ⟨other, mem⟩
  · exact .inr (.inl ⟨c, current⟩)
  · exact .inr (.inr ⟨_, other, Job.mem_hand_of_claiming mem⟩)

section Mono

variable (jobs : ∀ th', th' ≠ th → r.job th' = s.job th')
include jobs

theorem KeptElse.mono (queue : ∀ q, x ∈ s.queue q → ∃ q', x ∈ r.queue q')
    (current : ∀ c, s.current c = x → ∃ d, r.current d = x) (kept : s.KeptElse th x) :
    r.KeptElse th x := by
  rcases kept with ⟨q, mem⟩ | ⟨c, eq⟩ | ⟨th', other, mem⟩
  · exact .inl (queue q mem)
  · exact .inr (.inl (current c eq))
  · exact .inr (.inr ⟨th', other, by rwa [jobs th' other]⟩)

theorem QueuedElse.mono (queue : ∀ q, x ∈ s.queue q → ∃ q', x ∈ r.queue q')
    (queued : s.QueuedElse th x) : r.QueuedElse th x := by
  rcases queued with ⟨q, mem⟩ | ⟨th', other, mem⟩
  · exact .inl (queue q mem)
  · exact .inr ⟨th', other, by rwa [jobs th' other]⟩

theorem RunningElse.mono (current : ∀ c, s.current c = x → ∃ d, r.current d = x)
    (running : s.RunningElse th x) : r.RunningElse th x := by
  rcases running with ⟨c, eq⟩ | ⟨c, other, mem⟩
  · exact .inl (current c eq)
  · exact .inr ⟨c, other, by rwa [jobs _ other]⟩

theorem CpuElse.mono (current : s.current c = x → r.current c = x)
    (claimed : s.CpuElse th c x) : r.CpuElse th c x := by
  rcases claimed with eq | ⟨other, mem⟩
  · exact .inl (current eq)
  · exact .inr ⟨other, by rwa [jobs _ other]⟩

end Mono

structure Turned (s s' : Kernel n) (th : Thread n) (next : Job n) : Prop where
  queue : s'.queue = s.queue
  current : s'.current = s.current
  reached : s'.job th = next
  others : ∀ th', th' ≠ th → s'.job th' = s.job th'

theorem turned_setJob {r : Kernel n} (queue : r.queue = s.queue) (current : r.current = s.current)
    (job : r.job = s.job) (th : Thread n) (next : Job n) : Turned s (r.setJob th next) th next where
  queue := queue
  current := current
  reached := by simp [setJob]
  others th' other := by simp [setJob, other, job]

structure Answering (s : Kernel n) (th : Thread n) (job : Job n) : Prop where
  ready : ∀ t, (s.tasks t).state = .ready → (s.tasks t).isIdle = false →
    t ∈ job.hand ∨ s.KeptElse th t
  queued : ∀ t, (s.tasks t).placement = .queued → t ∈ job.queueing ∨ s.QueuedElse th t
  running : ∀ t, (s.tasks t).placement = .running →
    (∃ c, th = .cpu c ∧ t ∈ job.running) ∨ s.RunningElse th t
  onCpu : ∀ t c, (s.tasks t).onCpu = some c → (s.tasks t).isIdle = false →
    (th = .cpu c ∧ t ∈ job.claiming) ∨ s.CpuElse th c t

theorem watched_iff (th : Thread n) : s.Watched ↔ s.Answering th (s.job th) := by
  constructor
  · intro watched
    constructor
    · intro t state idle
      rcases watched.ready t state idle with queued | current | ⟨th', member⟩
      · exact .inr (.inl queued)
      · exact .inr (.inr (.inl current))
      · by_cases eq : th' = th
        · exact .inl (eq ▸ member)
        · exact .inr (.inr (.inr ⟨th', eq, member⟩))
    · intro t placement
      rcases watched.queued t placement with queued | ⟨th', member⟩
      · exact .inr (.inl queued)
      · by_cases eq : th' = th
        · exact .inl (eq ▸ member)
        · exact .inr (.inr ⟨th', eq, member⟩)
    · intro t placement
      rcases watched.running t placement with current | ⟨c, member⟩
      · exact .inr (.inl current)
      · by_cases eq : .cpu c = th
        · exact .inl ⟨c, eq.symm, eq ▸ member⟩
        · exact .inr (.inr ⟨c, eq, member⟩)
    · intro t c cpu idle
      rcases watched.onCpu t c cpu idle with current | member
      · exact .inr (.inl current)
      · by_cases eq : .cpu c = th
        · exact .inl ⟨eq.symm, eq ▸ member⟩
        · exact .inr (.inr ⟨eq, member⟩)
  · intro answering
    constructor
    · intro t state idle
      rcases answering.ready t state idle with mine | queued | current | ⟨th', -, member⟩
      · exact .inr (.inr ⟨th, mine⟩)
      · exact .inl queued
      · exact .inr (.inl current)
      · exact .inr (.inr ⟨th', member⟩)
    · intro t placement
      rcases answering.queued t placement with mine | queued | ⟨th', -, member⟩
      · exact .inr ⟨th, mine⟩
      · exact .inl queued
      · exact .inr ⟨th', member⟩
    · intro t placement
      rcases answering.running t placement with ⟨c, rfl, mine⟩ | current | ⟨c, -, member⟩
      · exact .inr ⟨c, mine⟩
      · exact .inl current
      · exact .inr ⟨c, member⟩
    · intro t c cpu idle
      rcases answering.onCpu t c cpu idle with ⟨rfl, mine⟩ | current | ⟨-, member⟩
      · exact .inr mine
      · exact .inl current
      · exact .inr member

theorem watched_setJob (answering : r.Answering th next) : (r.setJob th next).Watched := by
  have jobs := (turned_setJob (s := r) rfl rfl rfl th next).others
  rw [watched_iff th, setJob_self]
  constructor
  · intro t state idle
    exact (answering.ready t state idle).imp_right
      (.mono jobs (fun q mem => ⟨q, mem⟩) fun c eq => ⟨c, eq⟩)
  · intro t placement
    exact (answering.queued t placement).imp_right (.mono jobs fun q mem => ⟨q, mem⟩)
  · intro t placement
    exact (answering.running t placement).imp_right (.mono jobs fun c eq => ⟨c, eq⟩)
  · intro t c cpu idle
    exact (answering.onCpu t c cpu idle).imp_right (.mono jobs id)

attribute [local simp] Job.hand Job.queueing Job.running Job.claiming

structure Carries (except : Option TaskId) (job job' : Job n) : Prop where
  queueing : ∀ x ∈ job.queueing, x ∉ except → x ∈ job'.queueing
  running : ∀ x ∈ job.running, x ∉ except → x ∈ job'.running
  claiming : ∀ x ∈ job.claiming, x ∉ except → x ∈ job'.claiming

theorem Carries.silent {except : Option TaskId} (queueing : job.queueing = none)
    (running : job.running = none) (claiming : job.claiming = none) : Carries except job next := by
  constructor
  · rw [queueing]
    rintro _ ⟨⟩
  · rw [running]
    rintro _ ⟨⟩
  · rw [claiming]
    rintro _ ⟨⟩

theorem setQuantum_tasks (ticks : Nat) (x : TaskId) :
    ((s.setQuantum t ticks).tasks x).state = (s.tasks x).state ∧
      ((s.setQuantum t ticks).tasks x).placement = (s.tasks x).placement ∧
      ((s.setQuantum t ticks).tasks x).onCpu = (s.tasks x).onCpu ∧
      ((s.setQuantum t ticks).tasks x).isIdle = (s.tasks x).isIdle := by
  by_cases eq : x = t
  · subst eq
    simp [setQuantum, setTask]
  · simp [setQuantum, setTask, eq]

namespace Answering

section Turn

variable (old : s.Answering th job) (queue : r.queue = s.queue) (current : r.current = s.current)
  (eq : r.job = s.job)
include old queue current eq

/-- A thread goes on, and no task changes in a way that matters here. What it no
longer has in hand is kept by the rest of the system. -/
theorem turn
    (tasks : ∀ x, (r.tasks x).state = (s.tasks x).state ∧
      (r.tasks x).placement = (s.tasks x).placement ∧ (r.tasks x).onCpu = (s.tasks x).onCpu ∧
      (r.tasks x).isIdle = (s.tasks x).isIdle) (carries : Carries none job next)
    (hand : ∀ x ∈ job.hand, (s.tasks x).state = .ready → (s.tasks x).isIdle = false →
      x ∈ next.hand ∨ s.KeptElse th x) : (r.setJob th next).Watched := by
  apply watched_setJob
  constructor
  · intro x state idle
    rw [(tasks x).1] at state
    rw [(tasks x).2.2.2] at idle
    rw [KeptElse, Queued, OnCpu, queue, current, eq]
    rcases old.ready x state idle with mine | other
    · exact hand x mine state idle
    · exact .inr other
  · intro x placement
    rw [QueuedElse, queue, eq]
    exact (old.queued x ((tasks x).2.1 ▸ placement)).imp_left fun mine =>
      carries.queueing x mine nofun
  · intro x placement
    rw [RunningElse, current, eq]
    refine (old.running x ((tasks x).2.1 ▸ placement)).imp_left ?_
    rintro ⟨c, here, mine⟩
    exact ⟨c, here, carries.running x mine nofun⟩
  · intro x c cpu idle
    rw [CpuElse, current, eq]
    rw [(tasks x).2.2.1] at cpu
    rw [(tasks x).2.2.2] at idle
    exact (old.onCpu x c cpu idle).imp_left
      (And.imp_right fun mine => carries.claiming x mine nofun)

theorem stay (tasks : r.tasks = s.tasks) (carries : Carries none job next)
    (hand : ∀ x ∈ job.hand, x ∈ next.hand) : (r.setJob th next).Watched :=
  old.turn queue current eq (by simp [tasks]) carries fun x mine _ _ => .inl (hand x mine)

theorem work {v : Task n} (tasks : r.tasks = Function.update s.tasks t v)
    (carries : Carries (some t) job next)
    (hand : ∀ x ∈ job.hand, x ≠ t → x ∈ next.hand)
    (ready : v.state = .ready → v.isIdle = false → t ∈ next.hand ∨ s.KeptElse th t)
    (queued : v.placement = .queued → t ∈ next.queueing ∨ s.QueuedElse th t)
    (running : v.placement = .running → (∃ c, th = .cpu c ∧ t ∈ next.running) ∨ s.RunningElse th t)
    (onCpu : ∀ c, v.onCpu = some c → v.isIdle = false →
      (th = .cpu c ∧ t ∈ next.claiming) ∨ s.CpuElse th c t) : (r.setJob th next).Watched := by
  have self : r.tasks t = v := by simp [tasks]
  have other : ∀ x, x ≠ t → r.tasks x = s.tasks x := fun x different => by
    simp [tasks, different]
  have ne : ∀ x, x ≠ t → x ∉ some t := fun x different eq =>
    different (Option.some.inj eq).symm
  apply watched_setJob
  constructor
  · intro x state idle
    rw [KeptElse, Queued, OnCpu, queue, current, eq]
    by_cases equal : x = t
    · subst equal
      rw [self] at state idle
      exact ready state idle
    · rw [other x equal] at state idle
      exact (old.ready x state idle).imp_left fun mine => hand x mine equal
  · intro x placement
    rw [QueuedElse, queue, eq]
    by_cases equal : x = t
    · subst equal
      rw [self] at placement
      exact queued placement
    · rw [other x equal] at placement
      exact (old.queued x placement).imp_left fun mine => carries.queueing x mine (ne x equal)
  · intro x placement
    rw [RunningElse, current, eq]
    by_cases equal : x = t
    · subst equal
      rw [self] at placement
      exact running placement
    rw [other x equal] at placement
    refine (old.running x placement).imp_left ?_
    rintro ⟨c, here, mine⟩
    exact ⟨c, here, carries.running x mine (ne x equal)⟩
  · intro x c cpu idle
    rw [CpuElse, current, eq]
    by_cases equal : x = t
    · subst equal
      rw [self] at cpu idle
      exact onCpu c cpu idle
    · rw [other x equal] at cpu idle
      exact (old.onCpu x c cpu idle).imp_left
        (And.imp_right fun mine => carries.claiming x mine (ne x equal))

theorem restate {v : Task n} (tasks : r.tasks = Function.update s.tasks t v)
    (marks : v.placement = (s.tasks t).placement ∧ v.onCpu = (s.tasks t).onCpu ∧
      v.isIdle = (s.tasks t).isIdle)
    (carries : Carries none job next) (hand : ∀ x ∈ job.hand, x ≠ t → x ∈ next.hand)
    (ready : v.state = .ready → v.isIdle = false → t ∈ next.hand ∨ s.KeptElse th t) :
    (r.setJob th next).Watched := by
  obtain ⟨placed, claimed, flag⟩ := marks
  refine old.work queue current eq tasks
    ⟨fun x mine _ => carries.queueing x mine nofun, fun x mine _ => carries.running x mine nofun,
      fun x mine _ => carries.claiming x mine nofun⟩ hand ready ?_ ?_ ?_
  · intro placement
    exact (old.queued t (placed ▸ placement)).imp_left fun mine => carries.queueing t mine nofun
  · intro placement
    refine (old.running t (placed ▸ placement)).imp_left ?_
    rintro ⟨c, here, mine⟩
    exact ⟨c, here, carries.running t mine nofun⟩
  · intro c cpu idle
    exact (old.onCpu t c (claimed ▸ cpu) (flag ▸ idle)).imp_left
      (And.imp_right fun mine => carries.claiming t mine nofun)

end Turn

theorem pop (old : s.Answering th job) (empty : job.hand = []) {rest : List TaskId}
    (queued : s.queue q = t :: rest) : ((s.setQueue q rest).setJob th (.take t)).Watched := by
  have queue : ∀ x, x ≠ t → ∀ q', x ∈ s.queue q' → ∃ q'', x ∈ (s.setQueue q rest).queue q'' := by
    intro x other q' mem
    refine ⟨q', ?_⟩
    by_cases eq : q' = q
    · subst eq
      rw [queued] at mem
      simpa [setQueue] using (List.mem_cons.mp mem).resolve_left other
    · simpa [setQueue, eq] using mem
  have jobs : ∀ th', th' ≠ th → (s.setQueue q rest).job th' = s.job th' := fun _ _ => rfl
  have none : ∀ x, x ∉ job.hand := fun x => by
    rw [empty]
    exact List.not_mem_nil
  apply watched_setJob
  constructor
  · intro x state idle
    by_cases ran : x = t
    · exact .inl (List.mem_singleton.mpr ran)
    · exact .inr (((old.ready x state idle).resolve_left (none x)).mono jobs (queue x ran)
        fun c eq => ⟨c, eq⟩)
  · intro x placement
    by_cases ran : x = t
    · exact .inl (congrArg some ran.symm)
    · rcases old.queued x placement with mine | other
      · exact absurd (Job.mem_hand_of_queueing mine) (none x)
      · exact .inr (other.mono jobs (queue x ran))
  · intro x placement
    rcases old.running x placement with ⟨-, -, mine⟩ | other
    · exact absurd (Job.mem_hand_of_running mine) (none x)
    · exact .inr other
  · intro x c cpu idle
    rcases old.onCpu x c cpu idle with ⟨-, mine⟩ | other
    · exact absurd (Job.mem_hand_of_claiming mine) (none x)
    · exact .inr other

theorem push (old : s.Answering th (.push t q after)) :
    (s.runJob th c (.push t q after)).Watched := by
  have pushed : ∃ q', t ∈ (s.setQueue q (s.queue q ++ [t])).queue q' := ⟨q, by simp [setQueue]⟩
  have queue : ∀ x q', x ∈ s.queue q' → ∃ q'', x ∈ (s.setQueue q (s.queue q ++ [t])).queue q'' := by
    intro x q' mem
    refine ⟨q', ?_⟩
    by_cases eq : q' = q
    · subst eq
      simp [setQueue, mem]
    · simpa [setQueue, eq] using mem
  have jobs : ∀ th', th' ≠ th → (s.setQueue q (s.queue q ++ [t])).job th' = s.job th' :=
    fun _ _ => rfl
  rw [Kernel.runJob]
  apply watched_setJob
  constructor
  · intro x state idle
    rw [After.job_hand]
    rcases old.ready x state idle with mine | other
    · rcases List.mem_cons.mp mine with rfl | rest
      · exact .inr (.inl pushed)
      · exact .inl rest
    · exact .inr (other.mono jobs (queue x) fun c eq => ⟨c, eq⟩)
  · intro x placement
    rcases old.queued x placement with ⟨⟨⟩⟩ | other
    · exact .inr (.inl pushed)
    · exact .inr (other.mono jobs (queue x))
  · intro x placement
    rcases old.running x placement with ⟨-, -, ⟨⟩⟩ | other
    exact .inr other
  · intro x c cpu idle
    rcases old.onCpu x c cpu idle with ⟨-, ⟨⟩⟩ | other
    exact .inr other

theorem install (old : s.Answering (.cpu c) (.install t)) :
    (s.runJob (.cpu c) c (.install t)).Watched := by
  have installed : (s.setCurrent c t).current c = t := by simp [setCurrent]
  have stays : ∀ x d, x ≠ s.current c → s.current d = x → (s.setCurrent c t).current d = x := by
    rintro x d other rfl
    have ne : d ≠ c := by
      rintro rfl
      exact other rfl
    simp [setCurrent, ne]
  have jobs : ∀ th', th' ≠ .cpu c → (s.setCurrent c t).job th' = s.job th' := fun _ _ => rfl
  rw [Kernel.runJob]
  apply watched_setJob
  constructor
  · intro x state idle
    by_cases left : x = s.current c
    · exact .inl (List.mem_singleton.mpr left)
    rcases old.ready x state idle with mine | other
    · cases List.mem_singleton.mp mine
      exact .inr (.inr (.inl ⟨c, installed⟩))
    · exact .inr (other.mono jobs (fun q mem => ⟨q, mem⟩) fun d same => ⟨d, stays x d left same⟩)
  · intro x placement
    rcases old.queued x placement with ⟨⟨⟩⟩ | other
    exact .inr other
  · intro x placement
    by_cases left : x = s.current c
    · exact .inl ⟨c, rfl, congrArg some left.symm⟩
    · rcases old.running x placement with ⟨-, -, ⟨⟩⟩ | other
      · exact .inr (.inl ⟨c, installed⟩)
      · exact .inr (other.mono jobs fun d same => ⟨d, stays x d left same⟩)
  · intro x d cpu idle
    rcases old.onCpu x d cpu idle with ⟨⟨⟩, ⟨⟩⟩ | same | ⟨ne, mem⟩
    · exact .inr (.inl installed)
    · by_cases here : d = c
      · subst here
        exact .inl ⟨rfl, congrArg some same⟩
      · refine .inr (.inl ?_)
        simpa [setCurrent, here] using same
    · exact .inr (.inr ⟨ne, mem⟩)

theorem expire {ids : List TaskId} {user : Bool} (old : s.Answering th (.expire ids user)) :
    (s.runJob th c (.expire ids user)).Watched := by
  have pass := expired s ids
  simp only [Kernel.runJob]
  generalize made : (if (expireAll s ids).2 = [] then Job.account false user
    else (After.due (expireAll s ids).2 user).job c) = next
  have hand : next.hand = (expireAll s ids).2 := by
    rw [← made]
    split
    next none => simp [none]
    next => exact After.job_hand _ _
  -- The pass changes the state of sleeping tasks and nothing else.
  have shape : ∀ x, ((expireAll s ids).1.tasks x).placement = (s.tasks x).placement ∧
      ((expireAll s ids).1.tasks x).onCpu = (s.tasks x).onCpu ∧
      ((expireAll s ids).1.tasks x).isIdle = (s.tasks x).isIdle := by
    intro x
    rcases pass.cases x with eq | ⟨-, shape, -⟩
    · simp only [eq, and_self]
    · simp only [shape, and_self]
  rw [pass.frame]
  apply watched_setJob
  constructor
  · intro x state idle
    have flag : (s.tasks x).isIdle = false := (shape x).2.2 ▸ idle
    rcases pass.cases x with eq | ⟨-, -, -, mem⟩
    · have was : ((expireAll s ids).1.tasks x).state = .ready := state
      rw [eq] at was
      rcases old.ready x was flag with ⟨⟨⟩⟩ | other
      exact .inr other
    · cases cpu : (s.tasks x).onCpu with
      | none =>
        rw [hand]
        exact .inl (mem cpu)
      | some d =>
        rcases old.onCpu x d cpu flag with ⟨-, ⟨⟩⟩ | claimed
        exact .inr claimed.kept
  · intro x placement
    rcases old.queued x ((shape x).1 ▸ placement) with ⟨⟨⟩⟩ | other
    exact .inr other
  · intro x placement
    rcases old.running x ((shape x).1 ▸ placement) with ⟨-, -, ⟨⟩⟩ | other
    exact .inr other
  · intro x d cpu idle
    rcases old.onCpu x d ((shape x).2.1 ▸ cpu) ((shape x).2.2 ▸ idle) with ⟨-, ⟨⟩⟩ | other
    exact .inr other

theorem enqueue (old : s.Answering th (.enqueue t q after)) :
    (s.runJob th c (.enqueue t q after)).Watched := by
  rw [Kernel.runJob]
  split
  · exact old.stay rfl rfl rfl rfl (.silent rfl rfl rfl) fun _ mine => mine
  next claimed =>
    refine old.turn rfl rfl rfl (by simp) (.silent rfl rfl rfl) fun x mine _ idle => ?_
    rw [After.job_hand]
    rcases List.mem_cons.mp mine with rfl | rest
    · obtain ⟨d, cpu⟩ := Option.ne_none_iff_exists'.mp fun none => claimed (.inl none)
      rcases old.onCpu x d cpu idle with ⟨-, ⟨⟩⟩ | other
      exact .inr other.kept
    · exact .inl rest

theorem mark (old : s.Answering th (.mark t q after)) :
    (s.runJob th c (.mark t q after)).Watched := by
  rw [Kernel.runJob]
  split
  next nowhere =>
    refine old.work rfl rfl rfl rfl (.silent rfl rfl rfl) (fun _ mine _ => mine) ?_ ?_
      (by rintro ⟨⟩) ?_
    · exact fun _ _ => .inl List.mem_cons_self
    · exact fun _ => .inl rfl
    · intro d cpu idle
      rcases old.onCpu t d cpu idle with ⟨-, ⟨⟩⟩ | other
      exact .inr other
  next marked =>
    refine old.turn rfl rfl rfl (by simp) (.silent rfl rfl rfl) fun x mine _ _ => ?_
    rw [After.job_hand]
    rcases List.mem_cons.mp mine with rfl | rest
    · cases place : (s.tasks x).placement with
      | nowhere => exact absurd place marked
      | queued =>
        rcases old.queued x place with ⟨⟨⟩⟩ | other
        exact .inr other.kept
      | running =>
        rcases old.running x place with ⟨-, -, ⟨⟩⟩ | other
        exact .inr other.kept
    · exact .inl rest

theorem lookup (old : s.Answering th (.lookup t after)) :
    (s.runJob th c (.lookup t after)).Watched := by
  rw [Kernel.runJob]
  split
  · split
    · refine old.restate rfl rfl rfl rfl ⟨rfl, rfl, rfl⟩ (.silent rfl rfl rfl) ?_ ?_
      · exact fun _ mine _ => List.mem_cons_of_mem _ mine
      · exact fun _ _ => .inl List.mem_cons_self
    next busy =>
      refine old.restate rfl rfl rfl rfl ⟨rfl, rfl, rfl⟩ (.silent rfl rfl rfl) ?_ ?_
      · intro x mine _
        rwa [After.job_hand]
      intro _ idle
      obtain ⟨d, cpu⟩ := Option.ne_none_iff_exists'.mp busy
      rcases old.onCpu t d cpu idle with ⟨-, ⟨⟩⟩ | other
      exact .inr other.kept
  · refine old.turn rfl rfl rfl (by simp) (.silent rfl rfl rfl) fun x mine _ _ => ?_
    rw [After.job_hand]
    exact .inl mine

theorem onward (old : s.Answering th job) (empty : job.hand = []) (queue : r.queue = s.queue)
    (current : r.current = s.current) (eq : r.job = s.job)
    (tasks : ∀ x, (r.tasks x).state = (s.tasks x).state ∧
      (r.tasks x).placement = (s.tasks x).placement ∧ (r.tasks x).onCpu = (s.tasks x).onCpu ∧
      (r.tasks x).isIdle = (s.tasks x).isIdle) : (r.setJob th next).Watched := by
  have none : ∀ x, x ∉ job.hand := fun x => by
    rw [empty]
    exact List.not_mem_nil
  refine old.turn queue current eq tasks ?_ fun x mine => absurd mine (none x)
  constructor
  · exact fun x mine => absurd (Job.mem_hand_of_queueing mine) (none x)
  · exact fun x mine => absurd (Job.mem_hand_of_running mine) (none x)
  · exact fun x mine => absurd (Job.mem_hand_of_claiming mine) (none x)

theorem take (old : s.Answering th (.take t)) : (s.runJob th c (.take t)).Watched := by
  rw [Kernel.runJob, moveTo_eq]
  refine old.work rfl rfl rfl rfl ?_ (fun _ mine _ => mine) ?_ ?_ ?_ ?_
  · exact ⟨fun x mine other => absurd mine other, fun _ mine _ => mine, fun _ mine _ => mine⟩
  · exact fun _ _ => .inl List.mem_cons_self
  · intro placement
    simp only at placement
    split at placement
    · cases placement
    next unqueued => exact absurd placement unqueued
  · intro placement
    simp only at placement
    split at placement
    · cases placement
    · rcases old.running t placement with ⟨-, -, ⟨⟩⟩ | other
      exact .inr other
  · intro d cpu idle
    rcases old.onCpu t d cpu idle with ⟨-, ⟨⟩⟩ | other
    exact .inr other

theorem start (old : s.Answering (.cpu c) (.start t)) :
    (s.runJob (.cpu c) c (.start t)).Watched := by
  rw [Kernel.runJob, moveTo_eq]
  refine old.work rfl rfl rfl rfl (.silent rfl rfl rfl) (fun _ mine _ => mine) ?_ ?_ ?_ ?_
  · exact fun _ _ => .inl List.mem_cons_self
  · intro placement
    simp only at placement
    split at placement
    · cases placement
    · rcases old.queued t placement with ⟨⟨⟩⟩ | other
      exact .inr other
  · exact fun _ => .inl ⟨c, rfl, rfl⟩
  · intro d cpu idle
    rcases old.onCpu t d cpu idle with ⟨-, ⟨⟩⟩ | other
    exact .inr other

theorem claim (old : s.Answering (.cpu c) (.claim t)) :
    (s.runJob (.cpu c) c (.claim t)).Watched := by
  rw [Kernel.runJob]
  refine old.work rfl rfl rfl rfl ?_ (fun _ mine _ => mine) ?_ ?_ ?_ ?_
  · exact ⟨fun _ mine _ => mine, fun _ mine _ => mine, by rintro _ ⟨⟩⟩
  · exact fun _ _ => .inl List.mem_cons_self
  · intro placement
    rcases old.queued t placement with ⟨⟨⟩⟩ | other
    exact .inr other
  · exact fun _ => .inl ⟨c, rfl, rfl⟩
  · rintro d ⟨⟩ -
    exact .inl ⟨rfl, rfl⟩

theorem leave (old : s.Answering th (.leave t)) : (s.runJob th c (.leave t)).Watched := by
  rw [Kernel.runJob, moveTo_eq]
  refine old.work rfl rfl rfl rfl ?_ (fun _ mine _ => mine) ?_ ?_ ?_ ?_
  · exact ⟨fun _ mine _ => mine, fun x mine other => absurd mine other, fun _ mine _ => mine⟩
  · exact fun _ _ => .inl List.mem_cons_self
  · intro placement
    simp only at placement
    split at placement
    · cases placement
    · rcases old.queued t placement with ⟨⟨⟩⟩ | other
      exact .inr other
  · intro placement
    simp only at placement
    split at placement
    · cases placement
    next ne => exact absurd placement ne
  · exact fun d cpu idle => old.onCpu t d cpu idle

theorem release (old : s.Answering th (.release t)) : (s.runJob th c (.release t)).Watched := by
  rw [Kernel.runJob]
  refine old.work rfl rfl rfl rfl ?_ (fun _ mine _ => mine) ?_ ?_ ?_ (by rintro _ ⟨⟩)
  · exact ⟨fun _ mine _ => mine, fun _ mine _ => mine, fun x mine other => absurd mine other⟩
  · exact fun _ _ => .inl List.mem_cons_self
  · intro placement
    rcases old.queued t placement with ⟨⟨⟩⟩ | other
    exact .inr other
  · intro placement
    rcases old.running t placement with ⟨-, -, ⟨⟩⟩ | other
    exact .inr other

theorem runJob (old : s.Answering th job) (pos : s.job th = job)
    (top : job.AtBase ∨ th = .cpu c) : (s.runJob th c job).Watched := by
  cases job with
  | code => exact (watched_iff th).mpr (pos.symm ▸ old)
  | enqueue => exact old.enqueue
  | mark => exact old.mark
  | push => exact old.push
  | lookup => exact old.lookup
  | expire => exact old.expire
  | take => exact old.take
  | leave => exact old.leave
  | release => exact old.release
  | sweep | doze | blocked | fallback | drop =>
    exact old.onward rfl rfl rfl rfl fun _ => ⟨rfl, rfl, rfl, rfl⟩
  | account => exact old.onward rfl rfl rfl rfl (setQuantum_tasks _)
  | load | switch =>
    exact old.stay rfl rfl rfl rfl
      ⟨fun _ mine _ => mine, fun _ mine _ => mine, fun _ mine _ => mine⟩ fun _ mine => mine
  | unsleepOwn => exact old.stay rfl rfl rfl rfl (.silent rfl rfl rfl) fun _ mine => mine
  | unsleep t q own rest =>
    cases rest with
    | nil =>
      exact old.stay rfl rfl rfl rfl (.silent rfl rfl rfl) fun _ mine => mine
    | cons v rest =>
      rw [Kernel.runJob]
      split <;> exact old.stay rfl rfl rfl rfl (.silent rfl rfl rfl) fun _ mine => mine
  | schedule =>
    rw [Kernel.runJob]
    split
    · exact old.onward rfl rfl rfl rfl (by simp)
    next queued => exact old.pop rfl queued
  | steal rounds victims =>
    cases victims with
    | nil =>
      cases rounds with
      | zero => exact old.onward rfl rfl rfl rfl (by simp)
      | succ rounds => exact old.onward rfl rfl rfl rfl fun _ => ⟨rfl, rfl, rfl, rfl⟩
    | cons v rest =>
      rw [Kernel.runJob]
      split
      · exact old.onward rfl rfl rfl rfl (by simp)
      next queued => exact old.pop rfl queued
  | compare t =>
    rw [Kernel.runJob]
    split
    next eq =>
      refine old.turn rfl rfl rfl (setQuantum_tasks _) (.silent rfl rfl rfl) ?_
      intro x mine _ _
      cases List.mem_singleton.mp mine
      exact .inr (.inr (.inl ⟨c, eq.symm⟩))
    · exact old.stay rfl rfl rfl rfl (.silent rfl rfl rfl) fun _ mine => mine
  | suspend =>
    rw [Kernel.runJob]
    split <;> exact old.stay rfl rfl rfl rfl (.silent rfl rfl rfl) fun _ mine => mine
  | requeue t =>
    refine old.restate rfl rfl rfl rfl ⟨rfl, rfl, rfl⟩ (.silent rfl rfl rfl) ?_ ?_
    · exact fun _ mine _ => mine
    · exact fun _ _ => .inr (.inr (.inl ⟨c, rfl⟩))
  | resume t =>
    exact old.restate rfl rfl rfl rfl ⟨rfl, rfl, rfl⟩ (.silent rfl rfl rfl)
      (fun _ mine _ => mine) fun _ _ => .inl List.mem_cons_self
  | start =>
    obtain rfl : th = .cpu c := top.resolve_left id
    exact old.start
  | claim =>
    obtain rfl : th = .cpu c := top.resolve_left id
    exact old.claim
  | install =>
    obtain rfl : th = .cpu c := top.resolve_left id
    exact old.install
  | settle t =>
    rw [Kernel.runJob]
    split
    · exact old.stay rfl rfl rfl rfl (.silent rfl rfl rfl) fun _ mine => mine
    next stopped =>
      refine old.turn rfl rfl rfl (by simp) (.silent rfl rfl rfl) ?_
      intro x mine state idle
      cases List.mem_singleton.mp mine
      exact absurd ⟨state, idle⟩ stopped
  | build t =>
    exact old.work rfl rfl rfl rfl (.silent rfl rfl rfl) (by rintro _ ⟨⟩)
      (fun _ _ => .inl List.mem_cons_self) (by rintro ⟨⟩) (by rintro ⟨⟩) (by rintro _ ⟨⟩)

end Answering

theorem Watched.stop (watched : s.Watched) (idling : s.Open c) {v : Task n}
    (queue : r.queue = s.queue) (current : r.current = s.current) (eq : r.job = s.job)
    (tasks : r.tasks = Function.update s.tasks t v) (state : v.state ≠ .ready)
    (marks : v.placement = (s.tasks t).placement ∧ v.onCpu = (s.tasks t).onCpu ∧
      v.isIdle = (s.tasks t).isIdle) : (r.setJob (.cpu c) next).Watched := by
  have old := (watched_iff (.cpu c)).mp watched
  rw [show s.job (.cpu c) = .code from idling] at old
  exact old.restate queue current eq tasks marks (.silent rfl rfl rfl)
    (by rintro _ ⟨⟩) fun ready => absurd ready state

theorem Watched.onward (watched : s.Watched) (empty : (s.job th).hand = [])
    (queue : r.queue = s.queue) (current : r.current = s.current) (eq : r.job = s.job)
    (tasks : r.tasks = s.tasks) : (r.setJob th next).Watched :=
  ((watched_iff th).mp watched).onward empty queue current eq (by simp [tasks])

theorem Watched.step (watched : s.Watched) (lawful : ∀ t, (s.job (.task t)).AtBase)
    {action : Action n} (moves : s.Moves action s') : s'.Watched := by
  cases moves with
  | task => exact ((watched_iff _).mp watched).runJob rfl (.inl (lawful _))
  | cpu => exact ((watched_iff _).mp watched).runJob rfl (.inr rfl)
  | tick idling | reschedule idling | wakeOff idling =>
    exact watched.onward (congrArg Job.hand idling) rfl rfl rfl rfl
  | wake free | spawn free | takeDead free =>
    exact watched.onward (congrArg Job.hand free.2) rfl rfl rfl rfl
  | abandon _ pos => exact watched.onward (congrArg Job.hand pos) rfl rfl rfl rfl
  | markBlocked busy | sleep busy | exitCurrent busy =>
    exact watched.stop busy.1.1 rfl rfl rfl rfl (by simp) ⟨rfl, rfl, rfl⟩
  | takeNone => exact watched
  | setSupervisor | clock => exact ⟨watched.ready, watched.queued, watched.running, watched.onCpu⟩

/-! Ordinary kernel code is in the positions of `wake`, of `enqueue_from` and of
its own business only. -/

def Lawful (s : Kernel n) : Prop := ∀ t, (s.job (.task t)).AtBase

@[simp] theorem moveTo_job (t : TaskId) (source target : Placement) :
    (s.moveTo t source target).job = s.job := by
  rw [moveTo_eq]
  rfl

theorem runJob_other {th th' : Thread n} (other : th' ≠ th) (c : Cpu n) (job : Job n) :
    (s.runJob th c job).job th' = s.job th' := by
  cases job with
  | expire ids user =>
    simp only [runJob, setJob_other other]
    rw [(expired s ids).frame]
  | unsleep t q own rest after =>
    cases rest with
    | nil => exact setJob_other other _ _
    | cons v rest =>
      rw [runJob]
      split <;> exact setJob_other other _ _
  | steal rounds victims =>
    cases victims with
    | nil => cases rounds <;> exact setJob_other other _ _
    | cons v rest =>
      rw [runJob]
      split <;> exact setJob_other other _ _
  | code => rfl
  | take | start | leave => rw [runJob, setJob_other other, moveTo_job]
  | lookup id after =>
    rw [runJob]
    split
    · split <;> exact setJob_other other _ _
    · exact setJob_other other _ _
  | enqueue | mark | compare | schedule =>
    rw [runJob]
    split <;> exact setJob_other other _ _
  | _ => exact setJob_other other _ _

theorem runJob_base {th : Thread n} {c : Cpu n} {job : Job n} (pos : s.job th = job)
    (base : job.AtBase) : ((s.runJob th c job).job th).AtBase := by
  have after : ∀ after : After, after = .done → ∀ r : Kernel n,
      ((r.setJob th (after.job c)).job th).AtBase := by
    rintro _ rfl r
    simp [setJob, After.job, Job.AtBase]
  have reached : ∀ (r : Kernel n) (next : Job n), next.AtBase →
      ((r.setJob th next).job th).AtBase := by
    intro r next base
    simpa [setJob] using base
  cases job with
  | code => rwa [runJob, pos]
  | enqueue _ _ next | mark _ _ next =>
    rw [runJob]
    split
    · exact reached _ _ base
    · exact after next base _
  | push t q next => exact after next base _
  | lookup id next =>
    rw [runJob]
    split
    · split
      · exact reached _ _ base
      · exact after next base _
    · exact after next base _
  | unsleepOwn t q next => exact reached _ _ base
  | unsleep t q own rest next =>
    cases rest with
    | nil => exact reached _ _ base
    | cons v rest =>
      rw [runJob]
      split <;> exact reached _ _ base
  | build t addrSpace => exact reached _ _ rfl
  | drop t => exact reached _ _ trivial
  | _ => exact base.elim

theorem Lawful.step (lawful : s.Lawful) {action : Action n} (moves : s.Moves action s') :
    s'.Lawful := by
  have base : ∀ (r : Kernel n) (t : TaskId) (job : Job n), r.job = s.job → job.AtBase →
      (r.setJob (.task t) job).Lawful := by
    intro r t job eq base x
    by_cases equal : x = t
    · subst equal
      simpa [setJob] using base
    · simpa [setJob, eq, equal] using lawful x
  have upper : ∀ (r : Kernel n) (c : Cpu n) (job : Job n), r.job = s.job →
      (r.setJob (.cpu c) job).Lawful := by
    intro r c job eq x
    simpa [setJob, eq] using lawful x
  cases moves with
  | @task c =>
    intro x
    by_cases eq : x = s.current c
    · subst eq
      exact runJob_base rfl (lawful _)
    · rw [runJob_other (by simpa using eq)]
      exact lawful x
  | cpu =>
    intro x
    rw [runJob_other (by simp)]
    exact lawful x
  | tick | reschedule | wakeOff | markBlocked | sleep | exitCurrent => exact upper _ _ _ rfl
  | wake => exact base _ _ _ rfl rfl
  | spawn | abandon | takeDead => exact base _ _ _ rfl trivial
  | takeNone | setSupervisor | clock => exact lawful

theorem watched_start : (start n).Watched where
  ready t state idle := by
    rw [start_tasks] at state idle
    split at state
    · simp_all [bootTask]
    · split at state
      · cases state
      · split at state <;> cases state
  queued t placement := by
    rw [start_tasks] at placement
    repeat' split at placement
    all_goals cases placement
  running t placement := by
    rw [start_tasks] at placement
    split at placement
    · cases placement
    next zero =>
      split at placement
      next one => exact .inl ⟨0, one.symm⟩
      next one =>
        split at placement
        next known =>
          have two : 2 ≤ t := Nat.lt_of_le_of_ne (Nat.one_le_iff_ne_zero.mpr zero) (Ne.symm one)
          have idle := eq_idleTask two known
          refine .inl ⟨Fin.ofNat (n + 1) (t - 1), ?_⟩
          have other : Fin.ofNat (n + 1) (t - 1) ≠ 0 := fun first =>
            zero (idle.trans (by rw [first]; rfl))
          simp only [start, bootCurrent, if_neg other]
          exact idle.symm
        · cases placement
  onCpu t c cpu idle := by
    rw [start_tasks] at cpu idle
    split at cpu
    · simp_all [bootTask]
    split at cpu
    next one =>
      cases cpu
      exact .inl one.symm
    · split at cpu
      · simp_all [bootTask]
      · cases cpu

theorem watched_of_run {actions : List (Action n)}
    (run : Run (fun s action s' => s.step action = some s') (start n) actions s) :
    s.Lawful ∧ s.Watched :=
  run.invariant (fun s => s.Lawful ∧ s.Watched) ⟨fun _ => trivial, watched_start⟩
    fun _ _ _ ⟨lawful, watched⟩ ran =>
      ⟨lawful.step (moves_of_step ran), watched.step lawful (moves_of_step ran)⟩

end Kernel

/-- Outside `schedule`, `finish_switch`, `enqueue_from`, `wake` and `on_tick`. -/
def Job.Quiet : Job n → Prop
  | .code => True
  | .blocked => True
  | .doze _ => True
  | .build _ _ => True
  | .drop _ => True
  | _ => False

instance (job : Job n) : Decidable job.Quiet := by
  apply @Job.casesOn n (fun job => Decidable job.Quiet) job <;> intros <;>
    first | exact isTrue trivial | exact isFalse id

theorem Job.Quiet.hand_eq_nil {job : Job n} (quiet : job.Quiet) : job.hand = [] := by
  cases job <;> first | rfl | exact quiet.elim

namespace Kernel

variable {s s' : Kernel n}

def Quiescent (s : Kernel n) : Prop := ∀ th, (s.job th).Quiet

theorem Watched.queued_or_current (watched : s.Watched) (quiescent : s.Quiescent) {t : TaskId}
    (ready : (s.tasks t).state = .ready) (idle : (s.tasks t).isIdle = false) :
    s.Queued t ∨ s.OnCpu t := by
  rcases watched.ready t ready idle with queued | current | ⟨th, mem⟩
  · exact .inl queued
  · exact .inr current
  · rw [(quiescent th).hand_eq_nil] at mem
    cases mem

theorem Inv.ready_current (inv : s.Inv) (quiescent : s.Quiescent) {c : Cpu n}
    (ready : (s.tasks (s.current c)).state = .ready) :
    s.job (.cpu c) = .blocked ∨ ∃ til, s.job (.cpu c) = .doze til := by
  have stance := inv.stance c
  have quiet := quiescent (.cpu c)
  generalize s.job (.cpu c) = job at stance quiet
  cases job with
  | blocked => exact .inl rfl
  | doze til => exact .inr ⟨til, rfl⟩
  | code =>
    have running : (s.tasks (s.current c)).state = .running := stance
    rw [ready] at running
    cases running
  | build | drop => exact stance.elim
  | _ => exact quiet.elim

theorem Moves.job_task {action : Action n} (moves : s.Moves action s') {t : TaskId}
    (away : ∀ c, s.current c ≠ t) : s'.job (.task t) = s.job (.task t) := by
  have other : ∀ c, Thread.task t ≠ Thread.task (n := n) (s.current c) := fun c eq =>
    away c (by simpa using eq.symm)
  cases moves with
  | task => exact runJob_other (other _) _ _
  | cpu => exact runJob_other (by simp) _ _
  | wake | spawn | abandon | takeDead => exact setJob_other (other _) _ _
  | takeNone | setSupervisor | clock => rfl
  | _ => exact setJob_other (by simp) _ _

theorem job_of_never_current {actions : List (Action n)} {t : TaskId}
    (run : Run (Guarded (fun s _ => ∀ c, s.current c ≠ t) fun s action s' =>
      s.step action = some s') (start n) actions s) : s.job (.task t) = .code :=
  run.invariant (fun s => s.job (.task t) = .code) rfl fun _ _ _ code ran =>
    ((moves_of_step ran.2).job_task ran.1).trans code

theorem forall_of_few_current {P : Job n → Prop} (code : P .code) {k : Nat}
    {actions : List (Action n)}
    (run : Run (Guarded (fun s _ => ∀ c, s.current c < k) fun s action s' =>
      s.step action = some s') (start n) actions s)
    (cpus : ∀ c, P (s.job (.cpu c))) (few : ∀ t < k, P (s.job (.task t))) (th : Thread n) :
    P (s.job th) := by
  rcases th with c | t
  · exact cpus c
  by_cases small : t < k
  · exact few t small
  have never : s.job (.task t) = .code :=
    job_of_never_current (run.mono fun _ _ _ ran =>
      ⟨fun c eq => small (eq ▸ ran.1 c), ran.2⟩)
  rwa [never]

theorem exists_of_few_current (P : Job n → Prop) [DecidablePred P] (code : P .code) (k : Nat)
    (guard : Kernel n → Action n → Prop) [∀ s a, Decidable (guard s a)]
    (facts : Kernel n → Prop) [DecidablePred facts] (actions : List (Action n))
    (eval : (strictReplay (strict k) (fun s a =>
      if guard s a ∧ ∀ c, s.current c < k then s.step a else none) actions (start n)).any fun s =>
        decide ((∀ c, P (s.job (.cpu c))) ∧ (∀ t < k, P (s.job (.task t))) ∧ facts s)) :
    ∃ s, Run (Guarded guard fun s action s' => s.step action = some s') (start n) actions s ∧
      (∀ th, P (s.job th)) ∧ facts s := by
  obtain ⟨s, run, cpus, few, shown⟩ :=
    exists_of_strictReplay (strict_eq k) _ eval fun _ _ facts => facts
  exact ⟨s, run.mono fun _ _ _ ran => ⟨ran.1.1, ran.2⟩,
    forall_of_few_current code (run.mono fun _ _ _ ran => ⟨ran.1.2, ran.2⟩) cpus few, shown⟩

/-- When nobody is in the middle of an operation of the scheduler, a ready task is on a run queue
or has not left its CPU yet: the CPU is between the section that stopped it and its call of
`schedule`. -/
theorem ready_task_queued_or_current {actions : List (Action n)}
    (run : Run (fun s action s' => s.step action = some s') (start n) actions s)
    (quiescent : s.Quiescent) {t : TaskId} (ready : (s.tasks t).state = .ready)
    (idle : (s.tasks t).isIdle = false) :
    (∃ q, t ∈ s.queue q) ∨ ∃ c, s.current c = t ∧
      (Run (Guarded Undisturbed fun s action s' => s.step action = some s') (start n) actions s →
        s.job (.cpu c) = .blocked ∨ ∃ til, s.job (.cpu c) = .doze til) := by
  rcases (watched_of_run run).2.queued_or_current quiescent ready idle with queued | ⟨c, current⟩
  · exact .inl queued
  · refine .inr ⟨c, current, fun undisturbed => ?_⟩
    subst current
    exact (inv_of_run undisturbed).ready_current quiescent ready

theorem woken_task_queued : ∃ s : Kernel 1,
    Run (fun s action s' => s.step action = some s') (start 1) waking s ∧ s.Quiescent ∧
    (s.tasks 3).state = .ready ∧ (s.tasks 3).isIdle = false ∧ s.current 0 = 1 ∧ s.current 1 = 2 ∧
    ∃ q, 3 ∈ s.queue q := by
  obtain ⟨s, guarded, quiescent, ready, idle, boot, other⟩ :=
    exists_of_few_current Job.Quiet trivial 4 (fun _ _ => True) (fun s : Kernel 1 =>
      (s.tasks 3).state = .ready ∧ (s.tasks 3).isIdle = false ∧ s.current 0 = 1 ∧ s.current 1 = 2)
      waking (by decide +kernel)
  have run := guarded.mono fun _ _ _ ran => ran.2
  refine ⟨s, run, quiescent, ready, idle, boot, other, ?_⟩
  rcases ready_task_queued_or_current run quiescent ready idle with queued | ⟨c, current, -⟩
  · exact queued
  · match c with
    | 0 => cases boot.symm.trans current
    | 1 => cases other.symm.trans current

/-- The other processor wakes the task 3 before the boot processor leaves it. -/
def early : List (Action 1) :=
  [.spawn bsp none] ++ runs bsp 4 ++ [.reschedule bsp] ++ runs bsp 17 ++
    [.markBlocked bsp, .wakeOff ap 3] ++
    runs ap 1

theorem ready_task_on_no_queue : ∃ s : Kernel 1,
    Run (Guarded (fun s _ => s.OnePlace) fun s action s' => s.step action = some s')
      (start 1) early s ∧ s.OnePlace ∧ s.Quiescent ∧
    (s.tasks 3).state = .ready ∧ (s.tasks 3).isIdle = false ∧ ∀ q, 3 ∉ s.queue q := by
  obtain ⟨s, run, quiescent, one, facts⟩ :=
    exists_of_few_current Job.Quiet trivial 4 (fun s _ => s.OnePlace)
      (fun s : Kernel 1 => s.OnePlace ∧
      (s.tasks 3).state = .ready ∧ (s.tasks 3).isIdle = false ∧ ∀ q, 3 ∉ s.queue q)
      early (by decide +kernel)
  exact ⟨s, run, one, quiescent, facts⟩

end Kernel

end K1K.Sched
