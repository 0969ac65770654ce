import K1K.Sched.Model
import K1K.Lib.Holdings

/-!
# Every task in one place

A task is held by a run queue, by a CPU as its current task, or by a thread that has it in hand;
each position of a thread promises something about its task.
-/

namespace K1K.Sched

open K1K.Lib
open Function (update update_of_ne update_self)

variable {n : Nat}

inductive Stage (n : Nat) where
  | reserved
  | waiting
  | picked (c : Cpu n)
  | starting (c : Cpu n)
  | claimed (c : Cpu n)
  | current (c : Cpu n)
  | leaving (c : Cpu n)
  | settling (c : Cpu n)

namespace Stage

def cpu : Stage n → Option (Cpu n)
  | .reserved => none
  | .waiting => none
  | .picked c => some c
  | .starting c => some c
  | .claimed c => some c
  | .current c => some c
  | .leaving c => some c
  | .settling c => some c

def Home (c : Cpu n) (t : TaskId) (task : Task n) : Prop :=
  task.isIdle = true → t = idleTask c

def Fits (t : TaskId) (task : Task n) : Stage n → Prop
  | .reserved => task.state = .dead ∧ task.isIdle = false
  | .waiting => task.state = .ready ∧ task.isIdle = false
  | .picked c => (task.state = .ready ∨ task.state = .running) ∧ Home c t task
  | .starting c => task.state = .running ∧ Home c t task
  | .claimed c => task.state = .running ∧ task.onCpu = some c ∧ Home c t task
  | .current c => task.onCpu = some c ∧ Home c t task
  | .leaving c => task.state ≠ .running ∧ task.onCpu = some c ∧ Home c t task
  | .settling c => task.state ≠ .running ∧ Home c t task

end Stage

def After.rest : After → List TaskId
  | .due rest _ => rest
  | _ => []

def After.stages (after : After) : List (TaskId × Stage n) := after.rest.map (·, .waiting)

def Job.stages (c : Cpu n) : Job n → List (TaskId × Stage n)
  | .enqueue t _ after => (t, .waiting) :: after.stages
  | .mark t _ after => (t, .waiting) :: after.stages
  | .push t _ after => (t, .waiting) :: after.stages
  | .lookup _ after => after.stages
  | .unsleepOwn t _ after => (t, .waiting) :: after.stages
  | .unsleep t _ _ _ after => (t, .waiting) :: after.stages
  | .take t => [(t, .waiting)]
  | .compare t => [(t, .picked c)]
  | .suspend t => [(t, .picked c)]
  | .requeue t => [(t, .picked c)]
  | .resume t => [(t, .picked c)]
  | .start t => [(t, .starting c)]
  | .claim t => [(t, .starting c)]
  | .install t => [(t, .claimed c)]
  | .load t => [(t, .leaving c)]
  | .switch t => [(t, .leaving c)]
  | .leave t => [(t, .leaving c)]
  | .release t => [(t, .leaving c)]
  | .settle t => [(t, .settling c)]
  | .build t _ => [(t, .reserved)]
  | _ => []

@[simp] theorem After.job_stages (after : After) (c d : Cpu n) :
    (after.job c).stages d = after.stages := by
  rcases after with _ | ⟨_ | ⟨t, rest⟩, user⟩ | _ <;> rfl

def Job.AtBase : Job n → Prop
  | .code => True
  | .enqueue _ _ after => after = .done
  | .mark _ _ after => after = .done
  | .push _ _ after => after = .done
  | .lookup _ after => after = .done
  | .unsleepOwn _ _ after => after = .done
  | .unsleep _ _ _ _ after => after = .done
  | .build _ _ => True
  | .drop _ => True
  | _ => False

/-- What the current task is like while an `enqueue_from` or a `wake` goes on. -/
def After.Stance (task : Task n) : After → Prop
  | .done => task.state = .running
  | .due _ _ => task.state = .running
  | .exit => task.state = .dead ∧ task.isIdle = false

/-- What the current task of a CPU is like while the CPU is in this position. -/
def Job.Stance (task : Task n) : Job n → Prop
  | .enqueue _ _ after => after.Stance task
  | .mark _ _ after => after.Stance task
  | .push _ _ after => after.Stance task
  | .lookup _ after => after.Stance task
  | .unsleepOwn _ _ after => after.Stance task
  | .unsleep _ _ _ _ after => after.Stance task
  | .blocked => (task.state = .blocked ∨ task.state = .ready) ∧ task.isIdle = false
  | .doze _ => (task.state = .sleeping ∨ task.state = .ready) ∧ task.isIdle = false
  | .schedule => task.isIdle = true → task.state = .running
  | .steal _ _ => task.isIdle = true → task.state = .running
  | .take _ => task.isIdle = true → task.state = .running
  | .fallback => task.isIdle = true → task.state = .running
  | .compare _ => task.isIdle = true → task.state = .running
  | .suspend _ => task.isIdle = true → task.state = .running
  | .resume _ => task.state ≠ .running
  | .start _ => task.state ≠ .running
  | .claim _ => task.state ≠ .running
  | .install _ => task.state ≠ .running
  | .build _ _ => False
  | .drop _ => False
  | _ => task.state = .running

theorem Stage.Fits.congr {stage : Stage n} {t : TaskId} {task task' : Task n}
    (fits : stage.Fits t task) (state : task'.state = task.state) (cpu : task'.onCpu = task.onCpu)
    (idle : task'.isIdle = task.isIdle) : stage.Fits t task' := by
  cases stage <;> simpa only [Stage.Fits, Stage.Home, state, cpu, idle] using fits

theorem Job.Stance.congr {job : Job n} {task task' : Task n} (stance : job.Stance task)
    (state : task'.state = task.state) (idle : task'.isIdle = task.isIdle) : job.Stance task' := by
  have after : ∀ after : After, after.Stance task → after.Stance task' := by
    intro after stance
    cases after <;> simpa only [After.Stance, state, idle] using stance
  cases job <;> first
    | exact after _ stance
    | exact False.elim stance
    | simpa only [Job.Stance, state, idle] using stance

inductive Owner (n : Nat) where
  | queue (q : Cpu n)
  | cpu (c : Cpu n)
  | thread (th : Thread n)
  deriving DecidableEq

/-- The CPU a thread's promises are about; ordinary code makes none of that kind. -/
def Thread.home : Thread n → Cpu n
  | .cpu c => c
  | .task _ => bsp

namespace Kernel

variable (s : Kernel n)

def holds : Owner n → List (TaskId × Stage n)
  | .queue q => (s.queue q).map (·, .waiting)
  | .cpu c => [(s.current c, .current c)]
  | .thread th => (s.job th).stages th.home

structure Inv : Prop where
  held : Held (fun stage t => stage.Fits t (s.tasks t)) s.holds
  stance : ∀ c, (s.job (.cpu c)).Stance (s.tasks (s.current c))
  base : ∀ t, (s.job (.task t)).AtBase
  idle : ∀ t, (s.tasks t).isIdle = true →
    (∃ c : Cpu n, t = idleTask c) ∧ ((s.tasks t).state = .ready ∨ (s.tasks t).state = .running)
  spare : ∀ c : Cpu n, (s.tasks (idleTask c)).isIdle = true
  fresh : ∀ t, s.nextId ≤ t →
    Unheld s.holds t ∧ (s.tasks t).state = .dead ∧ (s.tasks t).isIdle = false

variable {s}

theorem holds_setJob (th : Thread n) (job : Job n) :
    (s.setJob th job).holds = update s.holds (.thread th) (job.stages th.home) := by
  funext o
  rcases o with q | c | th'
  · simp [holds, setJob]
  · simp [holds, setJob]
  by_cases eq : th' = th
  · subst eq
    simp [holds, setJob]
  · simp [holds, setJob, eq]

theorem holds_setQueue (q : Cpu n) (tasks : List TaskId) :
    (s.setQueue q tasks).holds = update s.holds (.queue q) (tasks.map (·, .waiting)) := by
  funext o
  rcases o with q' | c | th
  · by_cases eq : q' = q
    · subst eq
      simp [holds, setQueue]
    · simp [holds, setQueue, eq]
  · simp [holds, setQueue]
  · simp [holds, setQueue]

theorem holds_setCurrent (c : Cpu n) (t : TaskId) :
    (s.setCurrent c t).holds = update s.holds (.cpu c) [(t, .current c)] := by
  funext o
  rcases o with q | c' | th
  · simp [holds, setCurrent]
  · by_cases eq : c' = c
    · subst eq
      simp [holds, setCurrent]
    · simp [holds, setCurrent, eq]
  · simp [holds, setCurrent]

@[simp]
theorem holds_setTask (t : TaskId) (task : Task n) : (s.setTask t task).holds = s.holds := rfl

theorem moveTo_eq (t : TaskId) (source target : Placement) :
    s.moveTo t source target = s.setTask t { s.tasks t with
      placement := if (s.tasks t).placement = source then target else (s.tasks t).placement } := by
  unfold Kernel.moveTo
  split
  · rfl
  · simp [setTask]

namespace Inv

variable {th : Thread n} {t : TaskId} {v : Task n} {job : Job n}

theorem lt_nextId (inv : s.Inv) {o : Owner n} {x : TaskId} (mem : x ∈ names (s.holds o)) :
    x < s.nextId := by
  by_contra late
  exact (inv.fresh x (Nat.not_lt.mp late)).1 o mem

theorem current_ne (inv : s.Inv) {c : Cpu n} {o : Owner n} (mem : t ∈ names (s.holds o))
    (other : o ≠ .cpu c) : t ≠ s.current c := by
  rintro rfl
  exact other (inv.held.unique mem (by simp [holds]))

/-- A thread moves on and one task changes: what the thread holds now is its own,
and the promises others have made about the task still hold. -/
theorem put (inv : s.Inv) (once : (names (job.stages th.home)).Nodup)
    (own : ∀ x ∈ names (job.stages th.home), x < s.nextId ∧
      ∀ o, x ∈ names (s.holds o) → o = .thread th)
    (others : ∀ o, o ≠ .thread th → ∀ stage : Stage n, (t, stage) ∈ s.holds o →
      stage.Fits t (s.tasks t) → stage.Fits t v) (new : ∀ entry ∈ job.stages th.home,
      entry.2.Fits entry.1 (update s.tasks t v entry.1)) (idle : v.isIdle = (s.tasks t).isIdle)
    (lively : v.isIdle = true → v.state = .ready ∨ v.state = .running)
    (stance : ∀ c, (update s.job th job (.cpu c)).Stance (update s.tasks t v (s.current c)))
    (base : ∀ t', th = .task t' → job.AtBase) (born : t < s.nextId) :
    ((s.setTask t v).setJob th job).Inv where
  held := by
    rw [holds_setJob]
    refine inv.held.put once (fun x mem o => (own x mem).2 o) ?_ new
    rintro o other ⟨x, stage⟩ mem fits
    by_cases eq : x = t
    · subst eq
      simpa [setJob, setTask] using others o other stage mem fits
    · simpa [setJob, setTask, eq] using fits
  stance := stance
  base t' := by
    by_cases eq : th = .task t'
    · simpa [setJob, eq] using base t' eq
    · simpa [setJob, setTask, update_of_ne (Ne.symm eq)] using inv.base t'
  idle x flagged := by
    by_cases eq : x = t
    · subst eq
      simp only [setJob, setTask, update_self] at flagged ⊢
      exact ⟨(inv.idle x (idle ▸ flagged)).1, lively flagged⟩
    · simp only [setJob, setTask, update_of_ne eq] at flagged ⊢
      exact inv.idle x flagged
  spare c := by
    by_cases eq : idleTask c = t
    · rw [← eq] at idle
      simpa [setJob, setTask, ← eq, idle] using inv.spare c
    · simpa [setJob, setTask, eq] using inv.spare c
  fresh x late := by
    obtain ⟨unheld, unborn⟩ := inv.fresh x late
    refine ⟨fun o mem => ?_, ?_⟩
    · rw [holds_setJob] at mem
      by_cases eq : o = .thread th
      · subst eq
        rw [update_self] at mem
        exact absurd (own x mem).1 (Nat.not_lt.mpr late)
      · rw [update_of_ne eq] at mem
        exact unheld o mem
    · have other : x ≠ t := by
        rintro rfl
        exact absurd born (Nat.not_lt.mpr late)
      simpa [setJob, setTask, other] using unborn

variable (c : Cpu n)

theorem hand (inv : s.Inv) (mem : t ∈ names ((s.job th).stages th.home))
    (within : (names (job.stages th.home)).Sublist (names ((s.job th).stages th.home)))
    (new : ∀ entry ∈ job.stages th.home,
      entry.2.Fits entry.1 (update s.tasks t v entry.1)) (idle : v.isIdle = (s.tasks t).isIdle)
    (lively : v.isIdle = true → v.state = .ready ∨ v.state = .running)
    (stance : ∀ c, th = .cpu c → job.Stance (s.tasks (s.current c)))
    (base : ∀ t', th = .task t' → job.AtBase) : ((s.setTask t v).setJob th job).Inv := by
  have mine : t ∈ names (s.holds (.thread th)) := mem
  refine inv.put ((inv.held.once (.thread th)).sublist within) ?_ ?_ new idle lively ?_ base
    (inv.lt_nextId mine)
  · intro x kept
    have was : x ∈ names (s.holds (.thread th)) := within.subset kept
    exact ⟨inv.lt_nextId was, fun o other => inv.held.unique other was⟩
  · intro o other stage promised _
    exact absurd (inv.held.unique (mem_names promised) mine) other
  · intro c
    rw [update_of_ne (inv.current_ne mine (by simp)).symm]
    by_cases eq : th = .cpu c
    · simpa [← eq] using stance c eq
    · simpa [Ne.symm eq] using inv.stance c

theorem adopt (inv : s.Inv) (once : (names (job.stages th.home)).Nodup)
    (own : ∀ x ∈ names (job.stages th.home), x ∈ names ((s.job th).stages th.home) ∨
      (Unheld s.holds x ∧ x < s.nextId))
    (new : ∀ entry ∈ job.stages th.home, entry.2.Fits entry.1 (s.tasks entry.1))
    (stance : ∀ c, th = .cpu c → job.Stance (s.tasks (s.current c)))
    (base : ∀ t', th = .task t' → job.AtBase) : (s.setJob th job).Inv := by
  have eq : s.setTask (s.current 0) (s.tasks (s.current 0)) = s := by simp [setTask]
  have known : s.current 0 ∈ names (s.holds (.cpu 0)) := by simp [holds]
  rw [← eq]
  refine inv.put once ?_ (fun _ _ _ _ fits => fits) ?_ rfl
    (fun flagged => (inv.idle _ flagged).2) ?_ base (inv.lt_nextId known)
  · intro x kept
    rcases own x kept with was | ⟨unheld, born⟩
    · have mine : x ∈ names (s.holds (.thread th)) := was
      exact ⟨inv.lt_nextId mine, fun o other => inv.held.unique other mine⟩
    · exact ⟨born, fun o other => absurd other (unheld o)⟩
  · simpa using new
  · intro c
    rw [Function.update_eq_self]
    by_cases eq : th = .cpu c
    · simpa [← eq] using stance c eq
    · simpa [Ne.symm eq] using inv.stance c

theorem turn (inv : s.Inv)
    (within : (names (job.stages th.home)).Sublist (names ((s.job th).stages th.home)))
    (new : ∀ entry ∈ job.stages th.home, entry.2.Fits entry.1 (s.tasks entry.1))
    (stance : ∀ c, th = .cpu c → job.Stance (s.tasks (s.current c)))
    (base : ∀ t', th = .task t' → job.AtBase) : (s.setJob th job).Inv :=
  inv.adopt ((inv.held.once (.thread th)).sublist within)
    (fun _ kept => .inl (within.subset kept)) new stance base

theorem alter (inv : s.Inv) (cpu : v.onCpu = (s.tasks (s.current c)).onCpu)
    (idle : v.isIdle = (s.tasks (s.current c)).isIdle)
    (lively : v.isIdle = true → v.state = .ready ∨ v.state = .running)
    (within : (names (job.stages c)).Sublist (names ((s.job (.cpu c)).stages c)))
    (new : ∀ entry ∈ job.stages c, entry.2.Fits entry.1 (s.tasks entry.1))
    (stance : job.Stance v) : ((s.setTask (s.current c) v).setJob (.cpu c) job).Inv := by
  have known : s.current c ∈ names (s.holds (.cpu c)) := by simp [holds]
  have mine : ∀ x ∈ names (job.stages c), x ∈ names (s.holds (.thread (.cpu c))) :=
    fun x kept => within.subset kept
  refine inv.put ((inv.held.once (.thread (.cpu c))).sublist within) ?_ ?_ ?_ idle lively ?_ nofun
    (inv.lt_nextId known)
  · intro x kept
    exact ⟨inv.lt_nextId (mine x kept), fun o other => inv.held.unique other (mine x kept)⟩
  · intro o _ stage promised fits
    obtain rfl := inv.held.unique (mem_names promised) known
    simp only [holds, List.mem_singleton, Prod.mk.injEq, true_and] at promised
    subst promised
    exact ⟨cpu.trans fits.1, fun flagged => fits.2 (idle ▸ flagged)⟩
  · intro entry kept
    rw [update_of_ne (inv.current_ne (mine _ (mem_names kept)) (by simp))]
    exact new entry kept
  · intro c'
    by_cases same : c' = c
    · subst same
      simpa using stance
    · have other : s.current c' ≠ s.current c := fun equal =>
        same (by simpa using inv.held.unique (o := .cpu c') (by simp [holds, equal]) known)
      simpa [other, same] using inv.stance c'

theorem repaint (inv : s.Inv) (state : v.state = (s.tasks t).state)
    (cpu : v.onCpu = (s.tasks t).onCpu) (idle : v.isIdle = (s.tasks t).isIdle) :
    (s.setTask t v).Inv := by
  have looks : ∀ x, ((s.setTask t v).tasks x).state = (s.tasks x).state ∧
      ((s.setTask t v).tasks x).onCpu = (s.tasks x).onCpu ∧
      ((s.setTask t v).tasks x).isIdle = (s.tasks x).isIdle := by
    intro x
    by_cases eq : x = t
    · subst eq
      simp [setTask, state, cpu, idle]
    · simp [setTask, eq]
  constructor
  · refine inv.held.mono fun o entry _ fits => ?_
    obtain ⟨state, cpu, idle⟩ := looks entry.1
    exact fits.congr state cpu idle
  · intro c
    obtain ⟨state, -, idle⟩ := looks (s.current c)
    exact (inv.stance c).congr state idle
  · exact inv.base
  · intro x flagged
    rw [(looks x).2.2] at flagged
    rw [(looks x).1]
    exact inv.idle x flagged
  · intro c
    rw [(looks _).2.2]
    exact inv.spare c
  · intro x late
    rw [(looks x).1, (looks x).2.2]
    exact inv.fresh x late

theorem transfer (inv : s.Inv) {s' : Kernel n} {o₁ o₂ : Owner n} (ne : o₁ ≠ o₂)
    {list₁ list₂ : List (TaskId × Stage n)}
    (shape : s'.holds = update (update s.holds o₁ list₁) o₂ list₂)
    (shared : (names (list₁ ++ list₂)).Perm (names (s.holds o₁ ++ s.holds o₂)))
    (new : ∀ entry ∈ list₁ ++ list₂, entry.2.Fits entry.1 (s.tasks entry.1))
    (tasks : s'.tasks = s.tasks) (nextId : s'.nextId = s.nextId)
    (stance : ∀ c, (s'.job (.cpu c)).Stance (s.tasks (s'.current c)))
    (base : ∀ t, (s'.job (.task t)).AtBase) : s'.Inv where
  held := by
    rw [shape, tasks]
    exact inv.held.exchange ne shared new
  stance c := by
    rw [tasks]
    exact stance c
  base := base
  idle := by
    rw [tasks]
    exact inv.idle
  spare := by
    rw [tasks]
    exact inv.spare
  fresh x late := by
    rw [nextId] at late
    obtain ⟨unheld, unborn⟩ := inv.fresh x late
    refine ⟨fun o mem => ?_, tasks ▸ unborn⟩
    rw [shape] at mem
    have kept : x ∈ names (list₁ ++ list₂) → False := fun listed => by
      rw [shared.mem_iff, names, List.map_append, List.mem_append] at listed
      exact listed.elim (unheld o₁) (unheld o₂)
    simp only [names, List.map_append, List.mem_append] at kept
    by_cases second : o = o₂
    · subst second
      rw [update_self] at mem
      exact kept (.inr mem)
    rw [update_of_ne second] at mem
    by_cases first : o = o₁
    · subst first
      rw [update_self] at mem
      exact kept (.inl mem)
    · rw [update_of_ne first] at mem
      exact unheld o mem

end Inv

end Kernel

theorem Stage.Fits.woken {stage : Stage n} {t : TaskId} {task : Task n} (fits : stage.Fits t task)
    (asleep : task.state = .blocked ∨ task.state = .sleeping) :
    stage.Fits t { task with state := .ready } := by
  cases stage <;> rcases asleep with state | state <;> simp_all [Stage.Fits, Stage.Home]

theorem After.Stance.woken {after : After} {task : Task n} (stance : after.Stance task)
    (asleep : task.state = .blocked ∨ task.state = .sleeping) :
    after.Stance { task with state := .ready } := by
  cases after <;> rcases asleep with state | state <;> simp_all [After.Stance]

theorem Job.Stance.woken {job : Job n} {task : Task n} (stance : job.Stance task)
    (asleep : task.state = .blocked ∨ task.state = .sleeping) :
    job.Stance { task with state := .ready } := by
  cases job <;> first
    | exact After.Stance.woken stance asleep
    | (rcases asleep with state | state <;> simp_all [Job.Stance])

namespace Kernel

variable {s : Kernel n} {id : TaskId}

theorem Inv.wakes (inv : s.Inv) {tasks : TaskId → Task n} (cases : ∀ x, tasks x = s.tasks x ∨
      ((s.tasks x).state = .blocked ∨ (s.tasks x).state = .sleeping) ∧
        tasks x = { s.tasks x with state := .ready }) :
    { s with tasks := tasks }.Inv where
  held := by
    refine inv.held.mono fun o entry mem fits => ?_
    change entry.2.Fits entry.1 (tasks entry.1)
    rcases cases entry.1 with eq | ⟨asleep, made⟩
    · rwa [eq]
    · rw [made]
      exact fits.woken asleep
  stance c := by
    change (s.job (.cpu c)).Stance (tasks (s.current c))
    rcases cases (s.current c) with eq | ⟨asleep, made⟩
    · rw [eq]
      exact inv.stance c
    · rw [made]
      exact (inv.stance c).woken asleep
  base := inv.base
  idle x flagged := by
    change (tasks x).isIdle = true at flagged
    change _ ∧ ((tasks x).state = .ready ∨ (tasks x).state = .running)
    rcases cases x with eq | ⟨-, made⟩
    · rw [eq] at flagged ⊢
      exact inv.idle x flagged
    · rw [made] at flagged ⊢
      exact ⟨(inv.idle x flagged).1, .inl rfl⟩
  spare c := by
    change (tasks (idleTask c)).isIdle = true
    rcases cases (idleTask c) with eq | ⟨-, made⟩
    · rw [eq]
      exact inv.spare c
    · rw [made]
      exact inv.spare c
  fresh x late := by
    obtain ⟨unheld, unborn⟩ := inv.fresh x late
    refine ⟨unheld, ?_⟩
    change (tasks x).state = .dead ∧ (tasks x).isIdle = false
    rcases cases x with eq | ⟨asleep, -⟩
    · rw [eq]
      exact unborn
    · rcases asleep with state | state <;> simp [unborn.1] at state

theorem Inv.ready (inv : s.Inv)
    (asleep : (s.tasks id).state = .blocked ∨ (s.tasks id).state = .sleeping) :
    (s.setState id .ready).Inv := by
  refine inv.wakes fun x => ?_
  by_cases eq : x = id
  · subst eq
    exact .inr ⟨asleep, by simp⟩
  · exact .inl (by simp [eq])

end Kernel

end K1K.Sched
