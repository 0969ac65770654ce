import K1K.Lib.Run

/-!
# The scheduler, one indivisible step at a time

Every section under the task-table lock, every push or pop on a run queue or a sleeper list, and
every atomic access to a task's `state`, `on_cpu` and `placement` is one step. A `Job` is the
position a thread of control has reached between two of them, with the pointers it has captured.

A thread is what a CPU does with interrupts off, or the kernel code of a task, which an
interrupt can suspend anywhere and another CPU can go on with. Reports of broken invariants and
the boot counters are left out. A reaped task stays readable, as a dangling pointer finds it.
-/

namespace K1K.Sched

open Function (update update_of_ne update_self)

abbrev TaskId := Nat

abbrev Cpu (n : Nat) := Fin (n + 1)

def bsp {n : Nat} : Cpu n := 0

abbrev Frame := Nat

def QUANTUM_TICKS : Nat := 10
def MAX_DUE : Nat := 64
def MAX_TRIES : Nat := 3

inductive TaskState where
  | ready
  | running
  | blocked
  | sleeping
  | dead
  deriving DecidableEq

inductive Placement where
  | nowhere
  | queued
  | running
  deriving DecidableEq

structure Task (n : Nat) where
  state : TaskState
  onCpu : Option (Cpu n)
  placement : Placement
  lastSeen : Option (Cpu n)
  sleepUntil : Nat
  quantumLeft : Nat
  isIdle : Bool
  addrSpace : Option Frame
  deriving DecidableEq

def Task.newKernel {n : Nat} (addrSpace : Option Frame) : Task n where
  state := .ready
  onCpu := none
  placement := .nowhere
  lastSeen := none
  sleepUntil := 0
  quantumLeft := 0
  isIdle := false
  addrSpace := addrSpace

inductive After where
  | done
  /-- `on_tick` has these tasks left to queue. -/
  | due (rest : List TaskId) (user : Bool)
  /-- `exit_current` goes on to `schedule`. -/
  | exit
  deriving DecidableEq

inductive Job (n : Nat) where
  | code
  -- `enqueue_from`: about to read `on_cpu`, to mark the task, to push it.
  | enqueue (t : TaskId) (q : Cpu n) (after : After)
  | mark (t : TaskId) (q : Cpu n) (after : After)
  | push (t : TaskId) (q : Cpu n) (after : After)
  -- `wake`: the section under the table lock, then `unsleep`.
  | lookup (id : TaskId) (after : After)
  | unsleepOwn (t : TaskId) (q : Cpu n) (after : After)
  | unsleep (t : TaskId) (q own : Cpu n) (rest : List (Cpu n)) (after : After)
  -- `on_tick`; `user` says that the trap came from ring 3.
  | sweep (now : Nat) (user : Bool)
  | expire (ids : List TaskId) (user : Bool)
  | account (woken user : Bool)
  -- `sleep_ms` after its section, and a caller of `mark_blocked`.
  | doze (til : Nat)
  | blocked
  -- `schedule` up to the choice of the next task.
  | schedule
  | steal (rounds : Nat) (victims : List (Cpu n))
  | take (t : TaskId)
  | fallback
  -- `schedule` with the next task in hand.
  | compare (t : TaskId)
  | suspend (t : TaskId)
  | requeue (t : TaskId)
  | resume (t : TaskId)
  | start (t : TaskId)
  | claim (t : TaskId)
  | install (t : TaskId)
  | load (prev : TaskId)
  | switch (prev : TaskId)
  -- `finish_switch`
  | leave (prev : TaskId)
  | release (prev : TaskId)
  | settle (prev : TaskId)
  -- `service::spawn` and the supervisor, with what they have in hand.
  | build (id : TaskId) (addrSpace : Option Frame)
  | drop (t : TaskId)
  deriving DecidableEq

/-- Threads of control: a CPU with interrupts off, or the kernel code of a task. -/
inductive Thread (n : Nat) where
  | cpu (c : Cpu n)
  | task (t : TaskId)
  deriving DecidableEq

structure Kernel (n : Nat) where
  tasks : TaskId → Task n
  table : List TaskId
  reap : List TaskId
  nextId : TaskId
  supervisor : Option TaskId
  queue : Cpu n → List TaskId
  sleepers : Cpu n → List (TaskId × Nat)
  current : Cpu n → TaskId
  stealCursor : Cpu n → Nat
  /-- The user table a CPU has loaded; `none` is the kernel's own. -/
  cr3 : Cpu n → Option Frame
  /-- The frames that hold the top-level table of some address space. -/
  spaces : List Frame
  ticks : Nat
  job : Thread n → Job n

/-- The idle task of each CPU. The boot processor registers first, its idle task
before `kmain`. -/
def idleTask {n : Nat} (c : Cpu n) : TaskId := if c = 0 then 0 else c + 1

def kmain : TaskId := 1

@[simp] def bootCurrent {n : Nat} (c : Cpu n) : TaskId := if c = 0 then kmain else idleTask c

/-- A boot context that is running, or waits as the idle task of the boot
processor. -/
def bootTask {n : Nat} (state : TaskState) (cpu : Cpu n) (placement : Placement)
    (isIdle : Bool) : Task n where
  state := state
  onCpu := some cpu
  placement := placement
  lastSeen := some cpu
  sleepUntil := 0
  quantumLeft := 0
  isIdle := isIdle
  addrSpace := none

def unborn {n : Nat} : Task n := { Task.newKernel none with state := .dead }

variable {n : Nat}

namespace Kernel

def start (n : Nat) : Kernel n where
  tasks t :=
    if t = 0 then bootTask .ready 0 .nowhere true
    else if t = kmain then bootTask .running 0 .running false
    else if t < n + 2 then bootTask .running (Fin.ofNat (n + 1) (t - 1)) .running true
    else unborn
  table := List.range (n + 2)
  reap := []
  nextId := n + 2
  supervisor := none
  queue _ := []
  sleepers _ := []
  current := bootCurrent
  stealCursor _ := 0
  cr3 _ := none
  spaces := []
  ticks := 0
  job _ := .code

variable (s : Kernel n)

/-! ## Accesses to the shared state -/

def setJob (th : Thread n) (job : Job n) : Kernel n :=
  { s with job := update s.job th job }

def setTask (t : TaskId) (task : Task n) : Kernel n :=
  { s with tasks := update s.tasks t task }

def setState (t : TaskId) (state : TaskState) : Kernel n :=
  s.setTask t { s.tasks t with state := state }

def place (t : TaskId) (placement : Placement) : Kernel n :=
  s.setTask t { s.tasks t with placement := placement }

def moveTo (t : TaskId) (source target : Placement) : Kernel n :=
  if (s.tasks t).placement = source then s.place t target else s

def claimCpu (t : TaskId) (c : Cpu n) : Kernel n :=
  s.setTask t { s.tasks t with
    onCpu := some c
    lastSeen := some c
    quantumLeft := QUANTUM_TICKS }

def releaseCpu (t : TaskId) : Kernel n := s.setTask t { s.tasks t with onCpu := none }

def setQuantum (t : TaskId) (ticks : Nat) : Kernel n :=
  s.setTask t { s.tasks t with quantumLeft := ticks }

def setQueue (q : Cpu n) (tasks : List TaskId) : Kernel n :=
  { s with queue := update s.queue q tasks }

def setSleepers (c : Cpu n) (entries : List (TaskId × Nat)) : Kernel n :=
  { s with sleepers := update s.sleepers c entries }

def setCurrent (c : Cpu n) (t : TaskId) : Kernel n :=
  { s with current := update s.current c t }

def setCursor (c : Cpu n) (cursor : Nat) : Kernel n :=
  { s with stealCursor := update s.stealCursor c cursor }

def setCr3 (c : Cpu n) (table : Option Frame) : Kernel n :=
  { s with cr3 := update s.cr3 c table }

def forget (c : Cpu n) (t : TaskId) : Kernel n :=
  s.setSleepers c ((s.sleepers c).filter fun entry => entry.1 ≠ t)

def insertTask (t : TaskId) (task : Task n) : Kernel n :=
  { s.setTask t task with table := s.table ++ [t] }

def freeSpace (table : Option Frame) : Kernel n :=
  { s with spaces := s.spaces.filter fun p => some p ≠ table }

variable {s}

theorem setJob_self (th : Thread n) (job : Job n) : (s.setJob th job).job th = job :=
  update_self ..

theorem setJob_other {th th' : Thread n} (other : th' ≠ th) (r : Kernel n) (job : Job n) :
    (r.setJob th job).job th' = r.job th' :=
  update_of_ne other _ _

theorem setQueue_self (q : Cpu n) (tasks : List TaskId) : (s.setQueue q tasks).queue q = tasks :=
  update_self ..

theorem setQueue_other {q q' : Cpu n} (other : q' ≠ q) (tasks : List TaskId) :
    (s.setQueue q tasks).queue q' = s.queue q' :=
  update_of_ne other _ _

theorem setCurrent_self (c : Cpu n) (t : TaskId) : (s.setCurrent c t).current c = t :=
  update_self ..

theorem setCurrent_other {c d : Cpu n} (other : d ≠ c) (t : TaskId) :
    (s.setCurrent c t).current d = s.current d :=
  update_of_ne other _ _

end Kernel

/-- Where a thread of CPU `c` goes on after `enqueue_from` or `wake` returns. -/
def After.job (c : Cpu n) : After → Job n
  | .done => .code
  | .due [] user => .account true user
  | .due (t :: rest) user => .enqueue t c (.due rest user)
  | .exit => .schedule

def victims (me : Cpu n) (cursor : Nat) : List (Cpu n) :=
  ((List.range n).map fun i => Fin.ofNat (n + 1) (cursor + i)).filter (· ≠ me)

/-- `on_tick`'s pass over the sleeper list: what stays, and the ids that are due. -/
def sweepList (now : Nat) : Nat → List (TaskId × Nat) → List (TaskId × Nat) × List TaskId
  | _, [] => ([], [])
  | room, entry :: rest =>
    if now < entry.2 then
      let swept := sweepList now room rest
      (entry :: swept.1, swept.2)
    else
      match room with
      | 0 => (entry :: (sweepList now 0 rest).1, (sweepList now 0 rest).2)
      | room + 1 =>
        let swept := sweepList now room rest
        (swept.1, entry.1 :: swept.2)

/-- `on_tick`'s section under the table lock: make the expired sleepers ready and
collect those that are on no CPU. -/
def expireAll (s : Kernel n) : List TaskId → Kernel n × List TaskId
  | [] => (s, [])
  | id :: ids =>
    if id ∈ s.table ∧ (s.tasks id).state = .sleeping then
      let after := expireAll (s.setState id .ready) ids
      if (s.tasks id).onCpu = none then (after.1, id :: after.2) else after
    else expireAll s ids

structure Expired (s : Kernel n) (ids : List TaskId) (after : Kernel n) (due : List TaskId) :
    Prop where
  frame : after = { s with tasks := after.tasks }
  cases : ∀ x, after.tasks x = s.tasks x ∨
    (s.tasks x).state = .sleeping ∧ after.tasks x = { s.tasks x with state := .ready } ∧
      x ∈ ids ∧ ((s.tasks x).onCpu = none → x ∈ due)
  once : due.Nodup
  woken : ∀ x ∈ due, x ∈ ids ∧ (s.tasks x).state = .sleeping ∧ (s.tasks x).onCpu = none ∧
    (after.tasks x).state = .ready

theorem expired (s : Kernel n) (ids : List TaskId) :
    Expired s ids (expireAll s ids).1 (expireAll s ids).2 := by
  induction ids generalizing s with
  | nil => exact ⟨rfl, fun _ => .inl rfl, .nil, nofun⟩
  | cons id ids ih =>
    by_cases due : id ∈ s.table ∧ (s.tasks id).state = .sleeping
    · have rest := ih (s.setState id .ready)
      have self : (s.setState id .ready).tasks id = { s.tasks id with state := .ready } := by
        simp [Kernel.setState, Kernel.setTask]
      have other : ∀ x, x ≠ id → (s.setState id .ready).tasks x = s.tasks x := by
        intro x ne
        simp [Kernel.setState, Kernel.setTask, ne]
      have settled : (expireAll (s.setState id .ready) ids).1.tasks id =
          { s.tasks id with state := .ready } := by
        rcases rest.cases id with eq | ⟨asleep, -⟩
        · rw [eq, self]
        · simp [self] at asleep
      have first : ∀ x ∈ (expireAll (s.setState id .ready) ids).2, x ≠ id := by
        rintro x mem rfl
        have asleep := (rest.woken x mem).2.1
        simp [self] at asleep
      have common : ∀ extra : List TaskId, (∀ x ∈ extra, x = id ∧ (s.tasks id).onCpu = none) →
          ((s.tasks id).onCpu = none → id ∈ extra) → extra.Nodup →
          Expired s (id :: ids) (expireAll (s.setState id .ready) ids).1
            (extra ++ (expireAll (s.setState id .ready) ids).2) := by
        intro extra only all once
        refine ⟨?_, fun x => ?_, ?_, fun x mem => ?_⟩
        · rw [rest.frame]
          rfl
        · by_cases eq : x = id
          · subst eq
            exact .inr ⟨due.2, settled, List.mem_cons_self,
              fun offCpu => List.mem_append_left _ (all offCpu)⟩
          rcases rest.cases x with kept | ⟨asleep, made, mem, listed⟩
          · exact .inl (kept.trans (other x eq))
          · rw [other x eq] at asleep made listed
            exact .inr ⟨asleep, made, List.mem_cons_of_mem _ mem,
              fun offCpu => List.mem_append_right _ (listed offCpu)⟩
        · refine List.nodup_append'.mpr ⟨once, rest.once, fun x left right => ?_⟩
          exact first x right (only x left).1
        · rcases List.mem_append.mp mem with left | right
          · obtain ⟨rfl, offCpu⟩ := only x left
            exact ⟨List.mem_cons_self, due.2, offCpu, by rw [settled]⟩
          · obtain ⟨inIds, asleep, offCpu, made⟩ := rest.woken x right
            rw [other x (first x right)] at asleep offCpu
            exact ⟨List.mem_cons_of_mem _ inIds, asleep, offCpu, made⟩
      by_cases offCpu : (s.tasks id).onCpu = none
      · have pass := common [id] (by simpa using offCpu) (fun _ => List.mem_cons_self)
          (List.nodup_singleton id)
        simpa only [expireAll, if_pos due, if_pos offCpu, List.cons_append, List.nil_append]
          using pass
      · have pass := common [] nofun (fun is => absurd is offCpu) .nil
        simpa only [expireAll, if_pos due, if_neg offCpu, List.nil_append] using pass
    · have pass := ih s
      simp only [expireAll, if_neg due]
      refine { pass with cases := fun x => ?_, woken := fun x mem => ?_ }
      · rcases pass.cases x with eq | ⟨asleep, made, inIds, listed⟩
        · exact .inl eq
        · exact .inr ⟨asleep, made, List.mem_cons_of_mem _ inIds, listed⟩
      · obtain ⟨inIds, rest⟩ := pass.woken x mem
        exact ⟨List.mem_cons_of_mem _ inIds, rest⟩

def Kernel.Wakeable (s : Kernel n) (id : TaskId) : Prop :=
  id ∈ s.table ∧ ((s.tasks id).state = .blocked ∨ (s.tasks id).state = .sleeping)

instance (s : Kernel n) (id : TaskId) : Decidable (s.Wakeable id) :=
  inferInstanceAs (Decidable (_ ∧ _))

def Kernel.runJob (s : Kernel n) (th : Thread n) (c : Cpu n) : Job n → Kernel n
  | .code => s
  | .enqueue t q after =>
    if (s.tasks t).onCpu = none ∨ (s.tasks t).onCpu = some c then s.setJob th (.mark t q after)
    else s.setJob th (after.job c)
  | .mark t q after =>
    if (s.tasks t).placement = .nowhere then
      (s.place t .queued).setJob th (.push t q after)
    else s.setJob th (after.job c)
  | .push t q after => (s.setQueue q (s.queue q ++ [t])).setJob th (after.job c)
  | .lookup id after =>
    if s.Wakeable id then
      if (s.tasks id).onCpu = none then
        (s.setState id .ready).setJob th
          (.unsleepOwn id ((s.tasks id).lastSeen.getD c) after)
      else (s.setState id .ready).setJob th (after.job c)
    else s.setJob th (after.job c)
  | .unsleepOwn t q after => (s.forget c t).setJob th (.unsleep t q c (List.finRange (n + 1)) after)
  | .unsleep t q _ [] after => s.setJob th (.enqueue t q after)
  | .unsleep t q own (v :: rest) after =>
    if v = c then s.setJob th (.unsleep t q own rest after)
    else (s.forget v t).setJob th (.unsleep t q own rest after)
  | .sweep now user =>
    let swept := sweepList now MAX_DUE (s.sleepers c)
    (s.setSleepers c swept.1).setJob th
      (if swept.2 = [] then .account false user else .expire swept.2 user)
  | .expire ids user =>
    let expired := expireAll s ids
    expired.1.setJob th
      (if expired.2 = [] then .account false user else (After.due expired.2 user).job c)
  | .account woken user =>
    let cur := s.current c
    let left := (s.tasks cur).quantumLeft - 1
    (s.setQuantum cur left).setJob th
      (if left = 0 ∨ (s.tasks cur).isIdle then
        if user then .code else if woken ∨ s.queue c ≠ [] then .schedule else .code
      else .code)
  | .doze til => (s.setSleepers c (s.sleepers c ++ [(s.current c, til)])).setJob th .schedule
  | .blocked => s.setJob th .schedule
  | .schedule =>
    match s.queue c with
    | [] => s.setJob th (.steal (min MAX_TRIES n) [])
    | t :: rest => (s.setQueue c rest).setJob th (.take t)
  | .steal 0 [] => s.setJob th .fallback
  | .steal (rounds + 1) [] =>
    (s.setCursor c ((s.stealCursor c + 1) % (n + 1))).setJob th
      (.steal rounds (victims c (s.stealCursor c)))
  | .steal rounds (v :: rest) =>
    match s.queue v with
    | [] => s.setJob th (.steal rounds rest)
    | t :: others => (s.setQueue v others).setJob th (.take t)
  | .take t => (s.moveTo t .queued .nowhere).setJob th (.compare t)
  | .fallback =>
    s.setJob th
      (if (s.tasks (s.current c)).state = .running then .code else .compare (idleTask c))
  | .compare t =>
    if t = s.current c then (s.setQuantum t QUANTUM_TICKS).setJob th .code
    else s.setJob th (.suspend t)
  | .suspend t =>
    s.setJob th
      (if (s.tasks (s.current c)).state = .running then .requeue t else .resume t)
  | .requeue t => (s.setState (s.current c) .ready).setJob th (.resume t)
  | .resume t => (s.setState t .running).setJob th (.start t)
  | .start t => (s.moveTo t .nowhere .running).setJob th (.claim t)
  | .claim t => (s.claimCpu t c).setJob th (.install t)
  | .install t => (s.setCurrent c t).setJob th (.load (s.current c))
  | .load prev => (s.setCr3 c (s.tasks (s.current c)).addrSpace).setJob th (.switch prev)
  | .switch prev => s.setJob th (.leave prev)
  | .leave prev => (s.moveTo prev .running .nowhere).setJob th (.release prev)
  | .release prev => (s.releaseCpu prev).setJob th (.settle prev)
  | .settle prev =>
    s.setJob th
      (if (s.tasks prev).state = .ready ∧ (s.tasks prev).isIdle = false then
        .enqueue prev c .done else .code)
  | .build id addrSpace => (s.insertTask id (.newKernel addrSpace)).setJob th (.enqueue id c .done)
  | .drop t => (s.freeSpace (s.tasks t).addrSpace).setJob th .code

def Kernel.Reapable (s : Kernel n) (id : TaskId) : Prop :=
  id ∈ s.table ∧ (s.tasks id).onCpu = none ∧ (s.tasks id).placement ≠ .queued ∧
    ∀ c, ∀ entry ∈ s.sleepers c, entry.1 ≠ id

instance (s : Kernel n) (id : TaskId) : Decidable (s.Reapable id) :=
  inferInstanceAs (Decidable (_ ∧ _ ∧ _ ∧ _))

/-- `take_dead` under the table lock: the first of the dead tasks it may hand out. -/
def Kernel.takeDead (s : Kernel n) : Option (TaskId × Kernel n) :=
  (s.reap.find? fun id => decide (s.Reapable id)).map fun id =>
    (id, { s with reap := s.reap.erase id, table := s.table.filter (· ≠ id) })

inductive Action (n : Nat) where
  /-- CPU `c` takes the next step of what it is in the middle of. -/
  | run (c : Cpu n)
  | tick (c : Cpu n) (user : Bool)
  /-- `schedule` from `yield_now`, `idle_wait` or the IPI handler. -/
  | reschedule (c : Cpu n)
  /-- `wake` from an interrupt handler or a section with interrupts off. -/
  | wakeOff (c : Cpu n) (id : TaskId)
  | wake (c : Cpu n) (id : TaskId)
  | markBlocked (c : Cpu n)
  /-- `sleep_ms`; the deadline was computed before interrupts went off. -/
  | sleep (c : Cpu n) (til : Nat)
  | exitCurrent (c : Cpu n)
  /-- `spawn_kernel` and `service::spawn` up to the address space. -/
  | spawn (c : Cpu n) (addrSpace : Option Frame)
  /-- A spawn that fails part-way drops its address space. -/
  | abandon (c : Cpu n)
  | takeDead (c : Cpu n)
  | setSupervisor (id : TaskId)
  | clock

namespace Kernel

variable (s : Kernel n)

def Open (c : Cpu n) : Prop := s.job (.cpu c) = .code

instance (c : Cpu n) : Decidable (s.Open c) := inferInstanceAs (Decidable (_ = _))

/-- The task on this CPU is not in the middle of anything of the scheduler's, and
no interrupt handler is. -/
def Free (c : Cpu n) : Prop := s.Open c ∧ s.job (.task (s.current c)) = .code

instance (c : Cpu n) : Decidable (s.Free c) := inferInstanceAs (Decidable (_ ∧ _))

def Busy (c : Cpu n) : Prop := s.Free c ∧ (s.tasks (s.current c)).isIdle = false

instance (c : Cpu n) : Decidable (s.Busy c) := inferInstanceAs (Decidable (_ ∧ _))

def acting (c : Cpu n) : Thread n := if s.Open c then .task (s.current c) else .cpu c

def stop (c : Cpu n) (state : TaskState) (til : Nat) : Kernel n :=
  s.setTask (s.current c) { s.tasks (s.current c) with state := state, sleepUntil := til }

def bury (c : Cpu n) : Kernel n :=
  { s.setState (s.current c) .dead with reap := s.reap ++ [s.current c] }

def farewell : Job n :=
  match s.supervisor with
  | some id => .lookup id .exit
  | none => .schedule

def step : Action n → Option (Kernel n)
  | .run c =>
    if s.job (s.acting c) = .code then none
    else some (s.runJob (s.acting c) c (s.job (s.acting c)))
  | .tick c user =>
    if s.Open c ∧ (user → s.Free c) then some (s.setJob (.cpu c) (.sweep s.ticks user))
    else none
  | .reschedule c => if s.Open c then some (s.setJob (.cpu c) .schedule) else none
  | .wakeOff c id => if s.Open c then some (s.setJob (.cpu c) (.lookup id .done)) else none
  | .wake c id =>
    if s.Free c then some (s.setJob (.task (s.current c)) (.lookup id .done)) else none
  | .markBlocked c =>
    if s.Busy c then
      some ((s.stop c .blocked (s.tasks (s.current c)).sleepUntil).setJob (.cpu c) .blocked)
    else none
  | .sleep c til =>
    if s.Busy c then some ((s.stop c .sleeping til).setJob (.cpu c) (.doze til)) else none
  | .exitCurrent c =>
    if s.Busy c then some ((s.bury c).setJob (.cpu c) s.farewell) else none
  | .spawn c addrSpace =>
    if s.Free c ∧ ∀ p ∈ addrSpace, p ∉ s.spaces then
      some ({ s with nextId := s.nextId + 1, spaces := addrSpace.toList ++ s.spaces }.setJob
        (.task (s.current c)) (.build s.nextId addrSpace))
    else none
  | .abandon c =>
    if s.Open c then
      match s.job (.task (s.current c)) with
      | .build _ addrSpace => some ((s.freeSpace addrSpace).setJob (.task (s.current c)) .code)
      | _ => none
    else none
  | .takeDead c =>
    if s.Free c then
      match s.takeDead with
      | some (id, s') => some (s'.setJob (.task (s.current c)) (.drop id))
      | none => some s
    else none
  | .setSupervisor id => some { s with supervisor := some id }
  | .clock => some { s with ticks := s.ticks + 1 }

inductive Moves : Action n → Kernel n → Prop where
  | task {c : Cpu n} (idling : s.Open c) :
      Moves (.run c) (s.runJob (.task (s.current c)) c (s.job (.task (s.current c))))
  | cpu {c : Cpu n} : Moves (.run c) (s.runJob (.cpu c) c (s.job (.cpu c)))
  | tick {c : Cpu n} {user : Bool} (idling : s.Open c) :
      Moves (.tick c user) (s.setJob (.cpu c) (.sweep s.ticks user))
  | reschedule {c : Cpu n} (idling : s.Open c) :
      Moves (.reschedule c) (s.setJob (.cpu c) .schedule)
  | wakeOff {c : Cpu n} {id : TaskId} (idling : s.Open c) :
      Moves (.wakeOff c id) (s.setJob (.cpu c) (.lookup id .done))
  | wake {c : Cpu n} {id : TaskId} (free : s.Free c) :
      Moves (.wake c id) (s.setJob (.task (s.current c)) (.lookup id .done))
  | markBlocked {c : Cpu n} (busy : s.Busy c) :
      Moves (.markBlocked c)
        ((s.stop c .blocked (s.tasks (s.current c)).sleepUntil).setJob (.cpu c) .blocked)
  | sleep {c : Cpu n} {til : Nat} (busy : s.Busy c) :
      Moves (.sleep c til) ((s.stop c .sleeping til).setJob (.cpu c) (.doze til))
  | exitCurrent {c : Cpu n} (busy : s.Busy c) :
      Moves (.exitCurrent c) ((s.bury c).setJob (.cpu c) s.farewell)
  | spawn {c : Cpu n} {addrSpace : Option Frame} (free : s.Free c)
      (unused : ∀ p ∈ addrSpace, p ∉ s.spaces) :
      Moves (.spawn c addrSpace)
        ({ s with nextId := s.nextId + 1, spaces := addrSpace.toList ++ s.spaces }.setJob
          (.task (s.current c)) (.build s.nextId addrSpace))
  | abandon {c : Cpu n} {id : TaskId} {addrSpace : Option Frame} (idling : s.Open c)
      (position : s.job (.task (s.current c)) = .build id addrSpace) :
      Moves (.abandon c) ((s.freeSpace addrSpace).setJob (.task (s.current c)) .code)
  | takeDead {c : Cpu n} {id : TaskId} (free : s.Free c)
      (found : (s.reap.find? fun id => decide (s.Reapable id)) = some id) :
      Moves (.takeDead c)
        ({ s with reap := s.reap.erase id, table := s.table.filter (· ≠ id) }.setJob
          (.task (s.current c)) (.drop id))
  | takeNone {c : Cpu n} : Moves (.takeDead c) s
  | setSupervisor {id : TaskId} : Moves (.setSupervisor id) { s with supervisor := some id }
  | clock : Moves .clock { s with ticks := s.ticks + 1 }

theorem moves_of_step {s s' : Kernel n} {action : Action n} (ran : s.step action = some s') :
    s.Moves action s' := by
  cases action with
  | run c =>
    by_cases idling : s.Open c
    · simp only [step, acting, if_pos idling] at ran
      split at ran
      · cases ran
      · cases ran
        exact .task idling
    · simp only [step, acting, if_neg idling] at ran
      split at ran
      · cases ran
      · cases ran
        exact .cpu
  | tick c user =>
    obtain ⟨allowed, ⟨⟩⟩ := Option.ite_none_right_eq_some.mp ran
    exact .tick allowed.1
  | reschedule c =>
    obtain ⟨allowed, ⟨⟩⟩ := Option.ite_none_right_eq_some.mp ran
    exact .reschedule allowed
  | wakeOff c id =>
    obtain ⟨allowed, ⟨⟩⟩ := Option.ite_none_right_eq_some.mp ran
    exact .wakeOff allowed
  | wake c id =>
    obtain ⟨allowed, ⟨⟩⟩ := Option.ite_none_right_eq_some.mp ran
    exact .wake allowed
  | markBlocked c =>
    obtain ⟨allowed, ⟨⟩⟩ := Option.ite_none_right_eq_some.mp ran
    exact .markBlocked allowed
  | sleep c til =>
    obtain ⟨allowed, ⟨⟩⟩ := Option.ite_none_right_eq_some.mp ran
    exact .sleep allowed
  | exitCurrent c =>
    obtain ⟨allowed, ⟨⟩⟩ := Option.ite_none_right_eq_some.mp ran
    exact .exitCurrent allowed
  | spawn c addrSpace =>
    obtain ⟨allowed, ⟨⟩⟩ := Option.ite_none_right_eq_some.mp ran
    exact .spawn allowed.1 allowed.2
  | abandon c =>
    obtain ⟨allowed, ran⟩ := Option.ite_none_right_eq_some.mp ran
    split at ran
    next pos =>
      cases ran
      exact .abandon allowed pos
    · cases ran
  | takeDead c =>
    obtain ⟨allowed, ran⟩ := Option.ite_none_right_eq_some.mp ran
    split at ran
    next id taken found =>
      cases ran
      obtain ⟨first, searched, shape⟩ := Option.map_eq_some_iff.mp found
      cases shape
      exact .takeDead allowed searched
    · cases ran
      exact .takeNone
  | setSupervisor id =>
    cases ran
    exact .setSupervisor
  | clock =>
    cases ran
    exact .clock

end Kernel

end K1K.Sched
