import K1K.Sched.Reaping

/-!
# Address spaces are torn down cold

A top-level table belongs to the task created with it until the task is reaped, and otherwise to
the thread that builds or drops it. A CPU has loaded the table of the task whose stack it is on;
so nobody drops a loaded table.
-/

namespace K1K.Sched

open K1K.Lib
open Function (update update_of_ne update_self)

variable {n : Nat}

inductive Keeper (n : Nat) where
  | task (t : TaskId)
  | thread (th : Thread n)
  deriving DecidableEq

def Job.frame (tasks : TaskId → Task n) : Job n → Option Frame
  | .drop t => (tasks t).addrSpace
  | .build _ addrSpace => addrSpace
  | _ => none

theorem Job.Plain.frame {job : Job n} (plain : job.Plain) (tasks : TaskId → Task n) :
    job.frame tasks = none := by
  cases job <;> first | rfl | exact plain.elim

def Job.onStack (current : TaskId) : Job n → TaskId
  | .load prev => prev
  | _ => current

theorem Job.plain_of_ordinary {job : Job n} (ordinary : ¬job.Special) : job.Plain := by
  cases job <;> first | trivial | exact absurd trivial ordinary

theorem Job.Plain.onStack {job : Job n} (plain : job.Plain) (current : TaskId) :
    job.onStack current = current := by
  cases job <;> first | rfl | exact plain.elim

def tagged (addrSpace : Option Frame) : List (Frame × Unit) := addrSpace.toList.map (·, ())

@[simp] theorem tagged_none : tagged none = [] := rfl

theorem mem_names_tagged {addrSpace : Option Frame} {p : Frame} :
    p ∈ names (tagged addrSpace) ↔ addrSpace = some p := by
  simp [tagged, names, Function.comp_def]

theorem nodup_tagged (addrSpace : Option Frame) : (names (tagged addrSpace)).Nodup := by
  cases addrSpace <;> simp [tagged, names]

namespace Kernel

variable {s s' : Kernel n} {th : Thread n} {c : Cpu n} {job next : Job n} {t : TaskId}

def frames (s : Kernel n) : Keeper n → List (Frame × Unit)
  | .task t => if t ∈ s.table then tagged (s.tasks t).addrSpace else []
  | .thread th => tagged ((s.job th).frame s.tasks)

def onStack (s : Kernel n) (c : Cpu n) : TaskId := (s.job (.cpu c)).onStack (s.current c)

structure Mapped (s : Kernel n) : Prop where
  born : ∀ t ∈ s.table, s.Born t
  dropped : ∀ th t, s.job th = .drop t → s.Gone t
  held : Held (fun _ p => p ∈ s.spaces) s.frames
  loaded : ∀ c, s.cr3 c = (s.tasks (s.onStack c)).addrSpace

theorem kept_onStack (s : Kernel n) (c : Cpu n) : s.Kept (s.onStack c) := by
  unfold onStack
  cases pos : s.job (.cpu c) with
  | load prev => exact .inr (.inr ⟨.cpu c, by simp [pos, Job.hand, Job.onStack]⟩)
  | _ => exact .inr (.inl ⟨c, rfl⟩)

theorem Inv.born_of_kept (inv : s.Inv) (kept : s.Kept t) : s.Born t := by
  obtain ⟨o, mem⟩ := held_of_kept kept
  refine ⟨inv.lt_nextId mem, fun th addrSpace building => ?_⟩
  have there : t ∈ names (s.holds (.thread th)) := by simp [holds, building, Job.stages]
  rcases kept with ⟨q, queued⟩ | ⟨c, rfl⟩ | ⟨th', hand⟩
  · have here : t ∈ names (s.holds (.queue q)) := by
      simpa [holds, names, Function.comp_def] using queued
    cases inv.held.unique here there
  · have here : s.current c ∈ names (s.holds (.cpu c)) := by simp [holds]
    cases inv.held.unique here there
  · have here : t ∈ names (s.holds (.thread th')) := Job.mem_names_of_hand hand th'.home
    cases inv.held.unique here there
    rw [building] at hand
    cases hand

theorem Job.frame_congr {tasks tasks' : TaskId → Task n} {job : Job n}
    (eq : ∀ t, job = .drop t → (tasks' t).addrSpace = (tasks t).addrSpace) :
    job.frame tasks' = job.frame tasks := by
  cases job with
  | drop t => exact eq t rfl
  | _ => rfl

namespace Mapped

theorem keep (mapped : s.Mapped) (th : Thread n) (table : s'.table = s.table)
    (spaces : s'.spaces = s.spaces) (lasting : Lasting s s')
    (addrSpace : ∀ t, (s'.tasks t).addrSpace = (s.tasks t).addrSpace)
    (jobs : ∀ th', th' ≠ th → s'.job th' = s.job th')
    (was : (s.job th).frame s.tasks = none) (after : (s'.job th).frame s'.tasks = none)
    (loaded : ∀ c, s'.cr3 c = (s.tasks (s'.onStack c)).addrSpace)
    (dropping : ∀ t, s'.job th ≠ .drop t) : s'.Mapped where
  born t member := lasting.born t (mapped.born t (table ▸ member))
  dropped th' t pos := by
    by_cases eq : th' = th
    · subst eq
      exact absurd pos (dropping t)
    · rw [jobs th' eq] at pos
      have gone := mapped.dropped th' t pos
      exact ⟨lasting.born t gone.1, lasting.missing t gone.1 gone.2⟩
  held := by
    have eq : s'.frames = s.frames := by
      funext k
      rcases k with t | th'
      · simp only [frames, table, addrSpace]
      by_cases eq : th' = th
      · subst eq
        simp only [frames, was, after]
      · simp only [frames, jobs th' eq]
        rw [Job.frame_congr fun t _ => addrSpace t]
    rw [eq, spaces]
    exact mapped.held
  loaded c := (loaded c).trans (addrSpace _).symm

theorem steady (mapped : s.Mapped) (plain : (s.job th).Plain) (steady : Steady s th s') :
    s'.Mapped := by
  refine mapped.keep th (by rw [steady.frame]) (by rw [steady.frame]) steady.lasting
    (fun t => (steady.identity t).2) steady.jobs (plain.frame _) (steady.plain.frame _)
    (fun c => ?_) fun t pos => ?_
  · have stack : s'.onStack c = s.onStack c := by
      have current : s'.current = s.current := by rw [steady.frame]
      by_cases eq : Thread.cpu c = th
      · subst eq
        rw [onStack, onStack, plain.onStack, steady.plain.onStack, current]
      · rw [onStack, onStack, steady.jobs _ eq, current]
    rw [stack, ← mapped.loaded c, steady.frame]
  · have plain := steady.plain
    rw [pos] at plain
    exact plain

theorem install (mapped : s.Mapped) (pos : s.job (.cpu c) = .install t) :
    (s.runJob (.cpu c) c (.install t)).Mapped := by
  refine mapped.keep (.cpu c) rfl rfl (lasting_runJob pos) (fun _ => rfl)
    (fun th' other => setJob_other other _ _) (by rw [pos]; rfl) ?_ (fun d => ?_) ?_
  · rw [runJob, setJob_self]
    rfl
  · have stack : (s.runJob (.cpu c) c (.install t)).onStack d = s.onStack d := by
      by_cases eq : d = c
      · subst eq
        rw [onStack, runJob, setJob_self, onStack, pos]
        rfl
      · rw [onStack, runJob, setJob_other (by simpa using eq), onStack]
        exact congrArg (fun x => (s.job (.cpu d)).onStack x) (setCurrent_other eq t)
    rw [stack]
    exact mapped.loaded d
  · rw [runJob, setJob_self]
    rintro _ ⟨⟩

theorem load (mapped : s.Mapped) (pos : s.job (.cpu c) = .load t) :
    (s.runJob (.cpu c) c (.load t)).Mapped := by
  refine mapped.keep (.cpu c) rfl rfl (lasting_runJob pos) (fun _ => rfl)
    (fun th' other => setJob_other other _ _) (by rw [pos]; rfl) ?_ (fun d => ?_) ?_
  · rw [runJob, setJob_self]
    rfl
  · by_cases eq : d = c
    · subst eq
      rw [onStack, runJob, setJob_self]
      exact update_self ..
    have stack : (s.runJob (.cpu c) c (.load t)).onStack d = s.onStack d := by
      rw [onStack, runJob, setJob_other (by simpa using eq), onStack]
      rfl
    rw [stack, ← mapped.loaded d]
    exact update_of_ne eq _ _
  · rw [runJob, setJob_self]
    rintro _ ⟨⟩

theorem onStack_setJob {x : TaskId} (s : Kernel n) (next : Job n) (d : Cpu n) :
    (s.setJob (.task x) next).onStack d = s.onStack d := by
  rw [onStack, setJob_other (by simp), onStack]
  rfl

theorem frames_setJob (s : Kernel n) (th : Thread n) (next : Job n) : (s.setJob th next).frames =
      update s.frames (.thread th) (tagged (next.frame s.tasks)) := by
  funext k
  rcases k with t | th'
  · rfl
  by_cases eq : th' = th
  · subst eq
    rw [update_self, frames, setJob_self]
    rfl
  · rw [update_of_ne (by simpa using eq), frames, frames, setJob_other eq]
    rfl

theorem frames_insertTask {id : TaskId} (ne : ∀ th, s.job th ≠ .drop id) (task : Task n) :
    (s.insertTask id task).frames =
      update s.frames (.task id) (tagged task.addrSpace) := by
  have other : ∀ t, t ≠ id → (s.insertTask id task).tasks t = s.tasks t := fun t different =>
    update_of_ne different _ _
  funext k
  rcases k with t | th
  · by_cases eq : t = id
    · subst eq
      simp [frames, insertTask, setTask]
    have table : t ∈ (s.insertTask id task).table ↔ t ∈ s.table := by
      simp [insertTask, eq]
    simp only [frames, table, other t eq, update_of_ne (by simpa using eq :
      Keeper.task (n := n) t ≠ .task id)]
  · have eq : (s.job th).frame (s.insertTask id task).tasks = (s.job th).frame s.tasks :=
      Job.frame_congr fun t dropping => by
        rw [other t fun eq => ne th (eq ▸ dropping)]
    rw [update_of_ne (by simp)]
    exact congrArg tagged eq

theorem freed (mapped : s.Mapped) {x : TaskId} {addrSpace : Option Frame}
    (pos : (s.job (.task x)).frame s.tasks = addrSpace) :
    ((s.freeSpace addrSpace).setJob (.task x) .code).Mapped where
  born t member := born_setJob rfl rfl nofun (mapped.born t member)
  dropped th' t dropping := by
    by_cases eq : th' = .task x
    · subst eq
      rw [setJob_self] at dropping
      cases dropping
    · rw [setJob_other eq] at dropping
      exact (mapped.dropped th' t dropping).turn rfl rfl rfl nofun
  held := by
    rw [frames_setJob]
    refine mapped.held.put List.nodup_nil nofun ?_ nofun
    rintro k other ⟨p, tag⟩ member known
    refine List.mem_filter.mpr ⟨known, decide_eq_true fun eq => other ?_⟩
    exact mapped.held.unique (mem_names member) (mem_names_tagged.mpr (pos.trans eq.symm))
  loaded d := by
    rw [onStack_setJob]
    exact mapped.loaded d

theorem build (mapped : s.Mapped) (inv : s.Inv) {x id : TaskId} {addrSpace : Option Frame}
    (pos : s.job (.task x) = .build id addrSpace) :
    (s.runJob (.task x) c (.build id addrSpace)).Mapped := by
  have lasting : Lasting s (s.runJob (.task x) c (.build id addrSpace)) := lasting_runJob pos
  have other : ∀ t, s.Born t → t ≠ id := fun t born eq => born.2 (.task x) addrSpace (eq ▸ pos)
  have absent : id ∉ s.table := fun mem => other id (mapped.born id mem) rfl
  refine ⟨fun t mem => ?_, fun th' t dropping => ?_, ?_, fun d => ?_⟩
  · rcases List.mem_append.mp mem with was | added
    · exact lasting.born t (mapped.born t was)
    obtain rfl := List.mem_singleton.mp added
    refine ⟨inv.lt_nextId (o := .thread (.task x)) (by simp [holds, pos, Job.stages]),
      fun th' addrSpace' building => ?_⟩
    by_cases eq : th' = .task x
    · subst eq
      rw [runJob, setJob_self] at building
      cases building
    have there : t ∈ names (s.holds (.thread th')) := by
      rw [runJob, setJob_other eq] at building
      have was : s.job th' = .build t addrSpace' := building
      simp [holds, was, Job.stages]
    have here : t ∈ names (s.holds (.thread (.task x))) := by
      simp [holds, pos, Job.stages]
    have one := inv.held.unique there here
    simp [eq] at one
  · by_cases eq : th' = .task x
    · subst eq
      rw [runJob, setJob_self] at dropping
      cases dropping
    · rw [runJob, setJob_other eq] at dropping
      have gone := mapped.dropped th' t dropping
      exact ⟨lasting.born t gone.1, lasting.missing t gone.1 gone.2⟩
  · have shape : (s.runJob (.task x) c (.build id addrSpace)).frames =
        update (update s.frames (.thread (.task x)) []) (.task id)
          (tagged addrSpace) := by
      have ne : ∀ th, s.job th ≠ .drop id := fun th dropping =>
        other id (mapped.dropped th id dropping).1 rfl
      rw [runJob, frames_setJob, frames_insertTask ne]
      exact Function.update_comm (by simp) _ _ _
    rw [shape]
    refine mapped.held.exchange (by simp) ?_ ?_
    · simp [frames, pos, Job.frame, absent]
    rintro ⟨p, tag⟩ mem
    have was : (p, tag) ∈ s.frames (.thread (.task x)) := by
      simpa [frames, pos, Job.frame] using mem
    exact mapped.held.true_of was
  · have there := inv.born_of_kept (kept_onStack s d)
    rw [runJob, onStack_setJob]
    have eq : ((s.insertTask id (.newKernel addrSpace)).tasks (s.onStack d)) =
        s.tasks (s.onStack d) := update_of_ne (other _ there) _ _
    exact (mapped.loaded d).trans (congrArg Task.addrSpace eq.symm)

theorem spawn (mapped : s.Mapped) {x : TaskId} {addrSpace : Option Frame}
    (unused : ∀ p ∈ addrSpace, p ∉ s.spaces) :
    ({ s with nextId := s.nextId + 1, spaces := addrSpace.toList ++ s.spaces }.setJob (.task x)
      (.build s.nextId addrSpace)).Mapped where
  born t member := (mapped.born t member).spawn addrSpace
  dropped th' t dropping := by
    by_cases eq : th' = .task x
    · subst eq
      rw [setJob_self] at dropping
      cases dropping
    · rw [setJob_other eq] at dropping
      have gone := mapped.dropped th' t dropping
      exact ⟨gone.1.spawn addrSpace, gone.2⟩
  held := by
    rw [frames_setJob]
    refine mapped.held.put (nodup_tagged _) (fun p member k other => ?_) ?_ ?_
    · obtain ⟨⟨q, tag⟩, entry, rfl⟩ := List.mem_map.mp other
      exact absurd (mapped.held.true_of entry) (unused _ (mem_names_tagged.mp member))
    · intro k _ entry _ known
      exact List.mem_append_right _ known
    · intro entry member
      refine List.mem_append_left _ (Option.mem_toList.mpr ?_)
      exact mem_names_tagged.mp (mem_names member)
  loaded d := by
    rw [onStack_setJob]
    exact mapped.loaded d

theorem takeDead (mapped : s.Mapped) {x id : TaskId} (pos : s.job (.task x) = .code)
    (mem : id ∈ s.table) :
    ({ s with reap := s.reap.erase id, table := s.table.filter (· ≠ id) }.setJob (.task x)
      (.drop id)).Mapped where
  born t member := born_setJob rfl rfl nofun (mapped.born t (List.mem_of_mem_filter member))
  dropped th' t dropping := by
    have removed : ∀ t, (s.Gone t ∨ t = id ∧ s.Born id) →
        { s with reap := s.reap.erase id, table := s.table.filter (· ≠ id) }.Gone t := by
      rintro t (gone | ⟨rfl, born⟩)
      · exact ⟨gone.1, fun member => gone.2 (List.mem_of_mem_filter member)⟩
      · exact ⟨born, fun member => of_decide_eq_true (List.mem_filter.mp member).2 rfl⟩
    refine (removed t ?_).turn rfl rfl rfl nofun
    by_cases eq : th' = .task x
    · subst eq
      rw [setJob_self] at dropping
      cases dropping
      exact .inr ⟨rfl, mapped.born _ mem⟩
    · rw [setJob_other eq] at dropping
      exact .inl (mapped.dropped th' t dropping)
  held := by
    have shape : { s with
        reap := s.reap.erase id
        table := s.table.filter (· ≠ id) }.frames = update s.frames (.task id) [] := by
      funext k
      rcases k with t | th
      · by_cases eq : t = id
        · subst eq
          simp [frames]
        · simp [frames, eq]
      · rfl
    rw [frames_setJob, shape]
    refine mapped.held.exchange (by simp) ?_ ?_
    · simp [frames, pos, Job.frame, mem]
    rintro ⟨p, tag⟩ member
    have was : (p, tag) ∈ s.frames (.task id) := by
      simpa [frames, mem, Job.frame] using member
    exact mapped.held.true_of was
  loaded d := by
    rw [onStack_setJob]
    exact mapped.loaded d

theorem turn (mapped : s.Mapped) (plain : (s.job th).Plain) (next : Job n) (after : next.Plain) :
    (s.setJob th next).Mapped :=
  mapped.steady plain (steady_setJob rfl (fun _ => ⟨rfl, rfl⟩) after)

theorem enter (mapped : s.Mapped) (idling : s.Open c) (next : Job n) (after : next.Plain) :
    (s.setJob (.cpu c) next).Mapped := by
  refine mapped.turn ?_ next after
  rw [show s.job (.cpu c) = .code from idling]
  trivial

theorem stop (mapped : s.Mapped) (busy : s.Busy c) (v : Task n) (next : Job n)
    (after : next.Plain) (idle : v.isIdle = (s.tasks (s.current c)).isIdle)
    (addrSpace : v.addrSpace = (s.tasks (s.current c)).addrSpace) :
    ((s.setTask (s.current c) v).setJob (.cpu c) next).Mapped := by
  refine mapped.steady ?_ (steady_setJob rfl (setTask_identity idle addrSpace) after)
  rw [show s.job (.cpu c) = .code from busy.1.1]
  trivial

theorem runCpu (mapped : s.Mapped) (inv : s.Inv) :
    (s.runJob (.cpu c) c (s.job (.cpu c))).Mapped := by
  have stance := inv.stance c
  by_cases special : (s.job (.cpu c)).Special
  · cases pos : s.job (.cpu c) with
    | install t => exact mapped.install pos
    | load t => exact mapped.load pos
    | build | drop => simp [pos, Job.Stance] at stance
    | _ => simp [pos, Job.Special] at special
  · exact mapped.steady (Job.plain_of_ordinary special) (steady_runJob rfl special)

theorem runTask (mapped : s.Mapped) (inv : s.Inv) (x : TaskId) :
    (s.runJob (.task x) c (s.job (.task x))).Mapped := by
  have base := inv.base x
  by_cases special : (s.job (.task x)).Special
  · cases pos : s.job (.task x) with
    | build id addrSpace => exact mapped.build inv pos
    | drop t => exact mapped.freed (by rw [pos]; rfl)
    | install | load => simp [pos, Job.AtBase] at base
    | _ => simp [pos, Job.Special] at special
  · exact mapped.steady (Job.plain_of_ordinary special) (steady_runJob rfl special)

theorem step (mapped : s.Mapped) (inv : s.Inv) {action : Action n} (moves : s.Moves action s') :
    s'.Mapped := by
  cases moves with
  | task => exact mapped.runTask inv _
  | cpu => exact mapped.runCpu inv
  | tick idling | reschedule idling | wakeOff idling => exact mapped.enter idling _ trivial
  | @wake c id free =>
    refine mapped.turn ?_ _ trivial
    rw [free.2]
    trivial
  | markBlocked busy | sleep busy => exact mapped.stop busy _ _ trivial rfl rfl
  | @exitCurrent c busy =>
    have plain : s.farewell.Plain := by
      unfold farewell
      split <;> trivial
    have stopped : ((s.setState (s.current c) .dead).setJob (.cpu c) s.farewell).Mapped :=
      mapped.stop busy _ _ plain rfl rfl
    exact ⟨stopped.born, stopped.dropped, stopped.held, stopped.loaded⟩
  | spawn _ unused => exact mapped.spawn unused
  | abandon idling pos => exact mapped.freed (by rw [pos]; rfl)
  | takeDead free found =>
    have reapable := of_decide_eq_true (List.find?_some found :)
    exact mapped.takeDead free.2 reapable.1
  | takeNone => exact mapped
  | setSupervisor | clock => exact ⟨mapped.born, mapped.dropped, mapped.held, mapped.loaded⟩

end Mapped

theorem start_addrSpace (t : TaskId) : ((start n).tasks t).addrSpace = none := by
  rw [start_tasks]
  repeat' split
  all_goals rfl

theorem mapped_start : (start n).Mapped where
  born t member := ⟨List.mem_range.mp member, nofun⟩
  dropped := nofun
  held := by
    have empty : ∀ k, (start n).frames k = [] := by
      rintro (t | th)
      · simp [frames, start_addrSpace]
      · rfl
    refine ⟨fun k => ?_, fun {k k' p} member => ?_, fun {k entry} member => ?_⟩
    · simp [empty]
    · simp [empty] at member
    · simp [empty] at member
  loaded c := (start_addrSpace _).symm

/-- No CPU has loaded the table of an address space that is being torn down: of a task handed out
to be freed, of a spawn that may fail, or of one that was dropped. -/
structure Cold (s : Kernel n) : Prop where
  reaped : ∀ th t p, s.job th = .drop t → (s.tasks t).addrSpace = some p → ∀ c, s.cr3 c ≠ some p
  abandoned : ∀ th id p, s.job th = .build id (some p) → ∀ c, s.cr3 c ≠ some p
  freed : ∀ p, p ∉ s.spaces → ∀ c, s.cr3 c ≠ some p

theorem Mapped.cold (mapped : s.Mapped) (rooted : s.Rooted) : s.Cold := by
  have owner : ∀ c p, s.cr3 c = some p → p ∈ names (s.frames (.task (s.onStack c))) := by
    intro c p loaded
    have mem := rooted.listed _ (kept_onStack s c)
    rw [frames, if_pos mem]
    exact mem_names_tagged.mpr ((mapped.loaded c).symm.trans loaded)
  have ne : ∀ th p, (s.job th).frame s.tasks = some p → ∀ c, s.cr3 c ≠ some p := by
    intro th p frame c loaded
    have here : p ∈ names (s.frames (.thread th)) := mem_names_tagged.mpr frame
    cases mapped.held.unique (owner c p loaded) here
  refine ⟨fun th t p dropping addrSpace => ne th p ?_, fun th id p building => ne th p ?_,
    fun p unused c loaded => ?_⟩
  · rw [dropping]
    exact addrSpace
  · rw [building]
    rfl
  · obtain ⟨⟨q, tag⟩, entry, rfl⟩ := List.mem_map.mp (owner c p loaded)
    exact unused (mapped.held.true_of entry)

/-- Address spaces are torn down cold, as long as nothing comes between the
`release_cpu` of a `finish_switch` and its look at the task. -/
theorem cold_of_orderly_run {actions : List (Action n)}
    (run : Run (Guarded Orderly fun s action s' => s.step action = some s') (start n) actions s) :
    s.Cold := by
  obtain ⟨-, rooted, mapped⟩ := run.invariant (fun s => s.Inv ∧ s.Rooted ∧ s.Mapped)
    ⟨inv_start, rooted_start, mapped_start⟩
    fun _ _ _ ⟨inv, rooted, mapped⟩ ran => ⟨inv.step ran.1.1 (moves_of_step ran.2),
      rooted.step inv ran.1.2 (moves_of_step ran.2), mapped.step inv (moves_of_step ran.2)⟩
  exact mapped.cold rooted

/-- Two CPUs. The task 3 has the address space 7, is stolen by the other processor
and ends there; `kmain` takes it out to be freed. -/
def burying : List (Action 1) :=
  [.spawn bsp (some 7)] ++ runs bsp 4 ++ [.reschedule ap] ++ runs ap 16 ++ [.exitCurrent ap] ++
    runs ap 15 ++ [.takeDead bsp]

theorem cold_after_burying : ∃ s : Kernel 1,
    Run (Guarded Orderly fun s action s' => s.step action = some s') (start 1) burying s ∧
      s.job (.task 1) = .drop 3 ∧ (s.tasks 3).addrSpace = some 7 ∧ s.Cold := by
  refine exists_of_strictReplay (strict_eq 4)
    (fun s => s.job (.task 1) = .drop 3 ∧ (s.tasks 3).addrSpace = some 7) (by decide +kernel) ?_
  rintro s run ⟨dropping, addrSpace⟩
  exact ⟨dropping, addrSpace, cold_of_orderly_run run⟩

/-- The task 3 blocks; a `wake` on the other processor finds it in the window and keeps its
pointer while the task is queued, runs to its end and is taken out to be freed. Then the other
processor queues it. -/
def stale : List (Action 1) :=
  [.spawn bsp (some 7)] ++ runs bsp 4 ++ [.reschedule bsp] ++ runs bsp 17 ++ [.markBlocked bsp] ++
    runs bsp 13 ++ [.wakeOff ap 3] ++ runs ap 6 ++ runs bsp 4 ++ [.reschedule bsp] ++ runs bsp 17 ++
    [.exitCurrent bsp] ++ runs bsp 13 ++ [.takeDead bsp] ++ runs ap 2 ++ [.reschedule bsp] ++
      runs bsp 10

theorem reaped_space_is_loaded : ∃ s : Kernel 1,
    Run (Guarded (fun s _ => s.OnePlace) fun s action s' => s.step action = some s')
      (start 1) stale s ∧ s.OnePlace ∧
    s.job (.task 1) = .drop 3 ∧ (s.tasks 3).addrSpace = some 7 ∧ s.cr3 0 = some 7 := by
  exact exists_of_strictReplay (strict_eq 4) _ (by decide +kernel) fun _ _ facts => facts

end Kernel

end K1K.Sched
