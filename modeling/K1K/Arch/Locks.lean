import K1K.Lib.Masking

/-!
# The kernel's spin locks

Every function that takes a spin lock, reduced to its locks, the sections with interrupts off
and the switches. A body that may be skipped is `maybe`, a loop is `many`; boot code is left
out.
-/

namespace K1K.Arch.Locks

open K1K.Lib K1K.Lib.Masking K1K.Lib.Masking.Code

inductive Lock where
  /-- `TABLE` of the interrupt objects. -/
  | vectors
  | irqEndpoint (vector : Nat)
  | irqNotify (vector : Nat)
  | peer (e : Nat)
  | endpoint (e : Nat)
  | notify (i : Nat)
  | sched
  | runQueue (cpu : Nat)
  | sleepers (cpu : Nat)
  | heap
  | pmm
  | kernelPml4
  | ipiSlot (cpu : Nat)
  | serial
  | framebuffer
  | services
  | track
  | broadcast
  deriving DecidableEq

def kind : Lock → Kind
  | .peer _ => .exposed
  | .notify _ => .exposed
  | .kernelPml4 => .exposed
  | .ipiSlot _ => .exposed
  | .services => .plain
  | .track => .plain
  | .broadcast => .plain
  | _ => .guarded

abbrev Kernel := Code Lock

def touch (lock : Lock) : Kernel := locked lock skip

variable {off inside : Bool}

theorem touch_safe {lock : Lock} (exposed : kind lock = .exposed) :
    (touch lock).Safe kind off inside := by
  simp [touch, Safe, exposed]

/-! ## Memory and the console -/

def print : Kernel := masked (block [touch .serial, touch .framebuffer])

@[simp] theorem print_safe : print.Safe kind off inside := by
  simp [print, touch, Safe, kind]

def frame : Kernel := masked (touch .pmm)

@[simp] theorem frame_safe : frame.Safe kind off inside := by simp [frame, touch, Safe, kind]

def kernelPml4 : Kernel := touch .kernelPml4

@[simp] theorem kernelPml4_safe : kernelPml4.Safe kind off inside := touch_safe rfl

def mapKernelPagesDeferred : Kernel := block [kernelPml4, many frame]

@[simp] theorem mapKernelPagesDeferred_safe : mapKernelPagesDeferred.Safe kind off inside := by
  simp [mapKernelPagesDeferred, Safe]

def broadcastAndWait : Kernel := locked .broadcast (many (pick fun cpu => touch (.ipiSlot cpu)))

@[simp] theorem broadcastAndWait_safe : broadcastAndWait.Safe kind false inside := by
  simp [broadcastAndWait, touch, Safe, kind]

def flushSharedRange : Kernel := maybe (block [print, broadcastAndWait, maybe print])

@[simp] theorem flushSharedRange_safe : flushSharedRange.Safe kind false inside := by
  simp [flushSharedRange]

/-- `KernelHeap::with`: an allocation, a deallocation or a reallocation. -/
def alloc : Kernel :=
  block [masked (locked .heap (maybe mapKernelPagesDeferred)), enabled flushSharedRange]

@[simp] theorem alloc_safe : alloc.Safe kind off inside := by
  have growth : off = false → flushSharedRange.Safe kind off inside := by
    rintro rfl
    exact flushSharedRange_safe
  simpa [alloc, Safe, kind] using growth

def mapPhysRange : Kernel := block [kernelPml4, many frame, flushSharedRange]

@[simp] theorem mapPhysRange_safe : mapPhysRange.Safe kind false inside := by
  simp [mapPhysRange, Safe]

namespace AddressSpace

def new : Kernel := block [frame, kernelPml4]

@[simp] theorem new_safe : new.Safe kind off inside := by simp [new]

def drop : Kernel := block [maybe (block [broadcastAndWait, maybe print]), many frame, alloc]

@[simp] theorem drop_safe : drop.Safe kind false inside := by simp [drop, Safe]

end AddressSpace

/-! ## The scheduler -/

def report : Kernel := block [alloc, print, alloc]

@[simp] theorem report_safe : report.Safe kind off inside := by simp [report]

def table (body : Kernel) : Kernel := masked (locked .sched body)

@[simp] theorem table_safe {body : Kernel} :
    (table body).Safe kind off inside ↔ body.Safe kind true true := by
  simp [table, Safe, kind]

def withTask : Kernel := table (many (choose alloc frame))

@[simp] theorem withTask_safe : withTask.Safe kind off inside := by simp [withTask, Safe]

def runQueueLocked (cpu : Nat) : Kernel := masked (locked (.runQueue cpu) alloc)

@[simp] theorem runQueueLocked_safe {cpu : Nat} : (runQueueLocked cpu).Safe kind off inside := by
  simp [runQueueLocked, Safe, kind]

def enqueueFrom (cpu : Nat) : Kernel := block [maybe report, maybe (runQueueLocked cpu)]

@[simp] theorem enqueueFrom_safe {cpu : Nat} : (enqueueFrom cpu).Safe kind off inside := by
  simp [enqueueFrom]

def dequeue (cpu : Nat) : Kernel := many (block [runQueueLocked cpu, maybe report])

@[simp] theorem dequeue_safe {cpu : Nat} : (dequeue cpu).Safe kind off inside := by
  simp [dequeue, Safe]

def finishSwitch : Kernel := block [maybe report, maybe (pick enqueueFrom)]

@[simp] theorem finishSwitch_safe : finishSwitch.Safe kind off inside := by
  simp [finishSwitch, Safe]

def schedule : Kernel :=
  block [maybe report, pick dequeue, many (pick dequeue),
    maybe (block [maybe report, maybe kernelPml4, maybe print, switch, finishSwitch])]

@[simp] theorem schedule_safe : schedule.Safe kind off false := by simp [schedule, Safe]

def touchSleepers : Kernel := pick fun cpu => touch (.sleepers cpu)

@[simp] theorem touchSleepers_safe : touchSleepers.Safe kind true inside := by
  simp [touchSleepers, touch, Safe, kind]

def unsleep : Kernel := many (masked touchSleepers)

@[simp] theorem unsleep_safe : unsleep.Safe kind off inside := by simp [unsleep, Safe]

def wake : Kernel := block [table skip, maybe (block [unsleep, pick enqueueFrom])]

@[simp] theorem wake_safe : wake.Safe kind off inside := by simp [wake, Safe]

def markBlocked : Kernel := withTask

def yieldNow : Kernel := masked schedule

def sleepMs : Kernel :=
  masked (block [withTask, pick fun cpu => locked (.sleepers cpu) alloc, schedule])

def exitCurrent : Kernel := masked (block [locked .sched alloc, maybe wake, schedule])

@[simp] theorem exitCurrent_safe : exitCurrent.Safe kind off false := by
  simp [exitCurrent, Safe, kind]

def sleepingOn : Kernel := many (masked touchSleepers)

def takeDead : Kernel :=
  table (block [many sleepingOn, maybe print, many (choose alloc frame)])

def spawnKernel : Kernel := block [table skip, alloc, table alloc, pick enqueueFrom]

def onTick : Kernel :=
  block [touchSleepers, maybe (table skip), many (pick enqueueFrom),
    maybe (block [pick fun cpu => touch (.runQueue cpu), maybe schedule])]

def onIpi : Kernel := block [masked (pick fun cpu => touch (.ipiSlot cpu)), maybe schedule]

def onUserFault : Kernel := block [withTask, print, exitCurrent]

/-! ## Endpoints, notifications and interrupt objects -/

def deliver (e : Nat) : Kernel :=
  masked (block [locked (.endpoint e) (block [many withTask, maybe alloc]), maybe wake])

@[simp] theorem deliver_safe {e : Nat} : (deliver e).Safe kind off inside := by
  simp [deliver, Safe, kind]

def send (e p : Nat) : Kernel := block [touch (.peer e), choose (deliver p) (deliver e)]

@[simp] theorem send_safe {e p : Nat} : (send e p).Safe kind off inside := by
  simp [send, touch, Safe, kind]

def tryRecv (e : Nat) : Kernel := masked (touch (.endpoint e))

def recv (e : Nat) : Kernel :=
  many (masked (block [locked (.endpoint e) (maybe (block [alloc, withTask, markBlocked])),
    maybe (block [schedule, withTask])]))

def newPair (a b : Nat) : Kernel := block [alloc, alloc, touch (.peer a), touch (.peer b)]

def signal (i : Nat) : Kernel :=
  block [locked (.notify i) (many (block [withTask, maybe alloc])), many wake, alloc]

@[simp] theorem signal_safe {i : Nat} : (signal i).Safe kind off inside := by
  simp [signal, Safe, kind]

def wait (i : Nat) : Kernel :=
  many (masked (block [locked (.notify i) (maybe (block [alloc, markBlocked])), maybe schedule]))

def newNotify : Kernel := block [alloc, locked .track alloc]

def reportNotify : Kernel := locked .track (many (pick fun i => touch (.notify i)))

def bind (vector : Nat) : Kernel :=
  masked (block [locked (.irqNotify vector) alloc, locked (.irqEndpoint vector) alloc])

def install : Kernel := masked (locked .vectors alloc)

def isa : Kernel := block [masked (touch .vectors), alloc, install]

def msix : Kernel := block [maybe print, mapPhysRange, alloc, install, print]

def onVector (vector : Nat) : Kernel :=
  block [touch .vectors,
    maybe (block [touch (.irqNotify vector), touch (.irqEndpoint vector),
      choose (pick signal) (maybe (pick fun e => pick fun p => send e p)), alloc])]

/-! ## Services -/

def register : Kernel := locked .services alloc

def spawn : Kernel :=
  block [locked .services alloc, table skip, AddressSpace.new, many (choose alloc frame),
    maybe print, table alloc, pick enqueueFrom, locked .services skip, maybe AddressSpace.drop]

def update : Kernel := locked .services (maybe print)

def dump : Kernel := locked .services (many (block [withTask, print]))

/-! ## The whole kernel -/

inductive Call where
  | alloc
  | frame
  | print
  | mapPhysRange
  | dropAddressSpace
  | withTask
  | yieldNow
  | sleepMs
  | exitCurrent
  | takeDead
  | spawnKernel
  | send (e p : Nat)
  | tryRecv (e : Nat)
  | recv (e : Nat)
  | newPair (a b : Nat)
  | signal (i : Nat)
  | wait (i : Nat)
  | newNotify
  | reportNotify
  | bind (vector : Nat)
  | isa
  | msix
  | register
  | spawn
  | update
  | dump
  deriving DecidableEq

def Call.code : Call → Kernel
  | .alloc => Locks.alloc
  | .frame => Locks.frame
  | .print => Locks.print
  | .mapPhysRange => Locks.mapPhysRange
  | .dropAddressSpace => AddressSpace.drop
  | .withTask => Locks.withTask
  | .yieldNow => Locks.yieldNow
  | .sleepMs => Locks.sleepMs
  | .exitCurrent => Locks.exitCurrent
  | .takeDead => Locks.takeDead
  | .spawnKernel => Locks.spawnKernel
  | .send e p => Locks.send e p
  | .tryRecv e => Locks.tryRecv e
  | .recv e => Locks.recv e
  | .newPair a b => Locks.newPair a b
  | .signal i => Locks.signal i
  | .wait i => Locks.wait i
  | .newNotify => Locks.newNotify
  | .reportNotify => Locks.reportNotify
  | .bind vector => Locks.bind vector
  | .isa => Locks.isa
  | .msix => Locks.msix
  | .register => Locks.register
  | .spawn => Locks.spawn
  | .update => Locks.update
  | .dump => Locks.dump

inductive Trap where
  | timer
  | ipi
  | vector (v : Nat)
  | userFault
  deriving DecidableEq

def Trap.code : Trap → Kernel
  | .timer => onTick
  | .ipi => onIpi
  | .vector v => onVector v
  | .userFault => onUserFault

def kernel : Program Lock Call Trap := ⟨Call.code, Trap.code⟩

theorem kernel_safe : kernel.Safe kind where
  entry call := by
    cases call <;>
      simp [kernel, Call.code, yieldNow, sleepMs, takeDead, sleepingOn, spawnKernel, tryRecv, recv,
        newPair, wait, markBlocked, newNotify, reportNotify, Locks.bind, install, isa, msix,
        register, spawn, update, dump, touch, Safe, kind]
  handler trap := by
    cases trap <;> simp [kernel, Trap.code, onTick, onIpi, onVector, onUserFault, touch, Safe, kind]

variable {n : Nat} {s : State (Fin (n + 1)) Lock}

/-- As long as no interrupt arrives while an exposed lock is held with interrupts on, no CPU waits
with interrupts off for a lock that a context suspended on it holds, and every guarded lock is
held with interrupts off. So is every exposed lock that is taken with interrupts off only. -/
theorem no_wait_for_suspended {strict : Lock → Bool} {current : Fin (n + 1) → Nat}
    {actions : List (Action (Fin (n + 1)) Call Trap)}
    (run : Run (Guarded (State.Undisturbed kind strict) fun s action s' =>
      s.step kernel action = some s') (start current) actions s) :
    (∀ c lock, s.Spins c lock → ¬s.HeldSuspended c lock) ∧
    ∀ t lock, lock ∈ locks (s.stack t) → Masked kind strict lock →
      s.off t = true ∧ ∃ c, s.current c = t := by
  have inv := State.inv_of_run kernel_safe run
  exact ⟨fun c lock => inv.not_heldSuspended, fun t lock => inv.masked⟩

def steps (choices : List Nat) : List (Action (Fin 1) Call Trap) := choices.map (.run 0)

/-- A device interrupt, up to where its handler is about to take the lock of the `peer` of the
endpoint that the vector is bound to. -/
def handled : List (Action (Fin 1) Call Trap) :=
  [.interrupt 0 (.vector 5)] ++
  -- the vector table, then what the vector is bound to
  steps [0, 0, 0, 0, 0, 0] ++ steps [0, 0, 0, 0] ++ steps [0, 0, 0, 0] ++
  -- a message for the endpoint
  steps [0, 1, 0, 0, 1, 0]

def ofObject : Lock → Bool
  | .peer _ | .notify _ => true
  | _ => false

/-- The interrupt arrives when a task is about to send on the endpoint. -/
theorem peer_held_with_interrupts_off : ∃ s : State (Fin 1) Lock,
    Run (Guarded (State.Undisturbed kind ofObject) fun s action s' =>
        s.step kernel action = some s')
      (start fun _ => 0) (.enter 0 (.send 0 1) :: steps [0] ++ handled ++ steps [0]) s ∧
    .peer 0 ∈ locks (s.stack 0) ∧ s.off 0 = true ∧
    ∀ c lock, s.Spins c lock → ¬s.HeldSuspended c lock := by
  refine exists_guarded_of_replay (fun s => Lock.peer 0 ∈ locks (s.stack 0)) (by decide +kernel)
    fun s run held => ?_
  obtain ⟨free, masked⟩ := no_wait_for_suspended run
  exact ⟨held, (masked 0 _ held (.inr ⟨rfl, rfl⟩)).1, free⟩

/-- The interrupt arrives while the task holds that lock. -/
def interruptedInside : List (Action (Fin 1) Call Trap) :=
  .enter 0 (.send 0 1) :: steps [0, 0] ++ handled

theorem waits_for_suspended : ∃ s : State (Fin 1) Lock,
    Run (fun s action s' => s.step kernel action = some s') (start fun _ => 0) interruptedInside s ∧
    s.Spins 0 (.peer 0) ∧ s.HeldSuspended 0 (.peer 0) := by
  refine exists_of_replay (fun s => (s.off (s.current 0) = true ∧
      wanted (s.stack (s.current 0)) = some (.peer 0) ∧ s.held (.peer 0) = true) ∧
      Lock.peer 0 ∈ locks (interrupted (s.stack (s.current 0)))) (by decide +kernel) ?_
  rintro s - ⟨spins, held⟩
  exact ⟨spins, .inl held⟩

end K1K.Arch.Locks
