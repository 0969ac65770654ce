import K1K.Authority.Model
import K1K.Obj.Slots

/-!
# Every capability is accounted for

A step leaves a capability at a place only if it was there before, if the step made it with its
object, or if the step copied it along one of the routes.
-/

namespace K1K.Authority

open K1K.Lib K1K.Obj K1K.Syscall
open Function (update update_of_ne update_self)

def Accounted (s : Kernel) (action : Action) (place : Place) (cap : Capability) : Prop :=
  s.At place cap ∨ Mints s action place cap ∨
    ∃ source original, s.At source original ∧ Copies s action source original place cap

theorem intersect_all (rights : Rights) : rights.intersect allRights = rights := by
  rw [Rights.intersect, allRights, BitVec.and_allOnes]

theorem accounted_moved {s : Kernel} {action : Action} {place : Place} {cap : Capability}
    (source : Place) (there : s.At source cap) (route : Route s action source place allRights)
    (kernel : ∀ t, source ≠ .task t .table) : Accounted s action place cap :=
  .inr (.inr ⟨source, cap, there, allRights, route, by rw [intersect_all],
    fun t eq => absurd eq (kernel t)⟩)

/-! ## Endpoints -/

section Endpoints

variable {ipc : Endpoints} {msg sent : Ipc.Message Nat} {peer : Nat → Option Nat}
  {call ep place t : Nat}

theorem queue_deliver (mem : msg ∈ (ipc.deliver ep sent).2.queue place) :
    msg ∈ ipc.queue place ∨ msg = sent := by
  unfold Ipc.State.deliver at mem
  split at mem
  next => exact .inl mem
  simp only at mem
  split at mem
  next => exact .inl mem
  simp only at mem
  by_cases eq : place = ep
  · subst eq
    rw [update_self] at mem
    simpa using mem
  · rw [update_of_ne eq] at mem
    exact .inl mem

theorem inbox_deliver (found : (ipc.deliver ep sent).2.inbox t = some msg) :
    ipc.inbox t = some msg ∨ msg = sent := by
  unfold Ipc.State.deliver at found
  split at found
  next rx rest _ =>
    simp only at found
    split at found
    next =>
      by_cases eq : t = rx
      · subst eq
        rw [update_self] at found
        exact .inr (Option.some.inj found).symm
      · rw [update_of_ne eq] at found
        exact .inl found
    next => exact .inl found
  simp only at found
  split at found
  next => exact .inl found
  next => exact .inl found

theorem send_places : (ipc.send peer call ep sent).2.queue =
      (ipc.deliver (Ipc.State.target peer ep) sent).2.queue ∧ (ipc.send peer call ep sent).2.inbox =
      (ipc.deliver (Ipc.State.target peer ep) sent).2.inbox := by
  unfold Ipc.State.send
  obtain ⟨delivery, after⟩ := ipc.deliver (Ipc.State.target peer ep) sent
  cases delivery <;> exact ⟨rfl, rfl⟩

theorem mem_of_taken {rest : List (Ipc.Message Nat)} (queue : ipc.queue ep = sent :: rest)
    (mem : msg ∈ update ipc.queue ep rest place) : msg ∈ ipc.queue place := by
  by_cases eq : place = ep
  · subst eq
    rw [update_self] at mem
    rw [queue]
    exact List.mem_cons_of_mem sent mem
  · rwa [update_of_ne eq] at mem

theorem tryRecv_places (ipc : Endpoints) (ep : Nat) :
    (∀ place msg, msg ∈ (ipc.tryRecv ep).2.queue place → msg ∈ ipc.queue place) ∧
    (∀ t msg, (ipc.tryRecv ep).2.inbox t = some msg → ipc.inbox t = some msg) ∧
    ∀ msg, (ipc.tryRecv ep).1 = some msg → msg ∈ ipc.queue ep := by
  unfold Ipc.State.tryRecv
  split
  next head rest queue =>
    refine ⟨fun place msg => mem_of_taken queue, fun t msg found => found, ?_⟩
    rintro msg ⟨⟩
    rw [queue]
    exact List.mem_cons_self
  next => exact ⟨fun _ _ found => found, fun _ _ found => found, by simp⟩

theorem look_places (ipc : Endpoints) (t ep : Nat) :
    (∀ place msg, msg ∈ (ipc.look t ep).2.queue place → msg ∈ ipc.queue place) ∧
    (∀ u msg, (ipc.look t ep).2.inbox u = some msg → ipc.inbox u = some msg) ∧
    ∀ msg, (ipc.look t ep).1 = some msg → msg ∈ ipc.queue ep := by
  unfold Ipc.State.look
  split
  next head rest queue =>
    refine ⟨fun place msg => mem_of_taken queue, fun u msg found => found, ?_⟩
    rintro msg ⟨⟩
    rw [queue]
    exact List.mem_cons_self
  refine ⟨fun _ _ found => found, fun u msg found => ?_, by simp⟩
  by_cases eq : u = t
  · subst eq
    simp at found
  · simpa [eq] using found

theorem resume_places (ipc : Endpoints) (t ep : Nat) :
    (∀ place msg, msg ∈ (ipc.resume t ep).2.queue place → msg ∈ ipc.queue place) ∧
    (∀ u msg, (ipc.resume t ep).2.inbox u = some msg → ipc.inbox u = some msg) ∧
    ∀ msg, (ipc.resume t ep).1 = some msg → ipc.inbox t = some msg := by
  refine ⟨fun _ _ found => found, fun u msg found => ?_, fun _ found => found⟩
  by_cases eq : u = t
  · subst eq
    simp [Ipc.State.resume] at found
  · simpa [Ipc.State.resume, eq] using found

end Endpoints

/-! ## Kinds of change -/

section Changes

variable {s : Kernel} {action : Action} {t : Nat} {task task' : Task} {ipc : Endpoints}

variable {cap : Capability} {place : Place}

theorem accounted_update
    (own : ∀ part cap, task'.Has part cap → Accounted s action (.task t part) cap)
    (queued : ∀ ep msg cap, msg ∈ ipc.queue ep → msg.cap = some cap →
      Accounted s action (.queue ep) cap)
    (boxed : ∀ u msg cap, ipc.inbox u = some msg → msg.cap = some cap →
      Accounted s action (.inbox u) cap) (there : (s.update t task' ipc).At place cap) :
    Accounted s action place cap := by
  cases place with
  | task u part =>
    obtain ⟨other, found, has⟩ := there
    by_cases eq : u = t
    · subst eq
      have now : task' = other := by simpa [Kernel.update] using found
      exact own part cap (now ▸ has)
    · have was : s.tasks u = some other := by simpa [Kernel.update, eq] using found
      exact .inl ⟨other, was, has⟩
  | queue ep =>
    obtain ⟨msg, found, carried⟩ := there
    exact queued ep msg cap found carried
  | inbox u =>
    obtain ⟨msg, found, carried⟩ := there
    exact boxed u msg cap found carried
  | grants idx => exact .inl there

theorem accounted_setTask
    (own : ∀ part cap, task'.Has part cap → Accounted s action (.task t part) cap)
    (there : (s.setTask t task').At place cap) : Accounted s action place cap :=
  accounted_update own (fun _ msg _ found carried => .inl ⟨msg, found, carried⟩)
    (fun _ msg _ found carried => .inl ⟨msg, found, carried⟩) there

theorem accounted_caps (found : s.tasks t = some task) {caps : CapTable}
    (changed : ∀ cap ∈ caps.iter, cap ∈ task.caps.iter ∨
      Accounted s action (.task t .table) cap) {hand : Option Capability}
    (hand' : ∀ cap, hand = some cap → task.hand = some cap)
    (there : (s.setTask t { task with caps := caps, hand := hand }).At place cap) :
    Accounted s action place cap := by
  refine accounted_setTask (fun part other has => ?_) there
  cases part with
  | table =>
    rcases changed other has with was | now
    · exact .inl ⟨task, found, was⟩
    · exact now
  | hand => exact .inl ⟨task, found, hand' other has⟩
  | pending => exact .inl ⟨task, found, has⟩

theorem accounted_mint (found : s.tasks t = some task) {new : Capability}
    (mints : Mints s action (.task t .table) new)
    (there : (s.mint t task new).At place cap) : Accounted s action place cap := by
  have inTask : (s.setTask t { task with caps := (task.caps.insert new).2 }).At place cap := by
    cases place <;> exact there
  refine accounted_caps found (fun other mem => ?_) (fun _ held => held) inTask
  rcases CapTable.mem_iter_insert mem with rfl | before
  · exact .inr (.inr (.inl mints))
  · exact .inl before

theorem accounted_send {peer : Nat → Option Nat} {call ep : Nat} {msg : Ipc.Message Nat}
    (queued : ∀ place cap, msg.cap = some cap → Accounted s action (.queue place) cap)
    (boxed : ∀ rx cap, msg.cap = some cap → Accounted s action (.inbox rx) cap)
    (there : Kernel.At { s with ipc := (s.ipc.send peer call ep msg).2 } place cap) :
    Accounted s action place cap := by
  cases place with
  | task | grants => exact .inl there
  | queue place =>
    obtain ⟨other, found, carried⟩ := there
    rw [send_places.1] at found
    rcases queue_deliver found with was | rfl
    · exact .inl ⟨other, was, carried⟩
    · exact queued place cap carried
  | inbox rx =>
    obtain ⟨other, found, carried⟩ := there
    rw [send_places.2] at found
    rcases inbox_deliver found with was | rfl
    · exact .inl ⟨other, was, carried⟩
    · exact boxed rx cap carried

theorem accounted_receive {taken : Option (Ipc.Message Nat) × Endpoints}
    (found : s.tasks t = some task)
    (queues : ∀ place msg, msg ∈ taken.2.queue place → msg ∈ s.ipc.queue place)
    (inboxes : ∀ u msg, taken.2.inbox u = some msg → s.ipc.inbox u = some msg)
    (hand : ∀ msg cap, taken.1 = some msg → msg.cap = some cap →
      Accounted s action (.task t .hand) cap) (there : (s.received t task taken).At place cap) :
    Accounted s action place cap := by
  refine accounted_update (fun part other has => ?_)
    (fun ep msg other mem carried => .inl ⟨msg, queues ep msg mem, carried⟩)
    (fun u msg other held carried => .inl ⟨msg, inboxes u msg held, carried⟩) there
  cases part with
  | table | pending => exact .inl ⟨task, found, has⟩
  | hand =>
    obtain ⟨msg, out, carried⟩ := Option.bind_eq_some_iff.mp has
    exact hand msg other out carried

theorem accounted_cleared (found : s.tasks t = some task)
    (there : (s.setTask t { task with pending := [] }).At place cap) :
    Accounted s action place cap := by
  refine accounted_setTask (fun part other has => ?_) there
  cases part with
  | table | hand => exact .inl ⟨task, found, has⟩
  | pending => simp [Task.Has] at has

end Changes

/-! ## Steps -/

def Kernel.mayRevoke (s : Kernel) (t victim : Nat) : Bool :=
  (s.ready t).any fun task => decide (victim = t) || task.caps.hasControl

inductive Move (peer : Nat → Option Nat) (s : Kernel) : Action → Kernel → Prop where
  | stay {action : Action} : Move peer s action s
  | sent {action : Action} {call ep : Nat} {msg : Ipc.Message Nat} : msg.cap = none →
      Move peer s action { s with ipc := (s.ipc.send peer call ep msg).2 }
  | sentCap {t epSlot capSlot call ep : Nat} {mask : Rights} {word : BitVec 64} {task : Task}
      {cap : Capability} {msg : Ipc.Message Nat} : s.tasks t = some task →
      task.caps.derive (Machine.slotOf capSlot) mask = some cap → msg.cap = some cap →
      Move peer s (.sendCap t epSlot capSlot mask word call)
        { s with ipc := (s.ipc.send peer call ep msg).2 }
  | wired {action : Action} {ipc : Endpoints} : ipc.queue = s.ipc.queue →
      ipc.inbox = s.ipc.inbox → Move peer s action { s with ipc := ipc }
  | polled {t slot ep : Nat} {task : Task} : s.tasks t = some task →
      Move peer s (.tryRecv t slot) (s.received t task (s.ipc.tryRecv ep))
  | looked {t ep : Nat} {task : Task} : s.tasks t = some task →
      Move peer s (.look t) (s.received t task (s.ipc.look t ep))
  | resumed {t ep : Nat} {task : Task} : s.tasks t = some task →
      Move peer s (.resume t) (s.received t task (s.ipc.resume t ep))
  | installed {t : Nat} {task : Task} {cap : Capability} : s.tasks t = some task →
      task.hand = some cap → Move peer s (.install t)
        (s.setTask t { task with caps := (task.caps.insert cap).2, hand := none })
  | dropped {t slot : Nat} {task : Task} : s.tasks t = some task → Move peer s (.capDrop t slot)
      (s.setTask t { task with caps := (task.caps.remove (Machine.slotOf slot)).2 })
  | revoked {t victim slot : Nat} {task : Task} : s.mayRevoke t victim = true →
      s.tasks victim = some task → Move peer s (.capRevoke t victim slot)
        (s.setTask victim { task with caps := (task.caps.revoke (Machine.slotOf slot)).2 })
  | minted {action : Action} {t : Nat} {task : Task} {cap : Capability} : s.tasks t = some task →
      Mints s action (.task t .table) cap → Move peer s action (s.mint t task cap)
  | cleared {action : Action} {t : Nat} {task : Task} : s.tasks t = some task →
      Move peer s action (s.setTask t { task with pending := [] })
  | derived {t slot : Nat} {mask : Rights} {task : Task} {cap : Capability} :
      s.tasks t = some task → task.caps.derive (Machine.slotOf slot) mask = some cap →
      Move peer s (.derive t slot mask) (s.setTask t { task with pending := task.pending ++ [cap] })
  | registered {t ctlSlot memSlot : Nat} {task : Task} : s.tasks t = some task →
      Move peer s (.register t ctlSlot memSlot)
        { s.setTask t { task with pending := [] } with services := s.services ++ [task.pending] }
  | spawned {idx : Nat} {grants : List Capability} : s.services[idx]? = some grants →
      Move peer s (.spawn idx)
        { s.setTask s.nextId ⟨fill grants, some idx, none, [], false⟩ with
          nextId := s.nextId + 1 }
  | exited {t : Nat} {task : Task} : s.tasks t = some task →
      Move peer s (.exit t) (s.setTask t { task with dead := true })
  | reaped {t : Nat} {task : Task} : s.tasks t = some task →
      Move peer s (.reap t) { s with
        tasks := update s.tasks t none
        ipc := { s.ipc with
          status := update s.ipc.status t .gone
          inbox := update s.ipc.inbox t none } }

theorem tasks_of_ready {s : Kernel} {t : Nat} {task : Task} (ready : s.ready t = some task) :
    s.tasks t = some task := by
  unfold Kernel.ready at ready
  split at ready
  next => exact (Option.filter_eq_some_iff.mp ready).1
  next => simp at ready

variable {s s' : Kernel}

theorem sendMessage_eq_some {peer : Nat → Option Nat} {call ep : Nat}
    {msg : Ipc.Message Nat} (sent : s.sendMessage peer call ep msg = some s') :
    s' = { s with ipc := (s.ipc.send peer call ep msg).2 } := by
  unfold Kernel.sendMessage at sent
  split at sent
  next => simp at sent
  next => exact (Option.some.inj sent).symm

theorem receive_eq_some {t : Nat} {taken : Option (Ipc.Message Nat) × Endpoints}
    (received : s.receive t taken = some s') :
    ∃ task, s.tasks t = some task ∧ s' = s.received t task taken := by
  unfold Kernel.receive at received
  split at received
  next => simp at received
  next task found => exact ⟨task, found, (Option.some.inj received).symm⟩

theorem move_of_step {peer : Nat → Option Nat} {action : Action}
    (ran : s.step peer action = some s') : Move peer s action s' := by
  cases action with
  | send t epSlot words call =>
    simp only [Kernel.step, Kernel.sysSend] at ran
    split at ran
    next => simp at ran
    split at ran
    next =>
      cases ran
      exact .stay
    rw [sendMessage_eq_some ran]
    exact .sent rfl
  | sendCap t epSlot capSlot mask word call =>
    simp only [Kernel.step, Kernel.sysSendCap] at ran
    split at ran
    next => simp at ran
    next task ready =>
      split at ran
      next =>
        cases ran
        exact .stay
      next ep _ =>
        split at ran
        next =>
          cases ran
          exact .stay
        next cap derived =>
          rw [sendMessage_eq_some ran]
          exact .sentCap (tasks_of_ready ready) derived rfl
  | post call ep words =>
    rw [sendMessage_eq_some ran]
    exact .sent rfl
  | wake call =>
    simp only [Kernel.step] at ran
    split at ran
    next => simp at ran
    next rx _ =>
      cases ran
      have kept : (s.ipc.wake rx).queue = s.ipc.queue ∧ (s.ipc.wake rx).inbox = s.ipc.inbox := by
        unfold Ipc.State.wake
        split
        next => exact ⟨rfl, rfl⟩
        next => exact ⟨rfl, rfl⟩
      exact .wired kept.1 kept.2
  | tryRecv t slot =>
    simp only [Kernel.step, Kernel.sysTryRecv] at ran
    split at ran
    next => simp at ran
    split at ran
    next =>
      cases ran
      exact .stay
    next ep _ =>
      obtain ⟨task, found, rfl⟩ := receive_eq_some ran
      exact .polled found
  | recv t slot =>
    simp only [Kernel.step, Kernel.sysRecv] at ran
    split at ran
    next => simp at ran
    split at ran
    next =>
      cases ran
      exact .stay
    cases ran
    exact .wired rfl rfl
  | look t =>
    simp only [Kernel.step, Kernel.look] at ran
    split at ran
    next ep _ =>
      obtain ⟨task, found, rfl⟩ := receive_eq_some ran
      exact .looked found
    next => simp at ran
  | resume t =>
    simp only [Kernel.step, Kernel.resume] at ran
    split at ran
    next ep _ =>
      split at ran
      next => simp at ran
      obtain ⟨task, found, rfl⟩ := receive_eq_some ran
      exact .resumed found
    next => simp at ran
  | install t =>
    simp only [Kernel.step, Kernel.install] at ran
    split at ran
    next => simp at ran
    next task found =>
      split at ran
      next => simp at ran
      next cap inHand =>
        cases ran
        exact .installed found inHand
  | capDrop t slot =>
    simp only [Kernel.step, Kernel.sysCapDrop] at ran
    split at ran
    next => simp at ran
    next task ready =>
      cases ran
      exact .dropped (tasks_of_ready ready)
  | capRevoke t victim slot =>
    simp only [Kernel.step, Kernel.sysCapRevoke] at ran
    split at ran
    next => simp at ran
    next caller ready =>
      split at ran
      next =>
        cases ran
        exact .stay
      next allowed =>
        split at ran
        next =>
          cases ran
          exact .stay
        next other found =>
          cases ran
          refine .revoked ?_ found
          rw [Kernel.mayRevoke, ready]
          by_cases own : victim = t
          · simp [own]
          · simpa [own] using allowed
  | epCreate t =>
    obtain ⟨task, ready, rfl⟩ := Option.map_eq_some_iff.mp ran
    exact .minted (tasks_of_ready ready) .endpoint
  | memCreate t dma =>
    obtain ⟨task, ready, rfl⟩ := Option.map_eq_some_iff.mp ran
    exact .minted (tasks_of_ready ready) .memory
  | notifyCreate t =>
    obtain ⟨task, ready, rfl⟩ := Option.map_eq_some_iff.mp ran
    exact .minted (tasks_of_ready ready) .notify
  | devIrq t slot =>
    simp only [Kernel.step, Kernel.sysDevIrq] at ran
    split at ran
    next => simp at ran
    next task ready =>
      split at ran
      next =>
        cases ran
        exact .stay
      cases ran
      exact .minted (tasks_of_ready ready) .irq
  | derive t slot mask =>
    simp only [Kernel.step, Kernel.sysDerive] at ran
    split at ran
    next => simp at ran
    next task ready =>
      split at ran
      next => simp at ran
      split at ran
      next =>
        cases ran
        exact .cleared (tasks_of_ready ready)
      next cap derived =>
        cases ran
        exact .derived (tasks_of_ready ready) derived
  | register t ctlSlot memSlot =>
    simp only [Kernel.step, Kernel.sysRegister] at ran
    split at ran
    next => simp at ran
    next task ready =>
      split at ran
      next =>
        cases ran
        exact .cleared (tasks_of_ready ready)
      cases ran
      exact .registered (tasks_of_ready ready)
  | spawn idx =>
    simp only [Kernel.step, Kernel.spawn] at ran
    split at ran
    next => simp at ran
    next grants mem =>
      cases ran
      exact .spawned mem
  | exit t =>
    obtain ⟨task, ready, rfl⟩ := Option.map_eq_some_iff.mp ran
    exact .exited (tasks_of_ready ready)
  | reap t =>
    simp only [Kernel.step] at ran
    split at ran
    next => simp at ran
    next task found =>
      split at ran
      next =>
        cases ran
        exact .reaped found
      next => simp at ran

theorem mem_fill {grants : List Capability} {cap : Capability}
    (mem : cap ∈ (fill grants).iter) : cap ∈ grants := by
  unfold fill at mem
  induction grants using List.reverseRecOn with
  | nil => simp [CapTable.new, CapTable.iter] at mem
  | append_singleton rest last ih =>
    rw [List.foldl_append] at mem
    rcases CapTable.mem_iter_insert mem with rfl | before
    · simp
    · exact List.mem_append_left _ (ih before)

theorem accounted_step {peer : Nat → Option Nat} {action : Action}
    (ran : s.step peer action = some s') {place : Place} {cap : Capability}
    (there : s'.At place cap) : Accounted s action place cap := by
  cases move_of_step ran with
  | stay => exact .inl there
  | sent plain => exact accounted_send (by simp [plain]) (by simp [plain]) there
  | @sentCap t epSlot capSlot call ep mask word task new msg found derived carried =>
    obtain ⟨original, held, granted, rfl⟩ := CapTable.derive_eq_some derived
    have source : s.At (.task t .table) original := ⟨task, found, held⟩
    refine accounted_send (fun place other now => ?_) (fun rx other now => ?_) there
    · rw [carried, Option.some.injEq] at now
      exact .inr (.inr ⟨_, original, source, mask, .queued, now.symm, fun _ _ => granted⟩)
    · rw [carried, Option.some.injEq] at now
      exact .inr (.inr ⟨_, original, source, mask, .handed, now.symm, fun _ _ => granted⟩)
  | wired queues inboxes =>
    cases place with
    | task | grants => exact .inl there
    | queue ep =>
      obtain ⟨msg, found, carried⟩ := there
      exact .inl ⟨msg, queues ▸ found, carried⟩
    | inbox u =>
      obtain ⟨msg, found, carried⟩ := there
      exact .inl ⟨msg, inboxes ▸ found, carried⟩
  | @polled t slot ep task found =>
    obtain ⟨queues, inboxes, out⟩ := tryRecv_places s.ipc ep
    refine accounted_receive found queues inboxes (fun msg other taken carried => ?_) there
    exact accounted_moved (.queue ep) ⟨msg, out msg taken, carried⟩ .polled (by simp)
  | @looked t ep task found =>
    obtain ⟨queues, inboxes, out⟩ := look_places s.ipc t ep
    refine accounted_receive found queues inboxes (fun msg other taken carried => ?_) there
    exact accounted_moved (.queue ep) ⟨msg, out msg taken, carried⟩ .taken (by simp)
  | @resumed t ep task found =>
    obtain ⟨queues, inboxes, out⟩ := resume_places s.ipc t ep
    refine accounted_receive found queues inboxes (fun msg other taken carried => ?_) there
    exact accounted_moved (.inbox t) ⟨msg, out msg taken, carried⟩ .resumed (by simp)
  | @installed t task new found inHand =>
    refine accounted_caps found (fun other mem => ?_) (by simp) there
    rcases CapTable.mem_iter_insert mem with rfl | before
    · exact .inr (accounted_moved (.task t .hand) ⟨task, found, inHand⟩ .installed (by simp))
    · exact .inl before
  | dropped found =>
    exact accounted_caps found (fun _ mem => .inl (CapTable.mem_iter_remove mem))
      (fun _ held => held) there
  | revoked _ found =>
    exact accounted_caps found (fun _ mem => .inl (CapTable.mem_iter_revoke mem))
      (fun _ held => held) there
  | minted found mints => exact accounted_mint found mints there
  | cleared found => exact accounted_cleared found there
  | @derived t slot mask task new found derived =>
    refine accounted_setTask (fun part other has => ?_) there
    cases part with
    | table | hand => exact .inl ⟨task, found, has⟩
    | pending =>
      rcases List.mem_append.mp has with before | now
      · exact .inl ⟨task, found, before⟩
      obtain ⟨original, held, granted, rfl⟩ := CapTable.derive_eq_some derived
      rw [List.mem_singleton.mp now]
      exact .inr (.inr ⟨.task t .table, original, ⟨task, found, held⟩, mask, .derived, rfl,
        fun _ _ => granted⟩)
  | @registered t ctlSlot memSlot task found =>
    cases place with
    | task | queue | inbox => exact accounted_cleared found there
    | grants idx =>
      obtain ⟨list, listed, mem⟩ := there
      rcases Nat.lt_trichotomy idx s.services.length with old | rfl | beyond
      · rw [List.getElem?_append_left old] at listed
        exact .inl ⟨list, listed, mem⟩
      · rw [List.getElem?_concat_length, Option.some.injEq] at listed
        subst listed
        exact accounted_moved (.task t .pending) ⟨task, found, mem⟩ .kept (by simp)
      · rw [List.getElem?_eq_none (by simp; omega)] at listed
        simp at listed
  | @spawned idx grants listed =>
    have inTask : (s.setTask s.nextId ⟨fill grants, some idx, none, [], false⟩).At place cap := by
      cases place <;> exact there
    refine accounted_setTask (fun part other has => ?_) inTask
    cases part with
    | table => exact accounted_moved (.grants idx) ⟨grants, listed, mem_fill has⟩ .started (by simp)
    | hand | pending => simp [Task.Has] at has
  | exited found =>
    refine accounted_setTask (fun part other has => ?_) there
    cases part <;> exact .inl ⟨_, found, has⟩
  | @reaped t task found =>
    cases place with
    | task u part =>
      obtain ⟨other, listed, has⟩ := there
      by_cases eq : u = t
      · subst eq
        simp at listed
      · exact .inl ⟨other, by simpa [eq] using listed, has⟩
    | queue | grants => exact .inl there
    | inbox u =>
      obtain ⟨msg, held, carried⟩ := there
      by_cases eq : u = t
      · subst eq
        simp at held
      · exact .inl ⟨msg, by simpa [eq] using held, carried⟩

end K1K.Authority
