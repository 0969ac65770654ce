import K1K.Service.Confinement

/-!
# Whom a server answers

`recv` and `reply` of `user/rt/src/server.rs`. A server may answer any request that it has
taken, at any later time; which client an answer goes to is looked up when it is sent. What the
table of clients means is a directory of at most `MAX_CLIENTS` tasks with an endpoint each, the
one that the messages make.
-/

namespace K1K.Service

open K1K.Lib K1K.Mm K1K.Obj K1K.Syscall
open Function (update update_of_ne update_self)

inductive Kind where
  | connect (reply : Capability)
  | register (buf : Capability)
  | bye
  | ignored
  | request
  deriving DecidableEq

def Kind.reply : Kind → Option Capability
  | .connect reply => some reply
  | _ => none

namespace Message

variable (m : Message)

def op : BitVec 64 := m.word 0 &&& 0xFFFF

def kind : Kind :=
  if m.op = CONNECT then
    match m.cap with
    | some reply => .connect reply
    | none => .ignored
  else if m.op = REGISTER_BUF then
    match m.cap with
    | some buf => .register buf
    | none => .ignored
  else if m.op = BYE then .bye
  else .request

theorem cap_of_kind {m : Message} {cap : Capability}
    (handshake : m.kind = .connect cap ∨ m.kind = .register cap) : m.cap = some cap := by
  rcases handshake with kind | kind <;> grind [Message.kind]

end Message

def hello (m : Message) (task : Nat) : Option Capability :=
  if m.sender = task then m.kind.reply else none

def lastHello (messages : List Message) (task : Nat) : Option Capability :=
  (messages.filterMap (hello · task)).getLast?

@[simp]
theorem lastHello_nil (task : Nat) : lastHello [] task = none := rfl

theorem lastHello_snoc (messages : List Message) (m : Message) (task : Nat) :
    lastHello (messages ++ [m]) task = (hello m task).or (lastHello messages task) := by
  rw [lastHello, List.filterMap_append]
  rcases sent : hello m task with _ | cap <;> simp [sent, lastHello]

/-! ## The directory -/

@[ext]
structure Directory where
  tasks : Finset Nat
  endpoint : Nat → Option Capability

namespace Directory

def empty : Directory := ⟨∅, fun _ => none⟩

variable (d : Directory)

def enter (task : Nat) : Directory :=
  if d.tasks.card < MAX_CLIENTS then { d with tasks := insert task d.tasks } else d

def attach (task : Nat) (reply : Capability) : Directory :=
  if task ∈ d.tasks then { d with endpoint := Function.update d.endpoint task (some reply) } else d

def leave (task : Nat) : Directory :=
  ⟨d.tasks.erase task, Function.update d.endpoint task none⟩

def take (m : Message) : Directory :=
  match m.kind with
  | .connect reply => (d.enter m.sender).attach m.sender reply
  | .register _ => d.enter m.sender
  | .bye => d.leave m.sender
  | .ignored | .request => d

def after (messages : List Message) : Directory := messages.foldl take empty

@[simp]
theorem after_snoc (messages : List Message) (m : Message) :
    after (messages ++ [m]) = (after messages).take m := by
  simp [after]

def Listed : Prop := ∀ task cap, d.endpoint task = some cap → task ∈ d.tasks

variable {d} {task other : Nat} {cap reply : Capability}

@[simp]
theorem enter_endpoint : (d.enter task).endpoint = d.endpoint := by
  rw [enter]
  split <;> rfl

theorem mem_enter : other ∈ (d.enter task).tasks ↔
    other ∈ d.tasks ∨ (other = task ∧ d.tasks.card < MAX_CLIENTS) := by
  rw [enter]
  split
  next room => simp [room, or_comm]
  next full => simp [full]

@[simp]
theorem attach_tasks : (d.attach task reply).tasks = d.tasks := by
  rw [attach]
  split <;> rfl

theorem Listed.enter (mem : d.Listed) (task : Nat) : (d.enter task).Listed := by
  intro other cap known
  rw [enter_endpoint] at known
  exact mem_enter.mpr (.inl (mem _ _ known))

theorem Listed.attach_endpoint (mem : d.Listed)
    (known : (d.attach task reply).endpoint other = some cap) :
    (other = task ∧ cap = reply ∧ task ∈ d.tasks) ∨
      (other ≠ task ∧ d.endpoint other = some cap) := by
  rw [attach] at known
  by_cases eq : other = task
  · subst eq
    split at known
    next seated => exact .inl ⟨rfl, by simpa using known.symm, seated⟩
    next absent => exact absurd (mem _ _ known) absent
  · refine .inr ⟨eq, ?_⟩
    split at known
    next => simpa [update_of_ne eq] using known
    next => exact known

theorem leave_endpoint (known : (d.leave task).endpoint other = some cap) :
    other ≠ task ∧ d.endpoint other = some cap := by
  by_cases eq : other = task
  · simp [leave, eq] at known
  · exact ⟨eq, by simpa [leave, update_of_ne eq] using known⟩

theorem mem_take {m : Message} (connected : task ∈ d.tasks)
    (stays : m.kind = .bye → m.sender ≠ task) : task ∈ (d.take m).tasks := by
  rw [Directory.take]
  cases kind : m.kind with
  | connect reply =>
    rw [attach_tasks]
    exact mem_enter.mpr (.inl connected)
  | register buf => exact mem_enter.mpr (.inl connected)
  | bye => exact Finset.mem_erase.mpr ⟨Ne.symm (stays kind), connected⟩
  | ignored | request => exact connected

theorem Listed.take (mem : d.Listed) (m : Message) : (d.take m).Listed := by
  rw [Directory.take]
  cases m.kind with
  | connect reply =>
    intro other cap known
    rw [attach_tasks]
    rcases (mem.enter m.sender).attach_endpoint known with ⟨rfl, -, seated⟩ | ⟨-, old⟩
    · exact seated
    · exact mem.enter _ _ _ old
  | register buf => exact mem.enter m.sender
  | bye =>
    intro other cap known
    obtain ⟨ne, old⟩ := leave_endpoint known
    exact Finset.mem_erase.mpr ⟨ne, mem _ _ old⟩
  | ignored | request => exact mem

theorem listed_after (messages : List Message) : (after messages).Listed := by
  induction messages using List.reverseRecOn with
  | nil => rintro task cap ⟨⟩
  | append_singleton messages m ih =>
    rw [after_snoc]
    exact ih.take m

theorem Listed.take_endpoint (mem : d.Listed) {m : Message}
    (known : (d.take m).endpoint task = some cap) :
    (hello m task).or (d.endpoint task) = some cap := by
  rw [Directory.take] at known
  rw [hello]
  cases kind : m.kind with
  | connect reply =>
    simp only [kind] at known
    rcases (mem.enter m.sender).attach_endpoint known with ⟨eq, new, -⟩ | ⟨ne, old⟩
    · simp [eq, new, Kind.reply]
    · simpa [Ne.symm ne] using old
  | register | ignored | request => simpa [kind, Kind.reply] using known
  | bye =>
    simp only [kind] at known
    simpa [Kind.reply] using (leave_endpoint known).2

theorem after_endpoint {messages : List Message}
    (known : (after messages).endpoint task = some cap) : lastHello messages task = some cap := by
  induction messages using List.reverseRecOn with
  | nil => cases known
  | append_singleton messages m ih =>
    rw [after_snoc] at known
    rw [lastHello_snoc]
    rcases Option.or_eq_some_iff.mp ((listed_after messages).take_endpoint known) with
      new | ⟨quiet, old⟩
    · simp [new]
    · simp [quiet, ih old]

end Directory

/-! ## The directory of a server -/

namespace Server

variable {srv srv' : Server} {task : Nat} {i : Fin MAX_CLIENTS}

variable {c : Client} {m : Message}

theorem client_eq_some (nodup : srv.Distinct) :
    srv.client task = some c ↔ ∃ i, srv.clients i = some c ∧ c.task = task := by
  constructor
  · intro found
    obtain ⟨i, slot, held⟩ := Option.bind_eq_some_iff.mp found
    obtain ⟨d, held', eq⟩ := slotOf_some slot
    cases held.symm.trans held'
    exact ⟨i, held, eq⟩
  · rintro ⟨i, held, rfl⟩
    rw [client, slotOf_eq nodup held]
    exact held

theorem client_eq_none (nodup : srv.Distinct)
    (absent : ∀ j c, srv.clients j = some c → c.task ≠ task) : srv.client task = none := by
  rw [Option.eq_none_iff_forall_ne_some]
  intro c found
  obtain ⟨j, held, eq⟩ := (client_eq_some nodup).mp found
  exact absent j c held eq

variable (srv) in
def tasks : Finset Nat :=
  Finset.univ.biUnion fun i => ((srv.clients i).map (·.task)).toFinset

theorem mem_tasks : task ∈ srv.tasks ↔ ∃ i c, srv.clients i = some c ∧ c.task = task := by
  simp [tasks]

theorem card_tasks_le : srv.tasks.card ≤ MAX_CLIENTS := by
  refine Finset.card_biUnion_le.trans ?_
  refine (Finset.sum_le_card_nsmul _ _ 1 fun i _ => ?_).trans (by simp)
  rcases srv.clients i with _ | c <;> simp

theorem card_tasks_lt (nodup : srv.Distinct) :
    srv.tasks.card < MAX_CLIENTS ↔ ∃ i, srv.clients i = none := by
  constructor
  · intro few
    by_contra full
    have ran : ∀ i, ∃ c, srv.clients i = some c := fun i =>
      Option.ne_none_iff_exists'.mp fun free => full ⟨i, free⟩
    choose c held using ran
    have injective : Function.Injective fun i => (c i).task := fun i j eq =>
      nodup i j _ _ (held i) (held j) eq
    have many := Finset.card_le_card_of_injOn (s := Finset.univ) (t := srv.tasks)
      (fun i => (c i).task) (fun i _ => mem_tasks.mpr ⟨i, _, held i, rfl⟩) injective.injOn
    simp only [Finset.card_univ, Fintype.card_fin] at many
    omega
  · rintro ⟨i, free⟩
    have others : srv.tasks ⊆
        (Finset.univ.erase i).biUnion fun j => ((srv.clients j).map (·.task)).toFinset := by
      intro task mem
      obtain ⟨j, c, held, eq⟩ := mem_tasks.mp mem
      refine Finset.mem_biUnion.mpr ⟨j, Finset.mem_erase.mpr ⟨?_, Finset.mem_univ j⟩, ?_⟩
      · rintro rfl
        simp [free] at held
      · simp [held, eq]
    have few : srv.tasks.card ≤ (Finset.univ.erase i).card * 1 := by
      refine (Finset.card_le_card others).trans (Finset.card_biUnion_le.trans ?_)
      refine Finset.sum_le_card_nsmul _ _ 1 fun j _ => ?_
      rcases srv.clients j with _ | c <;> simp
    rw [Finset.card_erase_of_mem (Finset.mem_univ i), Finset.card_univ, Fintype.card_fin] at few
    exact few.trans_lt (by decide)

variable (srv) in
def directory : Directory := ⟨srv.tasks, fun task => (srv.client task).bind (·.reply)⟩

theorem mem_tasks_iff_client (nodup : srv.Distinct) :
    task ∈ srv.tasks ↔ (srv.client task).isSome := by
  rw [mem_tasks, Option.isSome_iff_exists]
  constructor
  · rintro ⟨i, c, held, eq⟩
    exact ⟨c, (client_eq_some nodup).mpr ⟨i, held, eq⟩⟩
  · rintro ⟨c, found⟩
    obtain ⟨i, held, eq⟩ := (client_eq_some nodup).mp found
    exact ⟨i, c, held, eq⟩

theorem directory_eq (nodup : srv.Distinct) {d : Directory}
    (tasks : ∀ task, task ∈ d.tasks ↔ (srv.client task).isSome)
    (endpoint : ∀ task, d.endpoint task = (srv.client task).bind (·.reply)) :
    srv.directory = d := by
  apply Directory.ext
  · ext task
    exact (mem_tasks_iff_client nodup).trans (tasks task).symm
  · funext task
    exact (endpoint task).symm

theorem client_update (nodup : srv.Distinct) (kept : srv'.Distinct) {x : Option Client}
    (clients : srv'.clients = update srv.clients i x) (task : Nat) :
    srv'.client task =
      if x.any (·.task == task) then x
      else if (srv.clients i).any (·.task == task) then none
      else srv.client task := by
  apply Option.ext
  intro c
  rw [client_eq_some kept]
  constructor
  · rintro ⟨j, held, eq⟩
    rw [clients] at held
    by_cases here : j = i
    · rw [here, update_self] at held
      simp [held, eq]
    rw [update_of_ne here] at held
    split
    next new =>
      obtain ⟨d, there, same'⟩ := (Option.any_eq_true _ _).mp new
      have moved : srv'.clients i = some d := by rw [clients, update_self, there]
      have stayed : srv'.clients j = some c := by rw [clients, update_of_ne here, held]
      exact absurd (kept j i c d stayed moved (eq.trans (beq_iff_eq.mp same').symm)) here
    split
    next old =>
      obtain ⟨d, there, same'⟩ := (Option.any_eq_true _ _).mp old
      exact absurd (nodup j i c d held there (eq.trans (beq_iff_eq.mp same').symm)) here
    next => exact (client_eq_some nodup).mpr ⟨j, held, eq⟩
  · intro found
    split at found
    next new =>
      obtain ⟨d, there, eq⟩ := (Option.any_eq_true _ _).mp new
      cases there.symm.trans found
      exact ⟨i, by rw [clients, update_self, there], by simpa using eq⟩
    split at found
    next => cases found
    next old =>
      obtain ⟨j, held, eq⟩ := (client_eq_some nodup).mp found
      have ne : j ≠ i := by
        rintro rfl
        simp [held, eq] at old
      exact ⟨j, by rw [clients, update_of_ne ne, held], eq⟩

theorem client_modify (nodup : srv.Distinct) (held : srv.clients i = some c)
    {f : Client → Client} (keeps : ∀ c, (f c).task = c.task) (task : Nat) :
    (srv.modify i f).client task = if c.task = task then some (f c) else srv.client task := by
  have clients : (srv.modify i f).clients = update srv.clients i (some (f c)) := by
    rw [modify, setClient, held]
    rfl
  rw [client_update nodup (nodup.modify keeps) clients, held]
  by_cases eq : c.task = task <;> simp [keeps, eq]

theorem directory_modify (nodup : srv.Distinct) (held : srv.clients i = some c)
    {f : Client → Client} (keeps : ∀ c, (f c).task = c.task) :
    (srv.modify i f).directory = { srv.directory with
      endpoint := update srv.directory.endpoint c.task (f c).reply } := by
  apply directory_eq (nodup.modify keeps)
  · intro task
    rw [client_modify nodup held keeps]
    change task ∈ srv.tasks ↔ _
    rw [mem_tasks_iff_client nodup]
    split
    next eq => simp [(client_eq_some nodup).mpr ⟨i, held, eq⟩]
    next => rfl
  · intro task
    rw [client_modify nodup held keeps]
    by_cases eq : task = c.task
    · simp [eq]
    · simp [eq, Ne.symm eq, directory]

theorem Distinct.dropClient (nodup : srv.Distinct) (task : Nat) :
    (srv.dropClient task).Distinct := fun i j c d first second =>
  nodup i j c d (dropClient_clients first) (dropClient_clients second)

theorem client_dropClient (nodup : srv.Distinct) (task other : Nat) :
    (srv.dropClient task).client other = if other = task then none else srv.client other := by
  have kept := nodup.dropClient task
  rcases found : srv.slotOf task with _ | i
  · simp only [Server.dropClient, found]
    split
    next eq => rw [eq, client, found]; rfl
    next => rfl
  · obtain ⟨c, held, rfl⟩ := slotOf_some found
    have clients : (srv.dropClient c.task).clients = update srv.clients i none := by
      simp only [Server.dropClient, found]
      rfl
    rw [client_update nodup kept clients, held]
    by_cases eq : other = c.task
    · simp [eq]
    · simp [eq, Ne.symm eq]

theorem Seating.client {slot : Option (Fin MAX_CLIENTS)} (seating : Seating srv task slot srv')
    (nodup : srv.Distinct) (kept : srv'.Distinct) (other : Nat) :
    srv'.client other =
      if other = task ∧ slot.isSome ∧ srv.client task = none then some (.new task)
      else srv.client other := by
  cases seating with
  | known held eq =>
    have found := (client_eq_some nodup).mpr ⟨_, held, eq⟩
    simp [found]
  | placed absent free clients =>
    have missing := client_eq_none nodup absent
    rw [client_update nodup kept clients, free]
    by_cases eq : other = task
    · simp [eq, missing, Client.new]
    · simp [eq, Ne.symm eq, Client.new]
  | full absent full clients =>
    simp only [Option.isSome_none, Bool.false_eq_true, false_and, and_false, if_false]
    rw [Server.client, Server.client, slotOf, slotOf, clients]

theorem Seating.directory {slot : Option (Fin MAX_CLIENTS)} (seating : Seating srv task slot srv')
    (nodup : srv.Distinct) (kept : srv'.Distinct) :
    srv'.directory = srv.directory.enter task := by
  apply directory_eq kept
  · intro other
    rw [Directory.mem_enter, seating.client nodup kept]
    change (other ∈ srv.tasks ∨ (other = task ∧ srv.tasks.card < MAX_CLIENTS)) ↔ _
    rw [mem_tasks_iff_client nodup, card_tasks_lt nodup]
    cases seating with
    | known held eq =>
      have found := (client_eq_some nodup).mpr ⟨_, held, eq⟩
      simp only [found, reduceCtorEq, and_false, if_false]
      refine ⟨?_, .inl⟩
      rintro (known | ⟨rfl, -⟩)
      · exact known
      · simp [found]
    | placed absent free clients =>
      have missing := client_eq_none nodup absent
      by_cases eq : other = task
      · simp only [eq, missing, Option.isSome_some, and_true, if_true, true_and, iff_true]
        exact .inr ⟨_, free⟩
      · simp [eq]
    | full absent full clients =>
      have none_free : ¬∃ i, srv.clients i = none := by
        rintro ⟨i, free⟩
        simpa [free] using full i
      simp [none_free]
  · intro other
    rw [Directory.enter_endpoint, seating.client nodup kept]
    split
    next new => simp [Server.directory, new.1, new.2.2, Client.new]
    next => rfl

/-! ## Taking a message -/

variable (srv) in
def take (objects : Nat → MemoryObject) (h : Host) (m : Message) :
    Option (Option Request × Server × Host) :=
  match m.kind with
  | .connect reply => some (none, srv.connect m.sender reply, h)
  | .register buf =>
    match srv.register objects h m.sender buf m.claimed with
    | none => none
    | some (_, srv, h) => some (none, srv, h)
  | .bye => some (none, srv.dropClient m.sender, h)
  | .ignored => some (none, srv, h)
  | .request => some (some m.request, srv, h)

variable (srv) in
def reply (req : Request) : Option Capability := (srv.client req.client).bind (·.reply)

variable (srv) in
def adjust (slot : Option (Fin MAX_CLIENTS)) (f : Client → Client) : Server :=
  slot.elim srv (srv.modify · f)

@[simp]
theorem adjust_none (f : Client → Client) : srv.adjust none f = srv := rfl

@[simp]
theorem adjust_some (f : Client → Client) : srv.adjust (some i) f = srv.modify i f := rfl

/-- What a message does to the table. Neither handshake changes the task of a client,
and only the one changes its endpoint. -/
inductive Taken (srv : Server) (m : Message) : Server → Prop where
  | handshake {slot : Option (Fin MAX_CLIENTS)} {seated : Server} {f : Client → Client} :
      (∃ cap, m.kind = .connect cap ∨ m.kind = .register cap) →
      Seating srv m.sender slot seated → seated.Distinct → (∀ c, (f c).task = c.task) →
      (∀ c, (f c).reply = m.kind.reply.or c.reply) → Taken srv m (seated.adjust slot f)
  | bye : m.kind = .bye → Taken srv m (srv.dropClient m.sender)
  | same : m.kind = .ignored ∨ m.kind = .request → Taken srv m srv

theorem taken_connect (nodup : srv.Distinct) {cap : Capability}
    (kind : m.kind = .connect cap) : Taken srv m (srv.connect m.sender cap) := by
  have seating := srv.slotOfOrNew_seating m.sender nodup
  have kept := (srv.slotOfOrNew_spec m.sender nodup).1
  have split : srv.connect m.sender cap = (srv.slotOfOrNew m.sender).2.adjust
      (srv.slotOfOrNew m.sender).1 fun c => { c with reply := some cap } := by
    rw [connect]
    rcases srv.slotOfOrNew m.sender with ⟨_ | i, seated⟩ <;> rfl
  rw [split]
  exact .handshake ⟨cap, .inl kind⟩ seating kept (fun _ => rfl) fun _ => by rw [kind]; rfl

theorem taken_register (nodup : srv.Distinct) {objects : Nat → MemoryObject} {h h' : Host}
    {cap : Capability} {mapped : Option Nat} (kind : m.kind = .register cap)
    (ran : srv.register objects h m.sender cap m.claimed = some (mapped, srv', h')) :
    Taken srv m srv' := by
  have seating := srv.slotOfOrNew_seating m.sender nodup
  have kept := (srv.slotOfOrNew_spec m.sender nodup).1
  have quiet : m.kind.reply = none := by rw [kind]; rfl
  rw [register] at ran
  rcases seat : srv.slotOfOrNew m.sender with ⟨slot, seated⟩
  rw [seat] at ran seating kept
  cases slot with
  | none =>
    cases ran
    exact .handshake (f := id) ⟨cap, .inr kind⟩ seating kept (fun _ => rfl) fun _ => by simp [quiet]
  | some i =>
    simp only at ran
    split at ran
    next => cases ran
    next =>
      cases ran
      exact .handshake ⟨cap, .inr kind⟩ seating kept (fun _ => rfl) fun _ => by simp [quiet]
    cases ran
    exact .handshake ⟨cap, .inr kind⟩ seating kept (fun _ => rfl) fun _ => by simp [quiet]

theorem taken_of_take (nodup : srv.Distinct) {objects : Nat → MemoryObject} {h h' : Host}
    {req : Option Request}
    (ran : srv.take objects h m = some (req, srv', h')) : Taken srv m srv' := by
  rw [take] at ran
  split at ran
  next cap kind =>
    cases ran
    exact taken_connect nodup kind
  next cap kind =>
    split at ran
    next => cases ran
    next called =>
      cases ran
      exact taken_register nodup kind called
  next kind =>
    cases ran
    exact .bye kind
  next kind =>
    cases ran
    exact .same (.inl kind)
  next kind =>
    cases ran
    exact .same (.inr kind)

theorem request_of_take {objects : Nat → MemoryObject} {h h' : Host}
    {asked : Request} (ran : srv.take objects h m = some (some asked, srv', h')) :
    m.request = asked := by
  rw [take] at ran
  split at ran
  next => cases ran
  next => split at ran <;> cases ran
  next => cases ran
  next => cases ran
  cases ran
  rfl

theorem Seating.held {i : Fin MAX_CLIENTS} (seating : Seating srv task (some i) srv') :
    ∃ c, srv'.clients i = some c ∧ c.task = task := by
  cases seating with
  | known held eq => exact ⟨_, held, eq⟩
  | placed _ _ clients => exact ⟨.new task, by rw [clients, update_self], rfl⟩

theorem Seating.absent (seating : Seating srv task none srv') : task ∉ srv'.tasks := by
  cases seating with
  | full absent _ clients =>
    intro mem
    obtain ⟨j, c, held, eq⟩ := mem_tasks.mp mem
    rw [clients] at held
    exact absent j c held eq

theorem Seating.keeps {slot : Option (Fin MAX_CLIENTS)} (seating : Seating srv task slot srv')
    (held : srv.clients i = some c) : srv'.clients i = some c := by
  cases seating with
  | known => exact held
  | @placed j _ _ free clients =>
    have ne : i ≠ j := by
      rintro rfl
      simp [held] at free
    rw [clients, update_of_ne ne, held]
  | full _ _ clients => rw [clients, held]

theorem Taken.distinct (took : Taken srv m srv') (nodup : srv.Distinct) :
    srv'.Distinct := by
  cases took with
  | @handshake slot seated f _ _ kept task _ =>
    cases slot with
    | none => exact kept
    | some i => exact kept.modify task
  | bye => exact nodup.dropClient _
  | same => exact nodup

theorem Taken.directory (took : Taken srv m srv') (nodup : srv.Distinct) :
    srv'.directory = srv.directory.take m := by
  cases took with
  | @handshake slot seated f shake seating kept task reply =>
    have entered := seating.directory nodup kept
    cases slot with
    | none =>
      have absent : m.sender ∉ (srv.directory.enter m.sender).tasks := by
        rw [← entered]
        exact seating.absent
      rcases shake with ⟨cap, kind | kind⟩
      · simpa [Directory.take, kind, Directory.attach, absent] using entered
      · simpa [Directory.take, kind] using entered
    | some i =>
      obtain ⟨c, held, sender⟩ := seating.held
      have present : m.sender ∈ (srv.directory.enter m.sender).tasks := by
        rw [← entered]
        exact mem_tasks.mpr ⟨i, c, held, sender⟩
      have changed := directory_modify kept held task
      rw [reply, sender, entered] at changed
      rcases shake with ⟨cap, kind | kind⟩
      · simpa [Directory.take, kind, Directory.attach, present, Kind.reply] using changed
      have old : c.reply = (srv.directory.enter m.sender).endpoint m.sender := by
        rw [← entered]
        simp [Server.directory, (client_eq_some kept).mpr ⟨i, held, sender⟩]
      simp only [Directory.take, kind]
      refine changed.trans (Directory.ext rfl ?_)
      simp [kind, old, Kind.reply]
  | bye kind =>
    simp only [Directory.take, kind]
    apply directory_eq (nodup.dropClient _)
    · intro other
      rw [client_dropClient nodup]
      by_cases same : other = m.sender
      · simp [Directory.leave, same]
      · simp [Directory.leave, same, Server.directory, mem_tasks_iff_client nodup]
    · intro other
      rw [client_dropClient nodup]
      by_cases same : other = m.sender
      · simp [Directory.leave, same]
      · simp [Directory.leave, same, Server.directory]
  | same kind => rcases kind with kind | kind <;> simp [Directory.take, kind]

theorem Taken.keeps (took : Taken srv m srv')
    (held : srv.clients i = some c) (stays : m.kind = .bye → m.sender ≠ c.task) :
    ∃ d, srv'.clients i = some d ∧ d.task = c.task ∧ d.reply = (hello m c.task).or c.reply := by
  cases took with
  | @handshake slot seated f shake seating kept task reply =>
    have there := seating.keeps held
    cases slot with
    | none =>
      have other : m.sender ≠ c.task := by
        intro same
        exact seating.absent (mem_tasks.mpr ⟨i, c, there, same.symm⟩)
      exact ⟨c, there, rfl, by simp [hello, other]⟩
    | some j =>
      obtain ⟨d, held', sender⟩ := seating.held
      by_cases here : i = j
      · subst here
        cases there.symm.trans held'
        refine ⟨f c, ?_, task c, ?_⟩
        · simp [modify, there]
        · rw [reply, hello, if_pos sender.symm]
      · have other : m.sender ≠ c.task := by
          intro same
          exact here (kept i j c d there held' (same.symm.trans sender.symm))
        refine ⟨c, ?_, rfl, by simp [hello, other]⟩
        rw [adjust_some, modify, setClient_other here, there]
  | bye kind =>
    have ne := stays kind
    refine ⟨c, ?_, rfl, by simp [hello, ne]⟩
    rw [dropClient]
    split
    next j found =>
      obtain ⟨d, held', sender⟩ := slotOf_some found
      have elsewhere : i ≠ j := by
        rintro rfl
        cases held.symm.trans held'
        exact ne sender.symm
      rw [setClient_other elsewhere, held]
    next => exact held
  | same kind =>
    refine ⟨c, held, rfl, ?_⟩
    rcases kind with kind | kind <;> simp [hello, kind, Kind.reply]

end Server

/-! ## Whole runs -/

/-- An answer, how many messages had been heard, and the endpoint it went out on. -/
structure Answer where
  request : Request
  heard : Nat
  endpoint : Option Capability

/-- A server at work: what it has heard, the requests among it and the answers. -/
structure Desk where
  server : Server
  host : Host
  messages : List Message
  requests : List Request
  answers : List Answer

namespace Desk

inductive Action where
  | message (m : Message)
  | answer (req : Request)
  | elsewhere (fr : Frames)

def step (objects : Nat → MemoryObject) (s : Desk) : Action → Option Desk
  | .message m =>
    match s.server.take objects s.host m with
    | none => none
    | some (req, server, host) =>
      some { s with
        server := server
        host := host
        messages := s.messages ++ [m]
        requests := s.requests ++ req.toList }
  | .answer req =>
    if req ∈ s.requests then
      some { s with answers := s.answers ++ [⟨req, s.messages.length, s.server.reply req⟩] }
    else none
  | .elsewhere fr => some { s with host := { s.host with frames := fr } }

def Step (objects : Nat → MemoryObject) (s : Desk) (a : Action) (s' : Desk) : Prop :=
  s.step objects a = some s'

def start (h : Host) : Desk := ⟨.new, h, [], [], []⟩

def Action.heard : Action → Option Message
  | .message m => some m
  | .answer _ | .elsewhere _ => none

def heard (actions : List Action) : List Message := actions.filterMap Action.heard

theorem heard_snoc (actions : List Action) (a : Action) :
    heard (actions ++ [a]) = heard actions ++ a.heard.toList := by
  rw [heard, List.filterMap_append]
  rcases found : a.heard with _ | m <;> simp [heard, found]

variable {objects : Nat → MemoryObject} {s s' : Desk} {a : Action}

structure Addressed (messages : List Message) (answer : Answer) : Prop where
  heard : answer.heard ≤ messages.length
  asked : ∃ m ∈ messages.take answer.heard, m.request = answer.request
  endpoint : answer.endpoint =
    (Directory.after (messages.take answer.heard)).endpoint answer.request.client

structure Inv (s : Desk) : Prop where
  distinct : s.server.Distinct
  directory : s.server.directory = .after s.messages
  requests : ∀ req ∈ s.requests, ∃ m ∈ s.messages, m.request = req
  answers : ∀ answer ∈ s.answers, Addressed s.messages answer

theorem Addressed.more {messages : List Message} {answer : Answer}
    (addressed : Addressed messages answer) (later : List Message) :
    Addressed (messages ++ later) answer := by
  have eq : (messages ++ later).take answer.heard = messages.take answer.heard :=
    List.take_append_of_le_length addressed.heard
  refine ⟨?_, ?_, ?_⟩
  · rw [List.length_append]
    exact addressed.heard.trans (Nat.le_add_right ..)
  · rw [eq]
    exact addressed.asked
  · rw [eq]
    exact addressed.endpoint

theorem inv_start (h : Host) : (start h).Inv where
  distinct := by rintro _ _ _ _ ⟨⟩
  directory := by
    refine Directory.ext ?_ ?_
    · apply Finset.eq_empty_of_forall_notMem
      intro task mem
      obtain ⟨i, c, ⟨⟩, -⟩ := Server.mem_tasks.mp mem
    · funext task
      rfl
  requests := by simp [start]
  answers := by simp [start]

theorem Inv.step (inv : s.Inv) (ran : Step objects s a s') : s'.Inv := by
  cases a with
  | message m =>
    rw [Step, Desk.step] at ran
    split at ran
    next => cases ran
    next req server host took =>
      cases ran
      have change := Server.taken_of_take inv.distinct took
      refine ⟨change.distinct inv.distinct, ?_, ?_, ?_⟩
      · rw [Directory.after_snoc, ← inv.directory]
        exact change.directory inv.distinct
      · intro asked mem
        rcases List.mem_append.mp mem with old | new
        · obtain ⟨m', heard, eq⟩ := inv.requests asked old
          exact ⟨m', List.mem_append_left _ heard, eq⟩
        · cases Option.mem_toList.mp new
          exact ⟨m, by simp, Server.request_of_take took⟩
      · intro answer mem
        exact (inv.answers answer mem).more [m]
  | answer req =>
    rw [Step, Desk.step] at ran
    split at ran
    next known =>
      cases ran
      refine ⟨inv.distinct, inv.directory, inv.requests, ?_⟩
      intro answer mem
      rcases List.mem_append.mp mem with old | new
      · exact inv.answers answer old
      rw [List.mem_singleton.mp new]
      refine ⟨le_rfl, ?_, ?_⟩
      · simpa using inv.requests req known
      · rw [List.take_length, ← inv.directory]
        rfl
    next => cases ran
  | elsewhere fr =>
    cases ran
    exact ⟨inv.distinct, inv.directory, inv.requests, inv.answers⟩

theorem keeps_slot {actions : List Action} (inv : s.Inv) (run : Run (Step objects) s actions s')
    {i : Fin MAX_CLIENTS} {c : Client} (held : s.server.clients i = some c)
    (stays : ∀ m ∈ heard actions, m.kind = .bye → m.sender ≠ c.task) :
    ∃ d, s'.server.clients i = some d ∧ d.task = c.task ∧
      d.reply = (lastHello (heard actions) c.task).or c.reply := by
  induction run with
  | nil => exact ⟨c, held, rfl, by simp [heard]⟩
  | @snoc actions t u a was ran ih =>
    have invariant := was.invariant Inv inv fun _ _ _ inv ran => inv.step ran
    rw [heard_snoc] at stays ⊢
    rcases ih fun m mem => stays m (List.mem_append_left _ mem) with
      ⟨d, there, task, reply⟩
    cases a with
    | message m =>
      rw [Step, Desk.step] at ran
      split at ran
      next => cases ran
      next req server host took =>
        cases ran
        have change := Server.taken_of_take invariant.distinct took
        have remains := stays m (by simp [Action.heard])
        obtain ⟨e, there', task', reply'⟩ := change.keeps there (task ▸ remains)
        refine ⟨e, there', task'.trans task, ?_⟩
        rw [reply', task, reply, ← Option.or_assoc, ← lastHello_snoc]
        rfl
    | answer req =>
      rw [Step, Desk.step] at ran
      split at ran
      next =>
        cases ran
        exact ⟨d, there, task, by simpa [Action.heard] using reply⟩
      next => cases ran
    | elsewhere fr =>
      cases ran
      exact ⟨d, there, task, by simpa [Action.heard] using reply⟩

/-! ## The file service answers at once -/

theorem take_of_handle {fs fs' : Fs} {m : Message} {view : Memory} {vol : Files.Volume}
    (handled : fs.handle objects m view vol = some fs') :
    ∃ req, fs.server.take objects fs.host m = some (req, fs'.server, fs'.host) ∧
      fs'.files = if m.kind = .request
        then (Files.dispatch vol view fs.server fs.files m.request).value.2 else fs.files := by
  simp only [Fs.handle] at handled
  change (if m.op = CONNECT then _ else _) = _ at handled
  split at handled
  next connects =>
    split at handled
    next missing =>
      cases handled
      have kind : m.kind = .ignored := by rw [Message.kind, if_pos connects, missing]
      exact ⟨none, by rw [Server.take, kind], by simp [kind]⟩
    next reply sent =>
      cases handled
      have kind : m.kind = .connect reply := by rw [Message.kind, if_pos connects, sent]
      exact ⟨none, by rw [Server.take, kind], by simp [kind]⟩
  next other =>
    change (if m.op = REGISTER_BUF then _ else _) = _ at handled
    split at handled
    next registers =>
      split at handled
      next missing =>
        cases handled
        have kind : m.kind = .ignored := by
          rw [Message.kind, if_neg other, if_pos registers, missing]
        exact ⟨none, by rw [Server.take, kind], by simp [kind]⟩
      next buf sent =>
        have kind : m.kind = .register buf := by
          rw [Message.kind, if_neg other, if_pos registers, sent]
        refine ⟨none, ?_⟩
        rw [Server.take, kind]
        split at handled
        next => cases handled
        next ran =>
          cases handled
          simp [ran]
        next ran =>
          cases handled
          simp [ran]
    next other' =>
      change (if m.op = BYE then _ else _) = _ at handled
      split at handled
      next leaves =>
        cases handled
        have kind : m.kind = .bye := by
          rw [Message.kind, if_neg other, if_neg other', if_pos leaves]
        exact ⟨none, by rw [Server.take, kind], by simp [kind]⟩
      next other'' =>
        cases handled
        have kind : m.kind = .request := by
          rw [Message.kind, if_neg other, if_neg other', if_neg other'']
        exact ⟨some m.request, by rw [Server.take, kind], by simp [kind]⟩

end Desk

/-- In every run each task has one slot and at most `MAX_CLIENTS` tasks have one, kept until the
task leaves, with the endpoint it has sent last. Every answer goes to the task whose request it
answers: on the endpoint that it handed over last, or nowhere if none of its hellos was accepted
since it last left. -/
theorem replies_addressed {objects : Nat → MemoryObject} {h : Host} {actions : List Desk.Action}
    {s : Desk} (run : Run (Desk.Step objects) (.start h) actions s) :
    (∀ i j c d, s.server.clients i = some c → s.server.clients j = some d →
      c.task = d.task → i = j) ∧
    s.server.tasks.card ≤ MAX_CLIENTS ∧
    (∀ later s', Run (Desk.Step objects) s later s' → ∀ i c, s.server.clients i = some c →
      (∀ m ∈ Desk.heard later, m.kind = .bye → m.sender ≠ c.task) →
      ∃ d, s'.server.clients i = some d ∧ d.task = c.task ∧
        d.reply = (lastHello (Desk.heard later) c.task).or c.reply) ∧
    ∀ answer ∈ s.answers, Desk.Addressed s.messages answer ∧
      ∀ cap, answer.endpoint = some cap →
        lastHello (s.messages.take answer.heard) answer.request.client = some cap := by
  have inv : s.Inv := run.invariant Desk.Inv (Desk.inv_start h) fun _ _ _ inv ran =>
    inv.step ran
  refine ⟨inv.distinct, Server.card_tasks_le, ?_, ?_⟩
  · intro later s' onwards i c held stays
    exact Desk.keeps_slot inv onwards held stays
  intro answer mem
  have addressed := inv.answers answer mem
  refine ⟨addressed, fun cap sent => ?_⟩
  rw [addressed.endpoint] at sent
  exact Directory.after_endpoint sent

def connecting (task ep : Nat) : Message where
  sender := task
  words := ![2, 0, 0, 0]
  cap := some ⟨.endpoint ep, .SEND⟩

/-- Task 5 asks, then names another endpoint before it is answered; task 6 asks and
has never named one. -/
theorem latest_endpoint_answered :
    ∃ actions s, Run (Desk.Step twoPages) (.start bareHost) actions s ∧
      s.answers.map Answer.endpoint = [some ⟨.endpoint 3, .SEND⟩, none] ∧
      ∀ answer ∈ s.answers, ∀ cap, answer.endpoint = some cap →
        lastHello (s.messages.take answer.heard) answer.request.client = some cap := by
  refine ⟨[.message (connecting 5 1), .message (connecting 7 2), .message (asking 5 3 16 0),
      .message (connecting 5 3), .message (asking 6 3 16 0), .answer (asking 5 3 16 0).request,
      .answer (asking 6 3 16 0).request],
    exists_of_replay (fun s => s.answers.map Answer.endpoint = [some ⟨.endpoint 3, .SEND⟩, none])
      (by decide +kernel) fun s run answers => ⟨answers, fun answer mem => ?_⟩⟩
  exact ((replies_addressed run).2.2.2 answer mem).2

end K1K.Service
