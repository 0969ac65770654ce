import K1K.Service.Client
import K1K.Service.Handles

/-!
# What sessions leave behind

Every capability that comes with a message takes a slot of the server's table (`sys_recv`), and
the server gives none back: not when a client leaves, when a handshake is replaced or refused,
or when nobody wants it. Nor does a farewell close the client's files, and `disconnect` keeps
the buffer and the reply endpoint.
-/

namespace K1K.Service

open K1K.Lib K1K.Mm K1K.Obj K1K.Syscall

/-! ## The server -/

def greeting (m : Message) : List (Nat × Bool) :=
  match m.kind with
  | .connect _ => [(m.sender, false)]
  | .register _ => [(m.sender, true)]
  | _ => []

def opener (events : List Event) (handle : Nat) : Option Nat :=
  events.foldl (fun task e =>
    match e with
    | .opened t h _ => if h = handle then some t else task
    | _ => task) none

section Opener

variable (events : List Event) (task h handle : Nat)

@[simp]
theorem opener_opened (entry : Files.DirEntry) : opener (events ++ [.opened task h entry]) handle =
      if h = handle then some task else opener events handle := by
  simp [opener]

@[simp]
theorem opener_closed : opener (events ++ [.closed task h]) handle = opener events handle := by
  simp [opener]

@[simp]
theorem opener_left : opener (events ++ [.left task]) handle = opener events handle := by
  simp [opener]

end Opener

structure Accounts where
  sessions : Sessions
  caps : CapTable
  greeted : List (Nat × Bool)

namespace Accounts

def receive (caps : CapTable) (m : Message) : Message × CapTable :=
  match m.cap with
  | none => (m, caps)
  | some cap =>
    match caps.insert cap with
    | (some _, caps) => (m, caps)
    | (none, caps) => ({ m with cap := none }, caps)

inductive Step (objects : Nat → MemoryObject) : Accounts → Fs.Action → Accounts → Prop where
  | message {s : Accounts} {sessions : Sessions} {m m' : Message} {caps : CapTable}
      {view : Memory} {vol : Files.Volume} : receive s.caps m = (m', caps) →
      Sessions.Step objects s.sessions (.message m' view vol) sessions →
      Step objects s (.message m view vol) ⟨sessions, caps, s.greeted ++ greeting m'⟩
  | elsewhere {s : Accounts} {sessions : Sessions} {fr : Frames} :
      Sessions.Step objects s.sessions (.elsewhere fr) sessions →
      Step objects s (.elsewhere fr) { s with sessions := sessions }

def start (h : Host) (caps : CapTable) : Accounts := ⟨.start h, caps, []⟩

def tasks (s : Accounts) : Finset Nat := s.sessions.fs.server.tasks

def files (s : Accounts) : Files.Handles := s.sessions.fs.files

/-- No client leaves. A capability comes only with a handshake that its sender has
not sent before and that the server has room for. -/
def Tidy (s : Accounts) : Fs.Action → Prop
  | .message m _ _ =>
      ((receive s.caps m).1.kind = .bye → m.sender ∉ s.tasks) ∧
      ((receive s.caps m).1.cap.isSome →
        greeting (receive s.caps m).1 ≠ [] ∧
        (∀ g ∈ greeting (receive s.caps m).1, g ∉ s.greeted) ∧
        (m.sender ∈ s.tasks ∨ s.tasks.card < MAX_CLIENTS))
  | .elsewhere _ => True

def Closing (s : Accounts) : Fs.Action → Prop
  | .message m _ _ => (receive s.caps m).1.kind = .bye →
      ∀ handle, opener s.sessions.events handle = some m.sender →
        Files.handleOf s.files handle = none
  | .elsewhere _ => True

variable {objects : Nat → MemoryObject} {s s' : Accounts} {a : Fs.Action} {caps caps' : CapTable}
  {m m' : Message}

theorem receive_cases (caps : CapTable) (m : Message) :
    (m.cap = none ∧ receive caps m = (m, caps)) ∨
    (∃ cap i caps', m.cap = some cap ∧ caps.insert cap = (some i, caps') ∧
      receive caps m = (m, caps')) ∨
    ∃ cap caps', m.cap = some cap ∧ caps.insert cap = (none, caps') ∧
      receive caps m = ({ m with cap := none }, caps') := by
  rw [receive]
  rcases sent : m.cap with _ | cap
  · exact .inl ⟨rfl, rfl⟩
  · rcases inserted : caps.insert cap with ⟨_ | i, caps'⟩
    · exact .inr (.inr ⟨cap, caps', rfl, inserted, by simp [inserted]⟩)
    · exact .inr (.inl ⟨cap, i, caps', rfl, inserted, by simp [inserted]⟩)

theorem receive_sender (caps : CapTable) (m : Message) : (receive caps m).1.sender = m.sender := by
  rcases receive_cases caps m with ⟨_, res⟩ | ⟨_, _, _, _, _, res⟩ | ⟨_, _, _, _, res⟩ <;> rw [res]

theorem receive_liveSlots (caps : CapTable) (m : Message) : (receive caps m).2.liveSlots =
      caps.liveSlots + if (receive caps m).1.cap.isSome then 1 else 0 := by
  rcases receive_cases caps m with ⟨missing, res⟩ | ⟨cap, i, caps', sent, inserted, res⟩ |
    ⟨cap, caps', sent, inserted, res⟩
  · simp [res, missing]
  · have counted := caps.liveSlots_insert cap
    simpa [res, sent, inserted] using counted
  · have counted := caps.liveSlots_insert cap
    simpa [res, inserted] using counted

theorem greeting_cases (m : Message) :
    greeting m = [] ∨ (∃ which, greeting m = [(m.sender, which)]) ∧ m.cap.isSome ∧
      ∃ cap, m.kind = .connect cap ∨ m.kind = .register cap := by
  rw [greeting]
  cases kind : m.kind with
  | connect cap =>
    have sent := Message.cap_of_kind (.inl kind)
    exact .inr ⟨⟨false, rfl⟩, by simp [sent], cap, .inl rfl⟩
  | register cap =>
    have sent := Message.cap_of_kind (.inr kind)
    exact .inr ⟨⟨true, rfl⟩, by simp [sent], cap, .inr rfl⟩
  | bye | ignored | request => exact .inl rfl

theorem directory_step {sessions sessions' : Sessions} {view : Memory} {vol : Files.Volume}
    (nodup : sessions.fs.server.Distinct)
    (ran : Sessions.Step objects sessions (.message m view vol) sessions') :
    sessions'.fs.server.Distinct ∧
      sessions'.fs.server.directory = sessions.fs.server.directory.take m := by
  cases ran with
  | message handled =>
    obtain ⟨req, took, -⟩ := Desk.take_of_handle handled
    have change := Server.taken_of_take nodup took
    exact ⟨change.distinct nodup, change.directory nodup⟩

/-- The slots of the server are those of the handshakes that reached it, which are all
of connected clients and all different. -/
structure Even (first : CapTable) (s : Accounts) : Prop where
  distinct : s.sessions.fs.server.Distinct
  live : s.caps.liveSlots = first.liveSlots + s.greeted.length
  nodup : s.greeted.Nodup
  connected : ∀ g ∈ s.greeted, g.1 ∈ s.tasks

theorem even_start (h : Host) (caps : CapTable) : (start h caps).Even caps where
  distinct := by rintro _ _ _ _ ⟨⟩
  live := by simp [start]
  nodup := by simp [start]
  connected := by simp [start]

theorem mem_take_of_handshake {d : Directory}
    (room : m.sender ∈ d.tasks ∨ d.tasks.card < MAX_CLIENTS)
    (handshake : ∃ cap, m.kind = .connect cap ∨ m.kind = .register cap) :
    m.sender ∈ (d.take m).tasks := by
  have entered := Directory.mem_enter.mpr (room.imp id fun few => ⟨rfl, few⟩)
  rcases handshake with ⟨cap, kind | kind⟩
  · simpa [Directory.take, kind] using entered
  · simpa [Directory.take, kind] using entered

theorem Even.step {first : CapTable} (even : s.Even first) (tidy : s.Tidy a)
    (ran : Step objects s a s') : s'.Even first := by
  cases ran with
  | @message sessions m m' caps view vol received ran =>
    have sender : m'.sender = m.sender := by
      have eq := receive_sender s.caps m
      rwa [received] at eq
    have slots := receive_liveSlots s.caps m
    simp only [Tidy, received] at tidy slots
    obtain ⟨nodup, directory⟩ := directory_step even.distinct ran
    have tasks : tasks ⟨sessions, caps, s.greeted ++ greeting m'⟩ =
        (s.sessions.fs.server.directory.take m').tasks := congrArg Directory.tasks directory
    have stay : ∀ g ∈ s.greeted, g.1 ∈ (s.sessions.fs.server.directory.take m').tasks := by
      intro g mem
      refine Directory.mem_take (even.connected g mem) fun bye eq => ?_
      exact tidy.1 bye (by rw [← sender, eq]; exact even.connected g mem)
    rcases greeting_cases m' with quiet | ⟨⟨which, greets⟩, sent, handshake⟩
    · have missing : m'.cap = none := by
        rw [← Option.not_isSome_iff_eq_none]
        exact fun brought => (tidy.2 brought).1 quiet
      refine ⟨nodup, ?_, by simpa [quiet] using even.nodup, ?_⟩
      · simpa [quiet, missing, even.live] using slots
      · rw [tasks]
        simpa [quiet] using stay
    · obtain ⟨-, fresh, room⟩ := tidy.2 sent
      rw [greets] at fresh
      have new : (m'.sender, which) ∉ s.greeted := fresh _ (by simp)
      refine ⟨nodup, ?_, ?_, ?_⟩
      · simp only [greets, List.length_append, List.length_singleton]
        rw [slots, if_pos sent, even.live]
        omega
      · simp only [greets]
        exact List.nodup_append.mpr ⟨even.nodup, by simp, by
          rintro g old g' new' rfl
          rw [List.mem_singleton.mp new'] at old
          exact new old⟩
      · rw [tasks]
        simp only [greets]
        intro g mem
        rcases List.mem_append.mp mem with old | now
        · exact stay g old
        · rw [List.mem_singleton.mp now]
          exact mem_take_of_handshake (sender ▸ room) handshake
  | elsewhere ran =>
    cases ran
    exact ⟨even.distinct, even.live, even.nodup, even.connected⟩

theorem Even.bound {first : CapTable} (even : s.Even first) :
    s.caps.liveSlots ≤ first.liveSlots + 2 * s.tasks.card := by
  have sub : s.greeted.toFinset ⊆ s.tasks ×ˢ Finset.univ := by
    intro g mem
    rw [List.mem_toFinset] at mem
    exact Finset.mem_product.mpr ⟨even.connected g mem, Finset.mem_univ _⟩
  have counted := Finset.card_le_card sub
  rw [List.toFinset_card_of_nodup even.nodup, Finset.card_product, Finset.card_univ,
    Fintype.card_bool] at counted
  rw [even.live]
  omega

structure Attended (s : Accounts) : Prop where
  distinct : s.sessions.fs.server.Distinct
  opener : ∀ handle entry, Files.handleOf s.files handle = some entry →
    ∃ task ∈ s.tasks, opener s.sessions.events handle = some task

theorem attended_start (h : Host) (caps : CapTable) : (start h caps).Attended where
  distinct := by rintro _ _ _ _ ⟨⟩
  opener handle entry found := by
    cases found.symm.trans (Files.handleOf_replicate Files.MAX_OPEN handle)

theorem opener_step {sessions sessions' : Sessions} {view : Memory} {vol : Files.Volume}
    (ran : Sessions.Step objects sessions (.message m view vol) sessions') {handle : Nat}
    {entry : Files.DirEntry} (found : Files.handleOf sessions'.fs.files handle = some entry) :
    (opener sessions'.events handle = some m.sender ∧ m.sender ∈ sessions.fs.server.tasks ∧
      m.kind = .request) ∨ (∃ old, Files.handleOf sessions.fs.files handle = some old) ∧
      opener sessions'.events handle = opener sessions.events handle := by
  cases ran with
  | @message fs _ _ _ handled =>
    have told := Sessions.told_of_handle handled
    simp only at found ⊢
    generalize sessions.events ++ (sessions.event m view vol).toList = events at told ⊢
    generalize fs.files = table at told found
    cases told with
    | @opened i new kind opens buffer free =>
      obtain ⟨lt, -, -⟩ := List.findIdx?_eq_some_iff_getElem.mp free
      rw [Files.handleOf_set lt] at found
      rw [opener_opened]
      by_cases here : handle = i + 1
      · obtain ⟨buf, buffer⟩ := Option.isSome_iff_exists.mp buffer
        obtain ⟨j, c, held, task, -, -⟩ := Fs.clientBuffer_some buffer
        exact .inl ⟨if_pos here.symm, Server.mem_tasks.mpr ⟨j, c, held, task⟩, kind⟩
      · rw [if_neg here] at found
        exact .inr ⟨⟨entry, found⟩, if_neg (Ne.symm here)⟩
    | closed kind closes named =>
      rw [Files.handleOf_set (Files.handleOf_lt named)] at found
      rw [opener_closed]
      split at found
      next => cases found
      next => exact .inr ⟨⟨entry, found⟩, rfl⟩
    | left kind =>
      rw [opener_left]
      exact .inr ⟨⟨entry, found⟩, rfl⟩
    | same kind => exact .inr ⟨⟨entry, found⟩, rfl⟩

theorem Attended.step (attended : s.Attended) (closing : s.Closing a)
    (ran : Step objects s a s') : s'.Attended := by
  cases ran with
  | @message sessions m m' caps view vol received ran =>
    have sender : m'.sender = m.sender := by
      have eq := receive_sender s.caps m
      rwa [received] at eq
    simp only [Closing, received] at closing
    obtain ⟨nodup, directory⟩ := directory_step attended.distinct ran
    have tasks : tasks ⟨sessions, caps, s.greeted ++ greeting m'⟩ =
        (s.sessions.fs.server.directory.take m').tasks := congrArg Directory.tasks directory
    refine ⟨nodup, fun handle entry found => ?_⟩
    rw [tasks]
    rcases opener_step ran found with ⟨new, connected, kind⟩ | ⟨⟨old, was⟩, eq⟩
    · exact ⟨_, Directory.mem_take connected (by simp [kind]), new⟩
    obtain ⟨task, connected, opened⟩ := attended.opener handle old was
    refine ⟨task, Directory.mem_take connected fun bye leaves => ?_, eq.trans opened⟩
    rw [← leaves, sender] at opened
    have shut := closing bye handle opened
    rw [Accounts.files, was] at shut
    cases shut
  | elsewhere ran =>
    cases ran
    exact ⟨attended.distinct, attended.opener⟩

end Accounts

/-! ## The client -/

structure Ended where
  before : CapTable
  client : FileClient
  after : CapTable

/-- A task that connects to the file service and disconnects, and the connection that
it has now with the table from before. -/
structure Mount where
  caps : CapTable
  session : Option (CapTable × FileClient)
  ended : List Ended

namespace Mount

inductive Action where
  | new (listen pages : Nat) (k : Outcome)
  | drop (slot : Nat)
  | disconnect

def step (s : Mount) : Action → Option Mount
  | .new listen pages k =>
    match s.session with
    | some _ => none
    | none =>
      match FileClient.new s.caps listen pages k with
      | (none, caps) => some { s with caps := caps }
      | (some fc, caps) => some { s with caps := caps, session := some (s.caps, fc) }
  | .drop slot => some { s with caps := (s.caps.remove slot).2 }
  | .disconnect =>
    match s.session with
    | none => none
    | some (before, fc) =>
      some { s with session := none, ended := s.ended ++ [⟨before, fc, s.caps⟩] }

def Step (s : Mount) (a : Action) (s' : Mount) : Prop := s.step a = some s'

def start (caps : CapTable) : Mount := ⟨caps, none, []⟩

def Drops (s : Mount) : Action → Prop
  | .disconnect => ∀ session ∈ s.session,
      s.caps.get session.2.reply = none ∧ s.caps.get session.2.buf = none
  | .new _ _ _ | .drop _ => True

structure Inv (s : Mount) : Prop where
  session : ∀ before fc, s.session = some (before, fc) → ∀ slot, (s.caps.get slot).isSome →
    (before.get slot).isSome ∨ slot = fc.reply ∨ slot = fc.buf
  ended : ∀ e ∈ s.ended, ∀ slot, (e.after.get slot).isSome → (e.before.get slot).isSome

variable {s s' : Mount} {a : Action}

theorem inv_start (caps : CapTable) : (start caps).Inv :=
  ⟨by rintro _ _ ⟨⟩, by simp [start]⟩

theorem Inv.step (inv : s.Inv) (drops : s.Drops a) (ran : Step s a s') : s'.Inv := by
  cases a with
  | new listen pages k =>
    rw [Step, Mount.step] at ran
    split at ran
    next => cases ran
    next idle =>
      split at ran
      next =>
        cases ran
        exact ⟨by simp [idle], inv.ended⟩
      next fc caps made =>
        cases ran
        refine ⟨?_, inv.ended⟩
        rintro was fc' ⟨⟩ slot live
        by_cases reply : slot = fc.reply
        · exact .inr (.inl reply)
        by_cases buf : slot = fc.buf
        · exact .inr (.inr buf)
        · rw [FileClient.new_get made reply buf] at live
          exact .inl live
  | drop slot =>
    cases ran
    refine ⟨fun was fc connected other live => ?_, inv.ended⟩
    refine inv.session was fc connected other ?_
    by_cases eq : slot = other
    · simp [eq] at live
    · rwa [CapTable.get_remove_of_ne eq] at live
  | disconnect =>
    rw [Step, Mount.step] at ran
    split at ran
    next => cases ran
    next was fc connected =>
      cases ran
      refine ⟨by rintro _ _ ⟨⟩, fun e mem slot live => ?_⟩
      rcases List.mem_append.mp mem with old | now
      · exact inv.ended e old slot live
      rw [List.mem_singleton.mp now] at live ⊢
      obtain ⟨reply, buf⟩ := drops (was, fc) connected
      rcases inv.session was fc connected slot live with earlier | rfl | rfl
      · exact earlier
      · simp [reply] at live
      · simp [buf] at live

end Mount

/-- The server has at most two slots for each client while no client leaves and each handshake
comes once; open files belong to connected clients while nobody leaves with files open; and a task
that has dropped the two slots of its connection holds nothing more after `disconnect`. -/
theorem resources_returned (caps : CapTable) :
    (∀ objects h actions s,
      Run (Guarded Accounts.Tidy (Accounts.Step objects)) (.start h caps) actions s →
      s.caps.liveSlots ≤ caps.liveSlots + 2 * s.tasks.card) ∧
    (∀ objects h actions s,
      Run (Guarded Accounts.Closing (Accounts.Step objects)) (.start h caps) actions s →
      ∀ handle entry, Files.handleOf s.files handle = some entry →
        ∃ task ∈ s.tasks, opener s.sessions.events handle = some task) ∧
    (∀ actions s, Run (Guarded Mount.Drops Mount.Step) (.start caps) actions s →
      ∀ e ∈ s.ended, ∀ slot, (e.after.get slot).isSome → (e.before.get slot).isSome) := by
  refine ⟨?_, ?_, ?_⟩
  · intro objects h actions s run
    have even : s.Even caps := run.invariant (Accounts.Even caps) (Accounts.even_start h caps)
      fun _ _ _ even ran => even.step ran.1 ran.2
    exact even.bound
  · intro objects h actions s run
    have attended : s.Attended := run.invariant Accounts.Attended (Accounts.attended_start h caps)
      fun _ _ _ attended ran => attended.step ran.1 ran.2
    exact attended.opener
  · intro actions s run
    have inv : s.Inv := run.invariant Mount.Inv (Mount.inv_start caps)
      fun _ _ _ inv ran => inv.step ran.1 ran.2
    exact inv.ended

/-! ## Some sessions -/

namespace Accounts

def apply (objects : Nat → MemoryObject) (s : Accounts) : Fs.Action → Option Accounts
  | .message m view vol =>
    (s.sessions.apply objects (.message (receive s.caps m).1 view vol)).map fun sessions =>
      ⟨sessions, (receive s.caps m).2, s.greeted ++ greeting (receive s.caps m).1⟩
  | .elsewhere _ => none

theorem step_of_apply {objects : Nat → MemoryObject} {s s' : Accounts} {a : Fs.Action}
    (applied : s.apply objects a = some s') : Step objects s a s' := by
  cases a with
  | message m view vol =>
    obtain ⟨sessions, ran, rfl⟩ := Option.map_eq_some_iff.mp applied
    exact .message rfl (Sessions.step_of_apply ran)
  | elsewhere fr => cases applied

def AllShut (s : Accounts) : Fs.Action → Prop
  | .message m _ _ => (receive s.caps m).1.kind = .bye →
      s.files = List.replicate Files.MAX_OPEN none
  | .elsewhere _ => True

theorem AllShut.closing {s : Accounts} {a : Fs.Action} (shut : s.AllShut a) : s.Closing a := by
  cases a with
  | message m view vol =>
    intro bye handle _
    rw [shut bye]
    exact Files.handleOf_replicate _ _
  | elsewhere fr => trivial

instance allShut_decidable (s : Accounts) (a : Fs.Action) : Decidable (s.AllShut a) :=
  match a with
  | .message _ _ _ => inferInstanceAs (Decidable (_ → _))
  | .elsewhere _ => .isTrue trivial

instance tidy_decidable (s : Accounts) (a : Fs.Action) : Decidable (s.Tidy a) :=
  match a with
  | .message _ _ _ => inferInstanceAs (Decidable ((_ → _) ∧ (_ → _ ∧ _ ∧ _)))
  | .elsewhere _ => .isTrue trivial

end Accounts

instance drops_decidable (s : Mount) (a : Mount.Action) : Decidable (s.Drops a) :=
  match a with
  | .disconnect => inferInstanceAs (Decidable (∀ _ ∈ _, _))
  | .new _ _ _ | .drop _ => .isTrue trivial

def connects (task : Nat) : Fs.Action := .message (connecting task task) (fun _ => 0) emptyVolume

def leaves (task : Nat) : Fs.Action :=
  .message (asking task 8 0 0) (fun _ => 0) emptyVolume

def success : Outcome := ⟨some 0, some USER_MMAP_BASE, 1, true, true⟩

theorem sessions_within_means :
    (∃ actions s, Run (Guarded Accounts.Tidy (Accounts.Step twoPages)) (.start bareHost .new)
        actions s ∧ s.tasks.card = 2 ∧
      s.caps.liveSlots ≤ CapTable.new.liveSlots + 2 * s.tasks.card) ∧
    (∃ actions s, Run (Guarded Accounts.Closing (Accounts.Step twoPages)) (.start bareHost .new)
        actions s ∧ Files.handleOf s.files 1 = some Sessions.someFile ∧
      ∃ task ∈ s.tasks, opener s.sessions.events 1 = some task) ∧
    (∃ actions s, Run (Guarded Mount.Drops Mount.Step) (.start .new) actions s ∧ ∃ e ∈ s.ended,
      ∀ slot, (e.after.get slot).isSome → (e.before.get slot).isSome) := by
  refine ⟨?_, ?_, ?_⟩
  · have eval : ([connects 5, Sessions.registers 5 0, connects 6,
        Sessions.registers 6 1, Sessions.opens 6 1].foldlM (fun (s : Accounts) a =>
          if s.Tidy a then s.apply twoPages a else none) (.start bareHost .new)).any
        fun s : Accounts => decide (s.tasks.card = 2) := by
      decide +kernel
    obtain ⟨s, replayed, facts⟩ := exists_of_any eval
    have run : Run (Guarded Accounts.Tidy (Accounts.Step twoPages)) (.start bareHost .new) _ s :=
      (guarded_of_replay replayed).mono fun _ _ _ ran =>
        ⟨ran.1, Accounts.step_of_apply ran.2⟩
    exact ⟨_, s, run, facts, (resources_returned _).1 _ _ _ s run⟩
  · have eval : ([Sessions.registers 5 0, Sessions.opens 5 0, Sessions.closes 5 0 1, leaves 5,
        Sessions.registers 6 1, Sessions.opens 6 1].foldlM (fun (s : Accounts) a =>
          if s.AllShut a then s.apply twoPages a else none) (.start bareHost .new)).any
        fun s : Accounts => decide (Files.handleOf s.files 1 = some Sessions.someFile) := by
      decide +kernel
    obtain ⟨s, replayed, facts⟩ := exists_of_any eval
    have run : Run (Guarded Accounts.Closing (Accounts.Step twoPages)) (.start bareHost .new) _ s :=
      (guarded_of_replay replayed).mono fun _ _ _ ran =>
        ⟨ran.1.closing, Accounts.step_of_apply ran.2⟩
    exact ⟨_, s, run, facts, (resources_returned _).2.1 _ _ _ s run 1 _ facts⟩
  · have eval : ([.new 0 16 success, .drop 0, .drop 1, .disconnect].foldlM
        (fun (s : Mount) a => if s.Drops a then s.step a else none) (.start .new)).any
        fun s : Mount => decide (s.ended ≠ []) := by
      decide +kernel
    obtain ⟨s, replayed, facts⟩ := exists_of_any eval
    have run : Run (Guarded Mount.Drops Mount.Step) (.start .new) _ s := guarded_of_replay replayed
    obtain ⟨e, mem⟩ := List.exists_mem_of_ne_nil _ facts
    exact ⟨_, s, run, e, mem, (resources_returned _).2.2 _ s run e mem⟩

/-- Client 5 connects, registers its buffer, opens a file and leaves: two slots more, and the file
still open. A task that connects and disconnects keeps two slots. -/
theorem session_leaves_slots_and_files :
    (∃ actions s, Run (Accounts.Step twoPages) (.start bareHost .new) actions s ∧
      s.tasks.card = 0 ∧ s.caps.liveSlots = 2 ∧ CapTable.new.liveSlots = 0 ∧
      Files.handleOf s.files 1 = some Sessions.someFile) ∧
    (∃ actions s, Run Mount.Step (.start .new) actions s ∧ ∃ e ∈ s.ended,
      (e.after.get e.client.reply).isSome ∧ (e.after.get e.client.buf).isSome ∧
      e.client.reply ≠ e.client.buf ∧ e.before = .new) := by
  constructor
  · have eval : ([connects 5, Sessions.registers 5 0, Sessions.opens 5 0, leaves 5].foldlM
        (Accounts.apply twoPages) (.start bareHost .new)).any fun s : Accounts =>
        decide (s.tasks.card = 0 ∧ s.caps.liveSlots = 2 ∧
          Files.handleOf s.files 1 = some Sessions.someFile) := by
      decide +kernel
    obtain ⟨s, replayed, nobody, slots, file⟩ := exists_of_any eval
    have run := (run_of_replay replayed).mono fun _ _ _ => Accounts.step_of_apply
    exact ⟨_, s, run, nobody, slots, rfl, file⟩
  · have eval : ([.new 0 16 success, .disconnect].foldlM Mount.step (.start .new)).any
        fun s : Mount => decide (∃ e ∈ s.ended, (e.after.get e.client.reply).isSome ∧
          (e.after.get e.client.buf).isSome ∧ e.client.reply ≠ e.client.buf ∧
          e.before = .new) := by
      decide +kernel
    obtain ⟨s, replayed, facts⟩ := exists_of_any eval
    exact ⟨_, s, run_of_replay replayed, facts⟩

end K1K.Service
