import K1K.Service.Replies

/-!
# Whose file a handle names

The open files of `user/svc/fs/src/serve.rs` are in one table for all clients, and nothing says
who opened which. `own` goes through a client's own opens, closes and farewells.
-/

namespace K1K.Service

open K1K.Lib K1K.Mm K1K.Obj K1K.Syscall

/-! ## What a request does to the table -/

namespace Files

variable {vol : Volume} {view : Memory} {srv : Server} {files files' : Handles} {buf : Span}
  {req : Request} {handle i : Nat} {entry : DirEntry}

theorem handleOf_pos (found : handleOf files handle = some entry) : handle ≠ 0 := by
  rintro rfl
  simp [handleOf] at found

theorem handleOf_succ : handleOf files (i + 1) = files[i]?.join := rfl

theorem handleOf_replicate (count handle : Nat) :
    handleOf (List.replicate count none) handle = none := by
  rw [handleOf, List.getElem?_replicate]
  split
  next => rfl
  next => split <;> rfl

theorem handleOf_lt (found : handleOf files handle = some entry) : handle - 1 < files.length := by
  rw [handleOf, if_neg (handleOf_pos found)] at found
  by_contra past
  rw [List.getElem?_eq_none (Nat.le_of_not_lt past)] at found
  simp at found

theorem handleOf_set (lt : i < files.length) (slot : Option DirEntry) :
    handleOf (files.set i slot) handle =
      if handle = i + 1 then slot else handleOf files handle := by
  cases handle with
  | zero => simp [handleOf]
  | succ k =>
    rw [handleOf_succ, handleOf_succ, List.getElem?_set]
    by_cases eq : i = k
    · subst eq
      simp [lt]
    · simp [eq, Ne.symm eq]

inductive Dispatched (view : Memory) (srv : Server) (files : Handles) (req : Request) :
    Reply → Handles → Prop where
  | opened {i : Nat} {entry : DirEntry} : req.op = OPEN →
      (srv.clientBuffer req.client).isSome → files.findIdx? Option.isNone = some i →
      Dispatched view srv files req ⟨.ok, i + 1, 0⟩ (files.set i (some entry))
  | closed {buf : Span} {entry : DirEntry} : req.op = CLOSE →
      srv.clientBuffer req.client = some buf →
      handleOf files (reqU64 view buf 0).value = some entry →
      Dispatched view srv files req ⟨.ok, 0, 0⟩ (files.set ((reqU64 view buf 0).value - 1) none)
  | same {reply : Reply} : (req.op = OPEN ∨ req.op = CLOSE → reply.status ≠ .ok) →
      Dispatched view srv files req reply files

theorem dispatched_error {e : Status} (failed : e ≠ .ok) :
    Dispatched view srv files req (.error e) files :=
  .same fun _ => failed

theorem takePath_error {e : Status} (failed : (takePath vol view buf).value = .error e) :
    e = .inval := by
  simp only [takePath, Traced.value_bind] at failed
  split at failed
  next =>
    cases failed
    rfl
  split at failed
  next =>
    cases failed
    rfl
  simp only [Traced.value_bind, Traced.value_pure] at failed
  split at failed <;> cases failed
  rfl

theorem opOpen_value (vol : Volume) (view : Memory) (files : Handles) (buf : Span) :
    (∃ e, e ≠ .ok ∧ (opOpen vol view files buf).value = (.error e, files)) ∨
    ∃ entry, (opOpen vol view files buf).value = openSlot files entry := by
  simp only [opOpen, Traced.value_bind]
  split
  next e failed =>
    refine .inl ⟨e, ?_, rfl⟩
    rw [takePath_error failed]
    decide
  split
  next => exact .inl ⟨.noent, by decide, rfl⟩
  split
  next entry _ =>
    simp only [Traced.value_pure]
    split
    next => exact .inl ⟨.isdir, by decide, rfl⟩
    next => exact .inr ⟨entry, rfl⟩
  next => exact .inl ⟨.noent, by decide, rfl⟩
  next => exact .inl ⟨.io, by decide, rfl⟩

theorem dispatched_open (opens : req.op = OPEN) (buffer : srv.clientBuffer req.client = some buf) :
    Dispatched view srv files req (opOpen vol view files buf).value.1
      (opOpen vol view files buf).value.2 := by
  rcases opOpen_value vol view files buf with ⟨e, failed, res⟩ | ⟨entry, res⟩
  · rw [res]
    exact dispatched_error failed
  rw [res, openSlot]
  split
  next i free => exact .opened opens (by simp [buffer]) free
  next => exact dispatched_error (by decide)

theorem dispatched_close (closes : req.op = CLOSE)
    (buffer : srv.clientBuffer req.client = some buf) :
    Dispatched view srv files req (opClose view files buf).value.1
      (opClose view files buf).value.2 := by
  simp only [opClose, Traced.value_bind]
  split
  next entry found => exact .closed closes buffer found
  next => exact dispatched_error (by decide)

theorem dispatched_runOp (vol : Volume) (view : Memory) (files : Handles)
    (buffer : srv.clientBuffer req.client = some buf) :
    Dispatched view srv files req (runOp vol view files req.op buf).value.1
      (runOp vol view files req.op buf).value.2 := by
  rw [runOp]
  split
  next opens => exact dispatched_open opens buffer
  next notOpen =>
    have unchanged : ∀ (reply : Traced Reply), req.op ≠ CLOSE → Dispatched view srv files req
        (reply >>= fun reply => pure (reply, files)).value.1
        (reply >>= fun reply => pure (reply, files)).value.2 := fun reply notClose =>
      .same fun either => absurd either (not_or.mpr ⟨notOpen, notClose⟩)
    split
    next reads => exact unchanged _ (by rw [reads]; decide)
    split
    next stats => exact unchanged _ (by rw [stats]; decide)
    split
    next lists => exact unchanged _ (by rw [lists]; decide)
    split
    next closes => exact dispatched_close closes buffer
    next => exact dispatched_error (by decide)

theorem dispatched (vol : Volume) (view : Memory) (srv : Server) (files : Handles)
    (req : Request) : Dispatched view srv files req (dispatch vol view srv files req).value.1
      (dispatch vol view srv files req).value.2 := by
  rw [dispatch]
  split
  next => exact dispatched_error (by decide)
  split
  next => exact dispatched_error (by decide)
  next buf buffer =>
    split
    next => exact dispatched_error (by decide)
    have done := dispatched_runOp vol view files buffer
    simp only [Traced.value_bind]
    split
    next => exact done
    next => exact done

theorem opRead_congr (vol : Volume)
    (eq : handleOf files (reqU64 view buf 0).value = handleOf files' (reqU64 view buf 0).value) :
    opRead vol view files buf = opRead vol view files' buf := by
  refine Traced.bind_congr_value ?_
  simp only [eq]

theorem opClose_congr
    (eq : handleOf files (reqU64 view buf 0).value = handleOf files' (reqU64 view buf 0).value) :
    (opClose view files buf).value.1 = (opClose view files' buf).value.1 ∧
      (opClose view files buf).spans = (opClose view files' buf).spans := by
  simp only [opClose, Traced.value_bind, Traced.spans_bind, eq]
  cases handleOf files' (reqU64 view buf 0).value <;> exact ⟨rfl, rfl⟩

theorem runOp_congr (vol : Volume) {op : BitVec 64} (named : op = READ ∨ op = CLOSE)
    (eq : handleOf files (reqU64 view buf 0).value = handleOf files' (reqU64 view buf 0).value) :
    (runOp vol view files op buf).value.1 = (runOp vol view files' op buf).value.1 ∧
      (runOp vol view files op buf).spans = (runOp vol view files' op buf).spans := by
  rcases named with rfl | rfl
  · have read : ∀ table, runOp vol view table READ buf =
        (opRead vol view table buf >>= fun reply => pure (reply, table)) := fun _ => rfl
    rw [read, read, opRead_congr vol eq]
    exact ⟨rfl, rfl⟩
  · have close : ∀ table, runOp vol view table CLOSE buf = opClose view table buf := fun _ => rfl
    rw [close, close]
    exact opClose_congr eq

theorem dispatch_congr (vol : Volume) (named : req.op = READ ∨ req.op = CLOSE)
    (eq : ∀ buf, srv.clientBuffer req.client = some buf →
      handleOf files (reqU64 view buf 0).value = handleOf files' (reqU64 view buf 0).value) :
    (dispatch vol view srv files req).value.1 = (dispatch vol view srv files' req).value.1 ∧
      (dispatch vol view srv files req).spans = (dispatch vol view srv files' req).spans := by
  rw [dispatch, dispatch]
  by_cases short : req.reqLen = 0 ∨ req.reqLen > REQ_MAX
  · rw [if_pos short, if_pos short]
    exact ⟨rfl, rfl⟩
  rw [if_neg short, if_neg short]
  rcases buffer : srv.clientBuffer req.client with _ | buf
  · exact ⟨rfl, rfl⟩
  dsimp only
  by_cases small : buf.len < DATA_OFF
  · rw [if_pos small, if_pos small]
    exact ⟨rfl, rfl⟩
  rw [if_neg small, if_neg small]
  obtain ⟨reply, spans⟩ := runOp_congr vol named (eq buf buffer)
  simp only [Traced.value_bind, Traced.spans_bind, reply, spans]
  split <;> simp [reply]

end Files

open Files (dispatch handleOf)

/-! ## What clients have done -/

inductive Event where
  | opened (task handle : Nat) (entry : Files.DirEntry)
  | closed (task handle : Nat)
  | left (task : Nat)
  deriving DecidableEq

def Event.applyTo (task handle : Nat) (held : Option Files.DirEntry) : Event → Option Files.DirEntry
  | .opened t h entry => if t = task ∧ h = handle then some entry else held
  | .closed t h => if t = task ∧ h = handle then none else held
  | .left t => if t = task then none else held

def own (events : List Event) (task handle : Nat) : Option Files.DirEntry :=
  events.foldl (Event.applyTo task handle) none

@[simp]
theorem own_nil (task handle : Nat) : own [] task handle = none := rfl

@[simp]
theorem own_snoc (events : List Event) (e : Event) (task handle : Nat) :
    own (events ++ [e]) task handle = e.applyTo task handle (own events task handle) := by
  simp [own]

def ownTable (events : List Event) (task : Nat) : Files.Handles :=
  (List.range Files.MAX_OPEN).map fun i => own events task (i + 1)

structure Sessions where
  fs : Fs
  events : List Event

namespace Sessions

def handleIn (s : Sessions) (m : Message) (view : Memory) : Nat :=
  match s.fs.server.clientBuffer m.sender with
  | some buf => (Files.reqU64 view buf 0).value
  | none => 0

def event (s : Sessions) (m : Message) (view : Memory) (vol : Files.Volume) : Option Event :=
  match m.kind with
  | .bye => some (.left m.sender)
  | .request =>
    let done := (dispatch vol view s.fs.server s.fs.files m.request).value
    if done.1.status ≠ .ok then none
    else if m.request.op = Files.OPEN then
      (handleOf done.2 done.1.arg0).map (.opened m.sender done.1.arg0)
    else if m.request.op = Files.CLOSE then some (.closed m.sender (s.handleIn m view))
    else none
  | _ => none

inductive Step (objects : Nat → MemoryObject) : Sessions → Fs.Action → Sessions → Prop where
  | message {s : Sessions} {fs : Fs} {m : Message} {view : Memory} {vol : Files.Volume} :
      s.fs.handle objects m view vol = some fs →
      Step objects s (.message m view vol) ⟨fs, s.events ++ (s.event m view vol).toList⟩
  | elsewhere {s : Sessions} {fr : Frames} : fr.map.Valid →
      Step objects s (.elsewhere fr)
        { s with fs := { s.fs with host := { s.fs.host with frames := fr }, accesses := [] } }

def start (h : Host) : Sessions := ⟨.start h, []⟩

/-- A request that reads or closes an open file comes from the client that opened it. -/
def Careful (s : Sessions) : Fs.Action → Prop
  | .message m view _ => m.kind = .request →
      m.request.op = Files.READ ∨ m.request.op = Files.CLOSE →
      (handleOf s.fs.files (s.handleIn m view)).isSome →
      (own s.events m.sender (s.handleIn m view)).isSome
  | .elsewhere _ => True

variable {objects : Nat → MemoryObject} {s s' : Sessions} {a : Fs.Action}

variable {m : Message} {view : Memory} {fs : Fs}

theorem handleIn_eq {buf : Span} (buffer : s.fs.server.clientBuffer m.sender = some buf) :
    s.handleIn m view = (Files.reqU64 view buf 0).value := by
  rw [handleIn, buffer]

inductive Told (s : Sessions) (m : Message) (view : Memory) :
    Files.Handles → List Event → Prop where
  | opened {i : Nat} {entry : Files.DirEntry} : m.kind = .request → m.request.op = Files.OPEN →
      (s.fs.server.clientBuffer m.sender).isSome →
      s.fs.files.findIdx? Option.isNone = some i →
      Told s m view (s.fs.files.set i (some entry)) (s.events ++ [.opened m.sender (i + 1) entry])
  | closed {entry : Files.DirEntry} : m.kind = .request → m.request.op = Files.CLOSE →
      handleOf s.fs.files (s.handleIn m view) = some entry →
      Told s m view (s.fs.files.set (s.handleIn m view - 1) none)
        (s.events ++ [.closed m.sender (s.handleIn m view)])
  | left : m.kind = .bye → Told s m view s.fs.files (s.events ++ [.left m.sender])
  | same : m.kind ≠ .bye → Told s m view s.fs.files s.events

theorem told_of_request {vol : Files.Volume} (kind : m.kind = .request) :
    Told s m view (dispatch vol view s.fs.server s.fs.files m.request).value.2
      (s.events ++ (s.event m view vol).toList) := by
  have done := Files.dispatched vol view s.fs.server s.fs.files m.request
  simp only [event, kind]
  generalize (dispatch vol view s.fs.server s.fs.files m.request).value.1 = reply at done ⊢
  generalize (dispatch vol view s.fs.server s.fs.files m.request).value.2 = table at done ⊢
  cases done with
  | @opened i entry opens buffer free =>
    obtain ⟨lt, -, -⟩ := List.findIdx?_eq_some_iff_getElem.mp free
    have named : handleOf (s.fs.files.set i (some entry)) (i + 1) = some entry := by
      rw [Files.handleOf_set lt, if_pos rfl]
    simp only [ne_eq, not_true, if_false, if_pos opens, named, Option.map_some, Option.toList_some]
    exact .opened kind opens buffer free
  | @closed buf entry closes buffer found =>
    have ne : m.request.op ≠ Files.OPEN := by
      rw [closes]
      decide
    rw [← handleIn_eq (m := m) buffer] at found ⊢
    simp only [ne_eq, not_true, if_false, if_neg ne, if_pos closes, Option.toList_some]
    exact .closed kind closes found
  | same quiet =>
    have silent : (if reply.status ≠ .ok then none
        else if m.request.op = Files.OPEN then
          (handleOf s.fs.files reply.arg0).map (.opened m.sender reply.arg0)
        else if m.request.op = Files.CLOSE then some (.closed m.sender (s.handleIn m view))
        else none : Option Event) = none := by
      by_cases either : m.request.op = Files.OPEN ∨ m.request.op = Files.CLOSE
      · rw [if_pos (quiet either)]
      · obtain ⟨first, second⟩ := not_or.mp either
        simp [first, second]
    rw [silent, Option.toList_none, List.append_nil]
    exact .same (by simp [kind])

theorem told_of_handle {vol : Files.Volume} (handled : s.fs.handle objects m view vol = some fs) :
    Told s m view fs.files (s.events ++ (s.event m view vol).toList) := by
  obtain ⟨-, -, files⟩ := Desk.take_of_handle handled
  cases kind : m.kind with
  | request =>
    rw [if_pos kind] at files
    rw [files]
    exact told_of_request kind
  | bye =>
    rw [if_neg (by simp [kind])] at files
    rw [files, event, kind]
    exact .left kind
  | connect | register | ignored =>
    rw [if_neg (by simp [kind])] at files
    simp only [files, event, kind, Option.toList_none, List.append_nil]
    exact .same (by simp [kind])

/-! ## Handles of careful clients -/

structure Inv (s : Sessions) : Prop where
  length : s.fs.files.length = Files.MAX_OPEN
  named : ∀ task handle entry, own s.events task handle = some entry →
    handleOf s.fs.files handle = some entry
  single : ∀ task task' handle, (own s.events task handle).isSome →
    (own s.events task' handle).isSome → task = task'

theorem inv_start (h : Host) : (start h).Inv where
  length := by simp [start, Fs.start]
  named := by rintro _ _ _ ⟨⟩
  single := by rintro _ _ _ ⟨⟩

theorem Inv.nobody (inv : s.Inv) {handle : Nat} (free : handleOf s.fs.files handle = none)
    (task : Nat) : own s.events task handle = none := by
  rw [Option.eq_none_iff_forall_ne_some]
  intro entry owned
  rw [inv.named _ _ _ owned] at free
  cases free

theorem Inv.opened (inv : s.Inv) {i : Nat} (free : s.fs.files.findIdx? Option.isNone = some i)
    (task : Nat) (entry : Files.DirEntry) (files : fs.files = s.fs.files.set i (some entry)) :
    Inv ⟨fs, s.events ++ [.opened task (i + 1) entry]⟩ := by
  obtain ⟨lt, empty, -⟩ := List.findIdx?_eq_some_iff_getElem.mp free
  have vacant : handleOf s.fs.files (i + 1) = none := by
    rw [Files.handleOf_succ, List.getElem?_eq_getElem lt]
    simpa using empty
  have owner : ∀ other handle, own (s.events ++ [.opened task (i + 1) entry]) other handle =
      if handle = i + 1 then (if other = task then some entry else none)
      else own s.events other handle := by
    intro other handle
    rw [own_snoc, Event.applyTo]
    by_cases here : handle = i + 1
    · by_cases eq : other = task
      · simp [here, eq]
      · simp [here, eq, Ne.symm eq, inv.nobody vacant]
    · simp [here, Ne.symm here]
  refine ⟨by simp [files, inv.length], ?_, ?_⟩
  · intro other handle known owned
    simp only [owner] at owned
    rw [files, Files.handleOf_set lt]
    split at owned
    next here =>
      rw [if_pos here]
      split at owned
      next => exact owned
      next => cases owned
    next ne =>
      rw [if_neg ne]
      exact inv.named _ _ _ owned
  · intro other other' handle first second
    simp only [owner] at first second
    split at first
    next here =>
      simp only [here, if_true] at second
      split at first
      next eq =>
        split at second
        next same' => rw [eq, same']
        next => cases second
      next => cases first
    next ne =>
      simp only [ne, if_false] at second
      exact inv.single _ _ _ first second

theorem Inv.closed (inv : s.Inv) {handle task : Nat} {entry : Files.DirEntry}
    (found : handleOf s.fs.files handle = some entry)
    (owned : (own s.events task handle).isSome)
    (files : fs.files = s.fs.files.set (handle - 1) none) :
    Inv ⟨fs, s.events ++ [.closed task handle]⟩ := by
  have lt := Files.handleOf_lt found
  have pos : handle - 1 + 1 = handle := Nat.sub_add_cancel
    (Nat.pos_of_ne_zero (Files.handleOf_pos found))
  have owner : ∀ other h, own (s.events ++ [.closed task handle]) other h =
      if h = handle then none else own s.events other h := by
    intro other h
    rw [own_snoc, Event.applyTo]
    by_cases here : h = handle
    · subst here
      by_cases eq : other = task
      · simp [eq]
      · rcases unowned : own s.events other h with _ | e
        · simp
        · exact absurd (inv.single _ _ _ (by simp [unowned]) owned) eq
    · simp [here, Ne.symm here]
  refine ⟨by simp [files, inv.length], ?_, ?_⟩
  · intro other h known held
    simp only [owner] at held
    split at held
    next => cases held
    next ne =>
      rw [files, Files.handleOf_set lt, pos, if_neg ne]
      exact inv.named _ _ _ held
  · intro other other' h first second
    simp only [owner] at first second
    split at first
    next => cases first
    next ne =>
      rw [if_neg ne] at second
      exact inv.single _ _ _ first second

theorem Inv.left (inv : s.Inv) (task : Nat) (files : fs.files = s.fs.files) :
    Inv ⟨fs, s.events ++ [.left task]⟩ := by
  have was : ∀ other handle entry, own (s.events ++ [.left task]) other handle = some entry →
      own s.events other handle = some entry := by
    intro other handle entry owned
    rw [own_snoc, Event.applyTo] at owned
    split at owned
    next => cases owned
    next => exact owned
  refine ⟨by simp [files, inv.length], ?_, ?_⟩
  · intro other handle entry owned
    simp only [files]
    exact inv.named _ _ _ (was _ _ _ owned)
  intro other other' handle first second
  obtain ⟨e, first⟩ := Option.isSome_iff_exists.mp first
  obtain ⟨e', second⟩ := Option.isSome_iff_exists.mp second
  exact inv.single _ _ _ (Option.isSome_iff_exists.mpr ⟨e, was _ _ _ first⟩)
    (Option.isSome_iff_exists.mpr ⟨e', was _ _ _ second⟩)

theorem Inv.same (inv : s.Inv) (files : fs.files = s.fs.files) : Inv ⟨fs, s.events⟩ :=
  ⟨by rw [files, inv.length], by rw [files]; exact inv.named, inv.single⟩

theorem Inv.step (inv : s.Inv) (careful : s.Careful a) (ran : Step objects s a s') : s'.Inv := by
  cases ran with
  | @message fs m view vol handled =>
    have told := told_of_handle handled
    generalize s.events ++ (s.event m view vol).toList = events at told ⊢
    generalize files : fs.files = table at told
    cases told with
    | opened _ _ _ free => exact inv.opened free m.sender _ files
    | closed kind op found =>
      exact inv.closed found (careful kind (.inr op) (by simp [found])) files
    | left => exact inv.left m.sender files
    | same => exact inv.same files
  | elsewhere => exact ⟨inv.length, inv.named, inv.single⟩

theorem Inv.handleOf_ownTable (inv : s.Inv) (task handle : Nat) :
    handleOf (ownTable s.events task) handle = own s.events task handle := by
  rcases owned : own s.events task handle with _ | entry
  · cases handle with
    | zero => rfl
    | succ i =>
      rw [Files.handleOf_succ, ownTable, List.getElem?_map]
      rcases place : (List.range Files.MAX_OPEN)[i]? with _ | j
      · rfl
      · obtain ⟨_, eq⟩ := List.getElem?_eq_some_iff.mp place
        rw [List.getElem_range] at eq
        simp [← eq, owned]
  · have found := inv.named _ _ _ owned
    have lt := Files.handleOf_lt found
    rw [inv.length] at lt
    rw [handleOf, if_neg (Files.handleOf_pos found), ownTable, List.getElem?_map,
      List.getElem?_range lt, Option.map_some, Option.join_some,
      Nat.sub_add_cancel (Nat.pos_of_ne_zero (Files.handleOf_pos found)), owned]

theorem Inv.answers (inv : s.Inv) {vol : Files.Volume}
    (kind : m.kind = .request) (named : m.request.op = Files.READ ∨ m.request.op = Files.CLOSE)
    (careful : s.Careful (.message m view vol)) {buf : Span}
    (buffer : s.fs.server.clientBuffer m.sender = some buf) :
    handleOf s.fs.files (Files.reqU64 view buf 0).value =
      handleOf (ownTable s.events m.sender) (Files.reqU64 view buf 0).value := by
  have owner := careful kind named
  rw [handleIn_eq buffer] at owner
  rw [inv.handleOf_ownTable]
  rcases found : handleOf s.fs.files (Files.reqU64 view buf 0).value with _ | entry
  · rw [inv.nobody found]
  · obtain ⟨known, owned⟩ := Option.isSome_iff_exists.mp (owner (by simp [found]))
    rw [owned, ← inv.named _ _ _ owned, found]

/-- While clients use their own handles only: a handle names to a client the file that it opened,
until it closes it or leaves; no handle belongs to two clients; and reads and closes come out as
if the client were alone. -/
theorem handles_private {objects : Nat → MemoryObject} {h : Host} {actions : List Fs.Action}
    {s : Sessions} (run : Run (Guarded Careful (Step objects)) (start h) actions s) :
    (∀ task handle entry, own s.events task handle = some entry →
      handleOf s.fs.files handle = some entry) ∧
    (∀ task task' handle, (own s.events task handle).isSome →
      (own s.events task' handle).isSome → task = task') ∧
    ∀ m view vol, m.kind = .request →
      m.request.op = Files.READ ∨ m.request.op = Files.CLOSE →
      s.Careful (.message m view vol) →
      (dispatch vol view s.fs.server s.fs.files m.request).value.1 =
        (dispatch vol view s.fs.server (ownTable s.events m.sender) m.request).value.1 ∧
      (dispatch vol view s.fs.server s.fs.files m.request).spans =
        (dispatch vol view s.fs.server (ownTable s.events m.sender) m.request).spans := by
  have inv : s.Inv := run.invariant Inv (inv_start h) fun _ _ _ inv ran =>
    inv.step ran.1 ran.2
  refine ⟨inv.named, inv.single, fun m view vol kind named careful => ?_⟩
  exact Files.dispatch_congr vol named fun buf buffer => inv.answers kind named careful buffer

/-! ## Two clients and one file -/

def apply (objects : Nat → MemoryObject) (s : Sessions) : Fs.Action → Option Sessions
  | .message m view vol =>
    (s.fs.handle objects m view vol).map fun fs => ⟨fs, s.events ++ (s.event m view vol).toList⟩
  | .elsewhere _ => none

theorem step_of_apply (applied : s.apply objects a = some s') : Step objects s a s' := by
  cases a with
  | message m view vol =>
    obtain ⟨fs, handled, rfl⟩ := Option.map_eq_some_iff.mp applied
    exact .message handled
  | elsewhere fr => cases applied

instance careful_decidable (s : Sessions) (a : Fs.Action) : Decidable (s.Careful a) :=
  match a with
  | .message _ _ _ => inferInstanceAs (Decidable (_ → _ → _ → _))
  | .elsewhere _ => .isTrue trivial

def someFile : Files.DirEntry := ⟨0x20, 4, 2⟩

def oneFile : Files.Volume := { emptyVolume with
  splitParent _ := some 0
  lookup _ _ := .ok (some someFile) }

def block (base : Nat) (words : Fin 4 → Nat) : Memory :=
  ((((Memory.store64 (fun _ => 0) base (words 0)).store64 (base + 8) (words 1)).store64
    (base + 16) (words 2)).store64 (base + 24) (words 3))

def bufferAt (i : Nat) : Nat := USER_MMAP_BASE + i * 8192

def registers (task i : Nat) : Fs.Action :=
  .message (registering task 1 i) (fun _ => 0) oneFile

def opens (task i : Nat) : Fs.Action :=
  .message (asking task 3 32 0) (block (bufferAt i) ![200, 1, 0, 0]) oneFile

def reading (i handle : Nat) : Memory := block (bufferAt i) ![handle, 0, 256, 4]

def reads (task i handle : Nat) : Fs.Action :=
  .message (asking task 4 32 4) (reading i handle) oneFile

def closes (task i handle : Nat) : Fs.Action :=
  .message (asking task 7 32 0) (block (bufferAt i) ![handle, 0, 0, 0]) oneFile

theorem clients_with_a_file_each :
    ∃ actions s, Run (Guarded Careful (Step twoPages)) (start bareHost) actions s ∧
      own s.events 5 3 = some someFile ∧ own s.events 6 2 = some someFile ∧
      (dispatch oneFile (reading 0 3) s.fs.server s.fs.files
          (asking 5 4 32 4).request).value.1 = ⟨.ok, 4, 0⟩ ∧
      (dispatch oneFile (reading 0 3) s.fs.server s.fs.files
          (asking 5 4 32 4).request).value.1 =
        (dispatch oneFile (reading 0 3) s.fs.server (ownTable s.events 5)
          (asking 5 4 32 4).request).value.1 := by
  have eval : ([registers 5 0, opens 5 0, registers 6 1, opens 6 1, opens 5 0,
      reads 5 0 1, closes 5 0 1, reads 6 1 2].foldlM (fun (s : Sessions) a =>
        if s.Careful a then s.apply twoPages a else none) (start bareHost)).any fun s : Sessions =>
      decide (own s.events 5 3 = some someFile ∧ own s.events 6 2 = some someFile ∧
        s.Careful (reads 5 0 3) ∧
        (dispatch oneFile (reading 0 3) s.fs.server s.fs.files
          (asking 5 4 32 4).request).value.1 = ⟨.ok, 4, 0⟩) := by
    decide +kernel
  obtain ⟨s, replayed, first, second, careful, read⟩ := exists_of_any eval
  have run : Run (Guarded Careful (Step twoPages)) (start bareHost) _ s :=
    (guarded_of_replay replayed).mono fun _ _ _ ran => ⟨ran.1, step_of_apply ran.2⟩
  exact ⟨_, s, run, first, second, read,
    ((handles_private run).2.2 _ _ _ (by decide) (by decide) careful).1⟩

/-- Client 5 opens a file. Client 6, which has opened none, reads it and closes it,
and then the handle is a bad one to client 5. -/
theorem handle_of_another_client :
    ∃ actions s, Run (Step twoPages) (start bareHost) actions s ∧
      own s.events 5 1 = some someFile ∧ own s.events 6 1 = none ∧
      (dispatch oneFile (reading 1 1) s.fs.server s.fs.files
          (asking 6 4 32 4).request).value.1 = ⟨.ok, 4, 0⟩ ∧
      ∃ s', Run (Step twoPages) s [closes 6 1 1] s' ∧ own s'.events 5 1 = some someFile ∧
        (dispatch oneFile (reading 0 1) s'.fs.server s'.fs.files
          (asking 5 4 32 4).request).value.1 = .error .badf := by
  have eval : ([registers 5 0, opens 5 0, registers 6 1].foldlM (apply twoPages)
      (start bareHost)).any fun s : Sessions =>
        decide (own s.events 5 1 = some someFile ∧ own s.events 6 1 = none ∧
          (dispatch oneFile (reading 1 1) s.fs.server s.fs.files
            (asking 6 4 32 4).request).value.1 = ⟨.ok, 4, 0⟩ ∧
          (s.apply twoPages (closes 6 1 1)).any fun s' =>
            decide (own s'.events 5 1 = some someFile ∧
              (dispatch oneFile (reading 0 1) s'.fs.server s'.fs.files
                (asking 5 4 32 4).request).value.1 = .error .badf)) := by
    decide +kernel
  obtain ⟨s, replayed, owned, unowned, read, after⟩ := exists_of_any eval
  obtain ⟨s', closed, owned', bad⟩ := exists_of_any after
  have run : Run (Step twoPages) (start bareHost) _ s :=
    (run_of_replay replayed).mono fun _ _ _ => step_of_apply
  exact ⟨_, s, run, owned, unowned, read, s', .snoc .nil (step_of_apply closed), owned', bad⟩

end Sessions

end K1K.Service
