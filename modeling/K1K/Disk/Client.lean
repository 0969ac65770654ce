import K1K.Disk.Contents

/-!
# Files over the protocol

`op_read` of `user/svc/fs/src/serve.rs` on the client's buffer, and `read` and `read_all` of
`user/rt/src/file.rs`. The memory is the file service's; the client sees its buffer as the `len`
bytes from `start` on. What the service does for others in between is a parameter that leaves
this buffer, the open file and the cache in order.
-/

namespace K1K.Disk

open K1K.Lib K1K.Service K1K.Service.Files

/-! ## The request -/

def SCRATCH : Nat := 16 * 4096

structure Session where
  srv : Server
  files : Handles
  fat : Fat
  mem : Memory

section Serving

variable (profile : Overflow) (dev : Device)

def opRead (mem : Memory) (files : Handles) (buf : Span) (fat : Fat) :
    Option (Reply × Memory × Fat) :=
  let word := fun i => (reqU64 mem buf i).value
  if word 3 = 0 then some (⟨.ok, 0, 0⟩, mem, fat)
  else if word 3 > MAX_READ then some (.error .toobig, mem, fat)
  else
    match handleOf files (word 0) with
    | none => some (.error .badf, mem, fat)
    | some entry =>
      match reqBytes buf (word 2) (word 3) with
      | none => some (.error .nospc, mem, fat)
      | some dst =>
        match readAt profile dev entry (word 1) SCRATCH (mem.read dst.start dst.len) fat with
        | none => none
        | some (.ok n, out, fat) => some (⟨.ok, n, 0⟩, mem.write dst.start out, fat)
        | some (.error _, out, fat) => some (.error .io, mem.write dst.start out, fat)

def Session.serveRead (s : Session) (req : Request) : Option (Reply × Session) :=
  if req.reqLen = 0 ∨ req.reqLen > REQ_MAX then some (.error .inval, s)
  else
    match s.srv.clientBuffer req.client with
    | none => some (.error .noconn, s)
    | some buf =>
      if buf.len < DATA_OFF then some (.error .nospc, s)
      else
        (opRead profile dev s.mem s.files buf s.fat).map fun done =>
          (done.1, { s with mem := done.2.1, fat := done.2.2 })

end Serving

/-! ## The client -/

inductive Error where
  | noMem
  | inval
  deriving DecidableEq, Repr

/-- Where other clients may come in between: before the request, before it is
served, and before the client looks at the answer. -/
inductive Phase where
  | idle
  | sent
  | answered
  deriving DecidableEq, Repr

def putWords (mem : Memory) (start : Nat) (words : List Nat) : Memory :=
  (words.zipIdx).foldl (fun mem pair => mem.store64 (start + (REQ_OFF + pair.2 * 8)) pair.1) mem

section Reading

variable (profile : Overflow) (dev : Device) (others : Nat → Phase → Session → Session)
  (task start len : Nat)

def request (turn : Nat) (words : List Nat) (want : Nat) (s : Session) :
    Option (Except Error Reply × Session) :=
  if REQ_OFF + 32 > len then some (.error .noMem, s)
  else
    let s := others turn .idle s
    let s := others turn .sent { s with mem := putWords s.mem start words }
    match s.serveRead profile dev ⟨READ, 32, want, task, none⟩ with
    | none => none
    | some (reply, s) => some (.ok reply, others turn .answered s)

def read (turn file offset size : Nat) (s : Session) :
    Option (Except Error (List Byte) × Session) :=
  if size = 0 then some (.ok [], s)
  else if DATA_OFF + min size MAX_READ > len then some (.error .noMem, s)
  else
    let count := min size MAX_READ
    match request profile dev others task start len turn [file, offset, DATA_OFF, count] count
        s with
    | none => none
    | some (.error e, s) => some (.error e, s)
    | some (.ok reply, s) =>
      if reply.status ≠ .ok then some (.error .inval, s)
      else some (.ok (s.mem.read (start + DATA_OFF) (min reply.arg0 count)), s)

def readAll (file : Nat) :
    Nat → Nat → Nat → List Byte → Session → Option (Except Error Nat × List Byte × Session)
  | 0, _, _, _, _ => none
  | fuel + 1, turn, off, out, s =>
    match read profile dev others task start len turn file off 1024 s with
    | none => none
    | some (.error e, s) => some (.error e, out, s)
    | some (.ok bytes, s) =>
      if bytes.length = 0 then some (.ok off, out, s)
      else readAll file fuel (turn + 1) (off + bytes.length) (out ++ bytes) s

end Reading

/-! ## What a read request does -/

variable {profile : Overflow} {dev : Device} {disk : Memory} {geo : Geometry} {fat : Fat}
  {entry : DirEntry} {clusters : List (BitVec 32)} {s s' : Session} {buf : Span} {mem : Memory}
  {files : Handles}

def part (disk : Memory) (geo : Geometry) (clusters : List (BitVec 32)) (size offset count : Nat) :
    List Byte :=
  ((contents disk geo clusters size).drop offset).take count

theorem write_patch (addr count : Nat) (piece : List Byte) :
    mem.write addr (patch (mem.read addr count) 0 piece) = mem.write addr piece := by
  funext a
  rw [mem.write_apply, mem.write_apply]
  split
  next above =>
    obtain ⟨i, rfl⟩ := Nat.exists_eq_add_of_le above
    rw [Nat.add_sub_cancel_left, patch, List.take_zero, List.nil_append, Nat.zero_add]
    rcases Nat.lt_or_ge i piece.length with lt | beyond
    · rw [List.getD_append _ _ _ _ lt]
    rw [List.getD_append_right _ _ _ _ beyond, List.getD_eq_default piece _ beyond,
      List.getD_eq_getElem?_getD, List.getElem?_drop, Nat.add_sub_cancel' beyond, Memory.read,
      List.getElem?_map]
    rcases Nat.lt_or_ge i count with kept | past
    · simp [kept]
    · simp [past]
  next => rfl

theorem opRead_reads (profile : Overflow) (reads : Reads dev disk) (sound : geo.Sound)
    (small : geo.size ≤ SCRATCH) (chain : Chain disk geo entry clusters)
    (ready : Ready disk geo fat) {handle offset dest count : Nat}
    (words : [handle, offset, dest, count] = (List.range 4).map fun i => (reqU64 mem buf i).value)
    (file : handleOf files handle = some entry) (short : count ≤ MAX_READ)
    (fits : dest + count ≤ buf.len) (usize : buf.len < 2 ^ 64) :
    ∃ fat', opRead profile dev mem files buf fat =
        some (⟨.ok, (part disk geo clusters entry.size offset count).length, 0⟩,
          mem.write (buf.start + dest) (part disk geo clusters entry.size offset count), fat') ∧
      Ready disk geo fat' := by
  simp only [List.range_succ, List.range_zero, List.nil_append, List.cons_append, List.map_cons,
    List.map_nil, List.cons.injEq, and_true] at words
  obtain ⟨word₀, word₁, word₂, word₃⟩ := words
  simp only [opRead, ← word₀, ← word₁, ← word₂, ← word₃]
  split
  next none =>
    refine ⟨fat, ?_, ready⟩
    simp [none, part]
  have target : reqBytes buf dest count = some ⟨buf.start + dest, count⟩ := by
    rw [reqBytes, if_neg (by omega), if_neg (by omega)]
  obtain ⟨fat', copied, ready'⟩ := readAt_reads profile reads sound chain ready offset small
    (mem.read (buf.start + dest) count)
  rw [mem.length_read] at copied
  refine ⟨fat', ?_, ready'⟩
  rw [if_neg (Nat.not_lt.mpr short), file]
  simp only [target, copied, write_patch]
  rfl

theorem serveRead_reads (profile : Overflow) (reads : Reads dev disk) (sound : geo.Sound)
    (small : geo.size ≤ SCRATCH) (chain : Chain disk geo entry clusters)
    (ready : Ready disk geo s.fat) (req : Request) {handle offset dest count : Nat}
    (length : 0 < req.reqLen ∧ req.reqLen ≤ REQ_MAX)
    (buffer : s.srv.clientBuffer req.client = some buf) (wide : DATA_OFF ≤ buf.len)
    (words : [handle, offset, dest, count] = (List.range 4).map fun i => (reqU64 s.mem buf i).value)
    (file : handleOf s.files handle = some entry) (short : count ≤ MAX_READ)
    (fits : dest + count ≤ buf.len) (usize : buf.len < 2 ^ 64) :
    ∃ fat', s.serveRead profile dev req =
        some (⟨.ok, (part disk geo clusters entry.size offset count).length, 0⟩,
          { s with
            mem := s.mem.write (buf.start + dest) (part disk geo clusters entry.size offset count)
            fat := fat' }) ∧
      Ready disk geo fat' := by
  obtain ⟨fat', stored, ready'⟩ := opRead_reads profile reads sound small chain ready words file
    short fits usize
  refine ⟨fat', ?_, ready'⟩
  rw [Session.serveRead, if_neg (by omega), buffer]
  simp only [if_neg (Nat.not_lt.mpr wide), stored, Option.map_some]

/-! ## What a client gets -/

structure Serving (disk : Memory) (geo : Geometry) (task start len handle : Nat) (entry : DirEntry)
    (s : Session) : Prop where
  buffer : s.srv.clientBuffer task = some ⟨start, len⟩
  file : handleOf s.files handle = some entry
  ready : Ready disk geo s.fat

structure Respects (disk : Memory) (geo : Geometry) (task start len handle : Nat) (entry : DirEntry)
    (step : Session → Session) : Prop where
  serving : ∀ s, Serving disk geo task start len handle entry s →
    Serving disk geo task start len handle entry (step s)
  mem : ∀ s, Serving disk geo task start len handle entry s → ∀ i < len,
    (step s).mem (start + i) = s.mem (start + i)

theorem reqU64_putWords {start len : Nat} {first second third fourth : Nat} {after : Memory}
    (room : 32 ≤ len) (u64 : first < 2 ^ 64 ∧ second < 2 ^ 64 ∧ third < 2 ^ 64 ∧ fourth < 2 ^ 64)
    (kept : ∀ i < 32, after (start + i) =
      putWords mem start [first, second, third, fourth] (start + i)) :
    [first, second, third, fourth] =
      (List.range 4).map fun i => (reqU64 after ⟨start, len⟩ i).value := by
  have block : ∀ i < 4, (reqU64 after ⟨start, len⟩ i).value =
      (putWords mem start [first, second, third, fourth]).load64 (start + i * 8) := by
    intro i small
    have le : ¬REQ_OFF + i * 8 + 8 > len := by
      simp only [REQ_OFF]
      omega
    rw [reqU64, if_neg le]
    simp only [Traced.value_bind, Traced.value_pure, REQ_OFF, Nat.zero_add]
    refine Memory.load64_congr fun a above below => ?_
    obtain ⟨k, rfl⟩ := Nat.exists_eq_add_of_le (show start ≤ a by omega)
    exact kept k (by omega)
  simp only [List.range_succ, List.range_zero, List.nil_append, List.cons_append, List.map_cons,
    List.map_nil, block 0 (by decide), block 1 (by decide), block 2 (by decide),
    block 3 (by decide)]
  simp only [putWords, List.zipIdx_cons, List.zipIdx_nil, List.foldl_cons, List.foldl_nil, REQ_OFF]
  simp only [Nat.zero_mul, Nat.add_zero, Nat.zero_add, Nat.reduceAdd, Nat.reduceMul]
  obtain ⟨u64₁, u64₂, u64₃, u64₄⟩ := u64
  rw [Memory.load64_store64_apart _ (by omega), Memory.load64_store64_apart _ (by omega),
    Memory.load64_store64_apart _ (by omega), Memory.load64_store64_same _ u64₁,
    Memory.load64_store64_apart _ (by omega), Memory.load64_store64_apart _ (by omega),
    Memory.load64_store64_same _ u64₂, Memory.load64_store64_apart _ (by omega),
    Memory.load64_store64_same _ u64₃, Memory.load64_store64_same _ u64₄]

section Client

variable {others : Nat → Phase → Session → Session} {task start len handle : Nat}

theorem length_part_le (disk : Memory) (geo : Geometry) (clusters : List (BitVec 32))
    (size offset count : Nat) : (part disk geo clusters size offset count).length ≤ count := by
  rw [part, List.length_take]
  exact Nat.min_le_left _ _

theorem read_write (mem : Memory) {addr : Nat} {bytes : List Byte} {after : Memory}
    (kept : ∀ i < bytes.length, after (addr + i) = mem.write addr bytes (addr + i)) :
    after.read addr bytes.length = bytes := by
  refine List.ext_getElem (after.length_read _ _) fun i lt inside' => ?_
  have here := kept i inside'
  rw [mem.write_apply, if_pos (Nat.le_add_right _ _), Nat.add_sub_cancel_left] at here
  simpa [Memory.read, inside'] using here

variable (profile) (reads : Reads dev disk) (sound : geo.Sound) (small : geo.size ≤ SCRATCH)
  (chain : Chain disk geo entry clusters)
  (respects : ∀ turn phase, Respects disk geo task start len handle entry (others turn phase))
  (u32 : handle < 2 ^ 32)
include reads sound small chain respects u32

theorem request_reads (turn : Nat) {offset count : Nat} (room : DATA_OFF + count ≤ len)
    (usize : len < 2 ^ 64) (short : count ≤ MAX_READ) (u64 : offset < 2 ^ 64)
    (serving : Serving disk geo task start len handle entry s) :
    ∃ s', request profile dev others task start len turn [handle, offset, DATA_OFF, count] count s =
        some (.ok ⟨.ok, (part disk geo clusters entry.size offset count).length, 0⟩, s') ∧
      Serving disk geo task start len handle entry s' ∧
      s'.mem.read (start + DATA_OFF) (part disk geo clusters entry.size offset count).length =
        part disk geo clusters entry.size offset count := by
  simp only [DATA_OFF] at room ⊢
  have idle := (respects turn .idle).serving s serving
  generalize begun : others turn .idle s = s₁ at idle
  have put : Serving disk geo task start len handle entry
      { s₁ with mem := putWords s₁.mem start [handle, offset, 128, count] } :=
    ⟨idle.buffer, idle.file, idle.ready⟩
  have sent := (respects turn .sent).serving _ put
  have kept := (respects turn .sent).mem _ put
  generalize asked : others turn .sent
    { s₁ with mem := putWords s₁.mem start [handle, offset, 128, count] } = s₂ at sent kept
  have block : ∀ i < 32, s₂.mem (start + i) =
      putWords s₁.mem start [handle, offset, 128, count] (start + i) :=
    fun i lt => kept i (by omega)
  have words := reqU64_putWords (show 32 ≤ len by omega) ⟨by omega, u64, by decide, by omega⟩ block
  obtain ⟨fat', stored, ready'⟩ := serveRead_reads profile reads sound small chain sent.ready
    ⟨READ, 32, count, task, none⟩ (show 0 < 32 ∧ 32 ≤ REQ_MAX by decide) sent.buffer
    (by simp only [DATA_OFF]; omega) words sent.file short room usize
  have served : Serving disk geo task start len handle entry
      { s₂ with
        mem := s₂.mem.write (start + 128) (part disk geo clusters entry.size offset count)
        fat := fat' } :=
    ⟨sent.buffer, sent.file, ready'⟩
  refine ⟨_, ?_, (respects turn .answered).serving _ served, read_write s₂.mem fun i lt => ?_⟩
  · rw [request, if_neg (by simp only [REQ_OFF]; omega)]
    simp only [begun, asked, stored]
  · have bounded := length_part_le disk geo clusters entry.size offset count
    rw [Nat.add_assoc]
    exact (respects turn .answered).mem _ served (128 + i) (by omega)

theorem read_reads (turn offset size : Nat) (room : DATA_OFF + min size MAX_READ ≤ len)
    (usize : len < 2 ^ 64) (u64 : offset < 2 ^ 64)
    (serving : Serving disk geo task start len handle entry s) :
    ∃ s', read profile dev others task start len turn handle offset size s =
        some (.ok (part disk geo clusters entry.size offset (min size MAX_READ)), s') ∧
      Serving disk geo task start len handle entry s' := by
  rw [read]
  split
  next none =>
    refine ⟨s, ?_, serving⟩
    simp [none, part]
  rw [if_neg (Nat.not_lt.mpr room)]
  obtain ⟨s', answered, serving', got⟩ := request_reads profile reads sound small chain respects
    u32 turn room usize (Nat.min_le_right _ _) u64 serving
  refine ⟨s', ?_, serving'⟩
  have whole := Nat.min_eq_left (length_part_le disk geo clusters entry.size offset
    (min size MAX_READ))
  simp only [answered, ne_eq, not_true_eq_false, if_false, whole, got]

theorem readAll_reads (room : DATA_OFF + 1024 ≤ len) (usize : len < 2 ^ 64) (fuel : Nat) :
    ∀ turn off out s, off ≤ entry.size → entry.size - off < fuel →
      Serving disk geo task start len handle entry s →
      ∃ s', readAll profile dev others task start len handle fuel turn off out s =
          some (.ok entry.size, out ++ (contents disk geo clusters entry.size).drop off, s') ∧
        Serving disk geo task start len handle entry s' := by
  have size := chain.u32
  have length := length_contents chain
  induction fuel with
  | zero =>
    intro turn off out s _ none
    omega
  | succ fuel ih =>
    intro turn off out s lt enough serving
    obtain ⟨s₁, got, serving₁⟩ := read_reads profile reads sound small chain respects u32 turn
      off 1024 room usize (by omega) serving
    have front : part disk geo clusters entry.size off 1024 ++
        (contents disk geo clusters entry.size).drop
          (off + (part disk geo clusters entry.size off 1024).length) =
        (contents disk geo clusters entry.size).drop off := by
      rw [← List.drop_drop]
      exact List.prefix_iff_eq_append.mp (List.take_prefix _ _)
    have many : (part disk geo clusters entry.size off 1024).length =
        min 1024 (entry.size - off) := by
      rw [part, List.length_take, List.length_drop, length]
    rw [readAll, got]
    simp only [show min 1024 MAX_READ = 1024 by decide]
    split
    next done =>
      obtain rfl : off = entry.size := by omega
      refine ⟨s₁, ?_, serving₁⟩
      rw [List.drop_eq_nil_of_le (Nat.le_of_eq length), List.append_nil]
    next more =>
      obtain ⟨s', rest, serving'⟩ := ih (turn + 1)
        (off + (part disk geo clusters entry.size off 1024).length)
        (out ++ part disk geo clusters entry.size off 1024) s₁ (by omega) (by omega) serving₁
      refine ⟨s', ?_, serving'⟩
      rw [rest, List.append_assoc, front]

end Client

def smallDisk : Memory := fun a =>
  if a = 510 then 0x55 else if a = 511 then 0xAA
  else if a = 12 then 2 else if a = 13 then 1 else if a = 14 then 1 else if a = 16 then 1
  else if a = 17 then 16 else if a = 19 then 10 else if a = 22 then 1
  else if a = 515 then 3
  else if a < 1536 then 0 else BitVec.ofNat 8 a

def smallDevice : Device := fun lba count => .ok (smallDisk.read (lba * 512) (count * 512))

def smallGeometry : Geometry := ⟨.fat12, 512, 1, 1, 2, 16, 3, 0, 7⟩

def smallVolume : Fat := ⟨smallGeometry, List.replicate 512 0, NOTHING⟩

def smallEntry : DirEntry := ⟨0x20, 600, 2⟩

theorem smallVolume_mounted : (mount .panics smallDevice).run = some (.ok smallVolume) := by
  decide +kernel

theorem smallEntry_chain : Chain smallDisk smallGeometry smallEntry [2, 3] where
  first _ := by decide
  linked i c c' here there := by
    match i with
    | 0 =>
      cases here
      cases there
      decide +kernel
    | i + 1 => simp at there
  inside c member := by
    simp only [List.mem_cons, List.not_mem_nil, or_false] at member
    rcases member with rfl | rfl
    · decide
    · decide
  enough := by decide +kernel
  u32 := by decide

local instance clients_neZero : NeZero MAX_CLIENTS := ⟨by decide⟩

def smallSession : Session where
  srv := ⟨fun i => if i = 0 then some ⟨7, none, none, some 4096, 8192⟩ else none, 0⟩
  files := [some smallEntry]
  fat := smallVolume
  mem := putWords (fun _ => 0) 4096 [1, 100, 128, 600]

end K1K.Disk
