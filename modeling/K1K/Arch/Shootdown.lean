import K1K.Arch.Ipi

/-!
# Shootdowns

The request last acknowledged by a CPU is older than one in its handler, that than one in its
slot, and none is newer than the CPU's counter. Only the holder of the broadcast lock moves a
counter, so an acknowledgement that reaches a waiting sender's number is for its own request.
-/

namespace K1K.Arch

open Function (update)

@[simp] def Handler.pending? : Handler → Option Pending
  | .idle => none
  | .taken pending => some pending
  | .flushed pending => some pending

namespace State

variable {Call : Type*} [DecidableEq Call]

/-! ## The requests of one CPU -/

structure CpuInv (s : State Call) (cpu : Nat) : Prop where
  done_le : s.done cpu ≤ s.seq cpu
  slot_newer : ∀ p, s.slot cpu = some p → s.done cpu < p.seq ∧ p.seq ≤ s.seq cpu
  handler_newer : ∀ p, (s.handler cpu).pending? = some p →
    s.done cpu < p.seq ∧ p.seq ≤ s.seq cpu
  ordered : ∀ p q, (s.handler cpu).pending? = some p → s.slot cpu = some q → p.seq < q.seq

structure Fresh (s : State Call) (cpu seq : Nat) : Prop where
  newest : s.seq cpu = seq
  undone : s.done cpu < seq
  slot : ∀ p, s.slot cpu = some p → p.seq < seq
  handler : ∀ p, (s.handler cpu).pending? = some p → p.seq < seq

def Performed (s : State Call) (call : Call) (req : Request) (cpu : Nat) : Prop :=
  ∀ part ∈ req.parts, .performed cpu part ∈ s.since call

def Executed (s : State Call) (call : Call) (req : Request) (cpu seq : Nat) : Prop :=
  .executed cpu ⟨seq, req⟩ ∈ s.since call ∧ s.Performed call req cpu

def Asked (s : State Call) (call : Call) (req : Request) (cpu seq : Nat) : Prop :=
  s.seq cpu = seq ∧
    (s.done cpu < seq ∧ (s.slot cpu = some ⟨seq, req⟩ ∨ s.handler cpu = .taken ⟨seq, req⟩) ∨
      s.Executed call req cpu seq)

variable {s t : State Call} {call other : Call} {req : Request} {cpu seq : Nat}

omit [DecidableEq Call] in
theorem Asked.executed_of_done (asked : s.Asked call req cpu seq)
    (acknowledged : s.done cpu ≥ seq) : s.Executed call req cpu seq := by
  rcases asked.2 with ⟨undone, -⟩ | executed
  · exact absurd acknowledged (Nat.not_le.mpr undone)
  · exact executed

omit [DecidableEq Call] in
theorem Performed.mono (performed : s.Performed call req cpu)
    (since : s.since call ⊆ t.since call) : t.Performed call req cpu :=
  fun part mem => since (performed part mem)

omit [DecidableEq Call] in
theorem Executed.mono (executed : s.Executed call req cpu seq)
    (since : s.since call ⊆ t.since call) : t.Executed call req cpu seq :=
  ⟨since executed.1, executed.2.mono since⟩

/-! ## Where a sender is -/

def Published (s : State Call) (call : Call) (req : Request) (targets : List (Nat × Nat)) : Prop :=
  ∀ cpu seq, (cpu, seq) ∈ targets → s.Asked call req cpu seq

structure Covering (s : State Call) (call : Call) (req : Request) (me next bound : Nat)
    (targets : List (Nat × Nat)) : Prop where
  held : s.lock = some call
  performed : s.Performed call req me
  bound : ∀ cpu ∈ s.onlineAt call, cpu < bound
  covered : ∀ cpu ∈ s.onlineAt call, cpu < next → cpu = me ∨ ∃ seq, (cpu, seq) ∈ targets
  below : ∀ cpu seq, (cpu, seq) ∈ targets → cpu < next
  published : s.Published call req targets

structure Awaiting (s : State Call) (call : Call) (req : Request)
    (counted rest : List (Nat × Nat)) : Prop where
  held : s.lock = some call
  covered : ∀ cpu ∈ s.onlineAt call,
    s.Performed call req cpu ∨ ∃ seq, (cpu, seq) ∈ counted ++ rest
  published : s.Published call req (counted ++ rest)
  executed : ∀ cpu seq, (cpu, seq) ∈ counted → s.Executed call req cpu seq

def PosInv (s : State Call) (call : Call) : Sending → Prop
  | .idle => True
  | .flushing req rest => ∃ before, req.parts = before ++ rest ∧
      ∀ part ∈ before, .performed (s.place call) part ∈ s.since call
  | .locking req => s.Performed call req (s.place call)
  | .reading req => s.lock = some call ∧ s.Performed call req (s.place call)
  | .counting req me => s.lock = some call ∧ s.Performed call req me
  | .publishing req me next bound targets => s.Covering call req me next bound targets
  | .storing req me next bound targets seq =>
      s.Covering call req me next bound targets ∧ s.Fresh next seq
  | .waiting req counted rest => s.Awaiting call req counted rest
  | .returned req answered => answered = true →
      ∀ cpu ∈ s.onlineAt call, s.Performed call req cpu

structure Inv (s : State Call) : Prop where
  cpus : ∀ cpu, s.CpuInv cpu
  calls : ∀ call, s.PosInv call (s.pos call)
  online : ∀ call, ∀ cpu ∈ s.onlineAt call, cpu ∈ s.online

structure Frame (s t : State Call) (call : Call) : Prop where
  since : s.since call ⊆ t.since call
  onlineAt : t.onlineAt call = s.onlineAt call
  lock : s.lock = some call → t.lock = some call
  asked : s.lock = some call → ∀ req cpu seq, s.Asked call req cpu seq →
    t.Asked call req cpu seq
  fresh : s.lock = some call → ∀ cpu seq, s.Fresh cpu seq → t.Fresh cpu seq

variable {me next bound : Nat} {targets : List (Nat × Nat)} {position : Sending}

omit [DecidableEq Call] in
theorem Covering.frame
    (covering : s.Covering call req me next bound targets) (frame : Frame s t call) :
    t.Covering call req me next bound targets where
  held := frame.lock covering.held
  performed := covering.performed.mono frame.since
  bound := frame.onlineAt ▸ covering.bound
  covered := frame.onlineAt ▸ covering.covered
  below := covering.below
  published cpu seq member :=
    frame.asked covering.held req cpu seq (covering.published cpu seq member)

omit [DecidableEq Call] in
theorem PosInv.frame (inv : s.PosInv call position) (frame : Frame s t call)
    (place : InWindow position → t.place call = s.place call) : t.PosInv call position := by
  cases position with
  | idle => trivial
  | flushing req rest =>
    obtain ⟨was, split, performed⟩ := inv
    refine ⟨was, split, fun part mem => ?_⟩
    rw [place rfl]
    exact frame.since (performed part mem)
  | locking req =>
    rw [PosInv, place rfl]
    exact Performed.mono inv frame.since
  | reading req =>
    rw [PosInv, place rfl]
    exact ⟨frame.lock inv.1, inv.2.mono frame.since⟩
  | counting req me => exact ⟨frame.lock inv.1, inv.2.mono frame.since⟩
  | publishing req me next bound targets => exact Covering.frame inv frame
  | storing req me next bound targets seq =>
    exact ⟨inv.1.frame frame, frame.fresh inv.1.held next seq inv.2⟩
  | waiting req counted rest =>
    refine ⟨frame.lock inv.held, ?_, ?_, ?_⟩
    · intro cpu mem
      rw [frame.onlineAt] at mem
      rcases inv.covered cpu mem with performed | target
      · exact .inl (performed.mono frame.since)
      · exact .inr target
    · exact fun cpu seq mem =>
        frame.asked inv.held req cpu seq (inv.published cpu seq mem)
    · exact fun cpu seq mem => (inv.executed cpu seq mem).mono frame.since
  | returned req answered =>
    intro pos cpu mem
    rw [frame.onlineAt] at mem
    exact (inv pos cpu mem).mono frame.since

omit [DecidableEq Call] in
theorem Frame.of_cpus (since : s.since call ⊆ t.since call)
    (onlineAt : t.onlineAt call = s.onlineAt call)
    (lock : s.lock = some call → t.lock = some call) (seq : t.seq = s.seq)
    (done : t.done = s.done) (slot : t.slot = s.slot) (handler : t.handler = s.handler) :
    Frame s t call where
  since := since
  onlineAt := onlineAt
  lock := lock
  asked _ req cpu number asked := by
    rcases asked with ⟨newest, waiting | executed⟩
    · exact ⟨by rw [seq, newest], .inl (by rwa [done, slot, handler])⟩
    · exact ⟨by rw [seq, newest], .inr (executed.mono since)⟩
  fresh _ cpu number fresh := by
    refine ⟨?_, ?_, ?_, ?_⟩
    · rw [seq, fresh.newest]
    · rw [done]
      exact fresh.undone
    · rw [slot]
      exact fresh.slot
    · rw [handler]
      exact fresh.handler

omit [DecidableEq Call] in
theorem Frame.of_holder (held : s.lock = some other) (ne : call ≠ other)
    (since : s.since call ⊆ t.since call) (onlineAt : t.onlineAt call = s.onlineAt call) :
    Frame s t call where
  since := since
  onlineAt := onlineAt
  lock mine := absurd (Option.some.inj (mine.symm.trans held)) ne
  asked mine := absurd (Option.some.inj (mine.symm.trans held)) ne
  fresh mine := absurd (Option.some.inj (mine.symm.trans held)) ne

omit [DecidableEq Call] in
theorem CpuInv.congr (inv : s.CpuInv cpu) (seq : t.seq cpu = s.seq cpu)
    (done : t.done cpu = s.done cpu) (slot : t.slot cpu = s.slot cpu)
    (handler : t.handler cpu = s.handler cpu) : t.CpuInv cpu where
  done_le := by rw [done, seq]; exact inv.done_le
  slot_newer := by rw [done, seq, slot]; exact inv.slot_newer
  handler_newer := by rw [done, seq, handler]; exact inv.handler_newer
  ordered := by rw [slot, handler]; exact inv.ordered

/-! ## What a CPU's handler does -/

omit [DecidableEq Call] in
theorem Inv.cpuStep (inv : s.Inv) (cpus : ∀ cpu, t.CpuInv cpu) (pos : t.pos = s.pos)
    (place : t.place = s.place) (online : t.online = s.online)
    (onlineAt : t.onlineAt = s.onlineAt) (frames : ∀ call, Frame s t call) : t.Inv where
  cpus := cpus
  calls call := by
    rw [pos]
    exact (inv.calls call).frame (frames call) fun _ => by rw [place]
  online := by
    rw [online, onlineAt]
    exact inv.online

omit [DecidableEq Call] in
theorem Inv.take (inv : s.Inv) {pending : Pending} (idle : s.handler cpu = .idle)
    (slot : s.slot cpu = some pending) : Inv { s with
      slot := update s.slot cpu none
      handler := update s.handler cpu (.taken pending) } := by
  refine inv.cpuStep (fun c => ?_) rfl rfl rfl rfl fun call =>
    ⟨List.Subset.refl _, rfl, id, fun _ req c seq asked => ?_, fun _ c seq fresh => ?_⟩
  · by_cases eq : c = cpu
    · subst eq
      refine ⟨(inv.cpus c).done_le, by simp, ?_, by simp⟩
      rintro p taken
      obtain rfl : pending = p := by simpa using taken
      exact (inv.cpus c).slot_newer pending slot
    · exact (inv.cpus c).congr rfl rfl (by simp [eq]) (by simp [eq])
  · by_cases eq : c = cpu
    · subst eq
      rcases asked with ⟨newest, ⟨undone, here | taken⟩ | executed⟩
      · have same : pending = ⟨seq, req⟩ := Option.some.inj (slot.symm.trans here)
        exact ⟨newest, .inl ⟨undone, .inr (by simp [same])⟩⟩
      · simp [idle] at taken
      · exact ⟨newest, .inr executed⟩
    · simpa [Asked, eq, Executed, Performed] using asked
  · by_cases eq : c = cpu
    · subst eq
      exact ⟨fresh.newest, fresh.undone, by simp, by simpa using fresh.slot pending slot⟩
    · exact ⟨fresh.newest, fresh.undone, by simpa [eq] using fresh.slot,
        by simpa [eq] using fresh.handler⟩

omit [DecidableEq Call] in
theorem Inv.handle (inv : s.Inv) {pending : Pending} (ran : s.handler cpu = .taken pending) :
    Inv { s.record (pending.req.parts.map (.performed cpu) ++ [.executed cpu pending]) with
      handler := update s.handler cpu (.flushed pending) } := by
  refine inv.cpuStep (fun c => ?_) rfl rfl rfl rfl fun call =>
    ⟨List.subset_append_left _ _, rfl, id, fun _ req c seq asked => ?_, fun _ c seq fresh => ?_⟩
  · by_cases eq : c = cpu
    · subst eq
      have was := inv.cpus c
      refine ⟨was.done_le, was.slot_newer, ?_, ?_⟩
      · simpa [ran, record] using was.handler_newer
      · simpa [ran, record] using was.ordered
    · exact (inv.cpus c).congr rfl rfl rfl (by simp [eq])
  · rcases asked with ⟨newest, ⟨undone, here | here⟩ | executed⟩
    · exact ⟨newest, .inl ⟨undone, .inl here⟩⟩
    · by_cases eq : c = cpu
      · subst eq
        obtain rfl : pending = ⟨seq, req⟩ := by simpa [ran] using here
        refine ⟨newest, .inr ⟨List.mem_append_right _ (by simp), fun part mem => ?_⟩⟩
        exact List.mem_append_right _ (by simpa using mem)
      · exact ⟨newest, .inl ⟨undone, .inr (by simpa [eq] using here)⟩⟩
    · exact ⟨newest, .inr (executed.mono (List.subset_append_left _ _))⟩
  · by_cases eq : c = cpu
    · subst eq
      exact ⟨fresh.newest, fresh.undone, fresh.slot,
        by simpa using fresh.handler pending (by simp [ran])⟩
    · exact ⟨fresh.newest, fresh.undone, fresh.slot, by simpa [eq] using fresh.handler⟩

omit [DecidableEq Call] in
theorem Inv.ack (inv : s.Inv) {pending : Pending} (flushed : s.handler cpu = .flushed pending) :
    Inv { s with
      done := update s.done cpu pending.seq
      handler := update s.handler cpu .idle } := by
  have working : (s.handler cpu).pending? = some pending := by simp [flushed]
  refine inv.cpuStep (fun c => ?_) rfl rfl rfl rfl fun call =>
    ⟨List.Subset.refl _, rfl, id, fun _ req c seq asked => ?_, fun _ c seq fresh => ?_⟩
  · by_cases eq : c = cpu
    · subst eq
      have was := inv.cpus c
      refine ⟨by simpa using (was.handler_newer pending working).2, ?_, by simp, by simp⟩
      intro q slot
      exact ⟨by simpa using was.ordered pending q working slot, (was.slot_newer q slot).2⟩
    · exact (inv.cpus c).congr rfl (by simp [eq]) rfl (by simp [eq])
  · by_cases eq : c = cpu
    · subst eq
      rcases asked with ⟨newest, ⟨undone, here | taken⟩ | executed⟩
      · have older := (inv.cpus c).ordered pending _ working here
        exact ⟨newest, .inl ⟨by simpa using older, .inl here⟩⟩
      · simp [flushed] at taken
      · exact ⟨newest, .inr executed⟩
    · simpa [Asked, eq, Executed, Performed] using asked
  · by_cases eq : c = cpu
    · subst eq
      exact ⟨fresh.newest, by simpa using fresh.handler pending working, fresh.slot, by simp⟩
    · exact ⟨fresh.newest, by simpa [eq] using fresh.undone, fresh.slot,
        by simpa [eq] using fresh.handler⟩

/-! ## What a sender does -/

theorem Inv.callStep (inv : s.Inv)
    (pos : t.pos = update s.pos call position) (mine : t.PosInv call position)
    (cpus : ∀ cpu, t.CpuInv cpu) (place : t.place = s.place) (online : t.online = s.online)
    (fewer : ∀ other, ∀ cpu ∈ t.onlineAt other, cpu ∈ s.online)
    (frames : ∀ other, other ≠ call → Frame s t other) : t.Inv where
  cpus := cpus
  calls other := by
    by_cases eq : other = call
    · subst eq
      rw [pos, Function.update_self]
      exact mine
    · rw [pos, Function.update_of_ne eq]
      exact (inv.calls other).frame (frames other eq) fun _ => by rw [place]
  online := online ▸ fewer

theorem Inv.goto (inv : s.Inv)
    (mine : (s.goto call position).PosInv call position) : (s.goto call position).Inv :=
  inv.callStep rfl mine (fun cpu => (inv.cpus cpu).congr rfl rfl rfl rfl) rfl rfl inv.online
    fun _ _ => .of_cpus (List.Subset.refl _) rfl id rfl rfl rfl rfl

theorem Inv.unlock (inv : s.Inv) (held : s.lock = some call)
    (mine : ((s.goto call position).unlock).PosInv call position) :
    ((s.goto call position).unlock).Inv :=
  inv.callStep rfl mine (fun cpu => (inv.cpus cpu).congr rfl rfl rfl rfl) rfl rfl inv.online
    fun _ ne => .of_holder held ne (List.Subset.refl _) rfl

theorem Inv.begin (inv : s.Inv) (req : Request) : Inv { s.goto call (.flushing req req.parts) with
      since := update s.since call []
      onlineAt := update s.onlineAt call s.online } := by
  refine inv.callStep rfl ⟨[], rfl, by simp⟩ (fun cpu => (inv.cpus cpu).congr rfl rfl rfl rfl)
    rfl rfl (fun other cpu mem => ?_) fun other ne =>
      .of_cpus (by simp [ne]) (by simp [ne]) id rfl rfl rfl rfl
  by_cases eq : other = call
  · subst eq
    simpa using mem
  · exact inv.online other cpu (by simpa [eq, State.goto] using mem)

theorem Inv.flush (inv : s.Inv) {part : Part} {rest : List Part}
    (position : s.pos call = .flushing req (part :: rest)) :
    ((s.record [.performed (s.place call) part]).goto call (.flushing req rest)).Inv := by
  have mine := inv.calls call
  rw [position] at mine
  obtain ⟨was, split, performed⟩ := mine
  refine inv.callStep rfl ⟨was ++ [part], by simp [split], fun p mem => ?_⟩
    (fun cpu => (inv.cpus cpu).congr rfl rfl rfl rfl) rfl rfl inv.online fun other ne =>
      .of_cpus (List.subset_append_left _ _) rfl id rfl rfl rfl rfl
  rcases List.mem_append.mp mem with old | now
  · exact List.mem_append_left _ (performed p old)
  · rw [List.mem_singleton.mp now]
    exact List.mem_append_right _ List.mem_cons_self

theorem Inv.acquire (inv : s.Inv) (position : s.pos call = .locking req)
    (free : s.lock = none) : Inv { s.goto call (.reading req) with lock := some call } := by
  have mine := inv.calls call
  rw [position] at mine
  exact inv.callStep rfl ⟨rfl, mine⟩ (fun cpu => (inv.cpus cpu).congr rfl rfl rfl rfl) rfl rfl
    inv.online fun other ne =>
      .of_cpus (List.Subset.refl _) rfl (fun held => by simp [free] at held) rfl rfl rfl rfl

theorem Inv.number (inv : s.Inv) (position : s.pos call = .publishing req me next bound targets)
    (fits : s.seq next + 1 < U32) :
    Inv { s.goto call (.storing req me next bound targets ((s.seq next + 1) % U32)) with
      seq := update s.seq next ((s.seq next + 1) % U32) } := by
  have mine := inv.calls call
  rw [position] at mine
  rw [Nat.mod_eq_of_lt fits]
  have here := inv.cpus next
  refine inv.callStep rfl ⟨?_, ?_⟩ (fun cpu => ?_) rfl rfl inv.online fun other ne =>
    .of_holder mine.held ne (List.Subset.refl _) rfl
  · refine ⟨mine.held, mine.performed, mine.bound, mine.covered, mine.below, ?_⟩
    intro cpu seq mem
    have ne : cpu ≠ next := Nat.ne_of_lt (mine.below cpu seq mem)
    have asked := mine.published cpu seq mem
    exact ⟨by simpa [ne] using asked.1, asked.2⟩
  · refine ⟨by simp, Nat.lt_succ_of_le here.done_le, ?_, ?_⟩
    · exact fun p slot => Nat.lt_succ_of_le (here.slot_newer p slot).2
    · exact fun p working => Nat.lt_succ_of_le (here.handler_newer p working).2
  · by_cases eq : cpu = next
    · subst eq
      refine ⟨?_, ?_, ?_, here.ordered⟩
      · simpa [State.goto] using Nat.le_succ_of_le here.done_le
      · intro p slot
        have newer := here.slot_newer p slot
        exact ⟨newer.1, by simpa using Nat.le_succ_of_le newer.2⟩
      · intro p working
        have newer := here.handler_newer p working
        exact ⟨newer.1, by simpa using Nat.le_succ_of_le newer.2⟩
    · exact (inv.cpus cpu).congr (by simp [eq]) rfl rfl rfl

theorem Inv.store (inv : s.Inv) {me next bound seq : Nat}
    (position : s.pos call = .storing req me next bound targets seq) :
    Inv { s.goto call (.publishing req me (next + 1) bound (targets ++ [(next, seq)])) with
      slot := update s.slot next (some ⟨seq, req⟩) } := by
  have mine := inv.calls call
  rw [position] at mine
  obtain ⟨covering, fresh⟩ := mine
  refine inv.callStep rfl ?_ (fun cpu => ?_) rfl rfl inv.online fun other ne =>
    .of_holder covering.held ne (List.Subset.refl _) rfl
  · refine ⟨covering.held, covering.performed, covering.bound, ?_, ?_, ?_⟩
    · intro cpu online small
      rcases Nat.lt_succ_iff_lt_or_eq.mp small with was | now
      · rcases covering.covered cpu online was with mine | ⟨number, mem⟩
        · exact .inl mine
        · exact .inr ⟨number, List.mem_append_left _ mem⟩
      · exact .inr ⟨seq, List.mem_append_right _ (by simp [now])⟩
    · intro cpu number mem
      rcases List.mem_append.mp mem with was | now
      · exact Nat.lt_succ_of_lt (covering.below cpu number was)
      · have same : cpu = next := by simpa using congrArg Prod.fst (List.mem_singleton.mp now)
        exact same ▸ Nat.lt_succ_self cpu
    · intro cpu number mem
      rcases List.mem_append.mp mem with was | now
      · have ne : cpu ≠ next := Nat.ne_of_lt (covering.below cpu number was)
        obtain ⟨newest, waiting⟩ := covering.published cpu number was
        refine ⟨newest, ?_⟩
        simpa [ne, State.goto, Executed, Performed] using waiting
      · obtain ⟨rfl, rfl⟩ : cpu = next ∧ number = seq := by simpa using now
        exact ⟨fresh.newest, .inl ⟨fresh.undone, .inl (by simp)⟩⟩
  · by_cases eq : cpu = next
    · subst eq
      refine ⟨(inv.cpus cpu).done_le, ?_, (inv.cpus cpu).handler_newer, ?_⟩
      · intro p slot
        obtain rfl : ⟨seq, req⟩ = p := by simpa using slot
        exact ⟨fresh.undone, fresh.newest.ge⟩
      · intro p q working slot
        obtain rfl : ⟨seq, req⟩ = q := by simpa using slot
        exact fresh.handler p working
    · exact (inv.cpus cpu).congr rfl rfl (by simp [eq]) rfl

omit [DecidableEq Call] in
theorem Covering.skip (covering : s.Covering call req me next bound targets)
    (absent : next ∈ s.onlineAt call → next = me) :
    s.Covering call req me (next + 1) bound targets where
  held := covering.held
  performed := covering.performed
  bound := covering.bound
  covered cpu online small := by
    rcases Nat.lt_succ_iff_lt_or_eq.mp small with was | now
    · exact covering.covered cpu online was
    · exact .inl (now ▸ absent (now ▸ online))
  below cpu seq member := Nat.lt_succ_of_lt (covering.below cpu seq member)
  published := covering.published

omit [DecidableEq Call] in
theorem Covering.all_covered
    (covering : s.Covering call req me next bound targets) (finished : ¬next < bound)
    (online : cpu ∈ s.onlineAt call) : s.Performed call req cpu ∨ ∃ seq, (cpu, seq) ∈ targets := by
  have small := Nat.lt_of_lt_of_le (covering.bound cpu online) (Nat.le_of_not_lt finished)
  rcases covering.covered cpu online small with mine | target
  · exact .inl (mine ▸ covering.performed)
  · exact .inr target

theorem Inv.publish (inv : s.Inv) (ran : s.step (.publish call) = some t)
    (sound : s.Sound (.publish call)) : t.Inv := by
  cases position : s.pos call with
  | publishing req me next bound targets =>
    have mine := inv.calls call
    rw [position] at mine
    simp only [step, position] at ran
    simp only [Sound, position] at sound
    split at ran
    next small =>
      split at ran
      next skipped =>
        cases ran
        have absent : next ∈ s.onlineAt call → next = me := by
          intro online
          rcases skipped with own | absent
          · exact own
          · exact absurd (inv.online call next online) absent
        have moved := Covering.skip mine absent
        exact inv.goto (moved.frame (.of_cpus (List.Subset.refl _) rfl id rfl rfl rfl rfl))
      next asked =>
        cases ran
        have others := not_or.mp asked
        exact inv.number position (sound small others.1 (not_not.mp others.2))
    next finished =>
      split at ran
      next nobody =>
        cases ran
        refine inv.unlock mine.held fun _ cpu online => ?_
        rcases mine.all_covered finished online with performed | ⟨seq, mem⟩
        · exact performed
        · simp [nobody] at mem
      cases ran
      exact inv.goto ⟨mine.held, fun cpu online => mine.all_covered finished online,
        mine.published, by simp⟩
  | idle | flushing | locking | reading | counting | storing | waiting | returned =>
    simp [step, position] at ran

theorem Inv.load (inv : s.Inv) (ran : s.step (.load call) = some t) : t.Inv := by
  cases position : s.pos call with
  | waiting req counted rest =>
    have mine := inv.calls call
    rw [position] at mine
    cases rest with
    | nil =>
      simp only [step, position, Option.some.injEq] at ran
      subst ran
      refine inv.unlock mine.held fun _ cpu online => ?_
      rcases mine.covered cpu online with performed | ⟨seq, mem⟩
      · exact performed
      · exact (mine.executed cpu seq (by simpa using mem)).2
    | cons target rest =>
      obtain ⟨cpu, seq⟩ := target
      simp only [step, position] at ran
      split at ran
      next acknowledged =>
        cases ran
        have regroup : counted ++ (cpu, seq) :: rest = (counted ++ [(cpu, seq)]) ++ rest := by simp
        refine inv.goto ⟨mine.held, regroup ▸ mine.covered, regroup ▸ mine.published, ?_⟩
        intro c n mem
        rcases List.mem_append.mp mem with was | now
        · exact mine.executed c n was
        · obtain ⟨rfl, rfl⟩ : c = cpu ∧ n = seq := by simpa using now
          exact (mine.published c n (by simp)).executed_of_done acknowledged
      cases ran
      exact inv.goto ⟨mine.held, mine.covered, mine.published, by simp⟩
  | idle | flushing | locking | reading | counting | publishing | storing | returned =>
    simp [step, position] at ran

theorem Inv.migrate (inv : s.Inv) (ran : s.step (.migrate call cpu) = some t)
    (sound : s.Sound (.migrate call cpu)) : t.Inv := by
  simp only [step] at ran
  split at ran
  next =>
    cases ran
    refine ⟨fun c => (inv.cpus c).congr rfl rfl rfl rfl, fun other => ?_, inv.online⟩
    refine (inv.calls other).frame (.of_cpus (List.Subset.refl _) rfl id rfl rfl rfl rfl)
      fun lt => ?_
    by_cases eq : other = call
    · subst eq
      simpa using sound lt
    · simp [eq]
  next => simp at ran

theorem Inv.boot (inv : s.Inv) (ran : s.step (.boot cpu) = some t) : t.Inv := by
  simp only [step] at ran
  split at ran
  next => simp at ran
  cases ran
  refine ⟨fun c => (inv.cpus c).congr rfl rfl rfl rfl, fun other => ?_, ?_⟩
  · exact (inv.calls other).frame (.of_cpus (List.Subset.refl _) rfl id rfl rfl rfl rfl)
      fun _ => rfl
  · exact fun other c online => List.mem_append_left _ (inv.online other c online)

theorem Inv.step (inv : s.Inv) {action : Action Call} (sound : s.Sound action)
    (ran : s.step action = some t) : t.Inv := by
  cases action with
  | boot cpu => exact inv.boot ran
  | migrate call cpu => exact inv.migrate ran sound
  | publish call => exact inv.publish ran sound
  | load call => exact inv.load ran
  | begin call req =>
    simp only [State.step] at ran
    split at ran
    next => cases ran; exact inv.begin req
    next => simp at ran
  | flush call =>
    simp only [State.step] at ran
    split at ran
    next position => cases ran; exact inv.flush position
    next req position =>
      cases ran
      have mine := inv.calls call
      rw [position] at mine
      obtain ⟨was, split, performed⟩ := mine
      refine inv.goto fun part mem => performed part ?_
      simpa [split] using mem
    next => simp at ran
  | acquire call =>
    simp only [State.step] at ran
    split at ran
    next position free => cases ran; exact inv.acquire position free
    next => simp at ran
  | read call =>
    simp only [State.step] at ran
    split at ran
    next position =>
      cases ran
      have mine := inv.calls call
      rw [position] at mine
      exact inv.goto mine
    next => simp at ran
  | count call =>
    simp only [State.step] at ran
    split at ran
    next position =>
      cases ran
      have mine := inv.calls call
      rw [position] at mine
      exact inv.goto ⟨mine.1, mine.2, fun cpu online => sound cpu (inv.online call cpu online),
        by simp, by simp, fun cpu seq mem => by simp at mem⟩
    next => simp at ran
  | store call =>
    simp only [State.step] at ran
    split at ran
    next position => cases ran; exact inv.store position
    next => simp at ran
  | giveUp call =>
    simp only [State.step] at ran
    split at ran
    next position =>
      cases ran
      have mine := inv.calls call
      rw [position] at mine
      exact inv.unlock mine.held fun answered => by simp at answered
    next => simp at ran
  | leave call =>
    simp only [State.step] at ran
    split at ran
    next => cases ran; exact inv.goto trivial
    next => simp at ran
  | take cpu =>
    simp only [State.step] at ran
    split at ran
    next idle slot => cases ran; exact inv.take idle slot
    next => simp at ran
  | handle cpu =>
    simp only [State.step] at ran
    split at ran
    next position => cases ran; exact inv.handle position
    next => simp at ran
  | ack cpu =>
    simp only [State.step] at ran
    split at ran
    next position => cases ran; exact inv.ack position
    next => simp at ran

omit [DecidableEq Call] in
theorem inv_new : (new : State Call).Inv where
  cpus _ := by constructor <;> simp [new]
  calls _ := trivial
  online _ := by simp [new]

/-! ## Whole runs -/

/-- In every run whose steps are sound, a call that returned with every answer
has been performed by every CPU that was online all the while, and only CPUs
that executed the request have been counted. -/
theorem shootdown_of_sound_run {actions : List (Action Call)}
    (reached : Lib.Run (Lib.Guarded Sound fun s a t => s.step a = some t) new actions s) :
    s.Complete ∧ s.Honest := by
  have inv := reached.invariant Inv inv_new fun _ _ _ inv ran => inv.step ran.1 ran.2
  constructor
  · intro call req gave
    have mine := inv.calls call
    rw [gave] at mine
    exact mine rfl
  · intro call req counted rest waiting cpu seq mem
    have mine := inv.calls call
    rw [waiting] at mine
    exact (mine.executed cpu seq mem).1

theorem shootdown_of_sound_run_two_cpus : ∃ s : State Unit,
    s.pos () = .returned (.tlbAll 4096) true ∧ s.onlineAt () = [0, 1] ∧
    s.Complete ∧ s.Honest := by
  have reached : Lib.Run (Lib.Guarded Sound fun s a t => s.step a = some t) new
      ([.boot 1, .begin () (.tlbAll 4096), .flush (), .flush (), .acquire (), .read (), .count (),
        .publish (), .publish (), .store (), .migrate () 1, .take 1, .handle 1, .ack 1,
        .publish (), .load (), .load ()] : List (Action Unit)) _ := Lib.guarded_of_replay rfl
  exact ⟨_, rfl, rfl, shootdown_of_sound_run reached⟩

/-- The sender flushes on CPU 0, is moved to CPU 1 before it reads its CPU id, and asks everybody
but CPU 1, which has invalidated nothing when the call returns. -/
theorem shootdown_misses_new_cpu : ∃ actions, ∃ s : State Unit,
    Reaches actions s ∧ ¬s.Complete := by
  have reached : Reaches ([.boot 1, .begin () (.tlbAll 4096), .flush (), .migrate () 1, .flush (),
        .acquire (), .read (), .count (), .publish (), .store (), .publish (), .take 0, .handle 0,
        .ack 0, .publish (), .load (), .load ()] : List (Action Unit)) _ := Lib.run_of_replay rfl
  refine ⟨_, _, reached, fun complete => ?_⟩
  have performed := complete () (.tlbAll 4096) rfl 1 (by decide) (.space 4096) (by decide)
  revert performed
  decide

end State

end K1K.Arch
