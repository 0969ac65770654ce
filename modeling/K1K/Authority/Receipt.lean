import K1K.Authority.Grants

/-!
# The receipt of `spawn_desc`

`write_receipt` asks afterwards for the slots that the grants went into: word `i + 1` is the
`i`th live slot of a table whose owner is already running.
-/

namespace K1K.Authority

open K1K.Lib K1K.Obj K1K.Syscall

namespace Ledger

/-- No granted slot of a task is given up, and the task is not reaped, before its
receipt is complete. -/
def Undisturbed (l : Ledger) : Event → Prop
  | .act action => ∀ r ∈ l.receipts, r.words.length < r.grants.length →
      ∀ j < r.grants.length, l.kernel.clears action r.task j = false
  | _ => True

instance undisturbedDecidable (l : Ledger) (event : Event) : Decidable (l.Undisturbed event) := by
  unfold Undisturbed
  split <;> infer_instance

structure Tracks (l : Ledger) (r : Receipt) : Prop where
  few : r.grants.length ≤ MAX_SPAWN_GRANTS
  early : r.task < l.kernel.nextId
  belongs : ∀ task, l.kernel.tasks r.task = some task →
    ∃ idx, task.service = some idx ∧ l.kernel.services[idx]? = some r.grants
  waiting : r.words.length < r.grants.length → ∀ j < r.grants.length, j ∈ l.intact r.task
  words : ∀ i w, r.words[i]? = some w → w = slotOfGrant r.grants i

variable {peer : Nat → Option Nat} {l l' : Ledger} {r : Receipt}

theorem mem_intactAfter_of_mem {action : Action} {t j : Nat} (mem : j ∈ l.intact t)
    (early : t < l.kernel.nextId) (uncleared : l.kernel.clears action t j = false) :
    j ∈ l.intactAfter action t := by
  unfold intactAfter
  split
  next idx =>
    rw [Function.update_of_ne (Nat.ne_of_lt early)]
    exact mem
  next => exact List.mem_filter.mpr ⟨mem, by simp [uncleared]⟩

theorem Tracks.act {action : Action} (tracks : l.Tracks r) (sound : l.Sound)
    (undisturbed : r.words.length < r.grants.length →
      ∀ j < r.grants.length, l.kernel.clears action r.task j = false)
    (acted : l.act peer action = some l') : l'.Tracks r := by
  obtain ⟨kernel, ran, rfl⟩ := act_eq_some acted
  refine ⟨tracks.few, Nat.lt_of_lt_of_le tracks.early (nextId_le_of_step ran),
    fun task found => ?_, fun unfinished j inRange => ?_, tracks.words⟩
  · cases was : l.kernel.tasks r.task with
    | none =>
      obtain ⟨-, -, -, fresh, -⟩ := spawned_of_step ran was found
      exact absurd fresh (Nat.ne_of_lt tracks.early)
    | some old =>
      obtain ⟨idx, service, known⟩ := tracks.belongs old was
      refine ⟨idx, ?_, services_of_step ran known⟩
      rw [(successor_of_step ran).service sound.numbered r.task old was task found, service]
  · exact mem_intactAfter_of_mem (tracks.waiting unfinished j inRange) tracks.early
      (undisturbed unfinished j inRange)

theorem tracks_of_spawn {idx : Nat} {grants : List Capability}
    (known : l.kernel.services[idx]? = some grants) (few : grants.length ≤ MAX_SPAWN_GRANTS)
    (acted : l.act peer (.spawn idx) = some l') : l'.Tracks ⟨l.kernel.nextId, grants, []⟩ := by
  obtain ⟨kernel, ran, rfl⟩ := act_eq_some acted
  have kept := services_of_step ran known
  simp only [Kernel.step, Kernel.spawn, known, Option.some.injEq] at ran
  subst ran
  refine ⟨few, Nat.lt_succ_self _, fun task found => ?_, fun _ j inRange => ?_, by simp⟩
  · change Function.update l.kernel.tasks l.kernel.nextId _ l.kernel.nextId = some task at found
    rw [Function.update_self, Option.some.injEq] at found
    subst found
    exact ⟨idx, rfl, kept⟩
  · change j ∈ Function.update l.intact l.kernel.nextId _ l.kernel.nextId
    rw [Function.update_self, List.mem_range, List.getD_eq_getElem?_getD, known, Option.getD_some,
      CapTable.slotCount, (fill_slots grants).1]
    simp only [List.length_map, List.length_take, MAX_SLOTS]
    have inRange : j < grants.length := inRange
    have few : grants.length ≤ 8 := few
    omega

theorem slotAt_eq_slotOfGrant {n : Nat} {task : Task} (tracks : l.Tracks r) (sound : l.Sound)
    (inRange : n < r.grants.length) (found : l.kernel.tasks r.task = some task)
    (intact : ∀ j < r.grants.length, j ∈ l.intact r.task) :
    task.caps.slotAt n = slotOfGrant r.grants n := by
  have room : n < MAX_SLOTS := by
    have few : r.grants.length ≤ 8 := tracks.few
    change n < 256
    omega
  rw [slotOfGrant_eq inRange room]
  apply CapTable.slotAt_of_live
  intro i below
  obtain ⟨idx, -, owner, -, cap, there, -, -, -, held⟩ := sound.held r.task i (intact i (by omega))
  rw [found, Option.some.injEq] at there
  rw [there, held, Option.isSome_some]

theorem Tracks.word (tracks : l.Tracks r) (sound : l.Sound)
    (more : r.words.length < r.grants.length) : l.Tracks { r with
      words := r.words ++
        [(l.kernel.tasks r.task).bind fun task => task.caps.slotAt r.words.length] } := by
  have intact := tracks.waiting more
  refine ⟨tracks.few, tracks.early, tracks.belongs, fun _ => intact, fun i w written => ?_⟩
  rcases Nat.lt_trichotomy i r.words.length with old | rfl | beyond
  · rw [List.getElem?_append_left old] at written
    exact tracks.words i w written
  · obtain ⟨-, -, task, -, -, found, -⟩ := sound.held r.task _ (intact _ more)
    rw [List.getElem?_concat_length, Option.some.injEq, found] at written
    rw [← written]
    have right := slotAt_eq_slotOfGrant tracks sound more found intact
    exact right
  · rw [List.getElem?_eq_none (by simp; omega)] at written
    simp at written

theorem tracks_of_step {event : Event} (tracked : ∀ r ∈ l.receipts, l.Tracks r) (sound : l.Sound)
    (undisturbed : l.Undisturbed event) (ran : l.step peer event = some l') :
    ∀ r ∈ l'.receipts, l'.Tracks r := by
  cases event with
  | act action =>
    intro r mem
    have was : r ∈ l.receipts := by
      obtain ⟨kernel, -, rfl⟩ := act_eq_some ran
      exact mem
    exact (tracked r was).act sound (undisturbed r was) ran
  | spawnDesc idx =>
    obtain ⟨grants, next, known, few, acted, rfl⟩ := spawnDesc_eq_some ran
    have receipts : next.receipts = l.receipts := by
      obtain ⟨kernel, -, rfl⟩ := act_eq_some acted
      rfl
    intro r mem
    have tracks : next.Tracks r := by
      rcases List.mem_append.mp mem with was | now
      · exact (tracked r (receipts ▸ was)).act sound (fun _ _ _ => rfl) acted
      · rw [List.mem_singleton.mp now]
        exact tracks_of_spawn known few acted
    exact ⟨tracks.few, tracks.early, tracks.belongs, tracks.waiting, tracks.words⟩
  | word call =>
    obtain ⟨written, found, more, rfl⟩ := writeWord_eq_some ran
    intro r mem
    have tracks : l.Tracks r := by
      rcases List.mem_or_eq_of_mem_set mem with was | rfl
      · exact tracked r was
      · exact (tracked written (List.mem_of_getElem? found)).word sound more
    exact ⟨tracks.few, tracks.early, tracks.belongs, tracks.waiting, tracks.words⟩

theorem tracks_of_run {boot : List (List Capability)} {events : List Event}
    (run : Run (Guarded Undisturbed fun l event l' => l.step peer event = some l') (start boot)
      events l) : l.Sound ∧ ∀ r ∈ l.receipts, l.Tracks r := by
  apply run.invariant (fun l => l.Sound ∧ ∀ r ∈ l.receipts, l.Tracks r)
  · exact ⟨start_sound boot, by simp [start]⟩
  · rintro l event l' ⟨sound, tracked⟩ ⟨undisturbed, ran⟩
    exact ⟨sound.step ran, tracks_of_step tracked sound undisturbed ran⟩

/-- Where no granted slot is given up before the receipt is complete, every word is the slot its
grant was inserted in, and revoking that slot takes exactly that grant. -/
theorem receipt_names_the_grants (peer : Nat → Option Nat) (boot : List (List Capability))
    {events : List Event} {l : Ledger}
    (run : Run (Guarded Undisturbed fun l event l' => l.step peer event = some l') (start boot)
      events l) :
    ∀ r ∈ l.receipts, ∀ i w, r.words[i]? = some w → w = slotOfGrant r.grants i ∧
      ∀ slot task, w = some slot → l.kernel.tasks r.task = some task → slot ∈ l.intact r.task →
        (task.caps.revoke slot).1 = r.grants[i]? := by
  obtain ⟨sound, tracked⟩ := tracks_of_run run
  intro r mem i w written
  have tracks := tracked r mem
  have named := tracks.words i w written
  refine ⟨named, fun slot task word found intact => ?_⟩
  have inRange : i < r.grants.length := by
    by_contra beyond
    rw [word, slotOfGrant, List.getElem?_eq_none (by omega)] at named
    simp at named
  have room : i < MAX_SLOTS := by
    have few : r.grants.length ≤ 8 := tracks.few
    change i < 256
    omega
  have eq : slot = i := by
    rw [word, slotOfGrant_eq inRange room] at named
    exact Option.some.inj named
  subst eq
  rcases sound.held r.task slot intact with ⟨idx, -, owner, grants, cap, there, service, known,
    granted, held⟩
  rw [found, Option.some.injEq] at there
  subst there
  obtain ⟨idx', service', known'⟩ := tracks.belongs task found
  rw [service, Option.some.injEq] at service'
  subst service'
  rw [known, Option.some.injEq] at known'
  rw [((sound.tables _ task found).revoke_held held).1, ← known', granted]

def spawner : List (List Capability) :=
  [[⟨.control, .SPAWN⟩, ⟨.memory 3, .MAP_READ⟩, ⟨.endpoint 7, Rights.SEND.union .GRANT⟩,
    ⟨.endpoint 8, Rights.SEND.union .GRANT⟩]]

def delegation : List Event :=
  [.act (.spawn 0), .act (.derive 1 2 .SEND), .act (.derive 1 3 .SEND), .act (.register 1 0 1),
    .spawnDesc 1]

theorem receipt_of_two_grants : ∃ l : Ledger,
    Run (Guarded Undisturbed fun l event l' => l.step (fun _ => none) event = some l')
      (start spawner)
      (delegation ++ [.word 0, .act (.epCreate 2), .word 0, .act (.capDrop 2 1)]) l ∧
    l.receipts = [⟨2, [⟨.endpoint 7, .SEND⟩, ⟨.endpoint 8, .SEND⟩], [some 0, some 1]⟩] ∧
    (∀ r ∈ l.receipts, ∀ i w, r.words[i]? = some w → w = slotOfGrant r.grants i ∧
      ∀ slot task, w = some slot → l.kernel.tasks r.task = some task → slot ∈ l.intact r.task →
        (task.caps.revoke slot).1 = r.grants[i]?) := by
  refine exists_guarded_of_replay (fun l => l.receipts =
    [⟨2, [⟨.endpoint 7, .SEND⟩, ⟨.endpoint 8, .SEND⟩], [some 0, some 1]⟩]) (by decide +kernel)
    fun l run receipts => ?_
  exact ⟨receipts, receipt_names_the_grants _ _ run⟩

/-- The new task drops its slot 0 before the first word is computed. The word for
grant 0 then names slot 1, and revoking that withdraws grant 1. -/
theorem receipt_after_a_drop : ∃ l : Ledger,
    Run (fun l event l' => l.step (fun _ => none) event = some l') (start spawner)
      (delegation ++ [.act (.capDrop 2 0), .word 0, .word 0]) l ∧
    ∃ r ∈ l.receipts, r.words = [some 1, none] ∧ slotOfGrant r.grants 0 = some 0 ∧
      ∃ task, l.kernel.tasks r.task = some task ∧ (task.caps.revoke 1).1 = r.grants[1]? ∧
        (task.caps.revoke 1).1 ≠ r.grants[0]? := by
  refine exists_of_replay (fun l => l.receipts =
      [⟨2, [⟨.endpoint 7, .SEND⟩, ⟨.endpoint 8, .SEND⟩], [some 1, none]⟩] ∧
      (l.kernel.tasks 2).any fun task =>
        decide ((task.caps.revoke 1).1 = some ⟨.endpoint 8, .SEND⟩)) (by decide +kernel) ?_
  rintro l - ⟨receipts, eval⟩
  obtain ⟨task, found, ran⟩ := exists_of_any eval
  have mem := receipts ▸ List.mem_singleton_self _
  refine ⟨_, mem, rfl, by decide, task, found, ran, ?_⟩
  rw [ran]
  decide

end Ledger

end K1K.Authority
