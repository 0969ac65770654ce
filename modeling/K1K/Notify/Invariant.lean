import K1K.Lib.Update
import K1K.Notify.Model

/-!
# Notifications lose nothing

`Placed`: each sleeping task is on the waiter list or in one wake list, and nowhere twice.
`Covered` bounds `pending` by the tasks already woken for it while anybody waits. `Balanced`
accounts for every signal.
-/

namespace K1K.Notify.State

open Function (update update_of_ne)

variable {Task Call : Type*} [DecidableEq Task] [DecidableEq Call]

inductive Move (s : State Task Call) : State Task Call → Prop where
  | signal (call : Call) (count : Nat) (idle : s.signalling call = .out) :
      Move s { s with
        signals := s.signals + BitVec.ofNat 64 count
        signalling := Function.update s.signalling call (.counted count) }
  | lock (call : Call) (count : Nat) (counted : s.signalling call = .counted count) :
      Move s (s.lockedSignal call count)
  | wake (call : Call) (id : Task) (rest : List Task)
      (waking : s.signalling call = .waking (id :: rest)) :
      Move s { s with
        blocked := Function.update s.blocked id false
        signalling := Function.update s.signalling call (.waking rest) }
  | woke (call : Call) (waking : s.signalling call = .waking []) :
      Move s { s with signalling := Function.update s.signalling call .out }
  | wait (task : Task) (mode : Wait) (outside : s.waiting task = .out) :
      Move s { s with waiting := Function.update s.waiting task (.entering mode) }
  | look (task : Task) (mode : Wait)
      (looking : s.waiting task = .entering mode ∨
        s.waiting task = .asleep mode ∧ s.blocked task = false) :
      Move s (s.lockedWait task mode)
  | count (task : Task) (n : Nat) (took : s.waiting task = .took n) :
      Move s { s with
        waits := s.waits + BitVec.ofNat 64 n
        waiting := Function.update s.waiting task .out }

theorem move_of_step {s t : State Task Call} {action : Action Task Call}
    (ran : s.step action = some t) : Move s t := by
  cases action with
  | signal call count =>
    cases pos : s.signalling call with
    | out =>
      by_cases fits : count ≤ U32_MAX <;> simp [step, pos, fits] at ran
      exact ran ▸ .signal call _ pos
    | counted | waking => simp [step, pos] at ran
  | lock call =>
    cases pos : s.signalling call with
    | counted n =>
      simp only [step, pos, Option.some.injEq] at ran
      exact ran ▸ .lock call n pos
    | out | waking => simp [step, pos] at ran
  | wake call =>
    cases pos : s.signalling call with
    | waking wake =>
      cases wake with
      | nil =>
        simp only [step, pos, Option.some.injEq] at ran
        exact ran ▸ .woke call pos
      | cons id rest =>
        simp only [step, pos, Option.some.injEq] at ran
        exact ran ▸ .wake call id rest pos
    | out | counted => simp [step, pos] at ran
  | wait task mode =>
    cases pos : s.waiting task with
    | out =>
      by_cases asleep : s.blocked task = true <;> simp [step, pos, asleep] at ran
      exact ran ▸ .wait task mode pos
    | entering | asleep | took => simp [step, pos] at ran
  | look task =>
    cases pos : s.waiting task with
    | entering mode =>
      simp only [step, pos, Option.some.injEq] at ran
      exact ran ▸ .look task mode (.inl pos)
    | asleep mode =>
      by_cases asleep : s.blocked task = true <;> simp [step, pos, asleep] at ran
      exact ran ▸ .look task mode (.inr ⟨pos, by simpa using asleep⟩)
    | out | took => simp [step, pos] at ran
  | count task =>
    cases pos : s.waiting task with
    | took n =>
      simp only [step, pos, Option.some.injEq] at ran
      exact ran ▸ .count task n pos
    | out | entering | asleep => simp [step, pos] at ran

/-! ## Where sleeping tasks are registered -/

/-- Every sleeping task is on the waiter list or in one call's wake list, once,
and nothing else is. -/
structure Placed (s : State Task Call) : Prop where
  waiters_nodup : s.waiters.Nodup
  wakeList_nodup : ∀ call, (s.signalling call).wakeList.Nodup
  waiters_disjoint : ∀ call, s.waiters.Disjoint (s.signalling call).wakeList
  wakeList_disjoint : ∀ call other, call ≠ other →
    (s.signalling call).wakeList.Disjoint (s.signalling other).wakeList
  registered : ∀ task, s.BlockedInWait task ↔ task ∈ s.waiters ∨ s.Picked task
  asleep : ∀ task, s.blocked task = true → (s.waiting task).isAsleep = true

variable {s : State Task Call}

omit [DecidableEq Task] [DecidableEq Call] in
theorem Placed.congr {t : State Task Call} (placed : s.Placed) (waiters : t.waiters = s.waiters)
    (wakeLists : ∀ call, (t.signalling call).wakeList = (s.signalling call).wakeList)
    (blocked : t.blocked = s.blocked)
    (asleep : ∀ task, (t.waiting task).isAsleep = (s.waiting task).isAsleep) : t.Placed where
  waiters_nodup := by simpa [waiters] using placed.waiters_nodup
  wakeList_nodup := by simpa [wakeLists] using placed.wakeList_nodup
  waiters_disjoint := by simpa [waiters, wakeLists] using placed.waiters_disjoint
  wakeList_disjoint := by simpa [wakeLists] using placed.wakeList_disjoint
  registered := by
    simpa [BlockedInWait, Picked, waiters, wakeLists, blocked, asleep] using placed.registered
  asleep := by simpa [blocked, asleep] using placed.asleep

omit [DecidableEq Task] in
theorem picked_update_iff {call : Call} {pos : Signalling Task} {task : Task}
    (was : task ∉ (s.signalling call).wakeList) :
    (∃ other, task ∈ (update s.signalling call pos other).wakeList) ↔
      task ∈ pos.wakeList ∨ s.Picked task := by
  constructor
  · rintro ⟨other, mem⟩
    by_cases eq : other = call
    · subst eq
      exact .inl (by simpa using mem)
    · exact .inr ⟨other, by simpa [eq] using mem⟩
  · rintro (mem | ⟨other, mem⟩)
    · exact ⟨call, by simpa using mem⟩
    · have ne : other ≠ call := fun eq => was (eq ▸ mem)
      exact ⟨other, by simpa [ne] using mem⟩

omit [DecidableEq Task] in
theorem Placed.lockedSignal_eq (placed : s.Placed) (call : Call) (count : Nat) :
    ∃ front back, s.waiters = front ++ back ∧
      (s.lockedSignal call count).waiters = back ∧
      (s.lockedSignal call count).signalling = update s.signalling call (.waking front) ∧
      (back ≠ [] → front.length = count) := by
  have waitersBlocked : ∀ task ∈ s.waiters, s.blocked task = true := fun task mem =>
    ((placed.registered task).mpr (.inl mem)).2
  rcases pickWaiters_spec s.waiters [] waitersBlocked (Nat.zero_le count) with
    ⟨front, back, split, picked, full⟩
  exact ⟨front, back, split, by simp [lockedSignal, picked], by simp [lockedSignal, picked],
    by simpa using full⟩

theorem Placed.lockedSignal (placed : s.Placed) {call : Call} {count : Nat}
    (counted : s.signalling call = .counted count) : (s.lockedSignal call count).Placed := by
  obtain ⟨front, back, split, waiters, signalling, -⟩ := placed.lockedSignal_eq call count
  have empty : (s.signalling call).wakeList = [] := by rw [counted]; rfl
  have parts := List.nodup_append.mp (split ▸ placed.waiters_nodup)
  have disj : ∀ other, front.Disjoint (s.signalling other).wakeList := fun other =>
    (List.disjoint_append_left.mp (split ▸ placed.waiters_disjoint other)).1
  constructor
  · exact waiters ▸ parts.2.1
  · intro other
    rw [signalling]
    by_cases eq : other = call
    · subst eq; simpa using parts.1
    · simpa [eq] using placed.wakeList_nodup other
  · intro other
    rw [waiters, signalling]
    by_cases eq : other = call
    · subst eq
      intro task left right
      exact parts.2.2 task (by simpa using right) task left rfl
    · simpa [eq] using (List.disjoint_append_left.mp (split ▸ placed.waiters_disjoint other)).2
  · intro first second nodup
    rw [signalling]
    by_cases eq : first = call
    · subst eq
      simpa [nodup.symm] using disj second
    by_cases eq' : second = call
    · subst eq'
      simpa [eq] using (disj first).symm
    · simpa [eq, eq'] using placed.wakeList_disjoint first second nodup
  · intro task
    have was := placed.registered task
    rw [split, List.mem_append] at was
    have picked : (s.lockedSignal call count).Picked task ↔ task ∈ front ∨ s.Picked task := by
      rw [Picked, signalling]
      exact picked_update_iff (by simp [empty])
    rw [waiters, picked]
    refine was.trans ?_
    tauto
  · exact placed.asleep

theorem Placed.wake (placed : s.Placed) {call : Call} {id : Task} {rest : List Task}
    (waking : s.signalling call = .waking (id :: rest)) : Placed { s with
      blocked := update s.blocked id false
      signalling := update s.signalling call (.waking rest) } := by
  have list : (s.signalling call).wakeList = id :: rest := by rw [waking]; rfl
  have parts := List.nodup_cons.mp (list ▸ placed.wakeList_nodup call)
  -- Every wake list only loses `id`, so what was apart stays apart.
  have shrinks : ∀ other, (update s.signalling call (.waking rest) other).wakeList ⊆
      (s.signalling other).wakeList := by
    intro other
    by_cases eq : other = call
    · subst eq
      rw [Function.update_self, list]
      exact List.subset_cons_self id rest
    · rw [update_of_ne eq]
      exact List.Subset.refl _
  have picked : ∀ task,
      (∃ other, task ∈ (update s.signalling call (.waking rest) other).wakeList) ↔
        s.Picked task ∧ task ≠ id := by
    intro task
    constructor
    · rintro ⟨other, mem⟩
      refine ⟨⟨other, shrinks other mem⟩, ?_⟩
      rintro rfl
      by_cases eq : other = call
      · subst eq
        exact parts.1 (by simpa using mem)
      · exact placed.wakeList_disjoint other call eq (shrinks other mem) (by simp [list])
    · rintro ⟨⟨other, mem⟩, ne⟩
      refine ⟨other, ?_⟩
      by_cases eq : other = call
      · subst eq
        rw [list] at mem
        simpa [ne] using mem
      · simpa [eq] using mem
  constructor
  · exact placed.waiters_nodup
  · intro other
    by_cases eq : other = call
    · subst eq; simpa using parts.2
    · simpa [eq] using placed.wakeList_nodup other
  · exact fun other _ left right => placed.waiters_disjoint other left (shrinks other right)
  · exact fun first second nodup _ left right =>
      placed.wakeList_disjoint first second nodup (shrinks first left) (shrinks second right)
  · intro task
    have before := placed.registered task
    have here : s.Picked id := ⟨call, by simp [list]⟩
    have away : id ∉ s.waiters := fun mem =>
      placed.waiters_disjoint call mem (by simp [list])
    have now := picked task
    unfold BlockedInWait Picked at *
    by_cases eq : task = id
    · subst eq
      simp_all
    · simp_all
  · intro task blocked
    by_cases eq : task = id
    · subst eq; simp at blocked
    · exact placed.asleep task (by simpa [eq] using blocked)

omit [DecidableEq Call] in
theorem lockedWait_cases (s : State Task Call) (task : Task) (mode : Wait) :
    (∃ n, 0 < n ∧ n ≤ s.pending ∧ s.lockedWait task mode =
      { s with
        pending := s.pending - n
        waiting := update s.waiting task (.took n) }) ∨
    s.pending = 0 ∧ s.lockedWait task mode = { s with waiting := update s.waiting task .out } ∨
    s.pending = 0 ∧ s.lockedWait task mode =
      { s with
        waiters := s.waiters ++ [task]
        blocked := update s.blocked task true
        waiting := update s.waiting task (.asleep mode) } := by
  by_cases some : s.pending > 0
  · left
    cases mode with
    | all => exact ⟨s.pending, some, le_rfl, by simp [lockedWait, some]⟩
    | one | poll => exact ⟨1, Nat.one_pos, some, by simp [lockedWait, some]⟩
  · have none : s.pending = 0 := Nat.eq_zero_of_not_pos some
    right
    by_cases poll : mode = .poll
    · exact .inl ⟨none, by simp [lockedWait, none, poll]⟩
    · exact .inr ⟨none, by simp [lockedWait, none, poll]⟩

omit [DecidableEq Call] in
theorem Placed.leave (placed : s.Placed) {task : Task} (awake : s.blocked task = false)
    (pos : Waiting) : Placed { s with waiting := update s.waiting task pos } := by
  refine ⟨placed.waiters_nodup, placed.wakeList_nodup, placed.waiters_disjoint,
    placed.wakeList_disjoint, fun other => ?_, fun other blocked => ?_⟩
  · refine Iff.trans ?_ (placed.registered other)
    unfold BlockedInWait
    by_cases eq : other = task
    · subst eq
      simp [awake]
    · simp [eq]
  · have ne : other ≠ task := fun eq => by simp [eq, awake] at blocked
    simpa [ne] using placed.asleep other blocked

omit [DecidableEq Call] in
theorem Placed.sleep (placed : s.Placed) {task : Task} (awake : s.blocked task = false)
    (mode : Wait) : Placed { s with
      waiters := s.waiters ++ [task]
      blocked := update s.blocked task true
      waiting := update s.waiting task (.asleep mode) } := by
  have absent : ¬(task ∈ s.waiters ∨ s.Picked task) := fun known => by
    simpa [awake] using ((placed.registered task).mpr known).2
  refine ⟨?_, placed.wakeList_nodup, ?_, placed.wakeList_disjoint, fun other => ?_,
    fun other blocked => ?_⟩
  · rw [List.nodup_append]
    refine ⟨placed.waiters_nodup, List.nodup_singleton task, ?_⟩
    rintro other member _ (_ | _) rfl
    · exact absent (.inl member)
    · contradiction
  · intro call other left right
    rcases List.mem_append.mp left with member | member
    · exact placed.waiters_disjoint call member right
    · exact absent (.inr ⟨call, List.mem_singleton.mp member ▸ right⟩)
  · have was := placed.registered other
    unfold BlockedInWait Picked at *
    by_cases eq : other = task
    · subst eq
      simp
    · simpa [eq] using was
  · by_cases eq : other = task
    · subst eq
      simp
    · simpa [eq] using placed.asleep other (by simpa [eq] using blocked)

omit [DecidableEq Task] [DecidableEq Call] in
theorem Placed.awake_of_looking (placed : s.Placed) {task : Task} {mode : Wait}
    (looking : s.waiting task = .entering mode ∨
      s.waiting task = .asleep mode ∧ s.blocked task = false) : s.blocked task = false := by
  rcases looking with entering | ⟨-, awake⟩
  · by_contra blocked
    simpa [entering] using placed.asleep task (by simpa using blocked)
  · exact awake

theorem Placed.move (placed : s.Placed) {t : State Task Call} (move : Move s t) : t.Placed := by
  cases move with
  | signal call count idle =>
    exact placed.congr rfl (Lib.apply_update_eq _ (by simp [idle])) rfl fun _ => rfl
  | lock call count counted => exact placed.lockedSignal counted
  | wake call id rest waking => exact placed.wake waking
  | woke call waking =>
    exact placed.congr rfl (Lib.apply_update_eq _ (by simp [waking])) rfl fun _ => rfl
  | wait task mode out =>
    exact placed.congr rfl (fun _ => rfl) rfl (Lib.apply_update_eq _ (by simp [out]))
  | look task mode looking =>
    have awake := placed.awake_of_looking looking
    rcases s.lockedWait_cases task mode with ⟨n, -, -, ran⟩ | ⟨-, gaveUp⟩ | ⟨-, slept⟩
    · rw [ran]
      exact (placed.leave awake (.took n)).congr rfl (fun _ => rfl) rfl fun _ => rfl
    · exact gaveUp ▸ placed.leave awake .out
    · exact slept ▸ placed.sleep awake mode
  | count task n took =>
    exact placed.congr rfl (fun _ => rfl) rfl (Lib.apply_update_eq _ (by simp [took]))

/-! ## Pending signals are covered by wake-ups -/

def Covered (s : State Task Call) : Prop :=
  s.waiters ≠ [] → s.pending ≤ {task | s.Woken task}.ncard

section Covered

variable [Finite Task]

omit [DecidableEq Task] [DecidableEq Call] in
theorem Covered.of_subset {t : State Task Call} (covered : s.Covered)
    (waiters : t.waiters = s.waiters) (pending : t.pending = s.pending)
    (woken : ∀ task, s.Woken task → t.Woken task) : t.Covered := by
  intro someone
  rw [pending]
  exact (covered (waiters ▸ someone)).trans (Set.ncard_le_ncard woken (Set.toFinite _))

omit [DecidableEq Task] [DecidableEq Call] in
theorem Covered.congr {t : State Task Call} (covered : s.Covered)
    (waiters : t.waiters = s.waiters) (pending : t.pending = s.pending)
    (wakeLists : ∀ call, (t.signalling call).wakeList = (s.signalling call).wakeList)
    (blocked : t.blocked = s.blocked)
    (asleep : ∀ task, (t.waiting task).isAsleep = (s.waiting task).isAsleep) : t.Covered :=
  covered.of_subset waiters pending fun task woken => by
    simpa only [Woken, Picked, wakeLists, blocked, asleep] using woken

theorem Covered.lockedSignal (covered : s.Covered) (placed : s.Placed) {call : Call}
    {count : Nat} (counted : s.signalling call = .counted count) :
    (s.lockedSignal call count).Covered := by
  intro someone
  obtain ⟨front, back, split, waiters, signalling, full⟩ := placed.lockedSignal_eq call count
  have left : back ≠ [] := waiters ▸ someone
  have was : s.pending ≤ {task | s.Woken task}.ncard :=
    covered (by rw [split]; exact List.append_ne_nil_of_right_ne_nil front left)
  have front_nodup : front.Nodup := (List.nodup_append.mp (split ▸ placed.waiters_nodup)).1
  have apart : Disjoint {task | s.Woken task} ↑front.toFinset := by
    rw [Set.disjoint_left]
    intro task woken mem
    have waiting : task ∈ s.waiters := by
      rw [split]
      exact List.mem_append_left back (by simpa using mem)
    rcases woken with ⟨other, picked⟩ | ⟨-, awake⟩
    · exact placed.waiters_disjoint other waiting picked
    · have asleep := ((placed.registered task).mpr (.inl waiting)).2
      simp [awake] at asleep
  have grows : {task | s.Woken task} ∪ ↑front.toFinset ⊆
      {task | (s.lockedSignal call count).Woken task} := by
    rintro task (woken | picked)
    · rcases woken with ⟨other, picked⟩ | awake
      · have ne : other ≠ call := fun eq => by simp [eq, counted] at picked
        exact .inl ⟨other, by rwa [signalling, update_of_ne ne]⟩
      · exact .inr awake
    · exact .inl ⟨call, by simpa [signalling] using picked⟩
  calc (s.lockedSignal call count).pending
      ≤ s.pending + count := Nat.min_le_left _ _
    _ ≤ {task | s.Woken task}.ncard + front.length := Nat.add_le_add was (full left).ge
    _ = ({task | s.Woken task} ∪ ↑front.toFinset).ncard := by
        rw [Set.ncard_union_eq apart, Set.ncard_coe_finset, List.toFinset_card_of_nodup front_nodup]
    _ ≤ _ := Set.ncard_le_ncard grows (Set.toFinite _)

omit [DecidableEq Call] in
theorem Covered.take (covered : s.Covered) {task : Task} {n : Nat} (pos : 0 < n) :
    Covered { s with
      pending := s.pending - n
      waiting := update s.waiting task (.took n) } := by
  intro someone
  have kept : {other | s.Woken other} \ {task} ⊆ {other | Woken { s with
      pending := s.pending - n
      waiting := update s.waiting task (.took n) } other} := by
    rintro other ⟨picked | awake, ne⟩
    · exact .inl picked
    · exact .inr (by simpa [Set.mem_singleton_iff.not.mp ne] using awake)
  calc s.pending - n
      ≤ {other | s.Woken other}.ncard - 1 := tsub_le_tsub (covered someone) pos
    _ ≤ ({other | s.Woken other} \ {task}).ncard :=
        Set.pred_ncard_le_ncard_sdiff_singleton _ _
    _ ≤ _ := Set.ncard_le_ncard kept (Set.toFinite _)

theorem Covered.move (covered : s.Covered) (placed : s.Placed) {t : State Task Call}
    (move : Move s t) : t.Covered := by
  cases move with
  | signal call count idle =>
    exact covered.congr rfl rfl (Lib.apply_update_eq _ (by simp [idle])) rfl fun _ => rfl
  | lock call count counted => exact covered.lockedSignal placed counted
  | wake call id rest waking =>
    refine covered.of_subset rfl rfl fun task woken => ?_
    by_cases eq : task = id
    · subst eq
      have asleep := (placed.registered task).mpr (.inr ⟨call, by simp [waking]⟩)
      exact .inr ⟨asleep.1, by simp⟩
    rcases woken with ⟨other, picked⟩ | awake
    · refine .inl ⟨other, ?_⟩
      by_cases here : other = call
      · subst here
        simpa [waking, eq] using picked
      · simpa [here] using picked
    · exact .inr (by simpa [eq] using awake)
  | woke call waking =>
    exact covered.congr rfl rfl (Lib.apply_update_eq _ (by simp [waking])) rfl fun _ => rfl
  | wait task mode out =>
    exact covered.congr rfl rfl (fun _ => rfl) rfl (Lib.apply_update_eq _ (by simp [out]))
  | look task mode looking =>
    rcases s.lockedWait_cases task mode with
      ⟨n, pos, -, ran⟩ | ⟨none, gaveUp⟩ | ⟨none, slept⟩
    · exact ran ▸ covered.take pos
    · rw [gaveUp]
      intro _
      simp [none]
    · rw [slept]
      intro _
      simp [none]
  | count task n took =>
    exact covered.congr rfl rfl (fun _ => rfl) rfl (Lib.apply_update_eq _ (by simp [took]))

end Covered

/-! ## Every signal is accounted for -/

section Balanced

variable [Fintype Task] [Fintype Call]

/-- Each recorded signal has been handed to a waiter, is pending, was folded
into a saturated counter, or belongs to a call that is still under way. -/
def Balanced (s : State Task Call) : Prop :=
  s.signals = s.waits + BitVec.ofNat 64 s.pending + s.saturated +
    ((∑ call, BitVec.ofNat 64 (s.signalling call).unrecorded) +
      ∑ task, BitVec.ofNat 64 (s.waiting task).uncounted)

omit [DecidableEq Task] in
theorem Balanced.lockedSignal (balanced : s.Balanced) {call : Call} {count : Nat}
    (bounded : s.pending ≤ U32_MAX) (counted : s.signalling call = .counted count) :
    (s.lockedSignal call count).Balanced := by
  have calls := Lib.sum_update_add (fun p => BitVec.ofNat 64 p.unrecorded) s.signalling call
    (.waking (pickWaiters s.blocked count s.waiters []).1)
  simp only [counted, Signalling.unrecorded_counted, Signalling.unrecorded_waking, BitVec.add_zero]
    at calls
  have stored : BitVec.ofNat 64 (s.lockedSignal call count).pending +
      (s.lockedSignal call count).saturated =
        BitVec.ofNat 64 s.pending + BitVec.ofNat 64 count + s.saturated := by
    by_cases excess : count > U32_MAX - s.pending
    · have full : min (s.pending + count) U32_MAX + (count - (U32_MAX - s.pending)) =
          s.pending + count := by omega
      have split := congrArg (BitVec.ofNat 64) full
      simp only [BitVec.ofNat_add] at split
      simp only [State.lockedSignal, excess, if_true]
      linear_combination split
    · have fits : min (s.pending + count) U32_MAX = s.pending + count := by omega
      simp only [State.lockedSignal, excess, if_false, fits, BitVec.ofNat_add]
  unfold Balanced at *
  simp only [State.lockedSignal] at stored ⊢
  linear_combination balanced - stored - calls

omit [DecidableEq Call] in
theorem Balanced.lockedWait (balanced : s.Balanced) {task : Task} {mode : Wait}
    (idle : (s.waiting task).uncounted = 0) : (s.lockedWait task mode).Balanced := by
  have tasks := fun pos =>
    Lib.sum_update_add (fun p => BitVec.ofNat 64 p.uncounted) s.waiting task pos
  simp only [idle, BitVec.add_zero] at tasks
  unfold Balanced at *
  rcases s.lockedWait_cases task mode with ⟨n, -, enough, ran⟩ | ⟨-, gaveUp⟩ | ⟨-, slept⟩
  · have split := congrArg (BitVec.ofNat 64) (Nat.sub_add_cancel enough)
    rw [BitVec.ofNat_add] at split
    have moved := tasks (.took n)
    rw [ran]
    simp only [Waiting.uncounted_took] at moved ⊢
    linear_combination balanced - split - moved
  · have moved := tasks .out
    rw [gaveUp]
    simp only [Waiting.uncounted_out, BitVec.add_zero] at moved ⊢
    linear_combination balanced - moved
  · have moved := tasks (.asleep mode)
    rw [slept]
    simp only [Waiting.uncounted_asleep, BitVec.add_zero] at moved ⊢
    linear_combination balanced - moved

theorem Balanced.move (balanced : s.Balanced) (bounded : s.pending ≤ U32_MAX)
    {t : State Task Call} (move : Move s t) : t.Balanced := by
  cases move with
  | signal call count idle =>
    have calls := Lib.sum_update_add (fun p => BitVec.ofNat 64 p.unrecorded) s.signalling call
      (.counted count)
    simp only [idle, Signalling.unrecorded_out, Signalling.unrecorded_counted, BitVec.add_zero]
      at calls
    unfold Balanced at *
    linear_combination balanced - calls
  | lock call count counted => exact balanced.lockedSignal bounded counted
  | wake call id rest waking =>
    have calls := Lib.sum_update_add (fun p => BitVec.ofNat 64 p.unrecorded) s.signalling call
      (.waking rest)
    simp only [waking, Signalling.unrecorded_waking, BitVec.add_zero] at calls
    unfold Balanced at *
    linear_combination balanced - calls
  | woke call waking =>
    have calls := Lib.sum_update_add (fun p => BitVec.ofNat 64 p.unrecorded) s.signalling call .out
    simp only [waking, Signalling.unrecorded_waking, Signalling.unrecorded_out, BitVec.add_zero]
      at calls
    unfold Balanced at *
    linear_combination balanced - calls
  | wait task mode out =>
    have tasks := Lib.sum_update_add (fun p => BitVec.ofNat 64 p.uncounted) s.waiting task
      (.entering mode)
    simp only [out, Waiting.uncounted_out, Waiting.uncounted_entering, BitVec.add_zero] at tasks
    unfold Balanced at *
    linear_combination balanced - tasks
  | look task mode looking =>
    exact balanced.lockedWait (by rcases looking with here | ⟨here, -⟩ <;> simp [here])
  | count task n took =>
    have tasks := Lib.sum_update_add (fun p => BitVec.ofNat 64 p.uncounted) s.waiting task .out
    simp only [took, Waiting.uncounted_took, Waiting.uncounted_out, BitVec.add_zero] at tasks
    unfold Balanced at *
    linear_combination balanced - tasks

omit [Fintype Task] [Fintype Call] in
theorem pending_le_of_move (bounded : s.pending ≤ U32_MAX) {t : State Task Call}
    (move : Move s t) : t.pending ≤ U32_MAX := by
  cases move with
  | lock call count counted => exact Nat.min_le_right _ _
  | look task mode looking =>
    rcases s.lockedWait_cases task mode with ⟨n, -, -, ran⟩ | ⟨-, gaveUp⟩ | ⟨-, slept⟩
    · rw [ran]
      exact (Nat.sub_le _ n).trans bounded
    · rwa [gaveUp]
    · rwa [slept]
  | signal | wake | woke | wait | count => exact bounded

end Balanced

/-! ## Whole runs -/

section Runs

variable [Fintype Task] [Fintype Call]

structure Inv (s : State Task Call) : Prop where
  placed : s.Placed
  covered : s.Covered
  balanced : s.Balanced
  bounded : s.pending ≤ U32_MAX

omit [DecidableEq Task] [DecidableEq Call] in
theorem inv_new : (new : State Task Call).Inv where
  placed := by constructor <;> simp [new, BlockedInWait, Picked]
  covered := by simp [Covered, new]
  balanced := by simp [Balanced, new]
  bounded := Nat.zero_le _

theorem Inv.move (inv : s.Inv) {t : State Task Call} (move : Move s t) : t.Inv where
  placed := inv.placed.move move
  covered := inv.covered.move inv.placed move
  balanced := inv.balanced.move inv.bounded move
  bounded := pending_le_of_move inv.bounded move

theorem inv_of_reaches {actions : List (Action Task Call)} (reached : Reaches actions s) : s.Inv :=
  reached.invariant Inv inv_new fun _ _ _ inv ran => inv.move (move_of_step ran)

omit [DecidableEq Task] [DecidableEq Call] in
theorem Balanced.of_settled (balanced : s.Balanced) (settled : s.Settled) :
    s.signals = s.waits + BitVec.ofNat 64 s.pending + s.saturated := by
  simpa [Balanced, settled.1, settled.2] using balanced

/-- After every run the counters account for every signal, pending signals are
covered by woken tasks while anybody waits, and once no woken task is left a
pending signal means that nobody sleeps. -/
theorem notify_loses_nothing {actions : List (Action Task Call)}
    (reached : Reaches actions s) :
    (s.Settled → s.signals = s.waits + BitVec.ofNat 64 s.pending + s.saturated) ∧
    (s.waiters ≠ [] → s.pending ≤ {task | s.Woken task}.ncard) ∧
    ((∀ task, ¬s.Woken task) → s.pending > 0 → ∀ task, ¬s.BlockedInWait task) := by
  have inv := inv_of_reaches reached
  refine ⟨inv.balanced.of_settled, inv.covered, fun quiet some task asleep => ?_⟩
  have waiting : task ∈ s.waiters := by
    rcases (inv.placed.registered task).mp asleep with mem | picked
    · exact mem
    · exact absurd (.inl picked) (quiet task)
  have covered := inv.covered (List.ne_nil_of_mem waiting)
  have nobody : {task | s.Woken task} = ∅ := Set.eq_empty_of_forall_notMem quiet
  rw [nobody, Set.ncard_empty] at covered
  exact absurd some (Nat.not_lt.mpr covered)

theorem notify_loses_nothing_one_of_two_woken : ∃ s : State (Fin 2) (Fin 1),
    Reaches [.wait 0 .one, .look 0, .wait 1 .all, .look 1, .signal 0 1, .lock 0] s ∧
    s.waiters = [1] ∧ s.pending = 1 ∧
    s.signals = s.waits + BitVec.ofNat 64 s.pending + s.saturated ∧
    s.pending ≤ {task | s.Woken task}.ncard := by
  have reached : Reaches ([.wait 0 .one, .look 0, .wait 1 .all, .look 1, .signal 0 1, .lock 0] :
      List (Action (Fin 2) (Fin 1))) _ := Lib.run_of_replay rfl
  obtain ⟨balanced, covered, -⟩ := notify_loses_nothing reached
  exact ⟨_, reached, rfl, rfl, balanced (by constructor <;> decide), covered (List.cons_ne_nil _ _)⟩

end Runs

end K1K.Notify.State
