import K1K.Sched.Model

/-!
# The choice of the next task

`dequeue`, `steal` and the choice at the head of `schedule`, as one CPU carries them out while
no run queue changes. `ok` tells the tasks among the pointers of a queue. `n + 1` CPUs are
online, so CPU numbers are those of `Cpu n`; the cursor is a `u32`.
-/

namespace K1K.Sched

open K1K.Lib
open Function (update update_of_ne update_self)

variable {n : Nat} {α : Type}

local instance (priority := 2000) cpus_neZero (n : Nat) : NeZero (n + 1) := ⟨n.succ_ne_zero⟩

section Choice

variable (ok : α → Bool)

def dequeue : List α → Option α × List α
  | [] => (none, [])
  | ptr :: rest => if ok ptr then (some ptr, rest) else dequeue rest

def scan (me : Cpu n) : Nat → Cpu n → (Cpu n → List α) → Option α × (Cpu n → List α)
  | 0, _, queue => (none, queue)
  | tries + 1, cpu, queue =>
    if cpu = me then scan me tries (cpu + 1) queue
    else
      match dequeue ok (queue cpu) with
      | (some t, rest) => (some t, update queue cpu rest)
      | (none, rest) => scan me tries (cpu + 1) (update queue cpu rest)

def advance (n : Nat) (start : BitVec 32) : BitVec 32 :=
  BitVec.ofNat 32 ((start + 1).toNat % (n + 1))

def firstCpu (n : Nat) (start : BitVec 32) : Cpu n := Fin.ofNat (n + 1) start.toNat

structure Choice (n : Nat) (α : Type) where
  task : Option α
  cursor : BitVec 32
  queue : Cpu n → List α

def passes (me : Cpu n) : Nat → BitVec 32 → (Cpu n → List α) → Choice n α
  | 0, cursor, queue => ⟨none, cursor, queue⟩
  | rounds + 1, start, queue =>
    match scan ok me n (firstCpu n start) queue with
    | (some t, left) => ⟨some t, advance n start, left⟩
    | (none, left) => passes me rounds (advance n start) left

def steal (me : Cpu n) (cursor : BitVec 32) (queue : Cpu n → List α) : Choice n α :=
  if n + 1 < 2 then ⟨none, cursor, queue⟩ else passes ok me (min MAX_TRIES n) cursor queue

/-- The task that `schedule` goes on with; `none` keeps the current one or falls
back to the idle task. -/
def nextTask (me : Cpu n) (cursor : BitVec 32) (queue : Cpu n → List α) : Choice n α :=
  match dequeue ok (queue me) with
  | (some t, rest) => ⟨some t, cursor, update queue me rest⟩
  | (none, rest) => steal ok me cursor (update queue me rest)

end Choice

section Coverage

variable {ok : α → Bool} {me victim : Cpu n} {queue left : Cpu n → List α}

def Loaded (ok : α → Bool) (queue : List α) : Prop := ∃ t ∈ queue, ok t

theorem dequeue_none {tasks rest : List α} (empty : dequeue ok tasks = (none, rest)) :
    ¬ Loaded ok tasks ∧ rest = [] := by
  fun_induction dequeue ok tasks with
  | case1 =>
    cases empty
    exact ⟨by simp [Loaded], rfl⟩
  | case2 => cases empty
  | case3 ptr tasks junk ih =>
    obtain ⟨unloaded, gone⟩ := ih empty
    refine ⟨?_, gone⟩
    rintro ⟨t, mem, runnable⟩
    rcases List.mem_cons.mp mem with rfl | later
    · exact junk runnable
    · exact unloaded ⟨t, later, runnable⟩

variable {t : α} {cursor : BitVec 32}

theorem dequeue_some {tasks rest : List α} (ran : dequeue ok tasks = (some t, rest)) :
    t ∈ tasks ∧ ok t := by
  fun_induction dequeue ok tasks with
  | case1 => cases ran
  | case2 ptr tasks good =>
    cases ran
    exact ⟨List.mem_cons_self, good⟩
  | case3 ptr tasks junk ih =>
    obtain ⟨mem, runnable⟩ := ih ran
    exact ⟨List.mem_cons_of_mem ptr mem, runnable⟩

def SameTasks (ok : α → Bool) (left queue : Cpu n → List α) : Prop :=
  ∀ cpu t, ok t → (t ∈ left cpu ↔ t ∈ queue cpu)

theorem SameTasks.loaded (eq : SameTasks ok left queue) (cpu : Cpu n) :
    Loaded ok (left cpu) ↔ Loaded ok (queue cpu) := by
  constructor
  · rintro ⟨t, mem, runnable⟩
    exact ⟨t, (eq cpu t runnable).mp mem, runnable⟩
  · rintro ⟨t, mem, runnable⟩
    exact ⟨t, (eq cpu t runnable).mpr mem, runnable⟩

theorem sameTasks_update {cpu : Cpu n} (unloaded : ¬ Loaded ok (queue cpu)) :
    SameTasks ok (update queue cpu []) queue := by
  intro other t runnable
  by_cases eq : other = cpu
  · subst eq
    rw [update_self]
    exact ⟨by simp, fun mem => (unloaded ⟨t, mem, runnable⟩).elim⟩
  · rw [update_of_ne eq]

theorem SameTasks.trans {middle : Cpu n → List α} (first : SameTasks ok left middle)
    (second : SameTasks ok middle queue) : SameTasks ok left queue :=
  fun cpu t runnable => (first cpu t runnable).trans (second cpu t runnable)

theorem below_of_succ {tries : Nat} {i : Cpu n} (below : i.val < tries + 1) (later : i ≠ 0) :
    (i - 1).val < tries := by
  have lowered := Fin.val_sub_one_of_ne_zero later
  have pos : i.val ≠ 0 := fun zero => later (Fin.ext zero)
  omega

theorem scan_none {tries : Nat} {cpu : Cpu n} (missed : scan ok me tries cpu queue = (none, left)) :
    SameTasks ok left queue ∧
      ∀ i : Cpu n, i.val < tries → cpu + i ≠ me → ¬ Loaded ok (queue (cpu + i)) := by
  have shifted (cpu i : Cpu n) : cpu + i = cpu + 1 + (i - 1) := by abel
  fun_induction scan ok me tries cpu queue with
  | case1 =>
    cases missed
    exact ⟨fun _ _ _ => Iff.rfl, by simp⟩
  | case2 queue tries ih =>
    obtain ⟨eq, seen⟩ := ih missed
    refine ⟨eq, fun i below foreign => ?_⟩
    by_cases here : i = 0
    · simp [here] at foreign
    · rw [shifted] at foreign ⊢
      exact seen (i - 1) (below_of_succ below here) foreign
  | case3 => cases missed
  | case4 tries cpu queue foreign rest found ih =>
    obtain ⟨unloaded, rfl⟩ := dequeue_none found
    obtain ⟨eq, seen⟩ := ih missed
    refine ⟨eq.trans (sameTasks_update unloaded), fun i below foreign => ?_⟩
    by_cases here : i = 0
    · simpa [here] using unloaded
    · rw [shifted] at foreign ⊢
      rw [← (sameTasks_update unloaded).loaded]
      exact seen (i - 1) (below_of_succ below here) foreign

theorem scan_some {tries : Nat} {cpu : Cpu n}
    (found : scan ok me tries cpu queue = (some t, left)) :
    ok t ∧ ∃ victim ≠ me, t ∈ queue victim := by
  fun_induction scan ok me tries cpu queue with
  | case1 => cases found
  | case2 _ _ ih => exact ih found
  | case3 tries cpu queue foreign ran rest dequeued =>
    cases found
    obtain ⟨mem, runnable⟩ := dequeue_some dequeued
    exact ⟨runnable, cpu, foreign, mem⟩
  | case4 tries cpu queue foreign rest dequeued ih =>
    obtain ⟨unloaded, rfl⟩ := dequeue_none dequeued
    obtain ⟨runnable, victim, other, mem⟩ := ih found
    exact ⟨runnable, victim, other, (sameTasks_update unloaded victim t runnable).mp mem⟩

def startAt (n : Nat) (cursor : BitVec 32) : Nat → BitVec 32
  | 0 => cursor
  | j + 1 => startAt n (advance n cursor) j

theorem passes_none {rounds : Nat} (missed : (passes ok me rounds cursor queue).task = none) :
    ∀ j < rounds, ∀ i : Cpu n, i.val < n → firstCpu n (startAt n cursor j) + i ≠ me →
      ¬ Loaded ok (queue (firstCpu n (startAt n cursor j) + i)) := by
  fun_induction passes ok me rounds cursor queue with
  | case1 => simp
  | case2 => cases missed
  | case3 rounds start queue left found ih =>
    obtain ⟨eq, seen⟩ := scan_none found
    intro j below
    cases j with
    | zero => exact seen
    | succ j =>
      intro i lt foreign
      rw [startAt] at foreign ⊢
      rw [← eq.loaded]
      exact ih missed j (by omega) i lt foreign

theorem passes_some {rounds : Nat} (found : (passes ok me rounds cursor queue).task = some t) :
    ok t ∧ ∃ victim ≠ me, t ∈ queue victim := by
  fun_induction passes ok me rounds cursor queue with
  | case1 => cases found
  | case2 rounds start queue ran left scanned =>
    cases found
    exact scan_some scanned
  | case3 rounds start queue left scanned ih =>
    obtain ⟨runnable, victim, other, mem⟩ := ih found
    exact ⟨runnable, victim, other, ((scan_none scanned).1 victim t runnable).mp mem⟩

theorem reached_or_before (start victim : Cpu n) :
    (∃ i : Cpu n, i.val < n ∧ start + i = victim) ∨ start = victim + 1 := by
  by_cases lt : (victim - start).val < n
  · exact .inl ⟨victim - start, lt, by abel⟩
  refine .inr ?_
  have last : victim - start = Fin.last n := by
    ext
    have := (victim - start).isLt
    simp
    omega
  have next : victim - start + 1 = 0 := by rw [last, Fin.last_add_one]
  calc start = start + (victim - start + 1) := by rw [next, add_zero]
    _ = victim + 1 := by abel

theorem advance_toNat (online : n + 1 < 2 ^ 32) (start : BitVec 32) :
    (advance n start).toNat = (start + 1).toNat % (n + 1) := by
  rw [advance, BitVec.toNat_ofNat]
  exact Nat.mod_eq_of_lt ((Nat.mod_lt _ (Nat.succ_pos n)).trans online)

theorem advance_unwrapped (online : n + 1 < 2 ^ 32) (start : BitVec 32) :
    (advance n start).toNat + 1 < 2 ^ 32 := by
  have lt : (start + 1).toNat % (n + 1) < n + 1 := Nat.mod_lt _ (Nat.succ_pos n)
  rw [advance_toNat online]
  omega

theorem firstCpu_advance {start : BitVec 32} (online : n + 1 < 2 ^ 32)
    (unwrapped : start.toNat + 1 < 2 ^ 32) :
    firstCpu n (advance n start) = firstCpu n start + 1 := by
  have next : (start + 1).toNat = start.toNat + 1 := by
    rw [BitVec.toNat_add]
    exact Nat.mod_eq_of_lt unwrapped
  ext
  rw [firstCpu, advance_toNat online, next]
  simp [firstCpu, Fin.val_add]

theorem reached_by_two {start : BitVec 32} (online : n + 1 < 2 ^ 32) (several : 0 < n)
    (unwrapped : start.toNat + 1 < 2 ^ 32) (victim : Cpu n) : ∃ cursor ∈ [start, advance n start],
      ∃ i : Cpu n, i.val < n ∧ firstCpu n cursor + i = victim := by
  rcases reached_or_before (firstCpu n start) victim with reached | before
  · exact ⟨start, by simp, reached⟩
  rcases reached_or_before (firstCpu n (advance n start)) victim with reached | again
  · exact ⟨advance n start, by simp, reached⟩
  · rw [firstCpu_advance online unwrapped, before, add_eq_left, Fin.one_eq_zero_iff] at again
    omega

/-- Of two CPUs the only pass starts at the other one, and of three the cursor does not wrap or the
CPU that both passes then miss is the caller's. -/
def Covers (me : Cpu n) (cursor : BitVec 32) : Prop :=
  (n = 1 → firstCpu n cursor ≠ me) ∧ (n = 2 → cursor = BitVec.allOnes 32 → me.val = 2)

instance (me : Cpu n) (cursor : BitVec 32) : Decidable (Covers me cursor) :=
  inferInstanceAs (Decidable (_ ∧ _))

theorem reached_by_steal (online : n + 1 < 2 ^ 32) (several : 0 < n)
    (covers : Covers me cursor) (other : victim ≠ me) :
    ∃ j < min MAX_TRIES n, ∃ i : Cpu n, i.val < n ∧
      firstCpu n (startAt n cursor j) + i = victim := by
  rcases Nat.lt_trichotomy n 2 with two | rfl | more
  · obtain rfl : n = 1 := by omega
    refine ⟨0, by decide, 0, Nat.one_pos, ?_⟩
    have foreign := covers.1 rfl
    rw [startAt, add_zero]
    generalize firstCpu 1 cursor = start at foreign ⊢
    rw [ne_eq, Fin.ext_iff] at foreign other
    rw [Fin.ext_iff]
    omega
  · by_cases wraps : cursor = BitVec.allOnes 32
    · have missed := covers.2 rfl wraps
      have start : firstCpu 2 cursor = 0 := by rw [wraps]; rfl
      rw [ne_eq, Fin.ext_iff] at other
      exact ⟨0, by decide, victim, by omega, by rw [startAt, start, zero_add]⟩
    have unwrapped : cursor.toNat + 1 < 2 ^ 32 := by
      have bound := cursor.isLt
      have ne : cursor.toNat ≠ 2 ^ 32 - 1 := fun eq =>
        wraps (BitVec.eq_of_toNat_eq (eq.trans BitVec.toNat_allOnes.symm))
      omega
    obtain ⟨start, mem, reached⟩ := reached_by_two online several unwrapped victim
    simp only [List.mem_cons, List.not_mem_nil, or_false] at mem
    rcases mem with rfl | rfl
    · exact ⟨0, by decide, reached⟩
    · exact ⟨1, by decide, reached⟩
  · rcases reached_by_two online several (advance_unwrapped online cursor) victim with
      ⟨start, mem, reached⟩
    simp only [List.mem_cons, List.not_mem_nil, or_false] at mem
    have three : min MAX_TRIES n = 3 := Nat.min_eq_left more
    rw [three]
    rcases mem with rfl | rfl
    · exact ⟨1, by decide, reached⟩
    · exact ⟨2, by decide, reached⟩

theorem steal_none (online : n + 1 < 2 ^ 32) (covers : Covers me cursor)
    (missed : (steal ok me cursor queue).task = none) (other : victim ≠ me) :
    ¬ Loaded ok (queue victim) := by
  have several : 0 < n := by
    rcases Nat.eq_zero_or_pos n with rfl | several
    · exact absurd (Fin.ext (by omega)) other
    · exact several
  rw [steal, if_neg (by omega)] at missed
  obtain ⟨j, below, i, lt, rfl⟩ := reached_by_steal online several covers other
  exact passes_none missed j below i lt other

theorem steal_some (found : (steal ok me cursor queue).task = some t) :
    ok t ∧ ∃ victim ≠ me, t ∈ queue victim := by
  rw [steal] at found
  split at found
  next => simp at found
  next => exact passes_some found

end Coverage

theorem nextTask_none_iff {n : Nat} {α : Type} {ok : α → Bool} {me : Cpu n} {cursor : BitVec 32}
    {queue : Cpu n → List α} (online : n + 1 < 2 ^ 32) (covers : Covers me cursor) :
    (nextTask ok me cursor queue).task = none ↔ ∀ cpu, ¬ Loaded ok (queue cpu) := by
  rw [nextTask]
  split
  next t rest ran =>
    obtain ⟨mem, runnable⟩ := dequeue_some ran
    exact ⟨by simp, fun nothing => (nothing me ⟨t, mem, runnable⟩).elim⟩
  next rest empty =>
    obtain ⟨unloaded, rfl⟩ := dequeue_none empty
    constructor
    · intro missed cpu
      by_cases eq : cpu = me
      · rwa [eq]
      · rw [← (sameTasks_update unloaded).loaded]
        exact steal_none online covers missed eq
    · intro nothing
      by_contra found
      obtain ⟨t, stolen⟩ := Option.ne_none_iff_exists'.mp found
      obtain ⟨runnable, victim, -, mem⟩ := steal_some stolen
      exact nothing victim ⟨t, (sameTasks_update unloaded victim t runnable).mp mem, runnable⟩

theorem covers_of_found {n : Nat} {me : Cpu n} {cursor : BitVec 32}
    (found : ∀ queue : Cpu n → List Unit, (∃ victim ≠ me, Loaded (fun _ => true) (queue victim)) →
      (steal (fun _ => true) me cursor queue).task ≠ none) : Covers me cursor := by
  refine ⟨?_, ?_⟩
  · rintro rfl own
    refine found (update (fun _ => []) (me + 1) [()]) ⟨me + 1, by simp, (), by simp, rfl⟩ ?_
    simp [steal, MAX_TRIES, passes, scan, own]
  rintro rfl rfl
  by_contra other
  have waiting : ∃ victim ≠ me, Loaded (fun _ => true) ((![[], [], [()]] : Cpu 2 → _) victim) :=
    ⟨2, fun eq => other (by rw [← eq]; rfl), (), by decide, rfl⟩
  refine found ![[], [], [()]] waiting ?_
  obtain rfl | rfl : me = 0 ∨ me = 1 := by
    rw [Fin.ext_iff, Fin.ext_iff]
    have := me.isLt
    change me.val = 0 ∨ me.val = 1
    omega
  · rfl
  · rfl

/-- `steal` returns a task of another CPU's queue whenever there is one, and `schedule` finds
nothing only when no queue holds a task, exactly if the passes cover the other CPUs. -/
theorem work_found {n : Nat} {me : Cpu n} {cursor : BitVec 32} (online : n + 1 < 2 ^ 32) :
    (∀ (α : Type) (ok : α → Bool) (queue : Cpu n → List α),
      ((∃ victim ≠ me, Loaded ok (queue victim)) →
        ∃ t, (steal ok me cursor queue).task = some t ∧ ok t ∧ ∃ victim ≠ me, t ∈ queue victim) ∧
      ((nextTask ok me cursor queue).task = none ↔ ∀ cpu, ¬ Loaded ok (queue cpu))) ↔
    Covers me cursor := by
  refine ⟨fun all => covers_of_found fun queue waiting missed => ?_, fun covers α ok queue =>
    ⟨?_, nextTask_none_iff online covers⟩⟩
  · obtain ⟨t, stolen, -⟩ := (all Unit (fun _ => true) queue).1 waiting
    simp [missed] at stolen
  rintro ⟨victim, other, loaded⟩
  have found : (steal ok me cursor queue).task ≠ none := fun missed =>
    steal_none online covers missed other loaded
  obtain ⟨t, stolen⟩ := Option.ne_none_iff_exists'.mp found
  exact ⟨t, stolen, steal_some stolen⟩

theorem work_found_of_three :
    (∃ t, (steal (fun _ => true) (0 : Cpu 2) 0 ![[], [], [7]]).task = some t ∧ true ∧
      ∃ victim ≠ 0, t ∈ ![[], [], [7]] victim) :=
  ((work_found (by decide)).mpr (by decide) Nat (fun _ => true) ![[], [], [7]]).1
    ⟨2, by decide, 7, by decide, rfl⟩

/-- Of two CPUs, one whose cursor points at itself looks at no queue, and goes idle while the
other has a task waiting. With three, a cursor that wraps makes both passes start at the same CPU.
-/
theorem steal_misses_work :
    (steal (fun _ => true) (0 : Cpu 1) 0 ![[], [7]]).task = none ∧
      (nextTask (fun _ => true) (0 : Cpu 1) 0 ![[], [7]]).task = none ∧
      Loaded (fun _ => true) ((![[], [7]] : Cpu 1 → List Nat) 1) ∧
      (steal (fun _ => true) (0 : Cpu 2) (BitVec.allOnes 32) ![[], [], [7]]).task = none :=
  ⟨rfl, rfl, ⟨7, by decide, rfl⟩, rfl⟩

end K1K.Sched
