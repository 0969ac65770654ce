import K1K.Obj.CapTable

/-!
# Slot accounting of capability tables

A tombstoned slot holds nothing, and only `insert` fills slots, and only ones without a
tombstone.
-/

namespace K1K.Obj.CapTable

/-- The invariant of every table: one flag per slot, at most 256 slots, and a
revoked slot holds nothing. -/
structure WellFormed (t : CapTable) : Prop where
  sameLength : t.slots.length = t.revoked.length
  bounded : t.slots.length ≤ MAX_SLOTS
  tombstones : ∀ i : Nat, t.revoked[i]? = some true → t.slots[i]? = some none

variable {cap : Capability} {slot : Nat} {t : CapTable}

theorem get_eq_some_iff : t.get slot = some cap ↔ t.slots[slot]? = some (some cap) := by
  simp [get, Option.join_eq_some_iff]

theorem get_eq_none_of_empty (empty : t.slots[slot]? = some none) : t.get slot = none := by
  simp [get, empty]

theorem getD_eq_true_iff {flags : List Bool} {i : Nat} :
    flags.getD i false = true ↔ flags[i]? = some true := by
  rw [List.getD_eq_getElem?_getD]
  cases flags[i]? <;> simp

theorem firstUsable_eq_some {i : Nat} (found : t.firstUsable = some i) :
    i < t.slots.length ∧ t.slots[i]? = some none ∧ t.revoked[i]? ≠ some true := by
  simp only [firstUsable, List.find?_range_eq_some, Bool.and_eq_true, decide_eq_true_eq,
    Bool.not_eq_true', List.mem_range] at found
  obtain ⟨⟨empty, fresh⟩, inRange, _⟩ := found
  refine ⟨inRange, empty, fun flagged => ?_⟩
  rw [getD_eq_true_iff.mpr flagged] at fresh
  contradiction

theorem firstUsable_eq_none (none : t.firstUsable = none) {i : Nat}
    (empty : t.slots[i]? = some Option.none) : t.revoked[i]? = some true := by
  have inRange : i < t.slots.length := (List.getElem?_eq_some_iff.mp empty).1
  have rejected := List.find?_range_eq_none.mp none i inRange
  simp only [empty, decide_true, Bool.true_and, Bool.not_not] at rejected
  exact getD_eq_true_iff.mp rejected

theorem insert_cases (t : CapTable) (cap : Capability) :
    (∃ i, t.insert cap = (some i, { t with slots := t.slots.set i (some cap) }) ∧
      i < t.slots.length ∧ t.slots[i]? = some none ∧ t.revoked[i]? ≠ some true) ∨
    (t.insert cap = (none, t) ∧ t.firstUsable = none ∧ MAX_SLOTS ≤ t.slots.length) ∨
    (t.insert cap = (some t.slots.length, ⟨t.slots ++ [some cap], t.revoked ++ [false]⟩) ∧
      t.firstUsable = none ∧ t.slots.length < MAX_SLOTS) := by
  unfold insert
  cases found : t.firstUsable with
  | some i => exact .inl ⟨i, rfl, firstUsable_eq_some found⟩
  | none =>
    by_cases full : t.slots.length ≥ MAX_SLOTS
    · exact .inr (.inl ⟨by simp [full], rfl, full⟩)
    · exact .inr (.inr ⟨by simp [full], rfl, by omega⟩)

theorem revoke_cases (t : CapTable) (slot : Nat) : (∃ cap, t.revoke slot = (some cap,
        { slots := t.slots.set slot none, revoked := t.revoked.set slot true }) ∧
      t.slots[slot]? = some (some cap) ∧ t.revoked[slot]? ≠ some true) ∨
    (t.revoke slot = (none, t) ∧ (t.revoked[slot]? = some true ∨ t.get slot = none)) := by
  unfold revoke
  by_cases flagged : t.revoked.getD slot false = true
  · exact .inr ⟨if_pos flagged, .inl (getD_eq_true_iff.mp flagged)⟩
  have unflagged : t.revoked[slot]? ≠ some true := fun h => flagged (getD_eq_true_iff.mpr h)
  simp only [flagged, if_false, Bool.false_eq_true]
  cases held : t.slots[slot]? with
  | none => exact .inr ⟨rfl, .inr (by simp [get, held])⟩
  | some entry =>
    cases entry with
    | none => exact .inr ⟨rfl, .inr (get_eq_none_of_empty held)⟩
    | some cap => exact .inl ⟨cap, rfl, rfl, unflagged⟩

/-! ## What a table holds -/

theorem mem_iter : cap ∈ t.iter ↔ some cap ∈ t.slots :=
  List.reduceOption_mem_iff

theorem mem_iter_of_get (found : t.get slot = some cap) : cap ∈ t.iter :=
  mem_iter.mpr (List.mem_of_getElem? (get_eq_some_iff.mp found))

theorem mem_iter_insert {cap new : Capability}
    (mem : cap ∈ (t.insert new).2.iter) : cap = new ∨ cap ∈ t.iter := by
  rw [mem_iter] at mem
  obtain ⟨i, res, -⟩ | ⟨res, -⟩ | ⟨res, -⟩ := t.insert_cases new
  · rw [res] at mem
    rcases List.mem_or_eq_of_mem_set mem with was | now
    · exact .inr (mem_iter.mpr was)
    · exact .inl (Option.some.inj now)
  · rw [res] at mem
    exact .inr (mem_iter.mpr mem)
  · rw [res] at mem
    rcases List.mem_append.mp mem with was | now
    · exact .inr (mem_iter.mpr was)
    · exact .inl (Option.some.inj (List.mem_singleton.mp now))

theorem mem_iter_remove (mem : cap ∈ (t.remove slot).2.iter) : cap ∈ t.iter := by
  rw [mem_iter] at mem ⊢
  rcases List.mem_or_eq_of_mem_set mem with was | now
  · exact was
  · simp at now

theorem mem_iter_revoke (mem : cap ∈ (t.revoke slot).2.iter) : cap ∈ t.iter := by
  rw [mem_iter] at mem ⊢
  obtain ⟨ran, res, -⟩ | ⟨res, -⟩ := t.revoke_cases slot
  · rw [res] at mem
    rcases List.mem_or_eq_of_mem_set mem with was | now
    · exact was
    · simp at now
  · rw [res] at mem
    exact mem

theorem derive_eq_some {mask : Rights} (derived : t.derive slot mask = some cap) :
    ∃ old ∈ t.iter, old.rights.contains .GRANT = true ∧
      cap = ⟨old.object, old.rights.intersect mask⟩ := by
  obtain ⟨old, looked, rfl⟩ := Option.map_eq_some_iff.mp derived
  obtain ⟨found, granted⟩ := Option.filter_eq_some_iff.mp looked
  exact ⟨old, mem_iter_of_get found, granted, rfl⟩

theorem get_insert_of_get
    (held : t.get slot = some cap) (new : Capability) : (t.insert new).2.get slot = some cap := by
  rw [get_eq_some_iff] at held ⊢
  obtain ⟨i, res, -, empty, -⟩ | ⟨res, -⟩ | ⟨res, -⟩ := t.insert_cases new
  · have ne : i ≠ slot := by
      rintro rfl
      simp [empty] at held
    simpa [res, List.getElem?_set_ne ne] using held
  · simpa [res] using held
  · have inRange : slot < t.slots.length := (List.getElem?_eq_some_iff.mp held).1
    simpa [res, List.getElem?_append_left inRange] using held

theorem get_remove_of_ne {slot other : Nat} (ne : other ≠ slot) :
    (t.remove other).2.get slot = t.get slot := by
  simp [remove, get, List.getElem?_set_ne ne]

@[simp]
theorem get_remove_self (t : CapTable) (slot : Nat) : (t.remove slot).2.get slot = none := by
  rw [remove, get]
  by_cases inRange : slot < t.slots.length
  · simp [inRange]
  · rw [List.getElem?_eq_none (by simpa using inRange)]
    rfl

theorem get_revoke_of_ne {slot other : Nat} (ne : other ≠ slot) :
    (t.revoke other).2.get slot = t.get slot := by
  obtain ⟨cap, res, -⟩ | ⟨res, -⟩ := t.revoke_cases other
  · simp [res, get, List.getElem?_set_ne ne]
  · rw [res]

theorem get_of_insert {t t' : CapTable} {new : Capability} {taken slot : Nat}
    (inserted : t.insert new = (some taken, t')) (ne : slot ≠ taken) :
    t'.get slot = t.get slot := by
  obtain ⟨i, res, -⟩ | ⟨res, -⟩ | ⟨res, -⟩ := t.insert_cases new
  · cases inserted.symm.trans res
    simp [get, List.getElem?_set_ne (Ne.symm ne)]
  · cases inserted.symm.trans res
  cases inserted.symm.trans res
  rcases Nat.lt_or_gt_of_ne ne with inRange | past
  · simp [get, List.getElem?_append_left inRange]
  have out : [some new].length ≤ slot - t.slots.length := by
    rw [List.length_singleton]
    omega
  simp [get, List.getElem?_append_right past.le, List.getElem?_eq_none past.le,
    List.getElem?_eq_none out]

theorem slotAt_of_live {n : Nat} (live : ∀ i ≤ n, (t.get i).isSome = true) :
    t.slotAt n = some n := by
  have inRange : n < t.slots.length := by
    obtain ⟨cap, held⟩ := Option.isSome_iff_exists.mp (live n (Nat.le_refl n))
    exact (List.getElem?_eq_some_iff.mp (get_eq_some_iff.mp held)).1
  obtain ⟨rest, parts⟩ := Nat.exists_eq_add_of_le (Nat.succ_le_of_lt inRange)
  have front : (List.range (n + 1)).filter (fun i => (t.get i).isSome) = List.range (n + 1) := by
    rw [List.filter_eq_self]
    intro i mem
    exact live i (by simpa [Nat.lt_succ_iff] using mem)
  rw [slotAt, parts, List.range_add, List.filter_append, front, List.getElem?_append_left (by simp)]
  simp

/-! ## Each operation keeps the invariant -/

theorem new_wellFormed : new.WellFormed := ⟨rfl, by decide, by simp [new]⟩

theorem WellFormed.insert (wf : t.WellFormed) (cap : Capability) : (t.insert cap).2.WellFormed := by
  obtain ⟨i, res, _, _, fresh⟩ | ⟨res, _⟩ | ⟨res, _, room⟩ := t.insert_cases cap
  · rw [res]
    refine ⟨by simp [wf.sameLength], by simpa using wf.bounded, ?_⟩
    intro j flagged
    have ne : i ≠ j := by
      rintro rfl
      exact fresh flagged
    simpa [List.getElem?_set_ne ne] using wf.tombstones j flagged
  · rw [res]
    exact wf
  · rw [res]
    refine ⟨by simp [wf.sameLength], ?_, ?_⟩
    · simp only [List.length_append, List.length_singleton]
      exact room
    intro j flagged
    have lt : j < t.revoked.length := by
      by_contra late
      rw [List.getElem?_append_right (by omega)] at flagged
      obtain ⟨_, value⟩ := List.getElem?_eq_some_iff.mp flagged
      simp at value
    rw [List.getElem?_append_left lt] at flagged
    simpa [List.getElem?_append_left (wf.sameLength ▸ lt)] using wf.tombstones j flagged

theorem WellFormed.remove (wf : t.WellFormed) (slot : Nat) : (t.remove slot).2.WellFormed := by
  refine ⟨by simp [CapTable.remove, wf.sameLength], by simpa [CapTable.remove] using wf.bounded, ?_⟩
  intro j flagged
  have empty := wf.tombstones j flagged
  obtain ⟨inRange, _⟩ := List.getElem?_eq_some_iff.mp empty
  by_cases eq : slot = j
  · subst eq
    simp [CapTable.remove, inRange]
  · simpa [CapTable.remove, List.getElem?_set_ne eq] using empty

theorem WellFormed.revoke (wf : t.WellFormed) (slot : Nat) : (t.revoke slot).2.WellFormed := by
  obtain ⟨cap, res, held, _⟩ | ⟨res, _⟩ := t.revoke_cases slot
  · rw [res]
    refine ⟨by simp [wf.sameLength], by simpa using wf.bounded, ?_⟩
    intro j flagged
    obtain ⟨inRange, _⟩ := List.getElem?_eq_some_iff.mp held
    by_cases eq : slot = j
    · subst eq
      simp [inRange]
    · rw [List.getElem?_set_ne eq] at flagged
      simpa [List.getElem?_set_ne eq] using wf.tombstones j flagged
  · rw [res]
    exact wf

/-! ## Counting -/

theorem liveSlots_insert (t : CapTable) (cap : Capability) :
    (t.insert cap).2.liveSlots = t.liveSlots + if (t.insert cap).1.isSome then 1 else 0 := by
  obtain ⟨i, res, inRange, empty, -⟩ | ⟨res, -⟩ | ⟨res, -⟩ := t.insert_cases cap
  · have value := (List.getElem?_eq_some_iff.mp empty).2
    rw [res, liveSlots, List.countP_set inRange, value]
    simp [liveSlots]
  · simp [res]
  · simp [res, liveSlots]

theorem WellFormed.revoke_held (wf : t.WellFormed) (held : t.get slot = some cap) :
    (t.revoke slot).1 = some cap ∧ (t.revoke slot).2.revoked[slot]? = some true := by
  rw [get_eq_some_iff] at held
  have inRange : slot < t.revoked.length :=
    wf.sameLength ▸ (List.getElem?_eq_some_iff.mp held).1
  obtain ⟨ran, res, found, -⟩ | ⟨res, flagged | nothing⟩ := t.revoke_cases slot
  · rw [held, Option.some.injEq, Option.some.injEq] at found
    simp [res, found, inRange]
  · simp [wf.tombstones slot flagged] at held
  · simp [get_eq_some_iff.mpr held] at nothing

theorem count_slots (slots : List (Option Capability)) (revoked : List Bool)
    (sameLength : slots.length = revoked.length)
    (tombstones : ∀ i : Nat, revoked[i]? = some true → slots[i]? = some none) :
    slots.countP Option.isSome + revoked.countP id +
      (slots.zip revoked).countP (fun entry => entry.1.isNone && !entry.2) = slots.length := by
  induction slots generalizing revoked with
  | nil => simp [List.eq_nil_of_length_eq_zero sameLength.symm]
  | cons slot slots ih =>
    cases revoked with
    | nil => simp at sameLength
    | cons flag revoked =>
      have counted := ih revoked (by simpa using sameLength)
        fun i flagged => by simpa using tombstones (i + 1) (by simpa using flagged)
      have first := tombstones 0
      cases flag <;> cases slot <;> simp_all <;> omega

theorem WellFormed.slots_sum (wf : t.WellFormed) :
    t.liveSlots + t.revokedSlots + t.freeSlots = MAX_SLOTS := by
  have counted := count_slots t.slots t.revoked wf.sameLength wf.tombstones
  have bounded := wf.bounded
  unfold liveSlots revokedSlots freeSlots
  omega

theorem WellFormed.freeSlots_eq_zero_iff (wf : t.WellFormed) :
    t.freeSlots = 0 ↔ t.firstUsable = none ∧ MAX_SLOTS ≤ t.slots.length := by
  have bounded := wf.bounded
  constructor
  · intro exhausted
    simp only [freeSlots, Nat.add_eq_zero_iff, List.countP_eq_zero, Bool.and_eq_true,
      Option.isNone_iff_eq_none, Bool.not_eq_true', not_and, Bool.not_eq_false] at exhausted
    refine ⟨?_, by omega⟩
    cases found : t.firstUsable with
    | none => rfl
    | some i =>
      obtain ⟨inRange, empty, fresh⟩ := firstUsable_eq_some found
      have flagRange : i < t.revoked.length := wf.sameLength ▸ inRange
      have paired : (none, t.revoked[i]) ∈ t.slots.zip t.revoked := by
        rw [List.mem_iff_getElem?]
        exact ⟨i, List.getElem?_zip_eq_some.mpr ⟨empty, by simp [flagRange]⟩⟩
      exact absurd (by simpa [flagRange] using exhausted.2 _ paired rfl) fresh
  · rintro ⟨unusable, full⟩
    simp only [freeSlots, Nat.add_eq_zero_iff, List.countP_eq_zero, Bool.and_eq_true,
      Option.isNone_iff_eq_none, Bool.not_eq_true', not_and, Bool.not_eq_false]
    refine ⟨by omega, ?_⟩
    rintro ⟨slot, flag⟩ mem (rfl : slot = none)
    obtain ⟨i, paired⟩ := List.mem_iff_getElem?.mp mem
    obtain ⟨empty, flagged⟩ := List.getElem?_zip_eq_some.mp paired
    simpa [flagged] using firstUsable_eq_none unusable empty

/-! ## The strip loop -/

theorem liveSlots_revoke (held : t.slots[slot]? = some (some cap)) :
    (t.slots.set slot none).countP Option.isSome + 1 = t.liveSlots := by
  obtain ⟨inRange, value⟩ := List.getElem?_eq_some_iff.mp held
  have pos : 0 < t.slots.countP Option.isSome :=
    List.countP_pos_iff.mpr ⟨t.slots[slot], List.getElem_mem inRange, by simp [value]⟩
  rw [List.countP_set inRange]
  simp only [value, Option.isSome_some, if_true, Option.isSome_none, liveSlots]
  simp only [Bool.false_eq_true, if_false]
  omega

theorem strip_eq (fuel : Nat) (t : CapTable) (taken : Nat) (wf : t.WellFormed)
    (enough : t.liveSlots < fuel) :
    ∃ stripped, strip fuel t taken = some (stripped, taken + t.liveSlots) ∧
      stripped.liveSlots = 0 ∧ stripped.WellFormed := by
  induction fuel generalizing t taken with
  | zero => omega
  | succ fuel ih =>
    unfold strip
    cases found : (List.range t.slotCount).find? fun s => (t.get s).isSome with
    | none =>
      have empty : t.liveSlots = 0 := by
        rw [liveSlots, List.countP_eq_zero]
        intro entry mem
        obtain ⟨i, inRange, value⟩ := List.mem_iff_getElem.mp mem
        have vacant := List.find?_range_eq_none.mp found i inRange
        simpa [get, inRange, value] using vacant
      exact ⟨t, by simp [empty], empty, wf⟩
    | some slot =>
      have live : (t.get slot).isSome := (List.find?_range_eq_some.mp found).1
      obtain ⟨cap, held⟩ := Option.isSome_iff_exists.mp live
      obtain ⟨_, res, occupied, _⟩ | ⟨_, flagged | empty⟩ := t.revoke_cases slot
      · have fewer : (t.revoke slot).2.liveSlots + 1 = t.liveSlots := by
          rw [res]
          exact liveSlots_revoke occupied
        obtain ⟨stripped, ended, none, final⟩ :=
          ih (t.revoke slot).2 (taken + 1) (wf.revoke slot) (by omega)
        refine ⟨stripped, ?_, none, final⟩
        have total : taken + 1 + (t.revoke slot).2.liveSlots = taken + t.liveSlots := by omega
        rw [total] at ended
        simpa only [res, Option.isSome_some, if_true] using ended
      · have vacant := get_eq_none_of_empty (wf.tombstones slot flagged)
        rw [held] at vacant
        contradiction
      · rw [held] at empty
        contradiction

/-! ## Whole histories of a table -/

inductive Op where
  | insert (cap : Capability)
  | remove (slot : Nat)
  | revoke (slot : Nat)
  | get (slot : Nat)
  | derive (slot : Nat) (mask : Rights)
  deriving DecidableEq, Repr

def apply (t : CapTable) : Op → CapTable
  | .insert cap => (t.insert cap).2
  | .remove slot => (t.remove slot).2
  | .revoke slot => (t.revoke slot).2
  | .get _ => t
  | .derive _ _ => t

def replay (ops : List Op) : CapTable := ops.foldl apply new

def Withdrawn (ops : List Op) (slot : Nat) : Prop :=
  ∃ earlier later cap, ops = earlier ++ Op.revoke slot :: later ∧
    ((replay earlier).revoke slot).1 = some cap

theorem WellFormed.apply (wf : t.WellFormed) (op : Op) : (t.apply op).WellFormed := by
  cases op with
  | insert cap => exact wf.insert cap
  | remove slot => exact wf.remove slot
  | revoke slot => exact wf.revoke slot
  | get | derive => exact wf

theorem WellFormed.foldl (wf : t.WellFormed) (ops : List Op) :
    (ops.foldl CapTable.apply t).WellFormed := by
  induction ops generalizing t with
  | nil => exact wf
  | cons op ops ih => exact ih (wf.apply op)

theorem replay_wellFormed (ops : List Op) : (replay ops).WellFormed :=
  new_wellFormed.foldl ops

theorem apply_keeps_tombstone (flagged : t.revoked[slot]? = some true) (op : Op) :
    (t.apply op).revoked[slot]? = some true := by
  have inRange : slot < t.revoked.length := (List.getElem?_eq_some_iff.mp flagged).1
  cases op with
  | insert cap =>
    obtain ⟨i, res, _⟩ | ⟨res, _⟩ | ⟨res, _⟩ := t.insert_cases cap
    · simpa [apply, res] using flagged
    · simpa [apply, res] using flagged
    · simpa [apply, res, List.getElem?_append_left inRange] using flagged
  | remove | get | derive => exact flagged
  | revoke other =>
    obtain ⟨cap, res, _⟩ | ⟨res, _⟩ := t.revoke_cases other
    · by_cases eq : other = slot
      · subst eq
        simp [apply, res, inRange]
      · simpa [apply, res, List.getElem?_set_ne eq] using flagged
    · simpa [apply, res] using flagged

theorem foldl_keeps_tombstone (flagged : t.revoked[slot]? = some true) (ops : List Op) :
    (ops.foldl apply t).revoked[slot]? = some true := by
  induction ops generalizing t with
  | nil => exact flagged
  | cons op ops ih => exact ih (apply_keeps_tombstone flagged op)

theorem Withdrawn.flagged {ops : List Op} (withdrawn : Withdrawn ops slot) :
    (replay ops).revoked[slot]? = some true := by
  obtain ⟨old, later, cap, rfl, ran⟩ := withdrawn
  have wf := replay_wellFormed old
  rw [replay, List.foldl_append, List.foldl_cons]
  apply foldl_keeps_tombstone
  obtain ⟨_, res, held, _⟩ | ⟨res, _⟩ := (replay old).revoke_cases slot
  · have inRange : slot < (replay old).revoked.length :=
      wf.sameLength ▸ (List.getElem?_eq_some_iff.mp held).1
    change ((replay old).revoke slot).2.revoked[slot]? = some true
    simp [res, inRange]
  · simp [res] at ran

theorem WellFormed.insert_some (wf : t.WellFormed) (placed : (t.insert cap).1 = some slot) :
    slot < MAX_SLOTS ∧ t.get slot = none ∧ t.revoked[slot]? ≠ some true ∧
      (t.insert cap).2.get slot = some cap ∧
      ∀ other, other ≠ slot → (t.insert cap).2.get other = t.get other := by
  have bounded := wf.bounded
  obtain ⟨i, res, inRange, empty, fresh⟩ | ⟨res, _⟩ | ⟨res, _, room⟩ := t.insert_cases cap
  · simp only [res, Option.some.injEq] at placed
    subst placed
    refine ⟨by omega, get_eq_none_of_empty empty, fresh, ?_, ?_⟩
    · simp [res, get, inRange]
    · intro other ne
      simp [res, get, List.getElem?_set_ne ne.symm]
  · simp [res] at placed
  · simp only [res, Option.some.injEq] at placed
    subst placed
    refine ⟨room, by simp [get], by simp [wf.sameLength], ?_, ?_⟩
    · simp [res, get]
    intro other ne
    by_cases old : other < t.slots.length
    · simp [res, get, List.getElem?_append_left old]
    have beyond : (t.slots ++ [some cap])[other]? = none := by
      simp only [List.getElem?_eq_none_iff, List.length_append, List.length_singleton]
      omega
    simp [res, get, beyond, List.getElem?_eq_none (show t.slots.length ≤ other by omega)]

theorem WellFormed.insert_eq_none_iff (wf : t.WellFormed) (cap : Capability) :
    (t.insert cap).1 = none ↔ t.freeSlots = 0 := by
  rw [wf.freeSlots_eq_zero_iff]
  obtain ⟨i, res, inRange, empty, fresh⟩ | ⟨res, none, full⟩ | ⟨res, none, room⟩ :=
    t.insert_cases cap
  · simp only [res, reduceCtorEq, false_iff, not_and]
    intro unusable
    exact absurd (firstUsable_eq_none unusable empty) fresh
  · simp [res, none, full]
  · simp only [res, reduceCtorEq, none, true_and, false_iff]
    omega

/-- The contract of a capability table, for every history of calls. -/
theorem capTable_contract (ops : List Op) :
    let t := replay ops
    (t.slots.length = t.revoked.length ∧ t.slots.length ≤ 256 ∧
      ∀ slot, t.revoked[slot]? = some true → t.get slot = none) ∧
    (∀ slot, Withdrawn ops slot → t.get slot = none ∧ ∀ cap, (t.insert cap).1 ≠ some slot) ∧
    (∀ cap, (t.insert cap).1 = none ↔ t.freeSlots = 0) ∧
    (∀ cap slot, (t.insert cap).1 = some slot →
      t.get slot = none ∧ ¬ Withdrawn ops slot ∧ (t.insert cap).2.get slot = some cap ∧
        ∀ other, other ≠ slot → (t.insert cap).2.get other = t.get other) ∧
    t.liveSlots + t.revokedSlots + t.freeSlots = 256 ∧
    ∀ fuel, t.liveSlots < fuel →
      ∃ stripped, strip fuel t 0 = some (stripped, t.liveSlots) ∧ stripped.liveSlots = 0 := by
  intro t
  have wf : t.WellFormed := replay_wellFormed ops
  refine ⟨⟨wf.sameLength, wf.bounded, ?_⟩, ?_, wf.insert_eq_none_iff, ?_, wf.slots_sum, ?_⟩
  · intro slot flagged
    exact get_eq_none_of_empty (wf.tombstones slot flagged)
  · intro slot withdrawn
    refine ⟨get_eq_none_of_empty (wf.tombstones slot withdrawn.flagged), ?_⟩
    intro cap placed
    exact (wf.insert_some placed).2.2.1 withdrawn.flagged
  · intro cap slot placed
    obtain ⟨_, empty, fresh, filled, others⟩ := wf.insert_some placed
    exact ⟨empty, fun withdrawn => fresh withdrawn.flagged, filled, others⟩
  · intro fuel enough
    obtain ⟨stripped, ended, none, _⟩ := strip_eq fuel t 0 wf enough
    exact ⟨stripped, by simpa using ended, none⟩

end K1K.Obj.CapTable
