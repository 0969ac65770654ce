import K1K.Mm.Pmm

/-!
# Adjacent frames

`alloc_contiguous` counts clear bits, but a used frame between two clear ones does not make it
start again: the scan takes the lowest `count` free frames, adjacent or not, and serves the
request exactly when they happen to be.
-/

namespace K1K.Mm.Bitmap

open K1K.Lib

def lowest (b : Bitmap) : List Nat :=
  (List.range b.frames).filter fun i => !b.isUsed i

def Free (b : Bitmap) (i : Nat) : Prop := i < b.frames ∧ b.isUsed i = false

instance (b : Bitmap) (i : Nat) : Decidable (b.Free i) :=
  inferInstanceAs (Decidable (_ ∧ _))

/-- The words reach up to the last frame, and `free` counts the free frames. -/
structure Valid (b : Bitmap) : Prop where
  covers : b.frames ≤ 64 * b.bits.length
  counted : b.free = b.lowest.length

@[simp]
theorem mem_lowest {b : Bitmap} {i : Nat} : i ∈ b.lowest ↔ b.Free i := by
  simp [lowest, Free]

theorem nodup_lowest (b : Bitmap) : b.lowest.Nodup :=
  List.Nodup.filter _ List.nodup_range

/-! ## The scan as a walk over clear bits -/

def scanList (frames count : Nat) : List Nat → Nat → Nat → Scan
  | [], run, start => .more run start
  | idx :: rest, run, start =>
    if idx ≥ frames then .outside
    else
      let start := if run = 0 then idx else start
      if run + 1 = count then .found start idx
      else scanList frames count rest (run + 1) start

theorem scanWord_eq_scanList (frames count w fuel : Nat) (free : BitVec 64) (run start : Nat)
    (enough : (setBits free).length ≤ fuel) : scanWord frames count w fuel free run start =
      scanList frames count ((setBits free).map (w * 64 + ·)) run start := by
  induction fuel generalizing free run start with
  | zero =>
    have none : setBits free = [] := List.eq_nil_of_length_eq_zero (by omega)
    simp [scanWord, none, scanList]
  | succ fuel ih =>
    by_cases zero : free = 0#64
    · simp [scanWord, zero, scanList]
    have bits := setBits_eq_cons zero
    have fewer : (setBits (free &&& (free - 1#64))).length ≤ fuel := by
      rw [bits, List.length_cons] at enough
      omega
    rw [bits, List.map_cons]
    simp only [scanWord, scanList]
    rw [if_neg (by simpa using zero), ih _ _ _ fewer]

theorem scanList_append (frames count : Nat) (front back : List Nat) (run start : Nat) :
    scanList frames count (front ++ back) run start =
      match scanList frames count front run start with
      | .more run start => scanList frames count back run start
      | ended => ended := by
  induction front generalizing run start with
  | nil => rfl
  | cons idx rest ih =>
    simp only [List.cons_append, scanList]
    split
    · rfl
    · split
      · rfl
      · exact ih _ _

/-- The positions of the clear bits of some words, the first being word `w`. -/
def clearBits : List (BitVec 64) → Nat → List Nat
  | [], _ => []
  | word :: rest, w => (setBits (~~~word)).map (w * 64 + ·) ++ clearBits rest (w + 1)

theorem scanWords_eq_scanList (frames count : Nat) (words : List (BitVec 64)) (w run start : Nat) :
    scanWords frames count words w run start =
      scanList frames count (clearBits words w) run start := by
  induction words generalizing w run start with
  | nil => rfl
  | cons word rest ih =>
    simp only [scanWords, clearBits]
    rw [scanList_append, scanWord_eq_scanList _ _ _ _ _ _ _ (length_setBits_le _)]
    cases scanList frames count ((setBits (~~~word)).map (w * 64 + ·)) run start with
    | found | outside => rfl
    | more run start => exact ih _ _ _

theorem map_setBits_not (word : BitVec 64) (w : Nat) : (setBits (~~~word)).map (w * 64 + ·) =
      (List.range' (w * 64) 64).filter fun i => !word.getLsbD (i - w * 64) := by
  rw [List.range'_eq_map_range, List.filter_map, setBits]
  congr 1
  apply List.filter_congr
  intro i mem
  have within : i < 64 := List.mem_range.mp mem
  simp [within]

theorem clearBits_eq (words : List (BitVec 64)) (w : Nat) :
    clearBits words w = (List.range' (w * 64) (64 * words.length)).filter fun i =>
      !(words.getD (i / 64 - w) 0).getLsbD (i % 64) := by
  induction words generalizing w with
  | nil => simp [clearBits]
  | cons word rest ih =>
    have split : List.range' (w * 64) (64 * (word :: rest).length) =
        List.range' (w * 64) 64 ++ List.range' ((w + 1) * 64) (64 * rest.length) := by
      rw [List.length_cons, Nat.mul_add, Nat.add_comm, ← List.range'_append]
      congr 2
      omega
    rw [clearBits, split, List.filter_append, ih, map_setBits_not]
    congr 1
    · apply List.filter_congr
      intro i mem
      have bounds := List.mem_range'_1.mp mem
      have offset : i - w * 64 = i % 64 := by omega
      have first : i / 64 - w = 0 := by omega
      simp [offset, first]
    · apply List.filter_congr
      intro i mem
      have bounds := List.mem_range'_1.mp mem
      have later : i / 64 - w = i / 64 - (w + 1) + 1 := by omega
      simp [later]

theorem clearBits_eq_lowest (b : Bitmap) (covers : b.frames ≤ 64 * b.bits.length) :
    ∃ beyond, clearBits b.bits 0 = b.lowest ++ beyond ∧ ∀ i ∈ beyond, b.frames ≤ i := by
  refine ⟨(List.range' b.frames (64 * b.bits.length - b.frames)).filter fun i => !b.isUsed i,
    ?_, ?_⟩
  · have split : List.range' (0 * 64) (64 * b.bits.length) =
        List.range b.frames ++ List.range' b.frames (64 * b.bits.length - b.frames) := by
      have total : 64 * b.bits.length = b.frames + (64 * b.bits.length - b.frames) := by omega
      conv_lhs => rw [total, Nat.zero_mul, ← List.range'_append]
      rw [List.range_eq_range']
      simp
    rw [clearBits_eq, split, List.filter_append, lowest]
    congr 1 <;>
    · apply List.filter_congr
      intro i _
      simp [isUsed_eq]
  · intro i mem
    exact (List.mem_range'_1.mp (List.mem_filter.mp mem).1).1

/-! ## What the scan finds -/

theorem scanList_found (frames count : Nat) (front back : List Nat) (run start : Nat)
    (lt : ∀ i ∈ front, i < frames) (missing : front.length + run = count)
    (nonempty : front ≠ []) : scanList frames count (front ++ back) run start =
      .found (if run = 0 then front.head nonempty else start) (front.getLast nonempty) := by
  induction front generalizing run start with
  | nil => contradiction
  | cons idx rest ih =>
    have low : ¬ idx ≥ frames := Nat.not_le.mpr (lt idx (by simp))
    simp only [List.cons_append, scanList, low, if_false]
    cases rest with
    | nil =>
      simp only [List.length_cons, List.length_nil] at missing
      rw [if_pos (by omega)]
      simp
    | cons next rest =>
      simp only [List.length_cons] at missing
      rw [if_neg (by omega)]
      have found := ih (run + 1) (if run = 0 then idx else start)
        (fun i mem => lt i (List.mem_cons_of_mem _ mem))
        (by simp only [List.length_cons]; omega) (by simp)
      rw [found]
      simp

theorem scanList_not_found (frames count : Nat) (below beyond : List Nat) (run start : Nat)
    (out : ∀ i ∈ beyond, frames ≤ i) (short : below.length + run < count) :
    ∀ first last, scanList frames count (below ++ beyond) run start ≠ .found first last := by
  intro first last
  induction below generalizing run start with
  | nil =>
    cases beyond with
    | nil => simp [scanList]
    | cons idx rest => simp [scanList, out idx (by simp)]
  | cons idx rest ih =>
    simp only [List.length_cons] at short
    simp only [List.cons_append, scanList]
    split
    · simp
    · rw [if_neg (by omega)]
      exact ih _ _ (by omega)

theorem lowest_split (b : Bitmap) {count : Nat} (enough : count ≤ b.lowest.length)
    (pos : 0 < count) :
    ∃ front back, b.lowest = front ++ back ∧ front.length = count ∧ front ≠ [] := by
  refine ⟨b.lowest.take count, b.lowest.drop count, (List.take_append_drop _ _).symm, ?_, ?_⟩
  · rw [List.length_take]
    omega
  intro empty
  have := congrArg List.length empty
  rw [List.length_take, List.length_nil] at this
  omega

/-- The scan takes the lowest `count` free frames, adjacent or not, and answers
with the first of them. -/
theorem allocContiguous_eq_some {b : Bitmap} (valid : b.Valid) {front back : List Nat}
    (frames : b.lowest = front ++ back) (nonempty : front ≠ []) : b.allocContiguous front.length =
      (some (front.head nonempty),
        { b.markUsed (front.head nonempty) (front.getLast nonempty) with
          free := b.free - front.length }) := by
  have pos : front.length ≠ 0 := fun h => nonempty (List.eq_nil_of_length_eq_zero h)
  have fits : front.length ≤ b.frames := by
    have bound := List.length_filter_le (fun i => !b.isUsed i) (List.range b.frames)
    rw [List.length_range] at bound
    have total : b.lowest.length = front.length + back.length := by simp [frames]
    unfold lowest at total
    omega
  obtain ⟨beyond, bits, _⟩ := clearBits_eq_lowest b valid.covers
  have lt : ∀ i ∈ front, i < b.frames := by
    intro i mem
    have free : i ∈ b.lowest := by simp [frames, mem]
    exact (mem_lowest.mp free).1
  have found := scanList_found b.frames front.length front (back ++ beyond) 0 0 lt
    (by omega) nonempty
  unfold allocContiguous
  rw [if_neg (by omega), scanWords_eq_scanList, bits, frames, List.append_assoc, found]
  rfl

theorem allocContiguous_eq_none {b : Bitmap} (valid : b.Valid) {count : Nat}
    (short : b.lowest.length < count) : b.allocContiguous count = (none, b) := by
  obtain ⟨beyond, bits, outside⟩ := clearBits_eq_lowest b valid.covers
  have missed := scanList_not_found b.frames count b.lowest beyond 0 0 outside (by omega)
  unfold allocContiguous
  split
  · rfl
  rw [scanWords_eq_scanList, bits]
  cases res : scanList b.frames count (b.lowest ++ beyond) 0 0 with
  | found first last => exact absurd res (missed first last)
  | outside | more => rfl

/-! ## When the request is served -/

/-- What `alloc_contiguous` promises: an answer exactly when some `count` adjacent frames are
free, and then such frames become used and nothing else changes. -/
def Serves (b : Bitmap) (count : Nat) : Prop :=
  ((∃ start, (b.allocContiguous count).1 = some start) ↔
    ∃ start, ∀ i, i < count → b.Free (start + i)) ∧
  (∀ start, (b.allocContiguous count).1 = some start →
    (∀ i, i < count → b.Free (start + i)) ∧
    (∀ j, (b.allocContiguous count).2.isUsed j =
      (b.isUsed j || decide (start ≤ j ∧ j < start + count))) ∧
    (b.allocContiguous count).2.free + count = b.free) ∧
  ((b.allocContiguous count).1 = none → (b.allocContiguous count).2 = b)

/-- Too few frames are free, or the lowest free frame begins a run of `count`
free frames. -/
def LowestAdjacent (b : Bitmap) (count : Nat) : Prop :=
  b.lowest.length < count ∨
    ∃ first, (∀ i, i < first → ¬ b.Free i) ∧ ∀ i, i < count → b.Free (first + i)

instance (b : Bitmap) (count : Nat) : Decidable (b.LowestAdjacent count) :=
  decidable_of_iff (b.lowest.length < count ∨ ∃ first, first ≤ b.frames ∧
    (∀ i, i < first → ¬ b.Free i) ∧ ∀ i, i < count → b.Free (first + i)) <| by
    refine or_congr_right ⟨fun ⟨first, _, run⟩ => ⟨first, run⟩, fun ⟨first, least, run⟩ => ?_⟩
    rcases Nat.eq_zero_or_pos count with rfl | positive
    · exact ⟨0, Nat.zero_le _, by simp, by simp⟩
    · exact ⟨first, Nat.le_of_lt (run 0 positive).1, least, run⟩

theorem length_of_run {b : Bitmap} {start count : Nat}
    (run : ∀ i, i < count → b.Free (start + i)) : count ≤ b.lowest.length := by
  have contained : List.range' start count ⊆ b.lowest := by
    intro j mem
    have bounds := List.mem_range'_1.mp mem
    have free := run (j - start) (by omega)
    rw [show start + (j - start) = j by omega] at free
    exact mem_lowest.mpr free
  have nodup : (List.range' start count 1).Nodup := List.nodup_range'
  have subperm := List.subperm_of_subset nodup contained
  simpa using subperm.length_le

theorem lowest_eq_run {b : Bitmap} {first count : Nat} (pos : 0 < count)
    (least : ∀ i, i < first → ¬ b.Free i) (run : ∀ i, i < count → b.Free (first + i)) :
    ∃ back, b.lowest = List.range' first count ++ back := by
  have fits : first + count ≤ b.frames := by
    have last := (run (count - 1) (by omega)).1
    omega
  have split : List.range b.frames = List.range first ++ (List.range' first count ++
      List.range' (first + count) (b.frames - (first + count))) := by
    have total : b.frames = first + (count + (b.frames - (first + count))) := by omega
    conv_lhs => rw [total, List.range_eq_range', ← List.range'_append, ← List.range'_append]
    simp [List.range_eq_range']
  refine ⟨(List.range' (first + count) (b.frames - (first + count))).filter
    fun i => !b.isUsed i, ?_⟩
  have none : (List.range first).filter (fun i => !b.isUsed i) = [] := by
    rw [List.filter_eq_nil_iff]
    intro i mem
    have low := List.mem_range.mp mem
    have ran := least i low
    simp only [Free, not_and, Bool.not_eq_false] at ran
    simp [ran (by omega)]
  have within : (List.range' first count).filter (fun i => !b.isUsed i) =
      List.range' first count := by
    rw [List.filter_eq_self]
    intro i mem
    have bounds := List.mem_range'_1.mp mem
    have free := (run (i - first) (by omega)).2
    rw [show first + (i - first) = i by omega] at free
    simp [free]
  rw [lowest, split, List.filter_append, List.filter_append, none, within, List.nil_append]

theorem serves_of_short {b : Bitmap} (valid : b.Valid) {count : Nat}
    (short : b.lowest.length < count) : b.Serves count := by
  have res := allocContiguous_eq_none valid short
  refine ⟨?_, ?_, fun _ => by rw [res]⟩
  · constructor
    · rintro ⟨start, answered⟩
      simp [res] at answered
    · rintro ⟨start, run⟩
      have := length_of_run run
      omega
  · intro start answered
    simp [res] at answered

theorem serves_of_run {b : Bitmap} (valid : b.Valid) {first count : Nat} (pos : 0 < count)
    (least : ∀ i, i < first → ¬ b.Free i) (run : ∀ i, i < count → b.Free (first + i)) :
    b.Serves count := by
  obtain ⟨back, frames⟩ := lowest_eq_run pos least run
  have nonempty : List.range' first count ≠ [] := by
    simp only [ne_eq, List.range'_eq_nil_iff]
    omega
  have res := allocContiguous_eq_some valid frames nonempty
  rw [List.length_range', List.head_range', List.getLast_range'] at res
  have last : first + count - 1 + 1 - first = count := by omega
  have bits : ∀ j, (b.allocContiguous count).2.isUsed j =
      (b.isUsed j || decide (first ≤ j ∧ j < first + count)) := by
    intro j
    rw [res]
    change (b.markUsed first (first + count - 1)).isUsed j = _
    rw [markUsed, last, isUsed_foldl_setUsed]
    · simp only [List.mem_range'_1]
    intro i mem
    have bounds := List.mem_range'_1.mp mem
    have last := (run (i - first) (by omega)).1
    have covers := valid.covers
    omega
  have counted : (b.allocContiguous count).2.free + count = b.free := by
    have enough := length_of_run run
    have exact := valid.counted
    rw [res]
    change b.free - count + count = b.free
    omega
  refine ⟨⟨fun _ => ⟨first, run⟩, fun _ => ⟨first, by rw [res]⟩⟩, ?_, ?_⟩
  · intro start answered
    simp only [res, Option.some.injEq] at answered
    subst answered
    exact ⟨run, bits, counted⟩
  · intro refused
    simp [res] at refused

theorem LowestAdjacent.serves {b : Bitmap} {count : Nat} (valid : b.Valid) (pos : 0 < count)
    (adjacent : b.LowestAdjacent count) : b.Serves count := by
  rcases adjacent with short | ⟨first, least, run⟩
  · exact serves_of_short valid short
  · exact serves_of_run valid pos least run

/-- Exactly when `alloc_contiguous` does what it promises. -/
theorem allocContiguous_serves_iff (b : Bitmap) (valid : b.Valid) (count : Nat)
    (positive : 0 < count) : b.Serves count ↔ b.LowestAdjacent count := by
  constructor
  · intro served
    by_cases enough : count ≤ b.lowest.length
    · obtain ⟨front, back, frames, rfl, nonempty⟩ := lowest_split b enough positive
      have res := allocContiguous_eq_some valid frames nonempty
      have answered := (served.2.1 (front.head nonempty) (by rw [res])).1
      refine .inr ⟨front.head nonempty, ?_, answered⟩
      intro i low free
      have sorted : b.lowest.Pairwise (· < ·) :=
        List.Pairwise.filter _ List.pairwise_lt_range
      have mem : i ∈ b.lowest := mem_lowest.mpr free
      obtain ⟨first, rest, rfl⟩ := List.exists_cons_of_ne_nil nonempty
      simp only [List.head_cons] at low
      rw [frames, List.cons_append] at sorted mem
      rcases List.mem_cons.mp mem with rfl | later
      · omega
      · have := (List.pairwise_cons.mp sorted).1 i later
        omega
    · exact .inl (by omega)
  · exact LowestAdjacent.serves valid positive

theorem allocContiguous_serves_empty_map :
    (⟨[0#64], 4, 4, 4, 0⟩ : Bitmap).Serves 2 :=
  (allocContiguous_serves_iff ⟨[0#64], 4, 4, 4, 0⟩ ⟨by decide, by decide⟩ 2 (by decide)).mpr
    (.inr ⟨0, by omega, by decide⟩)

/-- Frame 1 is used: a request for two adjacent frames is answered with frames
0 and 1, although 2 and 3 are free. -/
theorem allocContiguous_skips_no_gap :
    ¬ (⟨[2#64], 4, 3, 4, 0⟩ : Bitmap).Serves 2 := by
  intro served
  have answered : ((⟨[2#64], 4, 3, 4, 0⟩ : Bitmap).allocContiguous 2).1 = some 0 := by
    decide +kernel
  have free := (served.2.1 0 answered).1 1 (by decide)
  revert free
  decide

end K1K.Mm.Bitmap
