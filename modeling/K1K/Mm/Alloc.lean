import K1K.Mm.Contiguous

/-!
# Single frames

`alloc` starts at the word of the hint and takes the lowest clear bit of the first word that has
one. It finds a frame whenever one is free, and `free` counts on through it and `release`.
-/

namespace K1K.Mm.Bitmap

open K1K.Lib

variable {b c : Bitmap} {i : Nat}

theorem not_ne_zero {word : BitVec 64} (room : word ≠ BitVec.allOnes 64) : ~~~word ≠ 0#64 := by
  intro zero
  apply room
  have complement := congrArg (fun w => ~~~w) zero
  simpa using complement

theorem isUsed_mul_add (b : Bitmap) (w : Nat) {k : Nat} (inWord : k < 64) :
    b.isUsed (w * 64 + k) = (b.bits.getD w 0).getLsbD k := by
  rw [isUsed_eq, Nat.add_comm, Nat.add_mul_div_right _ _ (by decide), Nat.div_eq_of_lt inWord,
    Nat.add_mul_mod_self_right, Nat.mod_eq_of_lt inWord, Nat.zero_add]

theorem candidate_eq {step w : Nat} (turn : (b.nextHint / 64 + step) % b.bits.length = w) :
    b.candidate step =
      if b.bits.getD w 0 = BitVec.allOnes 64 then none
      else if w * 64 + (~~~b.bits.getD w 0).ctz.toNat ≥ b.frames then none
      else some (w * 64 + (~~~b.bits.getD w 0).ctz.toNat) := by
  subst turn
  simp [candidate]

theorem lowest_clear {w : Nat} (room : b.bits.getD w 0 ≠ BitVec.allOnes 64) :
    (~~~b.bits.getD w 0).ctz.toNat < 64 ∧
      b.isUsed (w * 64 + (~~~b.bits.getD w 0).ctz.toNat) = false ∧
      ∀ k < (~~~b.bits.getD w 0).ctz.toNat, b.isUsed (w * 64 + k) = true := by
  have clear := BitVec.getLsbD_true_ctz_of_ne_zero (not_ne_zero room)
  have inWord := BitVec.lt_of_getLsbD clear
  refine ⟨inWord, ?_, fun k low => ?_⟩
  · rw [isUsed_mul_add b w inWord]
    rw [BitVec.getLsbD_not, Bool.and_eq_true, Bool.not_eq_true'] at clear
    exact clear.2
  · have small : k < 64 := Nat.lt_trans low inWord
    rw [isUsed_mul_add b w small]
    simpa [small] using BitVec.getLsbD_false_of_lt_ctz low

theorem candidate_free {step : Nat} (found : b.candidate step = some i) : b.Free i := by
  rw [candidate_eq rfl] at found
  split at found
  next => simp at found
  next room =>
    split at found
    next => simp at found
    next lt =>
      rw [← Option.some.inj found]
      exact ⟨Nat.lt_of_not_ge lt, (lowest_clear room).2.1⟩

theorem exists_turn (hint : Nat) {w n : Nat} (inRange : w < n) :
    ∃ step < n, (hint + step) % n = w := by
  have split := Nat.div_add_mod hint n
  have small : hint % n < n := Nat.mod_lt _ (Nat.zero_lt_of_lt inRange)
  by_cases ahead : hint % n ≤ w
  · refine ⟨w - hint % n, by omega, ?_⟩
    have reached : hint + (w - hint % n) = w + n * (hint / n) := by omega
    rw [reached, Nat.add_mul_mod_self_left, Nat.mod_eq_of_lt inRange]
  refine ⟨w + n - hint % n, by omega, ?_⟩
  have reached : hint + (w + n - hint % n) = w + n * (hint / n + 1) := by
    rw [Nat.mul_succ]
    omega
  rw [reached, Nat.add_mul_mod_self_left, Nat.mod_eq_of_lt inRange]

theorem exists_candidate (valid : b.Valid) (free : b.Free i) :
    ∃ step < b.bits.length, (b.candidate step).isSome := by
  have inRange : i / 64 < b.bits.length := by
    have covered := Nat.lt_of_lt_of_le free.1 valid.covers
    omega
  obtain ⟨step, small, turn⟩ := exists_turn (b.nextHint / 64) inRange
  refine ⟨step, small, ?_⟩
  have place : i / 64 * 64 + i % 64 = i := by omega
  have clear : (b.bits.getD (i / 64) 0).getLsbD (i % 64) = false := by
    rw [← isUsed_mul_add b (i / 64) (Nat.mod_lt _ (by decide)), place]
    exact free.2
  have room : b.bits.getD (i / 64) 0 ≠ BitVec.allOnes 64 := by
    intro full
    rw [full, BitVec.getLsbD_allOnes] at clear
    exact absurd (Nat.mod_lt i (by decide)) (of_decide_eq_false clear)
  have low : (~~~b.bits.getD (i / 64) 0).ctz.toNat ≤ i % 64 := by
    by_contra above
    have used := (lowest_clear room).2.2 (i % 64) (Nat.lt_of_not_ge above)
    rw [place, free.2] at used
    exact absurd used (by decide)
  have lt : ¬i / 64 * 64 + (~~~b.bits.getD (i / 64) 0).ctz.toNat ≥ b.frames := by
    have bound := free.1
    omega
  rw [candidate_eq turn, if_neg room, if_neg lt]
  rfl

theorem alloc_none_iff (valid : b.Valid) : b.alloc.1 = none ↔ b.free = 0 := by
  rw [valid.counted, List.length_eq_zero_iff]
  constructor
  · intro failed
    rw [List.eq_nil_iff_forall_not_mem]
    intro i membership
    obtain ⟨step, small, found⟩ := exists_candidate valid (mem_lowest.mp membership)
    unfold alloc at failed
    split at failed
    next => simp at failed
    next nothing =>
      have missed := List.findSome?_eq_none_iff.mp nothing step (List.mem_range.mpr small)
      rw [missed] at found
      simp at found
  · intro nothing
    unfold alloc
    split
    next i found =>
      obtain ⟨step, -, candidate⟩ := List.exists_of_findSome?_eq_some found
      have mem := mem_lowest.mpr (candidate_free candidate)
      rw [nothing] at mem
      exact absurd mem List.not_mem_nil
    next => rfl

theorem alloc_eq_none (failed : b.alloc.1 = none) : b.alloc.2 = b := by
  unfold alloc at *
  split at failed
  next => simp at failed
  next nothing => simp

/-- `c` is `b` after the frames `new` have been handed out: they were free, they
are used now, and nothing else has changed. -/
structure Gives (b : Bitmap) (new : List Nat) (c : Bitmap) : Prop where
  nodup : new.Nodup
  free : ∀ i ∈ new, b.Free i
  used : ∀ i, c.isUsed i = (b.isUsed i || decide (i ∈ new))
  frames : c.frames = b.frames
  valid : c.Valid

variable {new more : List Nat}

theorem lowest_perm (nodup : new.Nodup) (free : ∀ i ∈ new, b.Free i)
    (used : ∀ i, c.isUsed i = (b.isUsed i || decide (i ∈ new))) (frames : c.frames = b.frames) :
    b.lowest.Perm (new ++ c.lowest) := by
  have ne : ∀ i ∈ new, ∀ j ∈ c.lowest, i ≠ j := by
    rintro i handed _ left rfl
    have unused := (mem_lowest.mp left).2
    rw [used i] at unused
    simp [handed] at unused
  refine (List.perm_ext_iff_of_nodup (nodup_lowest b)
    (List.nodup_append.mpr ⟨nodup, nodup_lowest c, ne⟩)).mpr fun j => ?_
  rw [List.mem_append, mem_lowest, mem_lowest, Free, Free, used, frames]
  by_cases handed : j ∈ new
  · simpa [handed, Free] using free j handed
  · simp [handed]

theorem Gives.counted (valid : b.Valid) (gives : b.Gives new c) : b.free = c.free + new.length := by
  have fewer := (lowest_perm gives.nodup gives.free gives.used gives.frames).length_eq
  rw [List.length_append, ← valid.counted, ← gives.valid.counted] at fewer
  rw [fewer, Nat.add_comm]

theorem Gives.of_counted (valid : b.Valid) (nodup : new.Nodup) (free : ∀ i ∈ new, b.Free i)
    (used : ∀ i, c.isUsed i = (b.isUsed i || decide (i ∈ new))) (frames : c.frames = b.frames)
    (words : c.bits.length = b.bits.length) (counted : c.free + new.length = b.free) :
    b.Gives new c := by
  refine ⟨nodup, free, used, frames, ?_, ?_⟩
  · rw [frames, words]
    exact valid.covers
  · have fewer := (lowest_perm nodup free used frames).length_eq
    rw [List.length_append, ← valid.counted, ← counted, Nat.add_comm] at fewer
    exact Nat.add_left_cancel fewer

theorem Gives.refl (valid : b.Valid) : b.Gives [] b :=
  ⟨List.nodup_nil, by simp, by simp, rfl, valid⟩

theorem Gives.trans {d : Bitmap} (first : b.Gives new c) (second : c.Gives more d) :
    b.Gives (new ++ more) d where
  nodup := by
    rw [List.nodup_append]
    refine ⟨first.nodup, second.nodup, ?_⟩
    rintro i early _ late rfl
    have free := (second.free i late).2
    rw [first.used i] at free
    simp [early] at free
  free i member := by
    rcases List.mem_append.mp member with early | late
    · exact first.free i early
    · have free := second.free i late
      rw [Free, first.frames, first.used] at free
      exact ⟨free.1, (Bool.or_eq_false_iff.mp free.2).1⟩
  used i := by
    rw [second.used, first.used, Bool.or_assoc]
    simp
  frames := second.frames.trans first.frames
  valid := second.valid

theorem alloc_gives (valid : b.Valid) (found : b.alloc.1 = some i) : b.Gives [i] b.alloc.2 := by
  unfold alloc at *
  split at found
  next idx searched =>
    have eq : idx = i := Option.some.inj found
    subst eq
    obtain ⟨step, -, candidate⟩ := List.exists_of_findSome?_eq_some searched
    have free := candidate_free candidate
    have pos : 0 < b.free := by
      rw [valid.counted]
      exact List.length_pos_of_mem (mem_lowest.mpr free)
    refine Gives.of_counted valid (List.nodup_singleton idx) ?_ ?_ rfl ?_ ?_
    · simpa using free
    · intro j
      simp only [List.mem_singleton]
      exact isUsed_setUsed b (Nat.lt_of_lt_of_le free.1 valid.covers) j
    · exact setUsed_length b idx
    · exact Nat.sub_add_cancel pos
  next => simp at found

theorem allocContiguous_words (b : Bitmap) (count : Nat) :
    (b.allocContiguous count).2.frames = b.frames ∧
      (b.allocContiguous count).2.bits.length = b.bits.length := by
  have marked : ∀ (indices : List Nat) (c : Bitmap),
      (indices.foldl setUsed c).frames = c.frames ∧
        (indices.foldl setUsed c).bits.length = c.bits.length := by
    intro indices
    induction indices with
    | nil => exact fun c => ⟨rfl, rfl⟩
    | cons j rest ih =>
      intro c
      rw [List.foldl_cons]
      exact ⟨(ih _).1, (ih _).2.trans (setUsed_length c j)⟩
  unfold allocContiguous
  split
  next => exact ⟨rfl, rfl⟩
  split
  next => exact marked _ b
  next => exact ⟨rfl, rfl⟩

theorem Serves.gives {count start : Nat} (valid : b.Valid) (serves : b.Serves count)
    (found : (b.allocContiguous count).1 = some start) :
    b.Gives (List.range' start count) (b.allocContiguous count).2 := by
  obtain ⟨free, used, counted⟩ := serves.2.1 start found
  obtain ⟨frames, words⟩ := allocContiguous_words b count
  refine Gives.of_counted valid List.nodup_range' ?_ ?_ frames words (by simpa using counted)
  · intro i mem
    have bounds := List.mem_range'_1.mp mem
    have run := free (i - start) (by omega)
    rwa [Nat.add_sub_cancel' bounds.1] at run
  · intro i
    rw [used i]
    simp only [List.mem_range'_1]

/-! ## Giving a frame back -/

theorem getLsbD_and_not_shift (word : BitVec 64) (k i : Nat) (inWord : i < 64) :
    (word &&& ~~~(1#64 <<< k)).getLsbD i = (word.getLsbD i && decide (i ≠ k)) := by
  rw [← BitVec.twoPow_eq]
  simp only [BitVec.getLsbD_and, BitVec.getLsbD_not, BitVec.getLsbD_twoPow]
  by_cases eq : i = k
  · simp [eq, eq ▸ inWord]
  · simp [eq, Ne.symm eq, inWord]

theorem isUsed_setFree (b : Bitmap) (i j : Nat) :
    (b.setFree i).isUsed j = (b.isUsed j && decide (j ≠ i)) := by
  rw [isUsed_eq, isUsed_eq, setFree]
  simp only [List.getD_eq_getElem?_getD, List.getElem?_modify]
  by_cases sameWord : i / 64 = j / 64
  · have within : j % 64 < 64 := Nat.mod_lt _ (by decide)
    have sameBit : j % 64 = i % 64 ↔ j = i := by omega
    cases word : b.bits[j / 64]? with
    | none => simp [sameWord]
    | some bits => simp [sameWord, getLsbD_and_not_shift _ _ _ within, sameBit]
  · have ne : j ≠ i := by
      rintro rfl
      exact sameWord rfl
    simp [sameWord, ne]

theorem release_valid (valid : b.Valid) (lt : i < b.frames) (used : b.isUsed i = true) :
    (b.release i).Valid := by
  have freed : (b.setFree i).Free i := ⟨lt, by rw [isUsed_setFree]; simp⟩
  have marked : ∀ j, b.isUsed j = ((b.setFree i).isUsed j || decide (j ∈ [i])) := by
    intro j
    rw [isUsed_setFree]
    by_cases eq : j = i
    · subst eq
      simp [used]
    · simp [eq]
  have more := (lowest_perm (b := b.setFree i) (List.nodup_singleton i) (by simpa using freed)
    marked rfl).length_eq
  rw [List.length_append, ← valid.counted, List.length_singleton, Nat.add_comm] at more
  refine ⟨?_, more.symm⟩
  simpa [release, setFree] using valid.covers

end K1K.Mm.Bitmap
