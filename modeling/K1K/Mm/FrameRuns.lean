import K1K.Mm.Boot

/-!
# The bitmap after boot

Sequences of `alloc_frame`, `free_frame` and `reclaim_bootloader` after `init`, with the frames
handed out and those that `reclaim_bootloader` has given back kept beside the allocator.
-/

namespace K1K.Mm

open K1K.Lib

structure FrameState where
  pmm : Pmm
  out : List Nat
  given : List Nat
  deriving DecidableEq, Repr

inductive FrameAction where
  | allocFrame
  | freeFrame (i : Nat)
  | reclaimBootloader
  deriving DecidableEq, Repr

namespace FrameState

variable (s : FrameState)

def allocFrame : FrameState :=
  let (frame, bitmap) := s.pmm.bitmap.alloc
  { s with pmm := { s.pmm with bitmap := bitmap }, out := frame.toList ++ s.out }

def freeFrame (i : Nat) : Option FrameState :=
  if i ∈ s.out then
    some { s with
      pmm := { s.pmm with bitmap := s.pmm.bitmap.release i }
      out := s.out.erase i }
  else none

def reclaimBootloader : FrameState :=
  let (freed, pmm) := s.pmm.reclaimBootloader
  { s with pmm := pmm, given := freed ++ s.given }

def step : FrameAction → Option FrameState
  | .allocFrame => some s.allocFrame
  | .freeFrame i => s.freeFrame i
  | .reclaimBootloader => some s.reclaimBootloader

end FrameState

def FrameState.start (p : Pmm) : FrameState := ⟨p, [], []⟩

def Bitmap.clear (b : Bitmap) : List Nat :=
  (List.range (64 * b.bits.length)).filter fun i => !b.isUsed i

/-- A byte of the bitmap lies in the frame. -/
def Layout.Covers (l : Layout) (i : Nat) : Prop :=
  ∃ address, i * FRAME_SIZE ≤ address ∧ address < (i + 1) * FRAME_SIZE ∧
    l.largest.base.toNat ≤ address ∧ address < l.largest.base.toNat + 8 * l.words

def Pool (entries : List Entry) (l : Layout) (reclaimed : Bool) (i : Nat) : Prop :=
  (∃ e ∈ entries, e.kind = .usable ∧ e.Holds i) ∧ ¬l.Covers i ∨
    reclaimed = true ∧ ∃ e ∈ recorded entries, e.Holds i

def Origin (entries : List Entry) (l : Layout) (reclaimed : Bool) (i : Nat) : Prop :=
  i ∈ usableFrames entries ∧ i ∉ l.own ∨
    reclaimed = true ∧ ∃ e ∈ recorded entries, i ∈ e.frames

section Origins

variable {entries : List Entry} {l : Layout} {reclaimed : Bool} {i : Nat}

theorem mem_recorded {e : Entry} (mem : e ∈ recorded entries) :
    e ∈ entries ∧ e.kind = .bootloaderReclaimable := by
  simpa using List.mem_of_mem_take mem

theorem Layout.Fits.own_of_covers (fits : l.Fits entries) (formed : WellFormed entries)
    (covers : l.Covers i) : i ∈ l.own := by
  obtain ⟨address, low, high, above, below⟩ := covers
  have aligned := formed.aligned _ fits.listed (.inl fits.usable)
  rw [aligned.first_eq] at above below
  rw [Layout.own, List.mem_range'_1]
  simp only [FRAME_SIZE] at *
  omega

theorem Origin.pool (formed : WellFormed entries) (laid : layout entries = some l)
    (origin : Origin entries l reclaimed i) : Pool entries l reclaimed i := by
  rcases origin with ⟨usable, other⟩ | ⟨done, e, mem, lt⟩
  · obtain ⟨e, mem, kind, lt⟩ := mem_usableFrames.mp usable
    exact .inl ⟨⟨e, mem, kind, (formed.aligned e mem (.inl kind)).holds lt⟩,
      mt ((layout_fits laid).own_of_covers formed) other⟩
  · obtain ⟨listed, kind⟩ := mem_recorded mem
    exact .inr ⟨done, e, mem, (formed.aligned e listed (.inr kind)).holds lt⟩

end Origins

/-! ## What each call does to the bits -/

namespace Bitmap

variable {b c : Bitmap} {i : Nat}

def TailSet (b : Bitmap) : Prop :=
  ∀ i < 64 * b.bits.length, b.isUsed i = false → i < b.frames

theorem alloc_words (b : Bitmap) : b.alloc.2.bits.length = b.bits.length := by
  rw [alloc]
  split
  next idx _ => exact setUsed_length b idx
  next => rfl

theorem Valid.counts_clear (valid : b.Valid) (tail : b.TailSet) : b.free = b.clear.length := by
  have eq : b.lowest.Perm b.clear := by
    refine (List.perm_ext_iff_of_nodup (nodup_lowest b) (List.nodup_range.filter _)).mpr fun j => ?_
    rw [mem_lowest, List.mem_filter, List.mem_range, Bool.not_eq_true', Free]
    constructor
    · rintro ⟨lt, unused⟩
      exact ⟨Nat.lt_of_lt_of_le lt valid.covers, unused⟩
    · rintro ⟨covered, unused⟩
      exact ⟨tail j covered unused, unused⟩
  rw [valid.counted, eq.length_eq]

structure Returns (b : Bitmap) (allowed : Nat → Prop) (acc : Bitmap × List Nat) : Prop where
  valid : acc.1.Valid
  frames : acc.1.frames = b.frames
  words : acc.1.bits.length = b.bits.length
  used : ∀ j, acc.1.isUsed j = (b.isUsed j && decide (j ∉ acc.2))
  nodup : acc.2.Nodup
  inside : ∀ j ∈ acc.2, j < b.frames ∧ b.isUsed j = true ∧ allowed j

variable {allowed : Nat → Prop} {acc : Bitmap × List Nat}

theorem Returns.start (valid : b.Valid) : b.Returns allowed (b, []) :=
  ⟨valid, rfl, rfl, by simp, List.nodup_nil, by simp⟩

theorem Returns.frame {j : Nat} (returns : b.Returns allowed acc) (lt : j < b.frames)
    (permitted : allowed j) : b.Returns allowed (reclaimFrame acc j) := by
  rw [reclaimFrame]
  split
  next marked =>
    have was := returns.used j
    rw [marked, eq_comm, Bool.and_eq_true, decide_eq_true_eq] at was
    have freed := release_valid returns.valid (returns.frames ▸ lt) marked
    refine ⟨⟨freed.covers, freed.counted⟩, returns.frames, ?_, fun k => ?_,
      List.nodup_cons.mpr ⟨was.2, returns.nodup⟩, fun k mem => ?_⟩
    · exact (setFree_length acc.1 j).trans returns.words
    · have bit : (acc.1.setFree j).isUsed k = (b.isUsed k && decide (k ∉ j :: acc.2)) := by
        rw [isUsed_setFree, returns.used, Bool.and_assoc, ← Bool.decide_and]
        simp [and_comm]
      exact bit
    · rcases List.mem_cons.mp mem with rfl | earlier
      · exact ⟨lt, was.1, permitted⟩
      · exact returns.inside k earlier
  next => exact returns

theorem Returns.frames_of {indices : List Nat} (returns : b.Returns allowed acc)
    (permitted : ∀ j ∈ indices, j < b.frames ∧ allowed j) :
    b.Returns allowed (indices.foldl reclaimFrame acc) := by
  induction indices generalizing acc with
  | nil => exact returns
  | cons j rest ih =>
    have first := permitted j List.mem_cons_self
    exact ih (returns.frame first.1 first.2) fun k later =>
      permitted k (List.mem_cons_of_mem _ later)

theorem Returns.entries {entries : List Entry} (returns : b.Returns allowed acc)
    (permitted : ∀ e ∈ entries, ∀ j ∈ e.frames, allowed j) :
    b.Returns allowed (entries.foldl reclaimEntry acc) := by
  induction entries generalizing acc with
  | nil => exact returns
  | cons e rest ih =>
    refine ih ?_ fun f later => permitted f (List.mem_cons_of_mem _ later)
    refine returns.frames_of fun j mem => ?_
    have bounds := List.mem_range'_1.mp mem
    rw [returns.frames] at bounds
    refine ⟨by omega, permitted e List.mem_cons_self j (Entry.mem_frames.mpr ⟨bounds.1, ?_⟩)⟩
    omega

end Bitmap

/-! ## Every later state -/

structure Kept (entries : List Entry) (l : Layout) (s : FrameState) : Prop where
  valid : s.pmm.bitmap.Valid
  tail : s.pmm.bitmap.TailSet
  handed : ∀ i ∈ s.out, i < s.pmm.bitmap.frames ∧ s.pmm.bitmap.isUsed i = true
  nodup : s.out.Nodup
  origin : ∀ i, s.pmm.bitmap.Free i ∨ i ∈ s.out → Origin entries l s.pmm.reclaimed i
  reclaim : s.pmm.reclaim = recorded entries
  waiting : s.pmm.reclaimed = false → s.given = []
  once : s.given.Nodup

variable {entries : List Entry} {l : Layout} {p : Pmm} {s s' : FrameState}

theorem Built.kept (built : Built entries l p) : Kept entries l (FrameState.start p) := by
  refine ⟨built.valid, ?_, by simp [FrameState.start], List.nodup_nil, ?_, built.reclaim,
    fun _ => rfl, List.nodup_nil⟩
  · intro i covered unused
    by_contra past
    have set := built.tail i (built.words ▸ covered) (built.frames ▸ Nat.le_of_not_lt past)
    rw [FrameState.start] at unused
    rw [set] at unused
    cases unused
  · rintro i (free | handed)
    · exact .inl ((built.free i).mp free)
    · exact absurd handed List.not_mem_nil

theorem Kept.allocFrame (kept : Kept entries l s) : Kept entries l s.allocFrame := by
  obtain ⟨valid, tail, handed, nodup, origin, reclaim, waiting, once⟩ := kept
  cases res : s.pmm.bitmap.alloc.1 with
  | none =>
    have eq : s.allocFrame = s := by
      simp [FrameState.allocFrame, res, Bitmap.alloc_eq_none res]
    rw [eq]
    exact ⟨valid, tail, handed, nodup, origin, reclaim, waiting, once⟩
  | some i =>
    have gives := Bitmap.alloc_gives valid res
    have free := gives.free i (by simp)
    have out : s.allocFrame.out = i :: s.out := by simp [FrameState.allocFrame, res]
    have bitmap : s.allocFrame.pmm.bitmap = s.pmm.bitmap.alloc.2 := rfl
    have still : ∀ {j}, s.pmm.bitmap.alloc.2.isUsed j = false → s.pmm.bitmap.isUsed j = false := by
      intro j unused
      rw [gives.used] at unused
      exact (Bool.or_eq_false_iff.mp unused).1
    refine ⟨gives.valid, ?_, ?_, ?_, ?_, reclaim, waiting, once⟩
    · intro j covered unused
      rw [bitmap, Bitmap.alloc_words] at covered
      rw [bitmap, gives.frames]
      exact tail j covered (still unused)
    · intro j member
      rw [out] at member
      rw [bitmap, gives.frames, gives.used]
      rcases List.mem_cons.mp member with rfl | earlier
      · exact ⟨free.1, by simp⟩
      · exact ⟨(handed j earlier).1, by rw [(handed j earlier).2, Bool.true_or]⟩
    · rw [out, List.nodup_cons]
      refine ⟨fun earlier => ?_, nodup⟩
      have used := (handed i earlier).2
      rw [free.2] at used
      cases used
    · rintro j (unused | member)
      · rw [Bitmap.Free, bitmap, gives.frames] at unused
        exact origin j (.inl ⟨unused.1, still unused.2⟩)
      rw [out] at member
      rcases List.mem_cons.mp member with rfl | earlier
      · exact origin j (.inl free)
      · exact origin j (.inr earlier)

theorem Kept.freeFrame {i : Nat} (kept : Kept entries l s) (ran : s.freeFrame i = some s') :
    Kept entries l s' := by
  obtain ⟨valid, tail, handed, nodup, origin, reclaim, waiting, once⟩ := kept
  rw [FrameState.freeFrame] at ran
  split at ran
  next mem =>
    cases ran
    have lt := handed i mem
    have used : ∀ j, (s.pmm.bitmap.release i).isUsed j =
        (s.pmm.bitmap.isUsed j && decide (j ≠ i)) := Bitmap.isUsed_setFree s.pmm.bitmap i
    have was : ∀ {j}, (s.pmm.bitmap.release i).isUsed j = false →
        s.pmm.bitmap.isUsed j = false ∨ j = i := by
      intro j unused
      rw [used] at unused
      rcases Bool.and_eq_false_iff.mp unused with old | freed
      · exact .inl old
      · exact .inr (not_not.mp (of_decide_eq_false freed))
    refine ⟨Bitmap.release_valid valid lt.1 lt.2, ?_, ?_, nodup.erase i, ?_, reclaim, waiting, once⟩
    · intro j covered unused
      rw [show (s.pmm.bitmap.release i).bits.length = s.pmm.bitmap.bits.length from
        Bitmap.setFree_length s.pmm.bitmap i] at covered
      rcases was unused with old | rfl
      · exact tail j covered old
      · exact lt.1
    · intro j left
      obtain ⟨other, old⟩ := (nodup.mem_erase_iff).mp left
      exact ⟨(handed j old).1, (used j).trans (by simp [(handed j old).2, other])⟩
    · rintro j (unused | left)
      · rcases was unused.2 with old | rfl
        · exact origin j (.inl ⟨unused.1, old⟩)
        · exact origin j (.inr mem)
      · exact origin j (.inr (List.mem_of_mem_erase left))
  next => cases ran

theorem Kept.reclaimBootloader (formed : WellFormed entries) (kept : Kept entries l s) :
    Kept entries l s.reclaimBootloader := by
  by_cases done : s.pmm.reclaimed = true
  · have eq : s.reclaimBootloader = s := by
      simp [FrameState.reclaimBootloader, Pmm.reclaimBootloader, done]
    rwa [eq]
  obtain ⟨valid, tail, handed, nodup, origin, reclaim, waiting, once⟩ := kept
  replace done := Bool.eq_false_iff.mpr done
  let acc := s.pmm.reclaim.foldl Bitmap.reclaimEntry (s.pmm.bitmap, [])
  have returns : s.pmm.bitmap.Returns (fun j => ∃ e ∈ recorded entries, j ∈ e.frames) acc :=
    (Bitmap.Returns.start valid).entries fun e member j lt =>
      ⟨e, reclaim ▸ member, lt⟩
  have pmm : s.reclaimBootloader.pmm = { s.pmm with bitmap := acc.1, reclaimed := true } := by
    simp [FrameState.reclaimBootloader, Pmm.reclaimBootloader, done, acc]
  have given : s.reclaimBootloader.given = acc.2 := by
    simp [FrameState.reclaimBootloader, Pmm.reclaimBootloader, done, acc, waiting done]
  -- What is handed out before the call is usable memory, which no recorded entry holds.
  have untouched : ∀ j ∈ s.out, j ∉ acc.2 := by
    intro j member freed
    obtain ⟨f, mem, lt⟩ := (returns.inside j freed).2.2
    rcases origin j (.inr member) with ⟨usable, _⟩ | ⟨early, _⟩
    · obtain ⟨e, first, kind, here⟩ := mem_usableFrames.mp usable
      exact formed.apart first (mem_recorded mem).1 kind (mem_recorded mem).2 here lt
    · rw [done] at early
      cases early
  have before : ∀ {j}, acc.1.isUsed j = false → s.pmm.bitmap.isUsed j = false ∨ j ∈ acc.2 := by
    intro j unused
    rw [returns.used] at unused
    rcases Bool.and_eq_false_iff.mp unused with old | freed
    · exact .inl old
    · exact .inr (not_not.mp (of_decide_eq_false freed))
  have frames : acc.1.frames = s.pmm.bitmap.frames := returns.frames
  refine ⟨?_, ?_, ?_, nodup, ?_, ?_, ?_, given ▸ returns.nodup⟩ <;> rw [pmm]
  · exact returns.valid
  · intro j covered unused
    rw [returns.words] at covered
    rcases before unused with old | freed
    · exact frames ▸ tail j covered old
    · exact frames ▸ (returns.inside j freed).1
  · intro j member
    refine ⟨frames ▸ (handed j member).1, ?_⟩
    exact (returns.used j).trans (by simp [(handed j member).2, untouched j member])
  · rintro j (unused | member)
    · rcases before unused.2 with old | freed
      · rcases origin j (.inl ⟨frames ▸ unused.1, old⟩) with usable | recorded
        · exact .inl usable
        · exact .inr ⟨rfl, recorded.2⟩
      · exact .inr ⟨rfl, (returns.inside j freed).2.2⟩
    · rcases origin j (.inr member) with usable | recorded
      · exact .inl usable
      · exact .inr ⟨rfl, recorded.2⟩
  · exact reclaim
  · intro early
    cases early

theorem Kept.step {action : FrameAction} (formed : WellFormed entries) (kept : Kept entries l s)
    (ran : s.step action = some s') : Kept entries l s' := by
  cases action with
  | allocFrame =>
    cases ran
    exact kept.allocFrame
  | freeFrame i => exact kept.freeFrame ran
  | reclaimBootloader =>
    cases ran
    exact kept.reclaimBootloader formed

/-- On every map that Limine may hand over and after every sequence of calls: `free` counts the
clear bits, each a frame that may be free; no frame is handed out twice or given back by the
bootloader twice, and none is refused while one is free. -/
theorem frame_bitmap_kept {actions : List FrameAction} (formed : WellFormed entries)
    (laid : layout entries = some l) (booted : init entries = some p)
    (run : Run (fun s a t => FrameState.step s a = some t) (FrameState.start p) actions s) :
    s.pmm.bitmap.free = s.pmm.bitmap.clear.length ∧
      (∀ i ∈ s.pmm.bitmap.clear, i < s.pmm.bitmap.frames ∧ Pool entries l s.pmm.reclaimed i) ∧
      (∀ i, s.pmm.bitmap.alloc.1 = some i → i ∉ s.out) ∧
      (s.pmm.bitmap.alloc.1 = none ↔ s.pmm.bitmap.free = 0) ∧
      s.given.Nodup := by
  have kept : Kept entries l s := run.invariant (Kept entries l)
    (init_built formed laid booted).kept fun _ _ _ was ran => was.step formed ran
  refine ⟨kept.valid.counts_clear kept.tail, fun i mem => ?_, fun i found handed => ?_,
    Bitmap.alloc_none_iff kept.valid, kept.once⟩
  · rw [Bitmap.clear, List.mem_filter, List.mem_range, Bool.not_eq_true'] at mem
    have lt := kept.tail i mem.1 mem.2
    exact ⟨lt, (kept.origin i (.inl ⟨lt, mem.2⟩)).pool formed laid⟩
  have free := (Bitmap.alloc_gives kept.valid found).free i (by simp)
  have used := (kept.handed i handed).2
  rw [free.2] at used
  cases used

def smallMap : List Entry :=
  [⟨.usable, 0, 0x8000⟩, ⟨.other, 0x8000, 0x800⟩, ⟨.bootloaderReclaimable, 0x9000, 0x2000⟩]

theorem smallMap_wellFormed : WellFormed smallMap := by
  constructor
  · intro e mem tracked
    simp only [smallMap, List.mem_cons, List.not_mem_nil, or_false] at mem
    rcases mem with rfl | rfl | rfl
    · exact ⟨by decide, by decide⟩
    · simp [Entry.Tracked] at tracked
    · exact ⟨by decide, by decide⟩
  · have listed : (smallMap.filter fun e => e.Tracked) =
        [⟨.usable, 0, 0x8000⟩, ⟨.bootloaderReclaimable, 0x9000, 0x2000⟩] := by decide
    rw [listed, List.pairwise_pair]
    rintro address ⟨-, high⟩ ⟨low, -⟩
    have le : (0 : BitVec 64).toNat + (0x8000 : BitVec 64).toNat ≤ (0x9000 : BitVec 64).toNat := by
      decide
    exact absurd (high.trans_le (le.trans low)) (Nat.lt_irrefl _)

theorem small_map_kept :
    ∃ l p s, layout smallMap = some l ∧ init smallMap = some p ∧
      Run (fun s a t => FrameState.step s a = some t) (FrameState.start p)
        [.allocFrame, .allocFrame, .freeFrame 1, .reclaimBootloader, .reclaimBootloader] s ∧
      s.out = [2] ∧ s.given = [10, 9] ∧ s.pmm.bitmap.free = 8 ∧
      s.pmm.bitmap.free = s.pmm.bitmap.clear.length ∧ s.given.Nodup := by
  have eval :
      (layout smallMap).any fun _ => (init smallMap).any fun p : Pmm =>
        ([.allocFrame, .allocFrame, .freeFrame 1, .reclaimBootloader, .reclaimBootloader].foldlM
          FrameState.step (FrameState.start p)).any
        fun s : FrameState => decide (s.out = [2] ∧ s.given = [10, 9] ∧ s.pmm.bitmap.free = 8) := by
    decide +kernel
  obtain ⟨l, laid, eval⟩ := (Option.any_eq_true _ _).mp eval
  obtain ⟨p, booted, eval⟩ := (Option.any_eq_true _ _).mp eval
  obtain ⟨s, run, out, given, free⟩ := exists_of_replay _ eval fun _ _ facts => facts
  have kept := frame_bitmap_kept smallMap_wellFormed laid booted run
  exact ⟨l, p, s, laid, booted, run, out, given, free, kept.1, kept.2.2.2.2⟩

end K1K.Mm
