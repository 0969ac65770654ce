import K1K.Lib.Run
import K1K.Mm.Alloc

/-!
# The bitmap from the memory map

`init` and `reclaim_bootloader` of `kernel/src/mm/pmm.rs`. The bitmap covers the memory up to
the highest address that may ever be freed, or only the usable memory if the map would cost more
than an eighth of the largest usable entry, where it lies. A panic is `none`; arithmetic is
checked, as the Makefile builds.
-/

namespace K1K.Mm

open K1K.Lib

def MAX_RECLAIM : Nat := 16

inductive Kind where
  | usable
  | bootloaderReclaimable
  | other
  deriving DecidableEq, Repr

structure Entry where
  kind : Kind
  base : BitVec 64
  length : BitVec 64
  deriving DecidableEq, Repr

namespace Entry

variable (e : Entry)

def first : Nat := e.base.toNat / FRAME_SIZE

def count : Nat := e.length.toNat / FRAME_SIZE

def frames : List Nat := List.range' e.first e.count

def finish : Option Nat :=
  let sum := e.base.toNat + e.length.toNat
  if sum < 2 ^ 64 then some sum else none

end Entry

structure Survey where
  usableEnd : Nat
  highest : Nat
  usableFrames : Nat
  largest : Option Entry
  deriving DecidableEq, Repr

def Survey.add (s : Survey) (e : Entry) : Option Survey :=
  match e.kind with
  | .usable => do
    let finish ← e.finish
    some {
      usableEnd := max s.usableEnd finish
      highest := max s.highest finish
      usableFrames := s.usableFrames + e.count
      largest :=
        match s.largest with
        | none => some e
        | some l => if e.length > l.length then some e else some l }
  | .bootloaderReclaimable => do
    let finish ← e.finish
    some { s with highest := max s.highest finish }
  | .other => some s

/-- How many frames the bitmap covers: never spend more than an eighth of the largest
usable entry on it. -/
def Survey.frames (s : Survey) (largest : Entry) : Nat :=
  let budget := largest.length.toNat / 8
  let frames := s.highest / FRAME_SIZE
  if (frames + 63) / 64 * 8 > budget then s.usableEnd / FRAME_SIZE else frames

structure Layout where
  largest : Entry
  frames : Nat
  words : Nat
  totalUsable : Nat
  deriving DecidableEq, Repr

def layout (entries : List Entry) : Option Layout := do
  let s ← entries.foldlM Survey.add ⟨0, 0, 0, none⟩
  let largest ← s.largest
  let frames := s.frames largest
  let words := (frames + 63) / 64
  if largest.length.toNat ≥ words * 8 then some ⟨largest, frames, words, s.usableFrames⟩ else none

def Layout.own (l : Layout) : List Nat :=
  List.range' l.largest.first ((l.words * 8 + FRAME_SIZE - 1) / FRAME_SIZE)

def recorded (entries : List Entry) : List Entry :=
  (entries.filter fun e => e.kind = .bootloaderReclaimable).take MAX_RECLAIM

structure Pmm where
  bitmap : Bitmap
  reclaim : List Entry
  reclaimed : Bool
  deriving DecidableEq, Repr

namespace Bitmap

def trySetFree (b : Bitmap) (i : Nat) : Option Bitmap :=
  if i / 64 < b.bits.length then some (b.setFree i) else none

def trySetUsed (b : Bitmap) (i : Nat) : Option Bitmap :=
  if i / 64 < b.bits.length then some (b.setUsed i) else none

def freeEntry (b : Bitmap) (e : Entry) : Option Bitmap := do
  let b ← e.frames.foldlM trySetFree b
  some { b with free := b.free + e.count }

/-- One turn of the loop of `reclaim_bootloader`. The frame is noted where the source
adds up its size. -/
def reclaimFrame (acc : Bitmap × List Nat) (j : Nat) : Bitmap × List Nat :=
  if acc.1.isUsed j then ({ acc.1.setFree j with free := acc.1.free + 1 }, j :: acc.2) else acc

def reclaimEntry (acc : Bitmap × List Nat) (e : Entry) : Bitmap × List Nat :=
  (List.range' e.first (min (e.first + e.count) acc.1.frames - e.first)).foldl reclaimFrame acc

end Bitmap

def Layout.blank (l : Layout) : Bitmap where
  bits := List.replicate l.words (BitVec.allOnes 64)
  frames := l.frames
  free := 0
  totalUsable := l.totalUsable
  nextHint := 0

def init (entries : List Entry) : Option Pmm := do
  let l ← layout entries
  let b ← (entries.filter fun e => e.kind = .usable).foldlM Bitmap.freeEntry l.blank
  let b ← l.own.foldlM Bitmap.trySetUsed b
  some {
    bitmap := { b with free := b.free - l.own.length }
    reclaim := recorded entries
    reclaimed := false }

def Pmm.reclaimBootloader (p : Pmm) : List Nat × Pmm :=
  if p.reclaimed then ([], p)
  else
    let acc := p.reclaim.foldl Bitmap.reclaimEntry (p.bitmap, [])
    (acc.2, { p with bitmap := acc.1, reclaimed := true })

/-! ## The memory map -/

namespace Entry

variable (e : Entry)

def Tracked : Prop := e.kind = .usable ∨ e.kind = .bootloaderReclaimable

instance tracked_decidable : Decidable e.Tracked := inferInstanceAs (Decidable (_ ∨ _))

def Contains (address : Nat) : Prop :=
  e.base.toNat ≤ address ∧ address < e.base.toNat + e.length.toNat

structure Aligned : Prop where
  base : FRAME_SIZE ∣ e.base.toNat
  length : FRAME_SIZE ∣ e.length.toNat

def Holds (i : Nat) : Prop :=
  ∀ address, i * FRAME_SIZE ≤ address → address < (i + 1) * FRAME_SIZE → e.Contains address

end Entry

structure WellFormed (entries : List Entry) : Prop where
  aligned : ∀ e ∈ entries, e.Tracked → e.Aligned
  disjoint : (entries.filter fun e => e.Tracked).Pairwise fun e f =>
    ∀ address, e.Contains address → ¬f.Contains address

def usableFrames (entries : List Entry) : List Nat :=
  (entries.filter fun e => e.kind = .usable).flatMap Entry.frames

theorem mem_usableFrames {entries : List Entry} {i : Nat} :
    i ∈ usableFrames entries ↔ ∃ e ∈ entries, e.kind = .usable ∧ i ∈ e.frames := by
  simp [usableFrames, and_assoc]

section Entries

variable {e f : Entry} {i : Nat}

theorem Entry.mem_frames : i ∈ e.frames ↔ e.first ≤ i ∧ i < e.first + e.count :=
  List.mem_range'_1

theorem Entry.Aligned.first_eq (aligned : e.Aligned) : e.base.toNat = e.first * FRAME_SIZE :=
  (Nat.div_mul_cancel aligned.base).symm

theorem Entry.Aligned.count_eq (aligned : e.Aligned) : e.length.toNat = e.count * FRAME_SIZE :=
  (Nat.div_mul_cancel aligned.length).symm

theorem Entry.Aligned.holds (aligned : e.Aligned) (mem : i ∈ e.frames) : e.Holds i := by
  obtain ⟨low, high⟩ := Entry.mem_frames.mp mem
  intro address start finish
  rw [Entry.Contains, aligned.first_eq, aligned.count_eq, ← Nat.add_mul]
  constructor
  · exact (Nat.mul_le_mul_right _ low).trans start
  · exact finish.trans_le (Nat.mul_le_mul_right _ high)

theorem Entry.Aligned.contains (aligned : e.Aligned) (mem : i ∈ e.frames) :
    e.Contains (i * FRAME_SIZE) :=
  aligned.holds mem _ le_rfl (Nat.mul_lt_mul_of_pos_right (Nat.lt_succ_self i) (by decide))

theorem WellFormed.apart {entries : List Entry} (formed : WellFormed entries) (first : e ∈ entries)
    (second : f ∈ entries) (usable : e.kind = .usable)
    (reclaimable : f.kind = .bootloaderReclaimable) (mem : i ∈ e.frames) : i ∉ f.frames := by
  intro other
  have different : e ≠ f := by
    rintro rfl
    rw [usable] at reclaimable
    cases reclaimable
  have here := (formed.aligned e first (.inl usable)).contains mem
  have there := (formed.aligned f second (.inr reclaimable)).contains other
  have symmetric : Std.Symm fun e f : Entry =>
      ∀ address, e.Contains address → ¬f.Contains address :=
    ⟨fun _ _ ne address lt out => ne address out lt⟩
  refine formed.disjoint.forall ?_ ?_ different _ here there
  · simp [first, Entry.Tracked, usable]
  · simp [second, Entry.Tracked, reclaimable]

theorem WellFormed.nodup_usable {entries : List Entry} (formed : WellFormed entries) :
    (usableFrames entries).Nodup := by
  rw [usableFrames, List.nodup_flatMap]
  refine ⟨fun e _ => List.nodup_range', ?_⟩
  have sub : (entries.filter fun e => e.kind = .usable).Sublist
      (entries.filter fun e => e.Tracked) := by
    apply List.monotone_filter_right
    intro e usable
    exact decide_eq_true (Or.inl (of_decide_eq_true usable))
  refine (List.Pairwise.and_mem.mp (formed.disjoint.sublist sub)).imp ?_
  rintro e f ⟨first, second, ne⟩ i here there
  simp only [List.mem_filter, decide_eq_true_eq] at first second
  exact ne _ ((formed.aligned e first.1 (.inl first.2)).contains here)
    ((formed.aligned f second.1 (.inl second.2)).contains there)

end Entries

/-! ## The layout -/

theorem Entry.finish_eq {e : Entry} {finish : Nat} (found : e.finish = some finish) :
    finish = e.base.toNat + e.length.toNat := by
  rw [Entry.finish] at found
  split at found
  next => exact (Option.some.inj found).symm
  next => cases found

/-- The survey after some entries: it covers each of them, and the largest is a
usable one of them. -/
structure Survey.Of (s : Survey) (seen : List Entry) : Prop where
  ordered : s.usableEnd ≤ s.highest
  usable : ∀ e ∈ seen, e.kind = .usable → e.base.toNat + e.length.toNat ≤ s.usableEnd
  largest : ∀ l, s.largest = some l → l ∈ seen ∧ l.kind = .usable

theorem Survey.Of.add {s s' : Survey} {seen : List Entry} {e : Entry} (survey : s.Of seen)
    (added : s.add e = some s') : s'.Of (seen ++ [e]) := by
  obtain ⟨ordered, usable, largest⟩ := survey
  have earlier : ∀ {bound : Nat}, s.usableEnd ≤ bound → ∀ other ∈ seen, other.kind = .usable →
      other.base.toNat + other.length.toNat ≤ bound :=
    fun raised other mem kind => (usable other mem kind).trans raised
  have passed (kind : e.kind ≠ .usable) {highest : Nat} (raised : s.highest ≤ highest) :
      Survey.Of { s with highest := highest } (seen ++ [e]) := by
    refine ⟨ordered.trans raised, fun other mem usable => ?_, fun l kept => ?_⟩
    · rcases List.mem_append.mp mem with was | last
      · exact earlier le_rfl other was usable
      · exact absurd (List.mem_singleton.mp last ▸ usable) kind
    · exact ⟨List.mem_append_left _ (largest l kept).1, (largest l kept).2⟩
  rw [Survey.add] at added
  split at added
  next kind =>
    obtain ⟨finish, found, eq⟩ := Option.bind_eq_some_iff.mp added
    cases eq
    have reached := Entry.finish_eq found
    refine ⟨max_le_max ordered le_rfl, ?_, ?_⟩
    · intro other mem usable
      rcases List.mem_append.mp mem with was | last
      · exact earlier (le_max_left _ _) other was usable
      · rw [List.mem_singleton.mp last, ← reached]
        exact le_max_right _ _
    · intro l chosen
      have old : ∀ {l}, s.largest = some l → l ∈ seen ++ [e] ∧ l.kind = .usable :=
        fun kept => ⟨List.mem_append_left _ (largest _ kept).1, (largest _ kept).2⟩
      have new : e ∈ seen ++ [e] ∧ e.kind = .usable := ⟨by simp, kind⟩
      simp only at chosen
      split at chosen
      next =>
        cases chosen
        exact new
      next l' kept =>
        split at chosen
        next =>
          cases chosen
          exact new
        cases chosen
        exact old kept
  next kind =>
    obtain ⟨finish, found, eq⟩ := Option.bind_eq_some_iff.mp added
    cases eq
    exact passed (by rw [kind]; rintro ⟨⟩) (le_max_left _ _)
  next kind =>
    cases added
    exact passed (by rw [kind]; rintro ⟨⟩) le_rfl

theorem Survey.of_entries {entries : List Entry} {s : Survey}
    (surveyed : entries.foldlM Survey.add ⟨0, 0, 0, none⟩ = some s) : s.Of entries := by
  have run := run_of_replay surveyed
  clear surveyed
  induction run with
  | nil => exact ⟨le_rfl, fun e mem => absurd mem List.not_mem_nil, by simp⟩
  | snoc _ added ih => exact ih.add added

structure Layout.Fits (l : Layout) (entries : List Entry) : Prop where
  listed : l.largest ∈ entries
  usable : l.largest.kind = .usable
  room : l.words * 8 ≤ l.largest.length.toNat
  words : l.words = (l.frames + 63) / 64
  covers : ∀ e ∈ entries, e.kind = .usable →
    (e.base.toNat + e.length.toNat) / FRAME_SIZE ≤ l.frames

theorem layout_fits {entries : List Entry} {l : Layout} (laid : layout entries = some l) :
    l.Fits entries := by
  obtain ⟨s, surveyed, rest⟩ := Option.bind_eq_some_iff.mp laid
  obtain ⟨largest, chosen, rest⟩ := Option.bind_eq_some_iff.mp rest
  have survey := Survey.of_entries surveyed
  simp only at rest
  split at rest
  next room =>
    cases rest
    refine ⟨(survey.largest _ chosen).1, (survey.largest _ chosen).2, room, rfl, ?_⟩
    intro e mem usable
    have reached := survey.usable e mem usable
    simp only [Survey.frames]
    split
    next => exact Nat.div_le_div_right reached
    next => exact Nat.div_le_div_right (reached.trans survey.ordered)
  next => cases rest

section Fits

variable {entries : List Entry} {l : Layout} {e : Entry} {i : Nat}

theorem Layout.Fits.below (fits : l.Fits entries) (formed : WellFormed entries)
    (mem : e ∈ entries) (usable : e.kind = .usable) (lt : i ∈ e.frames) : i < l.frames := by
  have aligned := formed.aligned e mem (.inl usable)
  have reached := fits.covers e mem usable
  rw [aligned.first_eq, aligned.count_eq, ← Nat.add_mul, Nat.mul_div_cancel _ (by decide)]
    at reached
  exact (Entry.mem_frames.mp lt).2.trans_le reached

theorem Layout.Fits.own_subset (fits : l.Fits entries) (formed : WellFormed entries)
    (own : i ∈ l.own) : i ∈ l.largest.frames := by
  have aligned := formed.aligned _ fits.listed (.inl fits.usable)
  have bounds := List.mem_range'_1.mp own
  have room := fits.room
  rw [aligned.count_eq] at room
  refine Entry.mem_frames.mpr ⟨bounds.1, bounds.2.trans_le (Nat.add_le_add_left ?_ _)⟩
  rw [FRAME_SIZE] at room ⊢
  omega

end Fits

/-! ## The bits after `init` -/

namespace Bitmap

variable {b c d : Bitmap} {cleared more : List Nat}

/-- `c` is `b` after the bits of `cleared` have been cleared and counted. -/
structure Clears (b : Bitmap) (cleared : List Nat) (c : Bitmap) : Prop where
  frames : c.frames = b.frames
  words : c.bits.length = b.bits.length
  used : ∀ j, c.isUsed j = (b.isUsed j && decide (j ∉ cleared))
  counted : c.free = b.free + cleared.length

theorem Clears.refl (b : Bitmap) : b.Clears [] b := ⟨rfl, rfl, by simp, rfl⟩

theorem Clears.trans (first : b.Clears cleared c) (second : c.Clears more d) :
    b.Clears (cleared ++ more) d where
  frames := second.frames.trans first.frames
  words := second.words.trans first.words
  used j := by
    rw [second.used, first.used, Bool.and_assoc, ← Bool.decide_and]
    simp
  counted := by rw [second.counted, first.counted, List.length_append, Nat.add_assoc]

theorem setFree_length (b : Bitmap) (i : Nat) : (b.setFree i).bits.length = b.bits.length := by
  simp [setFree]

theorem foldlM_trySetFree {indices : List Nat} (done : indices.foldlM trySetFree b = some c) :
    b.Clears indices { c with free := c.free + indices.length } ∧ c.free = b.free := by
  induction indices generalizing b with
  | nil =>
    cases done
    exact ⟨Clears.refl _, rfl⟩
  | cons i rest ih =>
    rw [List.foldlM_cons, trySetFree] at done
    split at done
    next =>
      obtain ⟨⟨frames, words, used, _⟩, free⟩ := ih done
      refine ⟨⟨frames, words.trans (setFree_length b i), fun j => ?_, ?_⟩, free⟩
      · have later : c.isUsed j = ((b.setFree i).isUsed j && decide (j ∉ rest)) := used j
        have goal : c.isUsed j = (b.isUsed j && decide (j ∉ i :: rest)) := by
          rw [later, isUsed_setFree, Bool.and_assoc, ← Bool.decide_and]
          simp
        exact goal
      · simp only [free]
        rfl
    next => cases done

theorem freeEntry_clears {e : Entry} (done : b.freeEntry e = some c) : b.Clears e.frames c := by
  obtain ⟨middle, looped, eq⟩ := Option.bind_eq_some_iff.mp done
  cases eq
  have length : e.frames.length = e.count := List.length_range'
  exact length ▸ (foldlM_trySetFree looped).1

theorem foldlM_freeEntry_clears {entries : List Entry}
    (done : entries.foldlM freeEntry b = some c) : b.Clears (entries.flatMap Entry.frames) c := by
  induction entries generalizing b with
  | nil =>
    cases done
    exact Clears.refl _
  | cons e rest ih =>
    rw [List.foldlM_cons] at done
    obtain ⟨middle, first, later⟩ := Option.bind_eq_some_iff.mp done
    rw [List.flatMap_cons]
    exact (freeEntry_clears first).trans (ih later)

theorem foldlM_trySetUsed {indices : List Nat} (done : indices.foldlM trySetUsed b = some c) :
    c.frames = b.frames ∧ c.free = b.free ∧ c.bits.length = b.bits.length ∧
      ∀ j, c.isUsed j = (b.isUsed j || decide (j ∈ indices)) := by
  induction indices generalizing b with
  | nil =>
    cases done
    exact ⟨rfl, rfl, rfl, by simp⟩
  | cons i rest ih =>
    rw [List.foldlM_cons, trySetUsed] at done
    split at done
    next lt =>
      obtain ⟨frames, free, words, used⟩ := ih done
      refine ⟨frames, free, words.trans (setUsed_length b i), fun j => ?_⟩
      have covered : i < 64 * b.bits.length := by omega
      rw [used, isUsed_setUsed b covered, Bool.or_assoc]
      simp
    next => cases done

theorem gives_of_marked {indices : List Nat} (valid : b.Valid) (nodup : indices.Nodup)
    (free : ∀ i ∈ indices, b.Free i) (done : indices.foldlM trySetUsed b = some c) :
    b.Gives indices { c with free := c.free - indices.length } ∧
      c.bits.length = b.bits.length := by
  obtain ⟨frames, eq, words, used⟩ := foldlM_trySetUsed done
  have listed : indices ⊆ b.lowest := fun i mem => mem_lowest.mpr (free i mem)
  have enough : indices.length ≤ b.free := by
    rw [valid.counted]
    exact (nodup.subperm listed).length_le
  refine ⟨Gives.of_counted valid nodup free used frames words ?_, words⟩
  simp only [eq]
  exact Nat.sub_add_cancel enough

end Bitmap

theorem Layout.isUsed_blank (l : Layout) (j : Nat) :
    l.blank.isUsed j = decide (j < 64 * l.words) := by
  rw [Bitmap.isUsed_eq, Layout.blank]
  by_cases lt : j < 64 * l.words
  · have word : j / 64 < l.words := by omega
    have bit : j % 64 < 64 := Nat.mod_lt _ (by decide)
    rw [List.getD_eq_getElem?_getD, List.getElem?_replicate, if_pos word, Option.getD_some,
      BitVec.getLsbD_allOnes, decide_eq_true bit, decide_eq_true lt]
  · have word : l.words ≤ j / 64 := by omega
    simp [List.getD_eq_getElem?_getD, word, lt]

theorem Layout.Fits.freed {entries : List Entry} {l : Layout} {b : Bitmap} (fits : l.Fits entries)
    (formed : WellFormed entries) (clears : l.blank.Clears (usableFrames entries) b) :
    b.Valid ∧ (∀ j, b.Free j ↔ j ∈ usableFrames entries) ∧
      ∀ j < 64 * l.words, l.frames ≤ j → b.isUsed j = true := by
  have below : ∀ i ∈ usableFrames entries, i < l.frames := by
    intro i mem
    obtain ⟨e, listed, usable, lt⟩ := mem_usableFrames.mp mem
    exact fits.below formed listed usable lt
  have reach : l.frames ≤ 64 * l.words := by
    have words := fits.words
    omega
  have bits : ∀ j, b.isUsed j =
      (decide (j < 64 * l.words) && decide (j ∉ usableFrames entries)) := by
    intro j
    rw [clears.used, Layout.isUsed_blank]
  have free : ∀ j, b.Free j ↔ j ∈ usableFrames entries := by
    intro j
    rw [Bitmap.Free, bits, clears.frames]
    constructor
    · rintro ⟨lt, clear⟩
      have covered : j < 64 * l.words := Nat.lt_of_lt_of_le lt reach
      simpa [covered] using clear
    · intro mem
      exact ⟨below j mem, by simp [mem]⟩
  refine ⟨⟨?_, ?_⟩, free, fun j small past => ?_⟩
  · rw [clears.frames, clears.words]
    simpa [Layout.blank] using reach
  · have eq : b.lowest.Perm (usableFrames entries) :=
      (List.perm_ext_iff_of_nodup (Bitmap.nodup_lowest b) formed.nodup_usable).mpr fun j => by
        rw [Bitmap.mem_lowest, free]
    rw [eq.length_eq, clears.counted]
    exact Nat.zero_add _
  · have out : j ∉ usableFrames entries := fun mem =>
      absurd (below j mem) (Nat.not_lt.mpr past)
    simp [bits, small, out]

structure Built (entries : List Entry) (l : Layout) (p : Pmm) : Prop where
  valid : p.bitmap.Valid
  frames : p.bitmap.frames = l.frames
  words : p.bitmap.bits.length = l.words
  free : ∀ j, p.bitmap.Free j ↔ j ∈ usableFrames entries ∧ j ∉ l.own
  tail : ∀ j < 64 * l.words, l.frames ≤ j → p.bitmap.isUsed j = true
  reclaim : p.reclaim = recorded entries
  reclaimed : p.reclaimed = false

theorem init_built {entries : List Entry} {l : Layout} {p : Pmm} (formed : WellFormed entries)
    (laid : layout entries = some l) (done : init entries = some p) : Built entries l p := by
  obtain ⟨l', laid', rest⟩ := Option.bind_eq_some_iff.mp done
  cases laid.symm.trans laid'
  obtain ⟨b, looped, rest⟩ := Option.bind_eq_some_iff.mp rest
  obtain ⟨c, marked, eq⟩ := Option.bind_eq_some_iff.mp rest
  cases eq
  have fits := layout_fits laid
  have clears := Bitmap.foldlM_freeEntry_clears looped
  obtain ⟨valid, free, tail⟩ := fits.freed formed clears
  have ours : ∀ i ∈ l.own, b.Free i := fun i own =>
    (free i).mpr (mem_usableFrames.mpr
      ⟨l.largest, fits.listed, fits.usable, fits.own_subset formed own⟩)
  obtain ⟨gives, words⟩ := Bitmap.gives_of_marked valid List.nodup_range' ours marked
  have used : ∀ j, c.isUsed j = (b.isUsed j || decide (j ∈ l.own)) := gives.used
  refine ⟨gives.valid, gives.frames.trans clears.frames, ?_, fun j => ?_, fun j small past => ?_,
    rfl, rfl⟩
  · exact words.trans (clears.words.trans List.length_replicate)
  · have unmarked : j < c.frames ∧ c.isUsed j = false ↔ b.Free j ∧ j ∉ l.own := by
      have frames : c.frames = b.frames := gives.frames
      rw [frames, used, Bool.or_eq_false_iff, ← and_assoc, decide_eq_false_iff_not, Bitmap.Free]
    exact unmarked.trans (and_congr_left' (free j))
  · exact (used j).trans (by rw [tail j small past, Bool.true_or])

end K1K.Mm
