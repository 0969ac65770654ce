import K1K.Allocator.Walk

/-!
# The heap stands for an arena

`Refines h live ar`: the heap `h` represents the arena `ar`, and `live` gives the layout asked
for at each live payload. Each operation of the heap is matched by one of the arena.
-/

namespace K1K.Allocator

open K1K.Lib
open Function (update update_of_ne update_self)

abbrev Live : Type := Nat → Option Layout

def Tracks (live : Live) (blocks : List Block) : Prop :=
  ∀ p : Payload, live p.ptr = some p.layout ↔ ∃ b ∈ blocks, b.use = some p

structure Refines {S : Type} (h : Heap S) (live : Live) (ar : Arena) : Prop where
  few : h.regions.length ≤ MAX_REGIONS
  regions : Tiles ar.base h.regions ar.top
  entry : h.head = Chain.entry (nodes ar.blocks) 0
  chain : Chain h.mem 0 (nodes ar.blocks) 0
  stamped : ∀ b ∈ used ar.blocks, ∀ p ∈ b.use, h.mem.load64 (p.ptr - BACK) = p.ptr - b.addr
  inUse : h.inUse = bytes (used ar.blocks)
  count : h.live = (used ar.blocks).length
  tracks : Tracks live (used ar.blocks)

/-! ## Payloads of used blocks -/

namespace Arena

variable (ar : Arena)

theorem used_pairwise : (used ar.blocks).Pairwise fun b c => b.addr + b.size ≤ c.addr :=
  ar.tiles.pairwise.filter _

theorem within {b : Block} (mem : b ∈ used ar.blocks) {p : Payload} (holds : b.use = some p) :
    p.Within b.addr b.size :=
  (ar.sound b (mem_used.mp mem).1).holds p holds

theorem ptr_ne {front back : List Block} {b c : Block} (split : used ar.blocks = front ++ b :: back)
    {p q : Payload} (holds : b.use = some p) (member : c ∈ front ++ back)
    (others : c.use = some q) : q.ptr ≠ p.ptr := by
  have memberB : b ∈ used ar.blocks := by simp [split]
  have memberC : c ∈ used ar.blocks := by
    rw [split]
    rcases List.mem_append.mp member with member | member <;> simp [member]
  have withinB := ar.within memberB holds
  have withinC := ar.within memberC others
  have ordered := split ▸ ar.used_pairwise
  obtain ⟨-, fromB, across⟩ := List.pairwise_append.mp ordered
  have pastB := withinB.past
  have pastC := withinC.past
  have insideB := withinB.inside
  have insideC := withinC.inside
  simp only [HEADER] at pastB pastC
  rcases List.mem_append.mp member with member | member
  · have := across c member b List.mem_cons_self
    omega
  · have := (List.pairwise_cons.mp fromB).1 c member
    omega

theorem entry_eq : Chain.entry (nodes ar.blocks) 0 = if ar.base = ar.top then 0 else ar.base := by
  have tiles := ar.tiles
  have sound := ar.sound
  cases blocks : ar.blocks with
  | nil =>
    rw [blocks] at tiles
    simp [tiles_nil.mp tiles]
  | cons b rest =>
    rw [blocks] at tiles sound
    obtain ⟨start, after⟩ := tiles
    have room := (sound b List.mem_cons_self).room
    have start : b.addr = ar.base := start
    have later : ar.base + b.size ≤ ar.top := after.le
    simp only [MIN_SPLIT, HEADER, ALIGN] at room
    rw [if_neg (by omega)]
    exact start

end Arena

namespace Tracks

variable {live : Live} {front back : List Block} {b : Block} {p : Payload}

theorem exists_mem_iff {holds : Block → Prop} :
    (∃ c ∈ front ++ b :: back, holds c) ↔ holds b ∨ ∃ c ∈ front ++ back, holds c := by
  simp only [List.mem_append, List.mem_cons, or_and_right, exists_or, exists_eq_left]
  exact or_left_comm

theorem insert (tracks : Tracks live (front ++ back)) (holds : b.use = some p)
    (ne : ∀ c ∈ front ++ back, ∀ q : Payload, c.use = some q → q.ptr ≠ p.ptr) :
    Tracks (update live p.ptr (some p.layout)) (front ++ b :: back) := by
  intro q
  rw [exists_mem_iff, holds, Option.some_inj]
  by_cases eq : q.ptr = p.ptr
  · have noOther : ¬∃ c ∈ front ++ back, c.use = some q := fun ⟨c, mem, uses⟩ =>
      ne c mem q uses eq
    rw [eq, update_self, Option.some_inj, or_iff_left noOther]
    exact ⟨fun layout => by cases p; cases q; simp_all, fun equal => by rw [equal]⟩
  · rw [update_of_ne eq, tracks q, or_iff_right fun equal => eq (by rw [equal])]

theorem erase (tracks : Tracks live (front ++ b :: back)) (holds : b.use = some p)
    (ne : ∀ c ∈ front ++ back, ∀ q : Payload, c.use = some q → q.ptr ≠ p.ptr) :
    Tracks (update live p.ptr none) (front ++ back) := by
  intro q
  by_cases eq : q.ptr = p.ptr
  · have noOther : ¬∃ c ∈ front ++ back, c.use = some q := fun ⟨c, mem, uses⟩ =>
      ne c mem q uses eq
    rw [eq, update_self]
    exact ⟨nofun, fun found => absurd found noOther⟩
  · rw [update_of_ne eq, tracks q, exists_mem_iff, holds, Option.some_inj,
      or_iff_right fun equal => eq (by rw [equal])]

theorem replace (tracks : Tracks live (front ++ b :: back)) (holds : b.use = some p)
    {later : Block} {layout : Layout} (holds' : later.use = some ⟨p.ptr, layout⟩)
    (ne : ∀ c ∈ front ++ back, ∀ q : Payload, c.use = some q → q.ptr ≠ p.ptr) :
    Tracks (update live p.ptr (some layout)) (front ++ later :: back) := by
  have replaced := (tracks.erase holds ne).insert holds' ne
  rwa [Function.update_idem] at replaced

end Tracks

/-! ## Changes inside the arena -/

section Change

variable {S : Type} {h after : Heap S} {live : Live} {ar ar' : Arena} {b : Block} {p : Payload}

theorem body_of_back (mem : b ∈ used ar.blocks) (holds : b.use = some p) {a : Nat}
    (above : p.ptr - BACK ≤ a) (below : a < p.ptr) : Body ar.blocks a := by
  have within := ar.within mem holds
  have past := within.past
  have lt := within.inside
  simp only [HEADER, BACK] at *
  exact ⟨b, mem, by omega, by omega⟩

theorem Turns.back {old later : Memory} (turns : Turns old later ar.blocks)
    (mem : b ∈ used ar.blocks) (holds : b.use = some p) :
    later.load64 (p.ptr - BACK) = old.load64 (p.ptr - BACK) := by
  have past := (ar.within mem holds).past
  refine Memory.load64_congr fun a above below => turns.kept a (body_of_back mem holds above ?_)
  simp only [HEADER, BACK] at *
  omega

def Kept (live : Live) (before later : Memory) : Prop :=
  ∀ ptr layout, live ptr = some layout → ∀ i < layout.size, later (ptr + i) = before (ptr + i)

theorem Kept.trans {first second third : Memory} (old : Kept live first second)
    (later : Kept live second third) : Kept live first third :=
  fun ptr layout held i lt =>
    (later ptr layout held i lt).trans (old ptr layout held i lt)

theorem Kept.released {old later : Memory} (kept : Kept live old later) (ptr : Nat) :
    Kept (update live ptr none) old later := by
  intro other layout held
  by_cases eq : other = ptr
  · simp [eq] at held
  · rw [update_of_ne eq] at held
    exact kept other layout held

theorem body_of_payload (mem : b ∈ used ar.blocks) (holds : b.use = some p) {i : Nat}
    (lt : i < p.layout.size) : Body ar.blocks (p.ptr + i) := by
  have past := (ar.within mem holds).past
  have ends := (ar.within mem holds).inside
  simp only [HEADER] at past
  exact ⟨b, mem, by omega, by omega⟩

theorem Turns.keeps {old later : Memory} (turns : Turns old later ar.blocks)
    (tracks : Tracks live (used ar.blocks)) : Kept live old later := by
  intro ptr layout held i lt
  obtain ⟨b, mem, holds⟩ := (tracks ⟨ptr, layout⟩).mp held
  exact turns.kept _ (body_of_payload mem holds lt)

theorem Refines.rearranged {live' : Live} (sim : Refines h live ar)
    (range : ar'.base = ar.base ∧ ar'.top = ar.top)
    (eq : after.regions = h.regions ∧ after.head = h.head)
    (chain : Chain after.mem 0 (nodes ar'.blocks) 0) (stamped : ∀ b ∈ used ar'.blocks, ∀ p ∈ b.use,
      after.mem.load64 (p.ptr - BACK) = p.ptr - b.addr)
    (inUse : after.inUse = bytes (used ar'.blocks))
    (count : after.live = (used ar'.blocks).length) (tracks : Tracks live' (used ar'.blocks)) :
    Refines after live' ar' where
  few := eq.1 ▸ sim.few
  regions := by
    rw [range.1, range.2, eq.1]
    exact sim.regions
  entry := by
    rw [eq.2, sim.entry, ar.entry_eq, ar'.entry_eq, range.1, range.2]
  chain := chain
  stamped := stamped
  inUse := inUse
  count := count
  tracks := tracks

theorem Refines.find (sim : Refines h live ar) {ptr : Nat} {layout : Layout}
    (held : live ptr = some layout) :
    ∃ front cur back, ar.blocks = front ++ cur :: back ∧ cur.use = some ⟨ptr, layout⟩ ∧
      headerOf h.mem ptr = cur.addr := by
  obtain ⟨cur, mem, holds⟩ := (sim.tracks ⟨ptr, layout⟩).mp held
  obtain ⟨front, back, split⟩ := List.append_of_mem (mem_used.mp mem).1
  refine ⟨front, cur, back, split, holds, ?_⟩
  have past := (ar.within mem holds).past
  have stamp := sim.stamped cur mem ⟨ptr, layout⟩ holds
  simp only [HEADER] at past stamp
  rw [headerOf, stamp]
  omega

theorem Refines.apart (sim : Refines h live ar) {ptr other : Nat} {layout layout' : Layout}
    (held : live ptr = some layout) (heldOther : live other = some layout') (differ : other ≠ ptr)
    {i j : Nat} (lt : i < layout.size) (insideOther : j < layout'.size) :
    other + j ≠ ptr + i := by
  obtain ⟨b, mem, holds⟩ := (sim.tracks ⟨ptr, layout⟩).mp held
  obtain ⟨c, memberC, holdsC⟩ := (sim.tracks ⟨other, layout'⟩).mp heldOther
  have within := ar.within mem holds
  have withinC := ar.within memberC holdsC
  have past := within.past
  have ends := within.inside
  have pastC := withinC.past
  have endsC := withinC.inside
  simp only at past ends pastC endsC
  intro meet
  have eq : b = c := ar.tiles.eq_of_covers (a := ptr + i) (mem_used.mp mem).1
    (mem_used.mp memberC).1
    ⟨by change b.addr ≤ ptr + i; omega, by change ptr + i < b.addr + b.size; omega⟩
    ⟨by change c.addr ≤ ptr + i; omega, by change ptr + i < c.addr + c.size; omega⟩
  rw [← eq, holds] at holdsC
  exact differ (congrArg Payload.ptr (Option.some.inj holdsC)).symm

theorem used_split {front back : List Block} (split : ar.blocks = front ++ b :: back)
    (holds : b.use = some p) : used ar.blocks = used front ++ b :: used back := by
  rw [split, used_append, used_cons_used (by simp [Block.free, holds])]

theorem Refines.dealloc (sim : Refines h live ar) {ptr : Nat} {layout : Layout}
    (held : live ptr = some layout) : ∃ ar' : Arena, (ar'.base = ar.base ∧ ar'.top = ar.top) ∧
      Refines (h.dealloc ptr) (update live ptr none) ar' ∧
      Kept (update live ptr none) h.mem (h.dealloc ptr).mem := by
  obtain ⟨front, cur, back, split, holds, header⟩ := sim.find held
  have usedBefore := used_split split holds
  have usedAfter : used (ar.opened split).close.blocks = used front ++ used back :=
    (ar.opened split).used_close
  have member : cur ∈ used ar.blocks := by simp [usedBefore]
  have notNull : ptr ≠ 0 := by
    have past := (ar.within member holds).past
    simp only [HEADER] at past
    omega
  have size : blockSize h.mem cur.addr = cur.size :=
    blockSize_eq (ar.sound cur (by simp [split])) (Arena.chain_split split sim.chain).2.1.tag
  have turns := giveBlock_turns split sim.chain
  have tracks : Tracks (update live ptr none) (used (ar.opened split).close.blocks) := by
    rw [usedAfter]
    exact (usedBefore ▸ sim.tracks : Tracks live _).erase holds fun c memberC q =>
      ar.ptr_ne usedBefore holds memberC
  have freed : h.dealloc ptr = { h with
      inUse := h.inUse - cur.size
      live := h.live - 1
      frees := h.frees + 1
      mem := giveBlock h.mem cur.addr } := by
    simp only [Heap.dealloc, notNull, if_false, header, size]
  rw [freed]
  refine ⟨(ar.opened split).close, ⟨rfl, rfl⟩,
    sim.rearranged ⟨rfl, rfl⟩ ⟨rfl, rfl⟩ turns.chain ?_ ?_ ?_ tracks, turns.keeps tracks⟩
  · intro b memberB q uses
    rw [turns.back memberB uses]
    refine sim.stamped b ?_ q uses
    rw [usedAfter, List.mem_append] at memberB
    rw [usedBefore]
    rcases memberB with inFront | inBack <;> simp [*]
  · simp only [usedAfter, sim.inUse, usedBefore, bytes_append, bytes_cons]
    omega
  · simp only [usedAfter, sim.count, usedBefore, List.length_append, List.length_cons]
    omega

theorem Refines.write (sim : Refines h live ar) {ptr : Nat} {layout : Layout}
    (held : live ptr = some layout) (offset : Nat) (data : List Byte)
    (le : offset + data.length ≤ layout.size) :
    Refines { h with mem := h.mem.write (ptr + offset) data } live ar := by
  obtain ⟨cur, member, holds⟩ := (sim.tracks ⟨ptr, layout⟩).mp held
  have within := ar.within member holds
  have past := within.past
  have fits := within.inside
  simp only [HEADER] at past fits
  refine { sim with chain := ?_, stamped := ?_ }
  · refine sim.chain.congr fun n memberN a above below => h.mem.write_outside ?_
    by_contra reached
    have body : Body ar.blocks a := ⟨cur, member, by omega, by omega⟩
    have := ar.outside_of_body body n memberN
    omega
  · intro b memberB q uses
    have pastQ := (ar.within memberB uses).past
    have fitsQ := (ar.within memberB uses).inside
    simp only [HEADER] at pastQ
    refine Eq.trans (Memory.load64_congr fun a above below => h.mem.write_outside ?_)
      (sim.stamped b memberB q uses)
    simp only [BACK] at above below
    by_contra reached
    have eq : b = cur := ar.tiles.eq_of_covers (a := a) (mem_used.mp memberB).1
      (mem_used.mp member).1 ⟨by change b.addr ≤ a; omega, by change a < b.addr + b.size; omega⟩
      ⟨by change cur.addr ≤ a; omega, by change a < cur.addr + cur.size; omega⟩
    subst eq
    rw [holds] at uses
    cases uses
    simp only at below
    omega

theorem Refines.write_kept (sim : Refines h live ar) {ptr : Nat} {layout : Layout}
    (held : live ptr = some layout) (offset : Nat) (data : List Byte)
    (le : offset + data.length ≤ layout.size) :
    Kept (update live ptr none) h.mem (h.mem.write (ptr + offset) data) := by
  intro other layout' heldOther i insideOther
  have differ : other ≠ ptr := by
    rintro rfl
    simp at heldOther
  rw [update_of_ne differ] at heldOther
  refine h.mem.write_outside ?_
  by_contra reached
  exact sim.apart held heldOther differ (i := other + i - ptr) (by omega) insideOther (by omega)

theorem Refines.resized (sim : Refines h live ar) {g : Gap} {mem : Memory} {inUse keep : Nat}
    {layout layout' : Layout} {ptr : Nat} (range : g.base = ar.base ∧ g.top = ar.top)
    (stays : g.addr = b.addr) (split : used ar.blocks = used g.front ++ b :: used g.back)
    (holds : b.use = some ⟨ptr, layout⟩) (room : g.Room ⟨ptr, layout'⟩ keep)
    (turns : Turns h.mem mem (Gap.carve room).blocks)
    (account : inUse + b.size = h.inUse + Gap.carvedSize g.total keep) :
    Refines { h with inUse := inUse, mem := mem } (update live ptr (some layout'))
        (Gap.carve room) ∧
      Kept (update live ptr (some layout')) h.mem mem := by
  have usedAfter := Gap.used_carve room
  have carved := Gap.carve_range room
  have tracks : Tracks (update live ptr (some layout')) (used (Gap.carve room).blocks) := by
    rw [usedAfter]
    exact (split ▸ sim.tracks : Tracks live _).replace holds rfl fun c member q =>
      ar.ptr_ne split holds member
  refine ⟨sim.rearranged ⟨carved.1.trans range.1, carved.2.trans range.2⟩ ⟨rfl, rfl⟩
    turns.chain ?_ ?_ ?_ tracks, turns.keeps tracks⟩
  · intro c member q uses
    rw [turns.back member uses]
    rw [usedAfter, List.mem_append, List.mem_cons] at member
    rcases member with inFront | rfl | inBack
    · exact sim.stamped c (by simp [split, inFront]) q uses
    · cases uses
      have stamp := sim.stamped b (by simp [split]) ⟨ptr, layout⟩ holds
      rw [stays]
      exact stamp
    · exact sim.stamped c (by simp [split, inBack]) q uses
  · have was := sim.inUse
    simp only [usedAfter, split, bytes_append, bytes_cons] at was ⊢
    omega
  · simp only [usedAfter, sim.count, split, List.length_append, List.length_cons]

end Change

end K1K.Allocator
