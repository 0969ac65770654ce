import K1K.Allocator.Heap
import K1K.Lib.Chain
import K1K.Lib.Tiling

/-!
# What the block list means

An arena is a range of addresses cut into blocks, each free or holding one payload, with no two
free blocks side by side. An operation opens a gap (a block, two neighbours or new memory at the
top) and closes it as a free block that merges with its neighbours, a used block, or a used
block with a free one behind.
-/

namespace K1K.Allocator

open K1K.Lib

/-- What `Layout` promises: the alignment is a power of two and the size, rounded
up to it, does not exceed `isize::MAX`. -/
structure Layout where
  size : Nat
  align : Nat
  power : align.isPowerOfTwo
  fits : size + align ≤ 2 ^ 63
  deriving DecidableEq

structure Payload where
  ptr : Nat
  layout : Layout
  deriving DecidableEq

structure Payload.Within (p : Payload) (addr size : Nat) : Prop where
  past : addr + HEADER ≤ p.ptr
  near : p.ptr < addr + HEADER + max p.layout.align ALIGN
  inside : p.ptr + max p.layout.size 1 ≤ addr + size
  aligned : p.layout.align ∣ p.ptr
  word : ALIGN ∣ p.ptr

structure Block where
  addr : Nat
  size : Nat
  use : Option Payload
  deriving DecidableEq

instance : Extent Block where
  start := Block.addr
  length := Block.size

instance : Extent Region where
  start := Region.base
  length := Region.len

namespace Block

def free (b : Block) : Bool := b.use.isNone

abbrev hole (addr size : Nat) : Block := ⟨addr, size, none⟩

def tag (b : Block) : Nat := if b.free then b.size + 1 else b.size

def node (b : Block) : Node := ⟨b.addr, b.tag⟩

structure Sound (b : Block) : Prop where
  nonzero : 0 < b.addr
  aligned : ALIGN ∣ b.addr
  whole : ALIGN ∣ b.size
  room : MIN_SPLIT ≤ b.size
  bounded : b.addr + b.size < 2 ^ 64
  holds : ∀ p ∈ b.use, p.Within b.addr b.size

@[simp] theorem free_hole (addr size : Nat) : (hole addr size).free = true := rfl

@[simp] theorem free_used (addr size : Nat) (p : Payload) :
    (Block.mk addr size (some p)).free = false := rfl

@[simp] theorem node_used (addr size : Nat) (p : Payload) :
    (Block.mk addr size (some p)).node = ⟨addr, size⟩ := rfl

@[simp] theorem node_addr (b : Block) : b.node.addr = b.addr := rfl

end Block

abbrev nodes (blocks : List Block) : List Node := blocks.map Block.node

theorem nodes_append (front back : List Block) :
    nodes (front ++ back) = nodes front ++ nodes back := List.map_append

theorem nodes_cons (b : Block) (rest : List Block) : nodes (b :: rest) = b.node :: nodes rest := rfl

def Coalesced (blocks : List Block) : Prop :=
  blocks.IsChain fun a b => ¬(a.free ∧ b.free)

structure Arena where
  base : Nat
  top : Nat
  blocks : List Block
  tiles : Tiles base blocks top
  sound : ∀ b ∈ blocks, b.Sound
  coalesced : Coalesced blocks

/-! ## Used blocks -/

def used (blocks : List Block) : List Block :=
  blocks.filter fun b => !b.free

def bytes (blocks : List Block) : Nat := (blocks.map Block.size).sum

@[simp] theorem bytes_append (front back : List Block) :
    bytes (front ++ back) = bytes front + bytes back := by
  simp [bytes]

@[simp] theorem bytes_cons (b : Block) (rest : List Block) :
    bytes (b :: rest) = b.size + bytes rest := by
  simp [bytes]

@[simp] theorem used_append (front back : List Block) :
    used (front ++ back) = used front ++ used back :=
  List.filter_append ..

@[simp] theorem used_nil : used [] = [] := rfl

theorem used_cons_free {b : Block} (free : b.free) (rest : List Block) :
    used (b :: rest) = used rest := by
  simp [used, free]

@[simp] theorem used_cons_hole (addr size : Nat) (rest : List Block) :
    used (.hole addr size :: rest) = used rest := rfl

theorem used_cons_used {b : Block} (ran : b.free = false) (rest : List Block) :
    used (b :: rest) = b :: used rest := by
  simp [used, ran]

@[simp] theorem used_cons_some (addr size : Nat) (p : Payload) (rest : List Block) :
    used (⟨addr, size, some p⟩ :: rest) = ⟨addr, size, some p⟩ :: used rest := rfl

theorem mem_used {b : Block} {blocks : List Block} :
    b ∈ used blocks ↔ b ∈ blocks ∧ b.free = false := by
  simp [used]

/-! ## Free neighbours -/

theorem coalesced_append_used {front back : List Block} {b : Block} (ran : b.free = false) :
    Coalesced (front ++ b :: back) ↔ Coalesced front ∧ Coalesced back := by
  unfold Coalesced
  rw [List.isChain_append]
  simp [List.isChain_cons, ran]

theorem Coalesced.left {front back : List Block} (coalesced : Coalesced (front ++ back)) :
    Coalesced front :=
  (List.isChain_append.mp coalesced).1

theorem Coalesced.right {front back : List Block} (coalesced : Coalesced (front ++ back)) :
    Coalesced back :=
  (List.isChain_append.mp coalesced).2.1

def spare : List Block → Nat
  | [] => 0
  | b :: _ => if b.free then b.size else 0

def beyond : List Block → List Block
  | [] => []
  | b :: rest => if b.free then rest else b :: rest

section Beyond

variable {b : Block} {lo hi : Nat} {back : List Block}

theorem spare_free (free : b.free) (rest : List Block) : spare (b :: rest) = b.size := if_pos free

theorem spare_used (ran : b.free = false) (rest : List Block) : spare (b :: rest) = 0 :=
  if_neg (by simp [ran])

theorem beyond_free (free : b.free) (rest : List Block) : beyond (b :: rest) = rest := if_pos free

theorem beyond_used (ran : b.free = false) (rest : List Block) : beyond (b :: rest) = b :: rest :=
  if_neg (by simp [ran])

@[simp] theorem used_beyond : used (beyond back) = used back := by
  cases back with
  | nil => rfl
  | cons b rest =>
    cases free : b.free with
    | true => rw [beyond_free free, used_cons_free free]
    | false => rw [beyond_used free]

variable (back) in
theorem beyond_sublist : (beyond back).Sublist back := by
  cases back with
  | nil => exact .refl _
  | cons c rest =>
    cases free : c.free with
    | true =>
      rw [beyond_free free]
      exact List.sublist_cons_self _ _
    | false =>
      rw [beyond_used free]

theorem beyond_tiles (tiles : Tiles lo back hi) : Tiles (lo + spare back) (beyond back) hi := by
  cases back with
  | nil => exact tiles
  | cons b rest =>
    cases free : b.free with
    | true =>
      rw [beyond_free free, spare_free free]
      exact tiles.2
    | false =>
      rw [beyond_used free, spare_used free]
      exact tiles

theorem spare_whole (sound : ∀ b ∈ back, b.Sound) : ALIGN ∣ spare back := by
  cases back with
  | nil => exact Nat.dvd_zero _
  | cons b rest =>
    cases free : b.free with
    | true => exact spare_free free rest ▸ (sound b List.mem_cons_self).whole
    | false => exact spare_used free rest ▸ Nat.dvd_zero _

theorem beyond_coalesced (coalesced : Coalesced back) : Coalesced (beyond back) := by
  cases back with
  | nil => exact coalesced
  | cons b rest =>
    cases free : b.free with
    | true =>
      rw [beyond_free free]
      exact (List.isChain_cons.mp coalesced).2
    | false =>
      rw [beyond_used free]
      exact coalesced

theorem beyond_head (coalesced : Coalesced back) : ∀ c ∈ (beyond back).head?, c.free = false := by
  intro c first
  cases back with
  | nil => cases first
  | cons b rest =>
    cases free : b.free with
    | true =>
      rw [beyond_free free] at first
      have ne := (List.isChain_cons.mp coalesced).1 c first
      simpa [free] using ne
    | false =>
      rw [beyond_used free] at first
      cases first
      exact free

end Beyond

/-! ## A free block between two stretches -/

/-- A free block put after `front`, merged with a free block at its end. -/
def pushHole (front : List Block) (addr size : Nat) (rest : List Block) : List Block :=
  match front.getLast? with
  | none => .hole addr size :: rest
  | some l =>
    if l.free then front.dropLast ++ .hole l.addr (l.size + size) :: rest
    else front ++ .hole addr size :: rest

section PushHole

variable {addr size lo hi : Nat} {front rest : List Block} {l : Block}

@[simp] theorem pushHole_nil : pushHole [] addr size rest = .hole addr size :: rest := rfl

theorem pushHole_free (free : l.free) : pushHole (front ++ [l]) addr size rest =
      front ++ .hole l.addr (l.size + size) :: rest := by
  simp [pushHole, free]

theorem pushHole_used (ran : l.free = false) :
    pushHole (front ++ [l]) addr size rest = front ++ l :: .hole addr size :: rest := by
  simp [pushHole, ran]

@[simp] theorem used_pushHole :
    used (pushHole front addr size rest) = used front ++ used rest := by
  rcases List.eq_nil_or_concat' front with rfl | ⟨init, l, rfl⟩
  · simp
  · cases free : l.free with
    | true => simp [pushHole_free free, used_cons_free free]
    | false => simp [pushHole_used free, used_cons_used free]

theorem pushHole_tiles (below : Tiles lo front addr) (above : Tiles (addr + size) rest hi) :
    Tiles lo (pushHole front addr size rest) hi := by
  rcases List.eq_nil_or_concat' front with rfl | ⟨init, l, rfl⟩
  · cases below
    exact ⟨rfl, above⟩
  obtain ⟨mid, tilesInit, rfl, adjacent⟩ := tiles_append.mp below
  cases free : l.free with
  | true =>
    rw [pushHole_free free]
    cases adjacent
    exact tiles_append.mpr ⟨_, tilesInit, rfl, by
      simpa [Extent.length, Extent.start, Nat.add_assoc] using above⟩
  | false =>
    rw [pushHole_used free]
    exact tiles_append.mpr ⟨_, tilesInit, rfl, adjacent.symm ▸ ⟨rfl, above⟩⟩

theorem Block.Sound.merge (sound : l.Sound) (here : (Block.hole addr size).Sound)
    (adjacent : l.addr + l.size = addr) : (Block.hole l.addr (l.size + size)).Sound where
  nonzero := sound.nonzero
  aligned := sound.aligned
  whole := Nat.dvd_add sound.whole here.whole
  room := Nat.le_trans sound.room (Nat.le_add_right _ _)
  bounded := by
    have : addr + size < 2 ^ 64 := here.bounded
    simp only
    omega
  holds := by simp

theorem spare_sound {back : List Block} (here : (Block.hole addr size).Sound)
    (above : Tiles (addr + size) back hi) (sound : ∀ b ∈ back, b.Sound) :
    (Block.hole addr (size + spare back)).Sound := by
  cases back with
  | nil => exact here
  | cons b rest =>
    cases free : b.free with
    | true =>
      have after : b.Sound := sound b List.mem_cons_self
      have freed : (Block.hole b.addr b.size).Sound := { after with holds := by simp }
      rw [spare_free free]
      exact here.merge freed above.1.symm
    | false =>
      rw [spare_used free]
      exact here

theorem pushHole_sound (below : Tiles lo front addr) (soundFront : ∀ b ∈ front, b.Sound)
    (here : (Block.hole addr size).Sound) (soundRest : ∀ b ∈ rest, b.Sound) :
    ∀ b ∈ pushHole front addr size rest, b.Sound := by
  rcases List.eq_nil_or_concat' front with rfl | ⟨init, l, rfl⟩
  · exact List.forall_mem_cons.mpr ⟨here, soundRest⟩
  rw [List.forall_mem_append, List.forall_mem_singleton] at soundFront
  cases free : l.free with
  | true =>
    obtain ⟨mid, -, rfl, adjacent⟩ := tiles_append.mp below
    rw [pushHole_free free, List.forall_mem_append, List.forall_mem_cons]
    exact ⟨soundFront.1, soundFront.2.merge here adjacent, soundRest⟩
  | false =>
    rw [pushHole_used free, List.forall_mem_append, List.forall_mem_cons, List.forall_mem_cons]
    exact ⟨soundFront.1, soundFront.2, here, soundRest⟩

theorem coalesced_cons_hole (coalesced : Coalesced rest)
    (used : ∀ c ∈ rest.head?, c.free = false) : Coalesced (.hole addr size :: rest) :=
  List.isChain_cons.mpr ⟨fun c first both => by simp [used c first] at both, coalesced⟩

theorem pushHole_coalesced (coalescedFront : Coalesced front) (coalescedRest : Coalesced rest)
    (used : ∀ c ∈ rest.head?, c.free = false) : Coalesced (pushHole front addr size rest) := by
  rcases List.eq_nil_or_concat' front with rfl | ⟨init, l, rfl⟩
  · exact coalesced_cons_hole coalescedRest used
  cases free : l.free with
  | true =>
    rw [pushHole_free free]
    refine List.isChain_append.mpr
      ⟨coalescedFront.left, coalesced_cons_hole coalescedRest used, fun x final y first => ?_⟩
    -- the merged block stands where the free block stood
    cases first
    have was := (List.isChain_append.mp coalescedFront).2.2 x final l rfl
    simpa [free] using was
  | false =>
    rw [pushHole_used free, coalesced_append_used free]
    exact ⟨coalescedFront.left, coalesced_cons_hole coalescedRest used⟩

end PushHole

/-! ## Where headers and payloads are -/

theorem spread_of_tiles {lo hi : Nat} {blocks : List Block} (tiles : Tiles lo blocks hi)
    (sound : ∀ b ∈ blocks, b.Sound) : Chain.Spread (nodes blocks) where
  ordered := by
    rw [List.pairwise_map]
    refine tiles.pairwise.imp_of_mem fun {b c} mem _ order => ?_
    have room := (sound b mem).room
    have order : b.addr + b.size ≤ c.addr := order
    simp only [MIN_SPLIT, HEADER, ALIGN, Block.node_addr] at *
    omega
  nonzero := by
    simp only [List.forall_mem_map]
    exact fun b mem => (sound b mem).nonzero
  bounded := by
    simp only [List.forall_mem_map]
    exact fun b mem => Nat.lt_of_le_of_lt (Nat.le_add_right _ _) (sound b mem).bounded

def Body (blocks : List Block) (a : Nat) : Prop :=
  ∃ b ∈ used blocks, b.addr + 24 ≤ a ∧ a < b.addr + b.size

theorem Body.outside {lo hi x : Nat} {blocks : List Block} (body : Body blocks x)
    (tiles : Tiles lo blocks hi) (sound : ∀ b ∈ blocks, b.Sound) :
    Chain.Outside (nodes blocks) x := by
  obtain ⟨b, mem, past, lt⟩ := body
  simp only [Chain.Outside, List.forall_mem_map, Block.node_addr]
  intro c memberC
  by_contra inHeader
  have room := (sound c memberC).room
  simp only [MIN_SPLIT, HEADER, ALIGN] at room
  have eq : b = c := tiles.eq_of_covers (mem_used.mp mem).1 memberC
    ⟨Nat.le_trans (Nat.le_add_right _ _) past, lt⟩
    ⟨by change c.addr ≤ x; omega, by change x < c.addr + c.size; omega⟩
  subst eq
  omega

/-! ## Opening and closing a gap -/

structure Gap where
  base : Nat
  top : Nat
  addr : Nat
  total : Nat
  front : List Block
  back : List Block
  below : Tiles base front addr
  above : Tiles (addr + total) back top
  soundFront : ∀ b ∈ front, b.Sound
  soundBack : ∀ b ∈ back, b.Sound
  coalescedFront : Coalesced front
  coalescedBack : Coalesced back
  here : (Block.hole addr total).Sound

namespace Gap

variable (g : Gap)

def close : Arena where
  base := g.base
  top := g.top
  blocks := pushHole g.front g.addr (g.total + spare g.back) (beyond g.back)
  tiles := pushHole_tiles g.below (by
    rw [← Nat.add_assoc]
    exact beyond_tiles g.above)
  sound := pushHole_sound g.below g.soundFront (spare_sound g.here g.above g.soundBack)
    fun b member => g.soundBack b ((beyond_sublist _).subset member)
  coalesced := pushHole_coalesced g.coalescedFront (beyond_coalesced g.coalescedBack)
    (beyond_head g.coalescedBack)

theorem used_close : used g.close.blocks = used g.front ++ used g.back := by
  simp [close]

theorem tiles : Tiles g.base (g.front ++ .hole g.addr g.total :: g.back) g.top :=
  tiles_append.mpr ⟨_, g.below, rfl, g.above⟩

theorem sound : ∀ b ∈ g.front ++ .hole g.addr g.total :: g.back, b.Sound :=
  List.forall_mem_append.mpr ⟨g.soundFront, List.forall_mem_cons.mpr ⟨g.here, g.soundBack⟩⟩

theorem spread {c : Node} (here : c.addr = g.addr) :
    Chain.Spread (nodes g.front ++ c :: nodes g.back) := by
  have spread := spread_of_tiles g.tiles g.sound
  rw [nodes_append, nodes_cons] at spread
  have retagged := spread.retag c.tag
  have eq : (⟨g.addr, c.tag⟩ : Node) = c := by rw [← here]
  exact eq ▸ retagged

structure Room (p : Payload) (keep : Nat) : Prop where
  whole : ALIGN ∣ keep
  room : MIN_SPLIT ≤ keep
  within : p.Within g.addr keep
  fits : keep ≤ g.total

variable {g} {p : Payload} {keep : Nat}

theorem Room.sound (room : g.Room p keep) {size : Nat} (whole : ALIGN ∣ size) (above : keep ≤ size)
    (below : size ≤ g.total) : (Block.mk g.addr size (some p)).Sound where
  nonzero := g.here.nonzero
  aligned := g.here.aligned
  whole := whole
  room := Nat.le_trans room.room above
  bounded := Nat.lt_of_le_of_lt (Nat.add_le_add_left below _) g.here.bounded
  holds := by
    rintro q ⟨⟩
    exact { room.within with
      inside := Nat.le_trans room.within.inside (Nat.add_le_add_left above _) }

def fill (room : g.Room p keep) : Arena where
  base := g.base
  top := g.top
  blocks := g.front ++ ⟨g.addr, g.total, some p⟩ :: g.back
  tiles := tiles_append.mpr ⟨_, g.below, rfl, g.above⟩
  sound := List.forall_mem_append.mpr ⟨g.soundFront, List.forall_mem_cons.mpr
    ⟨room.sound g.here.whole room.fits (Nat.le_refl _), g.soundBack⟩⟩
  coalesced := (coalesced_append_used rfl).mpr ⟨g.coalescedFront, g.coalescedBack⟩

def narrow (room : g.Room p keep) (split : MIN_SPLIT ≤ g.total - keep) : Gap where
  base := g.base
  top := g.top
  addr := g.addr + keep
  total := g.total - keep
  front := g.front ++ [⟨g.addr, keep, some p⟩]
  back := g.back
  below := tiles_append.mpr ⟨_, g.below, rfl, tiles_nil.mpr rfl⟩
  above := by
    rw [Nat.add_assoc, Nat.add_sub_cancel' room.fits]
    exact g.above
  soundFront := List.forall_mem_append.mpr ⟨g.soundFront, List.forall_mem_singleton.mpr
    (room.sound room.whole (Nat.le_refl _) room.fits)⟩
  soundBack := g.soundBack
  coalescedFront := (coalesced_append_used rfl).mpr ⟨g.coalescedFront, .nil⟩
  coalescedBack := g.coalescedBack
  here := {
    nonzero := Nat.lt_of_lt_of_le g.here.nonzero (Nat.le_add_right _ _)
    aligned := Nat.dvd_add g.here.aligned room.whole
    whole := Nat.dvd_sub g.here.whole room.whole
    room := split
    bounded := by
      have := g.here.bounded
      have := room.fits
      simp only at *
      omega
    holds := by simp }

theorem narrow_close_blocks (room : g.Room p keep) (split : MIN_SPLIT ≤ g.total - keep) :
    (narrow room split).close.blocks = g.front ++ ⟨g.addr, keep, some p⟩ ::
      .hole (g.addr + keep) (g.total - keep + spare g.back) :: beyond g.back :=
  pushHole_used rfl

def carve (room : g.Room p keep) : Arena :=
  if split : MIN_SPLIT ≤ g.total - keep then (narrow room split).close else fill room

theorem carve_range (room : g.Room p keep) :
    (carve room).base = g.base ∧ (carve room).top = g.top := by
  unfold carve
  split <;> exact ⟨rfl, rfl⟩

def carvedSize (total keep : Nat) : Nat :=
  if MIN_SPLIT ≤ total - keep then keep else total

theorem used_carve (room : g.Room p keep) : used (carve room).blocks =
      used g.front ++ ⟨g.addr, carvedSize g.total keep, some p⟩ :: used g.back := by
  unfold carve carvedSize
  split
  · simp [narrow_close_blocks]
  · simp [fill]

end Gap

namespace Arena

variable (a : Arena) {front back : List Block} {cur following : Block}

def empty (base : Nat) : Arena := ⟨base, base, [], rfl, by simp, .nil⟩

def opened (split : a.blocks = front ++ cur :: back) : Gap where
  base := a.base
  top := a.top
  addr := cur.addr
  total := cur.size
  front := front
  back := back
  below := by
    obtain ⟨mid, below, rfl, -⟩ := tiles_append.mp (split ▸ a.tiles)
    exact below
  above := by
    obtain ⟨mid, -, rfl, above⟩ := tiles_append.mp (split ▸ a.tiles)
    exact above
  soundFront b member := a.sound b (by simp [split, member])
  soundBack b member := a.sound b (by simp [split, member])
  coalescedFront := (split ▸ a.coalesced : Coalesced (front ++ cur :: back)).left
  coalescedBack :=
    (List.isChain_cons.mp (split ▸ a.coalesced : Coalesced (front ++ cur :: back)).right).2
  here := { a.sound cur (by simp [split]) with holds := by simp }

def openedBoth (split : a.blocks = front ++ cur :: following :: back) : Gap :=
  let after := @opened a (front ++ [cur]) back following (by simpa using split)
  { a.opened split with
    total := cur.size + following.size
    back := back
    above := by
      have start : following.addr = cur.addr + cur.size := (a.opened split).above.1
      have above : Tiles (following.addr + following.size) back a.top := after.above
      rwa [start, Nat.add_assoc] at above
    soundBack := after.soundBack
    coalescedBack := after.coalescedBack
    here := (a.opened split).here.merge after.here (a.opened split).above.1.symm }

def openedTop (region : Region) (adjacent : a.top = region.base)
    (here : (Block.hole region.base region.len).Sound) : Gap where
  base := a.base
  top := region.base + region.len
  addr := region.base
  total := region.len
  front := a.blocks
  back := []
  below := adjacent ▸ a.tiles
  above := rfl
  soundFront := a.sound
  soundBack := by simp
  coalescedFront := a.coalesced
  coalescedBack := .nil
  here := here

theorem spread : Chain.Spread (nodes a.blocks) := spread_of_tiles a.tiles a.sound

theorem outside_of_body {x : Nat} (body : Body a.blocks x) : Chain.Outside (nodes a.blocks) x :=
  body.outside a.tiles a.sound

theorem length_le : a.base + MIN_SPLIT * a.blocks.length ≤ a.top :=
  a.tiles.length_le fun b mem => (a.sound b mem).room

end Arena

end K1K.Allocator
