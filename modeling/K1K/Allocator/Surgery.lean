import K1K.Allocator.Arena

/-!
# The list operations do what they mean

Each function that writes headers turns the list of one arena into that of another, and writes
nothing but headers.
-/

namespace K1K.Allocator

open K1K.Lib
open Block (hole)

/-! ## Reading a header -/

theorem or_free {size : Nat} (whole : ALIGN ∣ size) : size ||| FREE = size + 1 := by
  obtain ⟨k, rfl⟩ := whole
  exact (Nat.two_pow_add_eq_or_of_lt (i := 4) (b := 1) (by decide) k).symm

theorem tag_hole {addr size : Nat} (whole : ALIGN ∣ size) :
    (hole addr size).tag = size ||| FREE := by
  rw [or_free whole]
  rfl

section Read

variable {mem : Memory} {b : Block}

theorem blockSize_eq (sound : b.Sound) (tag : mem.load64 b.addr = b.tag) :
    blockSize mem b.addr = b.size := by
  have whole := sound.whole
  unfold blockSize sizeFlags
  rw [tag, Block.tag, FREE, Nat.and_one_is_mod]
  simp only [ALIGN] at whole
  split <;> omega

theorem isFree_eq (sound : b.Sound) (tag : mem.load64 b.addr = b.tag) :
    isFree mem b.addr = b.free := by
  have whole := sound.whole
  unfold isFree sizeFlags
  rw [tag, Block.tag, FREE, Nat.and_one_is_mod]
  simp only [ALIGN] at whole
  cases free : b.free with
  | true | false => simp; omega

theorem Block.Sound.tag_lt (sound : b.Sound) : b.tag < 2 ^ 64 := by
  have := sound.nonzero
  have := sound.bounded
  unfold Block.tag
  split <;> omega

end Read

/-! ## Linking a free block -/

section LinkFree

variable {mem : Memory} {cur place size other exit : Nat} {back : List Block}

theorem beyond_chain (chain : Chain mem other (nodes back) 0) :
    ∃ was, Chain mem was (nodes (beyond back)) 0 := by
  cases back with
  | nil => exact ⟨other, trivial⟩
  | cons b rest =>
    cases free : b.free with
    | true =>
      rw [beyond_free free]
      exact ⟨_, chain.2⟩
    | false =>
      rw [beyond_used free]
      exact ⟨_, chain⟩

theorem linkFree_eq (sound : ∀ b ∈ back, b.Sound) (chain : Chain mem other (nodes back) 0)
    (whole : ALIGN ∣ size) : linkFree mem cur place size (Chain.entry (nodes back) 0) =
      Chain.insert mem cur (hole place (size + spare back)).node
        (Chain.entry (nodes (beyond back)) 0) := by
  have tag : (hole place (size + spare back)).tag = (size + spare back) ||| FREE :=
    tag_hole (Nat.dvd_add whole (spare_whole sound))
  unfold Chain.insert Chain.draft Block.node
  rw [tag]
  cases back with
  | nil => simp [linkFree, setSizeFlags, setNext, setPrev, spare, beyond]
  | cons b rest =>
    have reached : b.addr ≠ 0 := Nat.ne_of_gt (sound b List.mem_cons_self).nonzero
    have read := chain.1.tag
    have bSize := blockSize_eq (sound b List.mem_cons_self) read
    have bFree := isFree_eq (sound b List.mem_cons_self) read
    cases free : b.free with
    | true =>
      have following : next mem b.addr = Chain.entry (nodes rest) 0 := chain.1.next
      rw [spare_free free, beyond_free free]
      simp [linkFree, reached, bFree, free, bSize, following, setSizeFlags, setNext, setPrev]
    | false =>
      rw [spare_used free, beyond_used free]
      simp [linkFree, reached, bFree, free, setSizeFlags, setNext, setPrev]

end LinkFree

namespace Gap

variable {g : Gap} {mem : Memory} {other exit : Nat}

theorem linkFree_chain {front : List Block} {cur : Block} (ends : g.front = front ++ [cur])
    (ran : cur.free = false) (first : Chain mem 0 (nodes g.front) exit)
    (second : Chain mem other (nodes g.back) 0) :
    Chain (linkFree mem cur.addr g.addr g.total (Chain.entry (nodes g.back) 0)) 0
      (nodes g.close.blocks) 0 := by
  have shape : nodes g.close.blocks = nodes front ++ cur.node ::
      (hole g.addr (g.total + spare g.back)).node :: nodes (beyond g.back) := by
    simp [close, ends, pushHole_used ran]
  have spread := g.close.spread
  have small := (spare_sound g.here g.above g.soundBack).tag_lt
  rw [shape] at spread ⊢
  rw [linkFree_eq g.soundBack second g.here.whole]
  obtain ⟨was, second⟩ := beyond_chain second
  exact Chain.insert_chain spread small (by simpa [ends] using first) second

theorem linkFree_outside {front : List Block} {cur : Block} (ends : g.front = front ++ [cur])
    (ran : cur.free = false) (second : Chain mem other (nodes g.back) 0) {a : Nat}
    (out : Chain.Outside (nodes g.close.blocks) a) :
    linkFree mem cur.addr g.addr g.total (Chain.entry (nodes g.back) 0) a = mem a := by
  have shape : nodes g.close.blocks = nodes front ++ cur.node ::
      (hole g.addr (g.total + spare g.back)).node :: nodes (beyond g.back) := by
    simp [close, ends, pushHole_used ran]
  rw [linkFree_eq g.soundBack second g.here.whole]
  exact Chain.insert_outside (shape ▸ out)

end Gap

/-! ## One list turned into another -/

/-- `after` holds the list of `blocks` and has kept what is in their bodies. -/
structure Turns (before after : Memory) (blocks : List Block) : Prop where
  chain : Chain after 0 (nodes blocks) 0
  kept : ∀ a, Body blocks a → after a = before a

namespace Gap

variable {g : Gap} {mem : Memory} {other exit : Nat} {p : Payload} {keep : Nat}

variable (g) in
theorem lt_back {n : Node} (mem : n ∈ nodes g.back) : g.addr + 24 ≤ n.addr :=
  (g.spread (c := ⟨g.addr, 0⟩) rfl).right.after mem

theorem spread_left {c : Node} (here : c.addr = g.addr) : Chain.Spread (nodes g.front ++ [c]) := by
  have spread := g.spread here
  rw [List.append_cons] at spread
  exact spread.left

theorem cut_turns (room : g.Room p keep) (split : MIN_SPLIT ≤ g.total - keep) {c : Node}
    (here : c.addr = g.addr) (first : Chain mem 0 (nodes g.front ++ [c]) exit)
    (second : Chain mem other (nodes g.back) 0) :
    Turns mem (linkFree (setSizeFlags mem g.addr keep) g.addr (g.addr + keep) (g.total - keep)
      (Chain.entry (nodes g.back) 0)) (narrow room split).close.blocks := by
  have small : keep < 2 ^ 64 := (room.sound room.whole (Nat.le_refl _) room.fits).tag_lt
  have first : Chain (setSizeFlags mem g.addr keep) 0 (nodes (narrow room split).front) exit := by
    have tagged := first.set_tag small (g.spread_left here)
    have eq : nodes (narrow room split).front = nodes g.front ++ [⟨g.addr, keep⟩] := by
      simp [narrow]
    rw [here] at tagged
    exact eq ▸ tagged
  have second : Chain (setSizeFlags mem g.addr keep) other (nodes (narrow room split).back) 0 :=
    second.store_outside fun n member => .inl
      (Nat.le_trans (Nat.add_le_add_left (by decide) _) (g.lt_back member))
  refine ⟨linkFree_chain rfl rfl first second, fun a body => ?_⟩
  have out := (narrow room split).close.outside_of_body body
  have ne := out ⟨g.addr, keep⟩ (by simp [narrow_close_blocks])
  exact (linkFree_outside rfl rfl second out).trans
    (mem.store64_outside (by simp only at ne; omega))

theorem join_turns (room : g.Room p keep) {c : Node} (here : c.addr = g.addr)
    (first : Chain mem 0 (nodes g.front ++ [c]) exit) (second : Chain mem other (nodes g.back) 0) :
    Turns mem (Chain.join (setSizeFlags mem g.addr g.total) g.addr
      (Chain.entry (nodes g.back) 0)) (fill room).blocks := by
  have small : g.total < 2 ^ 64 :=
    (room.sound g.here.whole room.fits (Nat.le_refl _)).tag_lt
  have first := first.set_tag small (g.spread_left here)
  rw [here] at first
  have second : Chain (setSizeFlags mem g.addr g.total) other (nodes g.back) 0 :=
    second.store_outside fun n member => .inl
      (Nat.le_trans (Nat.add_le_add_left (by decide) _) (g.lt_back member))
  have shape : nodes (fill room).blocks = nodes g.front ++ ⟨g.addr, g.total⟩ :: nodes g.back := by
    simp [fill]
  constructor
  · rw [shape]
    exact Chain.join_chain (g.spread rfl) first second
  · intro a body
    exact Chain.retag_join_outside (shape ▸ (fill room).outside_of_body body)

theorem retag_turns (room : g.Room p keep) {c : Node} (here : c.addr = g.addr)
    (chain : Chain mem 0 (nodes g.front ++ c :: nodes g.back) 0) :
    Turns mem (setSizeFlags mem g.addr g.total) (fill room).blocks := by
  have small : g.total < 2 ^ 64 :=
    (room.sound g.here.whole room.fits (Nat.le_refl _)).tag_lt
  have shape : nodes (fill room).blocks = nodes g.front ++ ⟨g.addr, g.total⟩ :: nodes g.back := by
    simp [fill]
  constructor
  · have tagged := chain.set_tag small (g.spread here)
    rw [here] at tagged
    rw [shape]
    exact tagged
  · intro a body
    have ne := (fill room).outside_of_body body ⟨g.addr, g.total⟩ (by simp [shape])
    exact mem.store64_outside (by simp only at ne; omega)

end Gap

namespace Arena

variable {a : Arena} {front back : List Block} {cur following : Block} {mem : Memory}
  {p : Payload} {keep : Nat}

theorem chain_split (split : a.blocks = front ++ cur :: back)
    (chain : Chain mem 0 (nodes a.blocks) 0) :
    Chain mem 0 (nodes front ++ [cur.node]) (Chain.entry (nodes back) 0) ∧
      Linked mem (Chain.final 0 (nodes front)) cur.node (Chain.entry (nodes back) 0) ∧
      Chain mem cur.addr (nodes back) 0 := by
  rw [split, nodes_append, nodes_cons] at chain
  exact chain.cut

theorem take_turns (split : a.blocks = front ++ cur :: back)
    (room : (a.opened split).Room p keep) (chain : Chain mem 0 (nodes a.blocks) 0) :
    Turns mem (if MIN_SPLIT ≤ cur.size - keep then
        cutTail mem cur.addr keep cur.size (Chain.entry (nodes back) 0)
      else setSizeFlags mem cur.addr cur.size) (Gap.carve room).blocks := by
  unfold Gap.carve
  by_cases big : MIN_SPLIT ≤ (a.opened split).total - keep
  · obtain ⟨first, -, second⟩ := chain_split split chain
    rw [dif_pos big, if_pos (show MIN_SPLIT ≤ cur.size - keep from big)]
    exact Gap.cut_turns room big rfl first second
  · rw [dif_neg big, if_neg (show ¬MIN_SPLIT ≤ cur.size - keep from big)]
    rw [split, nodes_append, nodes_cons] at chain
    exact Gap.retag_turns room rfl chain

theorem splitTail_turns (split : a.blocks = front ++ cur :: back) (ran : cur.free = false)
    (room : (a.opened split).Room p keep) (chain : Chain mem 0 (nodes a.blocks) 0) :
    (splitTail mem cur.addr keep).1 = cur.size - Gap.carvedSize cur.size keep ∧
      Turns mem (splitTail mem cur.addr keep).2 (Gap.carve room).blocks := by
  obtain ⟨first, linked, second⟩ := chain_split split chain
  have size := blockSize_eq (a.sound cur (by simp [split])) linked.tag
  have following : next mem cur.addr = Chain.entry (nodes back) 0 := linked.next
  have fits : keep ≤ cur.size := room.fits
  unfold splitTail Gap.carve Gap.carvedSize
  rw [size, following]
  by_cases big : MIN_SPLIT ≤ (a.opened split).total - keep
  · have big' : MIN_SPLIT ≤ cur.size - keep := big
    rw [dif_pos big, if_pos big', if_neg (by omega)]
    exact ⟨rfl, Gap.cut_turns room big rfl first second⟩
  have big' : ¬MIN_SPLIT ≤ cur.size - keep := big
  rw [dif_neg big, if_neg big', if_pos (by omega)]
  have eq : nodes (Gap.fill room).blocks = nodes a.blocks := by
    simp [Gap.fill, split, opened, Block.node, Block.tag, ran]
  exact ⟨(Nat.sub_self _).symm, eq ▸ chain, fun _ _ => rfl⟩

theorem absorbNext_cases (keep : Nat) (split : a.blocks = front ++ cur :: back)
    (chain : Chain mem 0 (nodes a.blocks) 0) : absorbNext mem cur.addr cur.size keep = (0, mem) ∨
      ∃ following rest, back = following :: rest ∧ following.free ∧
        keep ≤ cur.size + following.size := by
  obtain ⟨-, linked, second⟩ := chain_split split chain
  cases back with
  | nil =>
    have ends : next mem cur.addr = 0 := linked.next
    exact .inl (by simp [absorbNext, ends])
  | cons following rest =>
    have sound : following.Sound := a.sound following (by simp [split])
    have reach : next mem cur.addr = following.addr := linked.next
    have size := blockSize_eq sound second.1.tag
    have isFree := isFree_eq sound second.1.tag
    by_cases free : following.free
    · by_cases large : keep ≤ cur.size + following.size
      · exact .inr ⟨following, rest, rfl, free, large⟩
      refine .inl ?_
      have short := Nat.not_le.mp large
      unfold absorbNext
      simp only [reach, size, if_pos short]
      split <;> rfl
    · exact .inl (by simp [absorbNext, reach, isFree, free])

theorem absorbNext_turns (split : a.blocks = front ++ cur :: following :: back)
    (free : following.free) (room : (a.openedBoth split).Room p keep) (grows : cur.size < keep)
    (chain : Chain mem 0 (nodes a.blocks) 0) : (absorbNext mem cur.addr cur.size keep).1 =
        Gap.carvedSize (cur.size + following.size) keep - cur.size ∧
      Turns mem (absorbNext mem cur.addr cur.size keep).2 (Gap.carve room).blocks := by
  have sound : following.Sound := a.sound following (by simp [split])
  obtain ⟨first, linked, behind⟩ := chain_split split chain
  obtain ⟨linkedNext, second⟩ := behind
  have after : next mem cur.addr = following.addr := linked.next
  have size := blockSize_eq sound linkedNext.tag
  have isFree := isFree_eq sound linkedNext.tag
  have beyond : next mem following.addr = Chain.entry (nodes back) 0 := linkedNext.next
  have reached : following.addr ≠ 0 := Nat.ne_of_gt sound.nonzero
  have fits : keep ≤ cur.size + following.size := room.fits
  have rest : following.size - (keep - cur.size) = cur.size + following.size - keep := by omega
  unfold absorbNext Gap.carve Gap.carvedSize
  simp only [after, size, isFree, free, beyond, reached, not_true_eq_false, or_self, if_false, rest,
    Nat.not_lt.mpr fits]
  by_cases big : MIN_SPLIT ≤ (a.openedBoth split).total - keep
  · have big' : MIN_SPLIT ≤ cur.size + following.size - keep := big
    rw [dif_pos big, if_pos big', if_pos big']
    exact ⟨rfl, Gap.cut_turns room big rfl first second⟩
  · have big' : ¬MIN_SPLIT ≤ cur.size + following.size - keep := big
    rw [dif_neg big, if_neg big', if_neg big']
    exact ⟨by omega, Gap.join_turns room rfl first second⟩

end Arena

/-! ## Giving a block back -/

section Give

variable {mem : Memory} {addr size : Nat} {front back : List Block}

theorem mergeNext_eq {b : Block} {rest : List Block} {tag prev : Nat} (sound : b.Sound)
    (free : b.free) (restSmall : Chain.entry (nodes rest) 0 < 2 ^ 64)
    (above : addr + 24 ≤ b.addr) (linked : Linked mem prev ⟨addr, tag⟩ b.addr)
    (linkedNext : Linked mem addr b.node (Chain.entry (nodes rest) 0)) : mergeNext mem addr size =
      Chain.join (setSizeFlags mem addr ((size + b.size) ||| FREE)) addr
        (Chain.entry (nodes rest) 0) := by
  have reached : b.addr ≠ 0 := Nat.ne_of_gt sound.nonzero
  have here : next mem addr = b.addr := linked.next
  have bSize := blockSize_eq sound linkedNext.tag
  have bFree := isFree_eq sound linkedNext.tag
  have there : ∀ value, next (setSizeFlags mem addr value) b.addr = Chain.entry (nodes rest) 0 :=
    fun value => (mem.load64_store64_apart (by omega)).trans linkedNext.next
  have stored : ∀ m : Memory, next (setNext m addr (Chain.entry (nodes rest) 0)) addr =
      Chain.entry (nodes rest) 0 := fun m => m.load64_store64_same restSmall
  unfold mergeNext
  simp only [here, bFree, free, bSize, there, stored, reached, ne_eq, not_false_eq_true, and_self,
    if_true]
  rfl

theorem mergeNext_chain
    (spread : Chain.Spread (nodes front ++ (hole addr size).node :: nodes back))
    (sound : ∀ b ∈ back, b.Sound) (here : (hole addr (size + spare back)).Sound)
    (chain : Chain mem 0 (nodes front ++ (hole addr size).node :: nodes back) 0) :
    Chain (mergeNext mem addr size) 0
      (nodes front ++ (hole addr (size + spare back)).node :: nodes (beyond back)) 0 ∧
    ∀ a, Chain.Outside (nodes front ++ (hole addr size).node :: nodes back) a →
      mergeNext mem addr size a = mem a := by
  obtain ⟨-, linked, second⟩ := chain.cut
  cases back with
  | nil =>
    have ends : next mem addr = 0 := linked.next
    have eq : mergeNext mem addr size = mem := by simp [mergeNext, ends]
    rw [eq]
    exact ⟨chain, fun _ _ => rfl⟩
  | cons b rest =>
    cases free : b.free with
    | false =>
      have reach : next mem addr = b.addr := linked.next
      have bFree := isFree_eq (sound b List.mem_cons_self) second.1.tag
      have eq : mergeNext mem addr size = mem := by simp [mergeNext, reach, bFree, free]
      rw [eq, spare_used free, beyond_used free]
      exact ⟨chain, fun _ _ => rfl⟩
    | true =>
      rw [spare_free free] at here ⊢
      have merged : mergeNext mem addr size = _ :=
        mergeNext_eq (sound b List.mem_cons_self) free spread.right.tail.tail.entry_lt
          (spread.right.after List.mem_cons_self) linked second.1
      have wider : (size + b.size) ||| FREE = (hole addr (size + b.size)).tag :=
        (tag_hole here.whole).symm
      rw [beyond_free free, merged, wider]
      exact ⟨Chain.absorb_chain here.tag_lt spread chain, fun _ => Chain.absorb_outside⟩

theorem mergePrev_eq {l : Block} {rest : List Node} {old tag : Nat} (sound : l.Sound)
    (free : l.free) (below : l.addr + 24 ≤ addr) (linkedPrev : Linked mem old l.node addr)
    (linked : Linked mem l.addr ⟨addr, tag⟩ (Chain.entry rest 0)) : mergePrev mem addr =
      Chain.join (setSizeFlags mem l.addr ((l.size + blockSize mem addr) ||| FREE)) l.addr
        (Chain.entry rest 0) := by
  have reached : l.addr ≠ 0 := Nat.ne_of_gt sound.nonzero
  have here : prev mem addr = l.addr := linked.prev
  have lSize := blockSize_eq sound linkedPrev.tag
  have lFree := isFree_eq sound linkedPrev.tag
  have there : ∀ value, next (setSizeFlags mem l.addr value) addr = Chain.entry rest 0 :=
    fun value => (mem.load64_store64_apart (by omega)).trans linked.next
  have stored : ∀ value other,
      next (setNext (setSizeFlags mem l.addr value) l.addr other) addr = Chain.entry rest 0 :=
    fun value other => (Memory.load64_store64_apart _ (by omega)).trans (there value)
  unfold mergePrev
  simp only [here, lFree, free, lSize, there, stored, reached, ne_eq, not_false_eq_true, and_self,
    if_true]
  rfl

theorem mergePrev_chain {rest : List Block}
    (spread : Chain.Spread (nodes front ++ (hole addr size).node :: nodes rest))
    (sound : ∀ b ∈ front, b.Sound) (here : (hole addr size).Sound)
    (soundAll : ∀ b ∈ pushHole front addr size rest, b.Sound)
    (chain : Chain mem 0 (nodes front ++ (hole addr size).node :: nodes rest) 0) :
    Chain (mergePrev mem addr) 0 (nodes (pushHole front addr size rest)) 0 ∧
    ∀ a, Chain.Outside (nodes front ++ (hole addr size).node :: nodes rest) a →
      mergePrev mem addr a = mem a := by
  rcases List.eq_nil_or_concat' front with rfl | ⟨init, l, rfl⟩
  · have ends : prev mem addr = 0 := chain.1.prev
    have eq : mergePrev mem addr = mem := by simp [mergePrev, ends]
    rw [eq]
    exact ⟨chain, fun _ _ => rfl⟩
  · have lSound : l.Sound := sound l (by simp)
    rw [nodes_append, List.append_assoc] at chain spread
    obtain ⟨-, linkedPrev, linked, -⟩ := chain.cut
    cases free : l.free with
    | false =>
      have reach : prev mem addr = l.addr := linked.prev
      have lFree := isFree_eq lSound linkedPrev.tag
      have eq : mergePrev mem addr = mem := by simp [mergePrev, reach, lFree, free]
      rw [eq, pushHole_used free, nodes_append]
      exact ⟨chain, fun _ _ => rfl⟩
    | true =>
      have wide := soundAll (hole l.addr (l.size + size)) (by simp [pushHole_free free])
      have merged : mergePrev mem addr = _ :=
        mergePrev_eq lSound free (spread.right.after List.mem_cons_self) linkedPrev linked
      have wider : (l.size + size) ||| FREE = (hole l.addr (l.size + size)).tag :=
        (tag_hole wide.whole).symm
      have curSize : blockSize mem addr = size :=
        @blockSize_eq mem (.hole addr size) here linked.tag
      rw [pushHole_free free, merged, curSize, wider, nodes_append, nodes_cons]
      refine ⟨Chain.absorb_chain wide.tag_lt spread chain, fun a out => ?_⟩
      rw [nodes_append, List.append_assoc] at out
      exact Chain.absorb_outside out

theorem giveBlock_turns {ar : Arena} {cur : Block} (split : ar.blocks = front ++ cur :: back)
    (chain : Chain mem 0 (nodes ar.blocks) 0) :
    Turns mem (giveBlock mem cur.addr) (ar.opened split).close.blocks := by
  let g := ar.opened split
  have size : blockSize mem cur.addr = cur.size :=
    blockSize_eq (ar.sound cur (by simp [split])) (Arena.chain_split split chain).2.1.tag
  have whole : cur.size ||| FREE = (hole cur.addr cur.size).tag :=
    (tag_hole g.here.whole).symm
  have wide := spare_sound g.here g.above g.soundBack
  have spread := g.spread (c := (hole cur.addr cur.size).node) rfl
  have spreadBeyond : Chain.Spread (nodes front ++
      (hole cur.addr (cur.size + spare back)).node :: nodes (beyond back)) :=
    (spread.retag _).sublist
      ((List.Sublist.refl _).append (((beyond_sublist back).map _).cons_cons _))
  rw [split, nodes_append, nodes_cons] at chain
  have marked := chain.set_tag g.here.tag_lt (g.spread rfl)
  obtain ⟨joined, joinedKept⟩ := mergeNext_chain spread g.soundBack wide marked
  obtain ⟨closed, closedKept⟩ :=
    mergePrev_chain spreadBeyond g.soundFront wide g.close.sound joined
  simp only [giveBlock, size, whole]
  refine ⟨closed, fun a body => ?_⟩
  -- the bodies that stay used are clear of every header that is written
  have sameUsed : used g.close.blocks = used (front ++ .hole cur.addr cur.size :: back) := by
    rw [g.used_close, used_append, used_cons_hole]
    rfl
  have out : Chain.Outside (nodes (front ++ .hole cur.addr cur.size :: back)) a :=
    Body.outside (by rwa [Body, ← sameUsed]) g.tiles g.sound
  rw [nodes_append, nodes_cons] at out
  have ne := out _ (List.mem_append_right _ List.mem_cons_self)
  have outsideBeyond := (out.retag (hole cur.addr (cur.size + spare back)).tag).mono
    ((List.Sublist.refl _).append (((beyond_sublist back).map _).cons_cons _)).subset
  exact (closedKept a outsideBeyond).trans ((joinedKept a out).trans
    (mem.store64_outside (by simp only [Block.node_addr] at ne ⊢; omega)))

end Give

/-! ## Linking a region -/

section LinkRegion

variable {S : Type} {h : Heap S} {ar : Arena} {region : Region}

theorem openedTop_close_blocks (adjacent : ar.top = region.base)
    (here : (hole region.base region.len).Sound) :
    (ar.openedTop region adjacent here).close.blocks =
      pushHole ar.blocks region.base region.len [] := rfl

theorem linkRegion_eq {last : Nat} (whole : ALIGN ∣ region.len)
    (ne : ¬(last ≠ 0 ∧ last + blockSize h.mem last = region.base ∧ isFree h.mem last)) :
    h.linkRegion region last =
      if last = 0 then
        { h with
          mem := Chain.draft h.mem (hole region.base region.len).node 0 0
          head := region.base }
      else
        { h with mem := Chain.insert h.mem last (hole region.base region.len).node 0 } := by
  have tag : region.len ||| FREE = (hole region.base region.len).tag := (tag_hole whole).symm
  have drafted : setNext (setPrev (setSizeFlags h.mem region.base (region.len ||| FREE))
      region.base last) region.base 0 =
        Chain.draft h.mem (hole region.base region.len).node last 0 := by
    rw [tag]
    exact Chain.draft_eq h.mem (hole region.base region.len).node last 0
  unfold Heap.linkRegion
  rw [if_neg ne]
  simp only [drafted]
  split
  next empty => rw [empty]
  next => rfl

section Ends

variable {init : List Block} {l : Block}

theorem linkRegion_free (ends : ar.blocks = init ++ [l]) (free : l.free)
    (chain : Chain h.mem 0 (nodes ar.blocks) 0) (touches : l.addr + l.size = region.base)
    (wide : (hole l.addr (l.size + region.len)).Sound) : h.linkRegion region l.addr =
        { h with mem := h.mem.store64 l.addr (hole l.addr (l.size + region.len)).tag } ∧
      Chain (h.linkRegion region l.addr).mem 0
        (nodes (init ++ [.hole l.addr (l.size + region.len)])) 0 := by
  have sound : l.Sound := ar.sound l (by simp [ends])
  have spread := ar.spread
  rw [ends, nodes_append] at chain spread
  obtain ⟨-, linked, -⟩ := chain.cut
  have size := blockSize_eq sound linked.tag
  have isFree := isFree_eq sound linked.tag
  have linking : h.linkRegion region l.addr =
      { h with mem := h.mem.store64 l.addr (hole l.addr (l.size + region.len)).tag } := by
    rw [Heap.linkRegion, if_pos ⟨Nat.ne_of_gt sound.nonzero, by rw [size, touches],
      by rw [isFree, free]⟩, size, tag_hole wide.whole]
    rfl
  rw [linking, nodes_append]
  exact ⟨rfl, chain.set_tag wide.tag_lt spread⟩

theorem linkRegion_used (ends : ar.blocks = init ++ [l]) (ran : l.free = false)
    (chain : Chain h.mem 0 (nodes ar.blocks) 0) (here : (hole region.base region.len).Sound)
    (spread : Chain.Spread (nodes (init ++ l :: [.hole region.base region.len]))) :
    h.linkRegion region l.addr =
        { h with mem := Chain.insert h.mem l.addr (hole region.base region.len).node 0 } ∧
      Chain (h.linkRegion region l.addr).mem 0
        (nodes (init ++ l :: [.hole region.base region.len])) 0 := by
  have sound : l.Sound := ar.sound l (by simp [ends])
  rw [ends, nodes_append] at chain
  obtain ⟨-, linked, -⟩ := chain.cut
  have isFree := isFree_eq sound linked.tag
  have ne : ¬(l.addr ≠ 0 ∧ l.addr + blockSize h.mem l.addr = region.base ∧
      Allocator.isFree h.mem l.addr) := by simp [isFree, ran]
  have linking := linkRegion_eq here.whole ne
  rw [if_neg (Nat.ne_of_gt sound.nonzero)] at linking
  rw [linking]
  rw [nodes_append] at spread ⊢
  exact ⟨rfl, Chain.insert_chain spread here.tag_lt chain (Chain.nil : Chain h.mem 0 [] 0)⟩

end Ends

theorem linkRegion_turns (entry : h.head = Chain.entry (nodes ar.blocks) 0)
    (chain : Chain h.mem 0 (nodes ar.blocks) 0) (adjacent : ar.top = region.base)
    (here : (hole region.base region.len).Sound) :
    Turns h.mem (h.linkRegion region (Chain.final 0 (nodes ar.blocks))).mem
        (ar.openedTop region adjacent here).close.blocks ∧
      (h.linkRegion region (Chain.final 0 (nodes ar.blocks))).head =
        Chain.entry (nodes (ar.openedTop region adjacent here).close.blocks) 0 := by
  have spread := (ar.openedTop region adjacent here).close.spread
  have clear := fun a => (ar.openedTop region adjacent here).close.outside_of_body (x := a)
  have sound := (ar.openedTop region adjacent here).close.sound
  rw [openedTop_close_blocks] at spread clear sound ⊢
  rcases List.eq_nil_or_concat' ar.blocks with empty | ⟨init, l, ends⟩
  · rw [linkRegion_eq here.whole (by simp [empty])]
    simp only [empty, List.map_nil, Chain.final_nil, if_true, pushHole_nil]
    refine ⟨⟨Chain.draft_chain here.tag_lt (by decide) (by decide), ?_⟩, rfl⟩
    rintro a ⟨b, mem, -⟩
    simp at mem
  · have touches : l.addr + l.size = region.base := by
      obtain ⟨mid, -, rfl, top⟩ := tiles_append.mp (ends ▸ ar.tiles)
      exact top.trans adjacent
    have last : Chain.final 0 (nodes ar.blocks) = l.addr := by
      rw [ends, nodes_append, Chain.final_append]
      rfl
    rw [last]
    rw [ends] at spread clear sound ⊢
    rw [ends, nodes_append, Chain.entry_append] at entry
    cases free : l.free with
    | true =>
      rw [pushHole_free free] at spread clear sound ⊢
      have wide := sound (.hole l.addr (l.size + region.len)) (by simp)
      obtain ⟨linking, linked⟩ := linkRegion_free ends free chain touches wide
      refine ⟨⟨linked, fun a body => ?_⟩, ?_⟩
      · have ne := clear a body (hole l.addr (l.size + region.len)).node (by simp)
        rw [linking]
        exact h.mem.store64_outside (by simp only [Block.node_addr] at ne; omega)
      · rw [linking, nodes_append, Chain.entry_append]
        exact entry
    | false =>
      rw [pushHole_used free] at spread clear ⊢
      obtain ⟨linking, linked⟩ := linkRegion_used ends free chain here spread
      refine ⟨⟨linked, fun a body => ?_⟩, ?_⟩
      · have out := clear a body
        rw [linking]
        rw [nodes_append] at out
        exact Chain.insert_outside out
      · rw [linking, nodes_append, Chain.entry_append]
        exact entry

end LinkRegion

end K1K.Allocator
