import K1K.Lib.Memory

/-!
# Doubly linked lists in memory

A node has three words: a tag, the address of the next node and that of the previous one. A
chain is a stretch of such a list, entered from `prev` and left towards `exit`. Chains compose
by concatenation, and a store away from its nodes leaves a chain as it was.
-/

namespace K1K.Lib

structure Node where
  addr : Nat
  tag : Nat
  deriving DecidableEq, Repr

namespace Chain

/-- Where a walk over `nodes` begins when it goes on to `exit` afterwards. -/
def entry : List Node → Nat → Nat
  | [], exit => exit
  | node :: _, _ => node.addr

def final : Nat → List Node → Nat
  | prev, [] => prev
  | _, node :: rest => final node.addr rest

@[simp] theorem entry_nil (exit : Nat) : entry [] exit = exit := rfl

@[simp] theorem entry_cons (node : Node) (rest : List Node) (exit : Nat) :
    entry (node :: rest) exit = node.addr := rfl

theorem entry_append (front back : List Node) (exit : Nat) :
    entry (front ++ back) exit = entry front (entry back exit) := by
  cases front <;> rfl

@[simp] theorem final_nil (prev : Nat) : final prev [] = prev := rfl

@[simp] theorem final_cons (prev : Nat) (node : Node) (rest : List Node) :
    final prev (node :: rest) = final node.addr rest := rfl

theorem final_append (prev : Nat) (front back : List Node) :
    final prev (front ++ back) = final (final prev front) back := by
  induction front generalizing prev with
  | nil => rfl
  | cons node rest ih => exact ih node.addr

end Chain

open Chain

structure Linked (mem : Memory) (prev : Nat) (node : Node) (next : Nat) : Prop where
  tag : mem.load64 node.addr = node.tag
  next : mem.load64 (node.addr + 8) = next
  prev : mem.load64 (node.addr + 16) = prev

def Chain (mem : Memory) : Nat → List Node → Nat → Prop
  | _, [], _ => True
  | prev, node :: rest, exit =>
    Linked mem prev node (entry rest exit) ∧ Chain mem node.addr rest exit

namespace Chain

variable {mem : Memory} {prev exit : Nat}

@[simp] theorem nil : Chain mem prev [] exit := trivial

variable {node : Node} {a : Nat} {front rest : List Node}

@[simp] theorem cons_iff {rest : List Node} :
    Chain mem prev (node :: rest) exit ↔
      Linked mem prev node (entry rest exit) ∧ Chain mem node.addr rest exit := Iff.rfl

theorem append_iff {front back : List Node} : Chain mem prev (front ++ back) exit ↔
      Chain mem prev front (entry back exit) ∧ Chain mem (final prev front) back exit := by
  induction front generalizing prev with
  | nil => simp
  | cons node rest ih =>
    simp only [List.cons_append, cons_iff, ih, entry_append, final_cons, and_assoc]

theorem cut {front back : List Node} (chain : Chain mem prev (front ++ node :: back) exit) :
    Chain mem prev (front ++ [node]) (entry back exit) ∧
      Linked mem (final prev front) node (entry back exit) ∧ Chain mem node.addr back exit := by
  obtain ⟨first, linked, second⟩ := append_iff.mp chain
  exact ⟨append_iff.mpr ⟨first, linked, trivial⟩, linked, second⟩

theorem tag_of_mem {nodes : List Node} (chain : Chain mem prev nodes exit)
    (member : node ∈ nodes) : mem.load64 node.addr = node.tag := by
  obtain ⟨front, back, rfl⟩ := List.append_of_mem member
  exact chain.cut.2.1.tag

theorem congr {other : Memory} {nodes : List Node}
    (agree : ∀ node ∈ nodes, ∀ a, node.addr ≤ a → a < node.addr + 24 → other a = mem a)
    (chain : Chain mem prev nodes exit) : Chain other prev nodes exit := by
  induction nodes generalizing prev with
  | nil => trivial
  | cons node rest ih =>
    obtain ⟨linked, chain⟩ := chain
    have here := agree node List.mem_cons_self
    have word : ∀ offset, offset + 8 ≤ 24 →
        other.load64 (node.addr + offset) = mem.load64 (node.addr + offset) :=
      fun offset lt => Memory.load64_congr fun a _ _ => here a (by omega) (by omega)
    exact ⟨⟨(word 0 (by omega)).trans linked.tag, (word 8 (by omega)).trans linked.next,
      (word 16 (by omega)).trans linked.prev⟩,
      ih (fun n member => agree n (List.mem_cons_of_mem _ member)) chain⟩

/-! ## Stores -/

def Outside (nodes : List Node) (a : Nat) : Prop :=
  ∀ node ∈ nodes, a < node.addr ∨ node.addr + 24 ≤ a

theorem Outside.mono {fewer nodes : List Node} (out : Outside nodes a)
    (among : fewer ⊆ nodes) : Outside fewer a :=
  fun node mem => out node (among mem)

theorem Outside.retag {front back : List Node} (tag : Nat)
    (out : Outside (front ++ node :: back) a) :
    Outside (front ++ ⟨node.addr, tag⟩ :: back) a := by
  simpa [Outside, or_imp, forall_and] using out

/-- The nodes lie in address order without overlapping, none of them at zero. -/
structure Spread (nodes : List Node) : Prop where
  ordered : nodes.Pairwise fun m n => m.addr + 24 ≤ n.addr
  nonzero : ∀ node ∈ nodes, 0 < node.addr
  bounded : ∀ node ∈ nodes, node.addr < 2 ^ 64

namespace Spread

variable {front back : List Node} {node : Node}

theorem sublist {fewer nodes : List Node} (among : fewer.Sublist nodes) (spread : Spread nodes) :
    Spread fewer where
  ordered := spread.ordered.sublist among
  nonzero n member := spread.nonzero n (among.subset member)
  bounded n member := spread.bounded n (among.subset member)

theorem left (spread : Spread (front ++ back)) : Spread front :=
  spread.sublist (List.sublist_append_left _ _)

theorem right (spread : Spread (front ++ back)) : Spread back :=
  spread.sublist (List.sublist_append_right _ _)

theorem tail (spread : Spread (node :: back)) : Spread back :=
  spread.sublist (List.sublist_cons_self _ _)

theorem before (spread : Spread (front ++ node :: back)) {n : Node} (mem : n ∈ front) :
    n.addr + 24 ≤ node.addr :=
  (List.pairwise_append.mp spread.ordered).2.2 n mem node List.mem_cons_self

theorem after (spread : Spread (node :: back)) {n : Node} (mem : n ∈ back) :
    node.addr + 24 ≤ n.addr :=
  (List.pairwise_cons.mp spread.ordered).1 n mem

theorem entry_lt (spread : Spread front) : entry front 0 < 2 ^ 64 := by
  cases front with
  | nil => decide
  | cons node rest => exact spread.bounded node List.mem_cons_self

end Spread

theorem Spread.retag {front back : List Node} (tag : Nat)
    (spread : Spread (front ++ node :: back)) : Spread (front ++ ⟨node.addr, tag⟩ :: back) where
  ordered := by simpa [List.pairwise_append, List.pairwise_cons] using spread.ordered
  nonzero := by simpa [or_imp, forall_and] using spread.nonzero
  bounded := by simpa [or_imp, forall_and] using spread.bounded

theorem store_outside {nodes : List Node} {addr value : Nat}
    (far : ∀ node ∈ nodes, addr + 8 ≤ node.addr ∨ node.addr + 24 ≤ addr)
    (chain : Chain mem prev nodes exit) : Chain (mem.store64 addr value) prev nodes exit :=
  chain.congr fun node member a _ _ =>
    mem.store64_outside (by have := far node member; omega)

theorem set_tag {front back : List Node} {tag : Nat} (small : tag < 2 ^ 64)
    (spread : Spread (front ++ node :: back))
    (chain : Chain mem prev (front ++ node :: back) exit) :
    Chain (mem.store64 node.addr tag) prev (front ++ ⟨node.addr, tag⟩ :: back) exit := by
  obtain ⟨first, linked, second⟩ := append_iff.mp chain
  refine append_iff.mpr ⟨first.store_outside fun n member => .inr (spread.before member), ?_,
    second.store_outside fun n member => .inl (by have := spread.right.after member; omega)⟩
  exact ⟨mem.load64_store64_same small, (mem.load64_store64_apart (by simp)).trans linked.next,
    (mem.load64_store64_apart (by simp)).trans linked.prev⟩

theorem set_next {front : List Node} {value : Nat} (small : value < 2 ^ 64)
    (spread : Spread (front ++ [node])) (chain : Chain mem prev (front ++ [node]) exit) :
    Chain (mem.store64 (node.addr + 8) value) prev (front ++ [node]) value := by
  obtain ⟨first, linked, -⟩ := append_iff.mp chain
  refine append_iff.mpr ⟨first.store_outside fun n member => .inr ?_, ?_, trivial⟩
  · exact Nat.le_trans (spread.before member) (Nat.le_add_right _ _)
  · exact ⟨(mem.load64_store64_apart (by simp)).trans linked.tag, mem.load64_store64_same small,
      (mem.load64_store64_apart (by simp)).trans linked.prev⟩

theorem set_prev {back : List Node} {value : Nat} (small : value < 2 ^ 64)
    (spread : Spread (node :: back)) (chain : Chain mem prev (node :: back) exit) :
    Chain (mem.store64 (node.addr + 16) value) value (node :: back) exit := by
  obtain ⟨linked, second⟩ := chain
  refine ⟨?_, second.store_outside fun n member => .inl (spread.after member)⟩
  exact ⟨(mem.load64_store64_apart (by simp)).trans linked.tag,
    (mem.load64_store64_apart (by simp)).trans linked.next,
    mem.load64_store64_same small⟩

/-! ## Joining and inserting -/

def join (mem : Memory) (cur rest : Nat) : Memory :=
  let mem := mem.store64 (cur + 8) rest
  if rest ≠ 0 then mem.store64 (rest + 16) cur else mem

theorem join_chain {other : Nat} (spread : Spread (front ++ node :: rest))
    (first : Chain mem prev (front ++ [node]) exit) (second : Chain mem other rest 0) :
    Chain (join mem node.addr (entry rest 0)) prev (front ++ node :: rest) 0 := by
  have whole : front ++ node :: rest = (front ++ [node]) ++ rest := by simp
  rw [whole] at spread ⊢
  have near : ∀ n ∈ front ++ [node], n.addr ≤ node.addr := by
    intro n member
    rcases List.mem_append.mp member with member | member
    · exact Nat.le_trans (Nat.le_add_right _ _) (spread.left.before member)
    · exact Nat.le_of_eq (congrArg Node.addr (List.mem_singleton.mp member))
  have linked := first.set_next spread.right.entry_lt spread.left
  cases rest with
  | nil => simpa [join] using linked
  | cons y rest =>
    have afterNode : ∀ n ∈ y :: rest, node.addr + 24 ≤ n.addr := fun n member =>
      (List.pairwise_append.mp spread.ordered).2.2 node (by simp) n member
    have reached : y.addr ≠ 0 := Nat.ne_of_gt (spread.right.nonzero y List.mem_cons_self)
    have room := afterNode y List.mem_cons_self
    simp only [join, entry_cons, reached, ne_eq, not_false_eq_true, if_true]
    refine append_iff.mpr ⟨linked.store_outside fun n member => .inr ?_, ?_⟩
    · have := near n member
      omega
    rw [final_append, final_cons, final_nil]
    refine set_prev (spread.left.bounded node (by simp)) spread.right
      (second.store_outside fun n member => .inl ?_)
    have := afterNode n member
    omega

theorem absorb_chain {node absorbed : Node} {tag : Nat}
    (small : tag < 2 ^ 64) (spread : Spread (front ++ node :: absorbed :: rest))
    (chain : Chain mem prev (front ++ node :: absorbed :: rest) 0) :
    Chain (join (mem.store64 node.addr tag) node.addr (entry rest 0)) prev
      (front ++ ⟨node.addr, tag⟩ :: rest) 0 := by
  obtain ⟨first, -, -, second⟩ := (chain.set_tag small spread).cut
  have fewer : Spread (front ++ ⟨node.addr, tag⟩ :: rest) := (spread.retag tag).sublist
    ((List.Sublist.refl _).append ((List.sublist_cons_self _ _).cons_cons _))
  exact join_chain fewer first second

theorem join_outside (out : Outside (front ++ node :: rest) a) :
    join mem node.addr (entry rest 0) a = mem a := by
  have ne := out node (by simp)
  unfold join
  cases rest with
  | nil => exact mem.store64_outside (by omega)
  | cons y rest =>
    have restApart := out y (by simp)
    split
    · rw [Memory.store64_outside _ (by simp only [entry_cons]; omega),
        Memory.store64_outside _ (by omega)]
    · exact mem.store64_outside (by omega)

theorem retag_join_outside {tag a : Nat} (out : Outside (front ++ node :: rest) a) :
    join (mem.store64 node.addr tag) node.addr (entry rest 0) a = mem a :=
  (join_outside out).trans (mem.store64_outside (by have := out node (by simp); omega))

theorem absorb_outside {node absorbed : Node} {tag a : Nat}
    (out : Outside (front ++ node :: absorbed :: rest) a) :
    join (mem.store64 node.addr tag) node.addr (entry rest 0) a = mem a :=
  retag_join_outside (out.mono
    ((List.Sublist.refl front).append ((List.sublist_cons_self _ _).cons_cons node)).subset)

def draft (mem : Memory) (node : Node) (prev next : Nat) : Memory :=
  ((mem.store64 node.addr node.tag).store64 (node.addr + 8) next).store64 (node.addr + 16) prev

variable (mem) in
theorem draft_eq (node : Node) (prev next : Nat) :
    ((mem.store64 node.addr node.tag).store64 (node.addr + 16) prev).store64 (node.addr + 8) next =
      draft mem node prev next :=
  Memory.store64_comm _ (.inr (by omega))

theorem draft_chain {next : Nat} (tagSmall : node.tag < 2 ^ 64)
    (prevSmall : prev < 2 ^ 64) (nextSmall : next < 2 ^ 64) :
    Chain (draft mem node prev next) prev [node] next := by
  refine ⟨⟨?_, ?_, ?_⟩, trivial⟩
  · rw [draft, Memory.load64_store64_apart _ (by omega),
      Memory.load64_store64_apart _ (by omega), Memory.load64_store64_same _ tagSmall]
  · rw [draft, Memory.load64_store64_apart _ (by omega), Memory.load64_store64_same _ nextSmall]
    rfl
  · exact Memory.load64_store64_same _ prevSmall

theorem draft_outside {p n : Nat}
    (out : a < node.addr ∨ node.addr + 24 ≤ a) : draft mem node p n a = mem a := by
  rw [draft, Memory.store64_outside _ (by omega), Memory.store64_outside _ (by omega),
    Memory.store64_outside _ (by omega)]

theorem set_entry_prev {fresh : Node} {cur other : Nat}
    (spread : Spread (fresh :: rest)) (below : ∀ n ∈ front, n.addr + 24 ≤ fresh.addr)
    (first : Chain mem prev front exit) (middle : Chain mem cur [fresh] (entry rest 0))
    (second : Chain mem other rest 0) :
    let linked := if entry rest 0 ≠ 0 then mem.store64 (entry rest 0 + 16) fresh.addr else mem
    Chain linked prev front exit ∧ Chain linked cur [fresh] (entry rest 0) ∧
      Chain linked fresh.addr rest 0 := by
  cases rest with
  | nil => exact ⟨first, middle, trivial⟩
  | cons y rest =>
    have reached : y.addr ≠ 0 := Nat.ne_of_gt (spread.nonzero y (by simp))
    have above : fresh.addr + 24 ≤ y.addr := spread.after List.mem_cons_self
    simp only [entry_cons, reached, ne_eq, not_false_eq_true, if_true]
    refine ⟨first.store_outside fun n member => .inr ?_,
      middle.store_outside fun n member => .inr ?_,
      second.set_prev (spread.bounded fresh List.mem_cons_self) spread.tail⟩
    · have := below n member
      omega
    · rw [List.mem_singleton.mp member]
      omega

def insert (mem : Memory) (cur : Nat) (node : Node) (rest : Nat) : Memory :=
  let mem := draft mem node cur rest
  let mem := if rest ≠ 0 then mem.store64 (rest + 16) node.addr else mem
  mem.store64 (cur + 8) node.addr

theorem insert_chain {node fresh : Node} {other : Nat}
    (spread : Spread (front ++ node :: fresh :: rest)) (small : fresh.tag < 2 ^ 64)
    (first : Chain mem prev (front ++ [node]) exit) (second : Chain mem other rest 0) :
    Chain (insert mem node.addr fresh (entry rest 0)) prev (front ++ node :: fresh :: rest) 0 := by
  have whole : front ++ node :: fresh :: rest = (front ++ [node]) ++ fresh :: rest := by simp
  rw [whole] at spread ⊢
  have below : ∀ n ∈ front ++ [node], n.addr + 24 ≤ fresh.addr := fun n => spread.before
  have above : ∀ n ∈ rest, fresh.addr + 24 ≤ n.addr := fun n => spread.right.after
  have nodeBelow : node.addr + 24 ≤ fresh.addr := below node (by simp)
  have nodeSmall : node.addr < 2 ^ 64 := spread.left.bounded node (by simp)
  have freshSmall : fresh.addr < 2 ^ 64 := spread.right.bounded fresh (by simp)
  have spreadRest : Spread rest := spread.right.tail
  -- the new node's words touch neither stretch
  have drafted : Chain (draft mem fresh node.addr (entry rest 0)) node.addr [fresh]
      (entry rest 0) := draft_chain small nodeSmall spreadRest.entry_lt
  have first : Chain (draft mem fresh node.addr (entry rest 0)) prev (front ++ [node]) exit :=
    first.congr fun n member a _ _ => draft_outside (.inl (by have := below n member; omega))
  have second : Chain (draft mem fresh node.addr (entry rest 0)) other rest 0 :=
    second.congr fun n member a _ _ => draft_outside (.inr (by have := above n member; omega))
  unfold insert
  generalize draft mem fresh node.addr (entry rest 0) = mem at drafted first second ⊢
  obtain ⟨first, drafted, second⟩ :=
    set_entry_prev spread.right (fun n member => (spread.before member)) first drafted second
  refine append_iff.mpr ⟨first.set_next freshSmall spread.left, ?_⟩
  rw [final_append, final_cons, final_nil]
  change Chain _ _ ([fresh] ++ rest) 0
  refine append_iff.mpr ⟨drafted.store_outside ?_, second.store_outside ?_⟩
  · intro n member
    rw [List.mem_singleton.mp member]
    exact .inl (by omega)
  · intro n member
    exact .inl (by have := above n member; omega)

theorem insert_outside {node fresh : Node} (out : Outside (front ++ node :: fresh :: rest) a) :
    insert mem node.addr fresh (entry rest 0) a = mem a := by
  have nodeApart := out node (by simp)
  have freshApart := out fresh (by simp)
  unfold insert
  rw [Memory.store64_outside _ (by omega)]
  cases rest with
  | nil => exact draft_outside freshApart
  | cons y rest =>
    have restApart := out y (by simp)
    split
    · rw [Memory.store64_outside _ (by simp only [entry_cons]; omega), draft_outside freshApart]
    · exact draft_outside freshApart

end Chain

end K1K.Lib
