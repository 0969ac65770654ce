import K1K.Allocator.Contract

/-!
# The peak of the bytes in use

`alloc` raises `peak` with `in_use`. A `realloc` in place raises `in_use` alone, and one that
moves a payload raises `peak` while the old block is still counted.
-/

namespace K1K.Allocator

open K1K.Lib

section Accounts

variable {S : Type} {h : Heap S}

def Accounts (h after : Heap S) : Prop := after.peak = max h.peak after.inUse

theorem Accounts.of_le {after : Heap S} (sound : h.inUse ≤ h.peak) (peak : after.peak = h.peak)
    (inUse : after.inUse ≤ h.inUse) : Accounts h after := by
  unfold Accounts
  omega

theorem allocWithin_accounts [Supply S] {rounds size align ptr : Nat} {after : Heap S}
    (sound : h.inUse ≤ h.peak)
    (gave : Heap.allocWithin rounds h size align = some (ptr, after)) : Accounts h after := by
  induction rounds generalizing h size align with
  | zero => cases gave
  | succ rounds ih =>
    rcases allocWithin_round gave with round | ⟨grown, round, later⟩
    · cases round with
      | misaligned | nothing => exact .of_le sound rfl le_rfl
      | found => exact rfl
      | refused _ _ added =>
        obtain ⟨-, inUse, peak⟩ := addRegion_frame added
        exact .of_le sound peak inUse.le
    · cases round with
      | grown _ _ added =>
        obtain ⟨-, inUse, peak⟩ := addRegion_frame added
        have inUse : grown.inUse = h.inUse := inUse
        have peak : grown.peak = h.peak := peak
        have accounts : after.peak = max grown.peak after.inUse :=
          ih (by omega) later
        exact accounts.trans (by rw [peak])

theorem dealloc_accounts (sound : h.inUse ≤ h.peak) (ptr : Nat) : Accounts h (h.dealloc ptr) := by
  unfold Heap.dealloc
  split
  · exact .of_le sound rfl le_rfl
  · exact .of_le sound rfl (Nat.sub_le _ _)

def Heap.Holds (h : Heap S) (ptr newSize : Nat) : Prop :=
  newSize = 0 ∨ alignUp (ptr - headerOf h.mem ptr + max newSize 1) ALIGN ≤
    blockSize h.mem (headerOf h.mem ptr)

instance (ptr newSize : Nat) : Decidable (h.Holds ptr newSize) :=
  inferInstanceAs (Decidable (_ ∨ _))

theorem realloc_accounts [Supply S] {ptr oldSize align newSize res : Nat} {after : Heap S}
    (sound : h.inUse ≤ h.peak) (holds : h.Holds ptr newSize)
    (gave : h.realloc ptr oldSize align newSize = some (res, after)) : Accounts h after := by
  unfold Heap.realloc at gave
  by_cases empty : newSize = 0
  · rw [if_pos empty] at gave
    cases gave
    exact dealloc_accounts sound ptr
  have fits := holds.resolve_left empty
  simp only [if_neg empty, if_pos fits] at gave
  cases gave
  exact .of_le sound rfl (Nat.sub_le _ _)

end Accounts

namespace System

variable {S : Type} [Supply S]

def Modest (s : System S) : Op → Prop
  | .realloc ptr _ new => s.heap.Holds ptr new.size
  | _ => True

instance modestDecidable (s : System S) (op : Op) : Decidable (s.Modest op) :=
  match op with
  | .realloc ptr _ new => inferInstanceAs (Decidable (s.heap.Holds ptr new.size))
  | .addRegion _ => .isTrue trivial
  | .reserveSupply _ => .isTrue trivial
  | .alloc _ => .isTrue trivial
  | .dealloc _ => .isTrue trivial
  | .write _ _ _ => .isTrue trivial

theorem step_accounts {s t : System S} {op : Op} (sound : s.heap.inUse ≤ s.heap.peak)
    (modest : s.Modest op) (ran : s.step op = some t) : Accounts s.heap t.heap := by
  cases op with
  | addRegion region =>
    obtain ⟨⟨accepted, grown⟩, added, rfl⟩ := Option.map_eq_some_iff.mp ran
    obtain ⟨-, inUse, peak⟩ := addRegion_frame added
    exact .of_le sound peak inUse.le
  | reserveSupply | write =>
    cases ran
    exact .of_le sound rfl le_rfl
  | alloc layout =>
    obtain ⟨⟨ptr, after⟩, gave, rfl⟩ := Option.map_eq_some_iff.mp ran
    exact allocWithin_accounts sound gave
  | dealloc ptr =>
    cases ran
    exact dealloc_accounts sound ptr
  | realloc ptr layout new =>
    obtain ⟨⟨res, after⟩, gave, rfl⟩ := Option.map_eq_some_iff.mp ran
    exact realloc_accounts sound modest gave

end System

/-! ## Every run -/

structure Watched (S : Type) where
  system : System S
  seen : List Nat

namespace Watched

variable {S : Type} [Supply S]

def new (mem : Memory) (supply : S) : Watched S := ⟨.new mem supply, []⟩

def step (w : Watched S) (op : Op) : Option (Watched S) :=
  (w.system.step op).map fun t => ⟨t, t.heap.inUse :: w.seen⟩

def most (w : Watched S) : Nat := w.seen.foldr max 0

structure Sound (w : Watched S) : Prop where
  below : w.system.heap.inUse ≤ w.system.heap.peak
  peak : w.system.heap.peak = w.most

theorem Sound.step {w v : Watched S} {op : Op} (sound : w.Sound) (modest : w.system.Modest op)
    (taken : w.step op = some v) : v.Sound := by
  obtain ⟨t, ran, rfl⟩ := Option.map_eq_some_iff.mp taken
  have accounts : t.heap.peak = max w.system.heap.peak t.heap.inUse :=
    System.step_accounts sound.below modest ran
  constructor
  · change t.heap.inUse ≤ t.heap.peak
    omega
  · rw [accounts, sound.peak, Nat.max_comm]
    rfl

/-- After every run in which no `realloc` outgrows its block, `peak` is the largest
value that `in_use` has had after an operation. -/
theorem peak_exact {mem : Memory} {supply : S} {ops : List Op} {w : Watched S}
    (run : Run (Guarded (fun w op => w.system.Modest op) fun w op v => w.step op = some v)
      (new mem supply) ops w) : w.system.heap.peak = w.most :=
  (run.invariant Sound ⟨le_rfl, rfl⟩ fun _ _ _ sound taken => sound.step taken.1 taken.2).peak

theorem peak_of_two : ∃ w : Watched Fixed,
    Run (Guarded (fun w op => w.system.Modest op) fun w op v => w.step op = some v)
      (new (fun _ => 0) .fixed)
      [.addRegion ⟨4096, 1024⟩, .alloc ⟨200, 8, by decide, by decide⟩,
        .alloc ⟨16, 8, by decide, by decide⟩, .dealloc 4384,
        .realloc 4128 ⟨200, 8, by decide, by decide⟩ ⟨20, 8, by decide, by decide⟩] w ∧
      w.system.heap.inUse = 64 ∧ w.most = 320 ∧ w.system.heap.peak = w.most := by
  refine exists_guarded_of_replay (fun w => w.system.heap.inUse = 64 ∧ w.most = 320)
    (by decide +kernel) ?_
  rintro w run ⟨inUse, most⟩
  exact ⟨inUse, most, peak_exact run⟩

/-- A payload that grows where it is leaves the peak behind; one that moves is counted
twice in it. -/
theorem peak_wrong :
    (∃ w : Watched Fixed, Run (fun w op v => w.step op = some v) (new (fun _ => 0) .fixed)
      [.addRegion ⟨4096, 1024⟩, .alloc ⟨16, 8, by decide, by decide⟩,
        .realloc 4128 ⟨16, 8, by decide, by decide⟩ ⟨100, 8, by decide, by decide⟩] w ∧
      w.seen = [144, 64, 0] ∧ w.system.heap.peak = 64) ∧
    ∃ w : Watched Fixed, Run (fun w op v => w.step op = some v) (new (fun _ => 0) .fixed)
      [.addRegion ⟨4096, 1024⟩, .alloc ⟨16, 8, by decide, by decide⟩,
        .alloc ⟨16, 8, by decide, by decide⟩,
        .realloc 4128 ⟨16, 8, by decide, by decide⟩ ⟨100, 8, by decide, by decide⟩] w ∧
      w.seen = [224, 128, 64, 0] ∧ w.system.heap.peak = 288 := by
  constructor
  · exact exists_of_replay _ (by decide +kernel) fun _ _ facts => facts
  · exact exists_of_replay _ (by decide +kernel) fun _ _ facts => facts

end Watched

end K1K.Allocator
