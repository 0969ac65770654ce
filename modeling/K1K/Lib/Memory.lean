import Mathlib

/-!
# Byte-addressed memory

Memory is a function from addresses to bytes; reading after a write is described byte by byte. A
64-bit word is eight bytes, least significant first.
-/

namespace K1K.Lib

abbrev Byte : Type := BitVec 8

abbrev Memory : Type := Nat → Byte

namespace Memory

def write (mem : Memory) (addr : Nat) : List Byte → Memory
  | [] => mem
  | byte :: rest => write (Function.update mem addr byte) (addr + 1) rest

def read (mem : Memory) (addr count : Nat) : List Byte :=
  (List.range count).map fun i => mem (addr + i)

variable (mem : Memory)

@[simp] theorem length_read (addr count : Nat) : (mem.read addr count).length = count := by
  simp [read]

@[simp] theorem write_nil (addr : Nat) : mem.write addr [] = mem := rfl

theorem write_apply (bytes : List Byte) (addr a : Nat) :
    mem.write addr bytes a = if addr ≤ a then bytes.getD (a - addr) (mem a) else mem a := by
  induction bytes generalizing mem addr with
  | nil => simp
  | cons byte rest ih =>
    rw [write, ih]
    rcases Nat.lt_trichotomy a addr with lt | rfl | after
    · have ne : a ≠ addr := Nat.ne_of_lt lt
      simp [Nat.not_le.mpr lt, Nat.not_le.mpr (Nat.lt_succ_of_lt lt), ne]
    · simp
    have ne : a ≠ addr := Nat.ne_of_gt after
    obtain ⟨k, rfl⟩ := Nat.exists_eq_add_of_lt after
    have shift : addr + k + 1 - (addr + 1) = k := by omega
    have count : addr + k + 1 - addr = k + 1 := by omega
    have reached : addr + 1 ≤ addr + k + 1 := by omega
    simp [reached, Nat.le_of_lt after, ne, shift, count]

theorem write_outside {bytes : List Byte} {addr a : Nat}
    (out : a < addr ∨ addr + bytes.length ≤ a) : mem.write addr bytes a = mem a := by
  rw [write_apply]
  rcases out with was | after
  · rw [if_neg (Nat.not_le.mpr was)]
  · rw [if_pos (Nat.le_trans (Nat.le_add_right _ _) after), List.getD_eq_default]
    omega

theorem write_read {src dst count i : Nat} (lt : i < count) :
    mem.write dst (mem.read src count) (dst + i) = mem (src + i) := by
  rw [write_apply, if_pos (Nat.le_add_right dst i), Nat.add_sub_cancel_left, read,
    List.getD_eq_getElem _ _ (by simpa using lt)]
  simp

/-! ## 64-bit words -/

@[irreducible] def load64 (mem : Memory) (addr : Nat) : Nat :=
  (List.range 8).foldr (fun i above => (mem (addr + i)).toNat + 256 * above) 0

@[irreducible] def store64 (mem : Memory) (addr value : Nat) : Memory := fun a =>
  if addr ≤ a ∧ a < addr + 8 then BitVec.ofNat 8 (value / 256 ^ (a - addr)) else mem a

theorem store64_outside {addr value a : Nat} (out : a < addr ∨ addr + 8 ≤ a) :
    mem.store64 addr value a = mem a := by
  rw [store64, if_neg (by omega)]

theorem store64_inside {addr value i : Nat} (lt : i < 8) :
    (mem.store64 addr value (addr + i)).toNat = value / 256 ^ i % 256 := by
  have reached : addr ≤ addr + i ∧ addr + i < addr + 8 := by omega
  simp [store64, reached]

theorem load64_eq (addr : Nat) :
    mem.load64 addr = (mem addr).toNat + 256 * ((mem (addr + 1)).toNat +
      256 * ((mem (addr + 2)).toNat + 256 * ((mem (addr + 3)).toNat +
      256 * ((mem (addr + 4)).toNat + 256 * ((mem (addr + 5)).toNat +
      256 * ((mem (addr + 6)).toNat + 256 * (mem (addr + 7)).toNat)))))) := by
  simp [load64, List.range_succ]

theorem load64_congr {mem other : Memory} {addr : Nat}
    (agree : ∀ a, addr ≤ a → a < addr + 8 → mem a = other a) :
    mem.load64 addr = other.load64 addr := by
  have digit : ∀ i, i < 8 → mem (addr + i) = other (addr + i) :=
    fun i lt => agree _ (by omega) (by omega)
  have base := digit 0 (by omega)
  rw [Nat.add_zero] at base
  rw [load64_eq, load64_eq, base, digit 1 (by omega), digit 2 (by omega), digit 3 (by omega),
    digit 4 (by omega), digit 5 (by omega), digit 6 (by omega), digit 7 (by omega)]

theorem load64_store64_same {addr value : Nat} (small : value < 2 ^ 64) :
    (mem.store64 addr value).load64 addr = value := by
  have digit : ∀ i, i < 8 → (mem.store64 addr value (addr + i)).toNat = value / 256 ^ i % 256 :=
    fun _ lt => mem.store64_inside lt
  have base := digit 0 (by omega)
  rw [Nat.add_zero] at base
  rw [load64_eq, base, digit 1 (by omega), digit 2 (by omega), digit 3 (by omega),
    digit 4 (by omega), digit 5 (by omega), digit 6 (by omega), digit 7 (by omega)]
  omega

theorem load64_store64_apart {addr value other : Nat}
    (far : addr + 8 ≤ other ∨ other + 8 ≤ addr) :
    (mem.store64 addr value).load64 other = mem.load64 other :=
  load64_congr fun _ _ _ => mem.store64_outside (by omega)

theorem store64_comm {addr value other word : Nat} (far : addr + 8 ≤ other ∨ other + 8 ≤ addr) :
    (mem.store64 addr value).store64 other word = (mem.store64 other word).store64 addr value := by
  funext a
  by_cases lt : addr ≤ a ∧ a < addr + 8
  · have out : ¬(other ≤ a ∧ a < other + 8) := by omega
    simp only [store64, if_pos lt, if_neg out]
  · simp only [store64, if_neg lt]

end Memory

end K1K.Lib
